import Flowgraph.Event

/-!
# The catalog of event types

The names under which node fields select event types, with the keys they stand for.
-/

namespace Flowgraph

/-- The event keys that can be selected, by name. -/
abbrev Catalog := StringMap EventKey

namespace Catalog

/-- The catalog of the sample events: each type under its own name, the phases of the server each
under a name of its own. -/
def sample : Catalog :=
  StringMap.ofList [
    ("PlayerJoin", .ofType "PlayerJoin"),
    ("PlayerChat", .ofType "PlayerChat"),
    ("ServerStarted", (Event.server .started).key),
    ("ServerStopping", (Event.server .stopping).key)]

end Catalog

end Flowgraph
