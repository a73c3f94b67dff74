import Flowgraph.Json.Printer

/-!
# Events

What happens in the host, and the key under which listeners wait for it. A key names a type of
event, or one variant of a type whose variants are told apart.
-/

namespace Flowgraph

/-- The key that an event is delivered under. -/
structure EventKey where
  typeName : String
  variant : Option String
deriving DecidableEq, Inhabited

namespace EventKey

/-- The key of all events of a type. -/
def ofType (typeName : String) : EventKey := ⟨typeName, none⟩

/-- The text of a key: its type, and its variant behind two colons. -/
def text (k : EventKey) : String :=
  match k.variant with
  | none => k.typeName
  | some v => k.typeName ++ "::" ++ v

end EventKey

/-- What the server goes through. -/
inductive ServerPhase where
  | started
  | stopping
deriving DecidableEq

/-- The name of a phase. -/
def ServerPhase.name : ServerPhase → String
  | .started => "Started"
  | .stopping => "Stopping"

/-- An occurrence in the host. -/
inductive Event where
  | playerJoin (name : String)
  | playerChat (name message : String)
  /-- The server starts or stops; each phase has a key of its own. -/
  | server (phase : ServerPhase)
  /-- An occurrence described by JSON data. -/
  | described (variant : Option String) (data : Json)

namespace Event

/-- The name of an event's type. -/
def typeName : Event → String
  | .playerJoin _ => "PlayerJoin"
  | .playerChat _ _ => "PlayerChat"
  | .server _ => "ServerEvent"
  | .described _ _ => "Json"

/-- The key that an event is delivered under. -/
def key : Event → EventKey
  | .server phase => ⟨"ServerEvent", some phase.name⟩
  | .described variant _ => ⟨"Json", variant⟩
  | e => EventKey.ofType e.typeName

/-- The text of an event when it is interpolated as a whole. -/
def text : Event → String
  | .playerJoin name => "PlayerJoin \x7b name: " ++ Text.quoted name ++ " \x7d"
  | .playerChat name message =>
    "PlayerChat \x7b name: " ++ Text.quoted name ++ ", message: " ++ Text.quoted message ++ " \x7d"
  | .server phase => phase.name
  | .described _ data => data.toCompact

@[simp] theorem typeName_key (e : Event) : e.key.typeName = e.typeName := by
  cases e <;> rfl

end Event

end Flowgraph
