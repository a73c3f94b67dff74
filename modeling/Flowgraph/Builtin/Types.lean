import Flowgraph.Builtin.Chat
import Flowgraph.Builtin.EventListener
import Flowgraph.Builtin.Interval
import Flowgraph.Builtin.MathRandom
import Flowgraph.Builtin.Wait

/-!
# The built-in node types

All node types that come with the library, in the order in which they are registered.
-/

namespace Flowgraph.Builtin

/-- The built-in node types, with the sink that messages go to. -/
def nodeTypes (sink : Sink) : List (NodeType Behaviour) := [
  ⟨EventListener.metadata, some EventListener.behaviour⟩,
  ⟨Interval.metadata, some Interval.behaviour⟩,
  ⟨Wait.metadata, some Wait.behaviour⟩,
  ⟨MathRandom.metadata, some MathRandom.behaviour⟩,
  ⟨Chat.metadata, some (Chat.behaviour sink)⟩,
  ⟨Chat.whisperMetadata, some (Chat.whisperBehaviour sink)⟩]

end Flowgraph.Builtin
