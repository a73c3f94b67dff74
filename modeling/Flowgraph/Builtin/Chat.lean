import Flowgraph.Engine.Program

/-!
# Chat messages

Two actions that send a text, to everyone or to one player. The text is handed to a *sink* by a job
of the worker pool. The walk does not wait for the job, and if the job is refused the message is
reported and lost.
-/

namespace Flowgraph.Builtin

/-- Where messages go. -/
structure Sink where
  broadcast (message : String) : Program
  whisper (player message : String) : Program

/-- The sink that writes messages to the log. -/
def Sink.toLog : Sink where
  broadcast message := .log (.info ("[chat] " ++ message)) .done
  whisper player message := .log (.info ("[chat -> " ++ player ++ "] " ++ message)) .done

namespace Chat

/-- The field that reads the message. -/
def messageField : String := "message"

/-- The field that reads whom the message is for. -/
def playerField : String := "player"

/-- The field for the text, as both node types have it. -/
def messageSpec : Field where
  name := messageField
  consumer := some { kind := .string, default := some "Hello" }

/-- Both types have one output. -/
def outputs : List OutputSpec := [⟨"Next", "After the message is queued"⟩]

/-- The description of the type that speaks to all. -/
def metadata : NodeMetadata where
  name := "SendChat"
  group := .action
  color := .lime
  fields := [messageSpec]
  outputs := outputs

/-- The description of the type that speaks to one player. -/
def whisperMetadata : NodeMetadata where
  name := "SendChatToPlayer"
  group := .action
  color := .lime
  fields := [{ name := playerField, consumer := some { kind := .string } }, messageSpec]
  outputs := outputs

/-- The walk goes on through the only output. -/
def leave (n : NodeInstance) (w : Walk) : Program :=
  .attempt n.next fun next => .finish w.vars next

/-- What is reported when no worker takes the message. -/
def droppedLog (n : NodeInstance) (e : SchedulingError) : LogLine :=
  .warning (n.nodeType ++ " '" ++ n.id ++ "' dropped a message: " ++ e.message)

/-- Hands a job to the worker pool, and leaves the node in any case. -/
def dispatch (n : NodeInstance) (w : Walk) (job : Program) : Program :=
  .submit job fun
    | .ok () => leave n w
    | .error e => .log (droppedLog n e) (leave n w)

/-- Reads the message, hands it to the workers, and goes on. -/
def execute (sink : Sink) (n : NodeInstance) (w : Walk) : Program :=
  .attempt (n.readString messageField w.vars) fun message =>
  dispatch n w (sink.broadcast message)

/-- What is reported when there is nobody to speak to. -/
def nobodyLog (n : NodeInstance) : LogLine :=
  .warning ("SendChatToPlayer '" ++ n.id ++ "' resolved no player, skipping")

/-- Sends to one player; a blank name is no player. -/
def executeWhisper (sink : Sink) (n : NodeInstance) (w : Walk) : Program :=
  .attempt (n.readString playerField w.vars) fun player =>
  .attempt (n.readString messageField w.vars) fun message =>
  if Text.isBlankText player.toList then .log (nobodyLog n) (leave n w)
  else dispatch n w (sink.whisper player message)

/-- A node that speaks to all. -/
def behaviour (sink : Sink) : Behaviour where
  execute := execute sink

/-- A node that speaks to one player. -/
def whisperBehaviour (sink : Sink) : Behaviour where
  execute := executeWhisper sink

end Chat

end Flowgraph.Builtin
