import Flowgraph.Builtin.Types
import Flowgraph.Engine.Dice
import Flowgraph.Engine.Host
import Flowgraph.Engine.Palette

/-!
# The command line

Runs the graph of a data directory until the standard input ends, or prints the node types when it
is given `--palette`. Settings come from the file that an environment variable names, or else from
the environment.

Everything that is decided is decided in the library; here are the clock, the files and the log.
-/

namespace Flowgraph.CommandLine

/-- The variable that names the file of settings. -/
def configVar : String := "TRIPWIRE_CONFIG"

/-- How many steps a run may take before it is given up. -/
def fuel : Nat := 1000000000

/-- Prints a line of the log. -/
def report (line : LogLine) : IO Unit := IO.eprintln line.render

/-- The settings from the environment. -/
def environment : IO Config := do
  let names := [Config.dataDirVar, Config.workersVar, Config.maxHopsVar, Config.drainMillisVar]
  let pairs ← names.mapM fun name => return (name, ← IO.getEnv name)
  let (config, lines) := Config.ofEnvironment fun name => (pairs.lookup name).join
  lines.forM report
  return config

/-- The settings of the file that is named, or else of the environment. -/
def settings : IO Config := do
  let some path ← IO.getEnv configVar | environment
  let text ← try some <$> IO.FS.readFile path catch _ => pure none
  match text.bind Config.read? with
  | some config => return config
  | none =>
    report (.warning ("Failed to load " ++ path ++ ", using environment"))
    environment

/-! ### Files -/

/-- What a file holds, if it can be read. -/
def readFile (dir name : String) : IO (Option FileContent) := do
  try
    let bytes ← IO.FS.readBinFile (dir ++ "/" ++ name)
    return some (((String.fromUTF8? bytes).map .text).getD .binary)
  catch _ => return none

/-- The store of a directory, which is created if it is missing. -/
def openStore (dir : String) : IO Store := do
  IO.FS.createDirAll dir
  let files ← Store.fileNames.filterMapM fun name =>
    return (← readFile dir name).map (name, ·)
  return Store.ofDirectory (StringMap.ofList files)

/-- Writes the store back to its directory. -/
def saveStore (dir : String) (s : Store) : IO Unit :=
  s.files.entries.forM fun
    | (name, .text t) => IO.FS.writeFile (dir ++ "/" ++ name) t
    | (_, .binary) => pure ()

/-! ### Running -/

/-- Goes on with the engine of a run; a run that broke off or does not end is reported. -/
def settled {α : Type} (e : Engine) : Run α → IO Engine
  | .returned _ e => return e
  | .panicked e => do
    report (.error "A node broke off")
    return e
  | .diverged => do
    report (.error "A run was given up")
    return e

/-- Prints what the log has gained. -/
def flushLog (e : Engine) : IO Engine := do
  e.journal.log.forM report
  return { e with journal := [] }

/-- Runs what is due and the accepted jobs. -/
def turn (start : Nat) (e : Engine) : IO Engine := do
  let now := (← IO.monoMsNow) - start
  let e ← settled e (e.advance fuel (now - e.now))
  flushLog (← settled e (e.work fuel))

/-- Fires an event about the server. -/
def announce (phase : ServerPhase) (before : Bool) (e : Engine) : IO Engine := do
  flushLog (← settled e (Engine.call fuel (.fire (.server phase) before) e))

/-- Reads on until the input ends, and raises a flag then. -/
partial def awaitEnd (input : IO.FS.Stream) (ended : IO.Ref Bool) : IO Unit := do
  if (← input.getLine).isEmpty then ended.set true
  else awaitEnd input ended

/-- Keeps the engine going until a flag is raised. -/
partial def keepGoing (start : Nat) (ended : IO.Ref Bool) (e : Engine) : IO Engine := do
  let e ← turn start e
  if ← ended.get then return e
  IO.sleep 5
  keepGoing start ended e

/-- Loads the stored graph, keeps the engine going until the input ends, and shuts down. -/
def serve (config : Config) (e : Engine) : IO Unit := do
  let start ← IO.monoMsNow
  let result := Engine.call fuel .restore e
  if let .returned (.error err) _ := result then
    report (.error ("Failed to load workflow: " ++ err.message))
  let e ← flushLog (← settled e result)
  saveStore config.dataDir e.store
  let e ← announce .started false (← announce .started true e)
  let ended ← IO.mkRef false
  discard <| IO.asTask (awaitEnd (← IO.getStdin) ended)
  let e ← keepGoing start ended e
  let e ← announce .stopping true e
  discard <| flushLog (← settled e (e.shutdown fuel))

/-- The program: it reads the settings, makes an engine with the built-in types, and serves. -/
def run (args : List String) : IO UInt32 := do
  let config ← settings
  let (registry, refused) := Registry.registerAll ∅ (Builtin.nodeTypes .toLog)
  let seed := (← IO.rand 0 Decimal.maxNat64).toUInt64
  let made := Engine.create config registry .sample (← openStore config.dataDir) (some {}) none
    (Dice.uniform seed)
  match refused, made with
  | none, .ok e =>
    if args.contains "--palette" then
      IO.println (Json.array (e.palette.map NodeMetadata.toJson)).toPretty
    else
      serve config (← flushLog e)
    return 0
  | some err, _ =>
    report (.error err.message)
    return 1
  | _, .error err =>
    report (.error err.message)
    return 1

end Flowgraph.CommandLine

/-- The program. -/
def main (args : List String) : IO UInt32 := Flowgraph.CommandLine.run args
