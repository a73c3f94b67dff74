import Flowgraph.Json.Document
import Flowgraph.Json.Printer
import Flowgraph.Log

/-!
# Configuration

The settings of an engine. They come from defaults, over which values from the environment or from a
JSON file are laid. In the environment a hop limit of zero switches the guard off and a malformed
value is reported and passed over; in a file the guard is switched off by null, and anything of the
wrong form makes the whole file unreadable.

* `Config.ofEnvironment` reads the environment.
* `Config.read?` reads a file.
-/

namespace Flowgraph

/-- The settings of an engine. -/
structure Config where
  dataDir : String := "workflow"
  workers : Nat := 20
  /-- How many nodes a walk may enter; nothing is no limit. -/
  maxHops : Option Nat := some 1024
  /-- How long a shutdown waits for running jobs. -/
  drainMillis : Nat := 5000
deriving DecidableEq

namespace Config

/-! ### The environment -/

/-- The variable that overrides the directory of the store. -/
def dataDirVar : String := "TRIPWIRE_DATA_DIR"

/-- The variable that overrides the number of workers. -/
def workersVar : String := "TRIPWIRE_WORKER_POOL_SIZE"

/-- The variable that overrides the limit of hops. -/
def maxHopsVar : String := "TRIPWIRE_MAX_HOPS"

/-- The variable that overrides how long a shutdown waits for jobs. -/
def drainMillisVar : String := "TRIPWIRE_DRAIN_TIMEOUT_MS"

/-- A natural number up to a bound from a variable, blanks around it not counting; a malformed value
is reported. -/
def number? (lookup : String → Option String) (name : String) (high : Nat) :
    Option Nat × List LogLine :=
  match lookup name with
  | none => (none, [])
  | some raw =>
    match Decimal.readNat high (Text.trim raw.toList) with
    | some n => (some n, [])
    | none => (none, [.warning ("Ignoring malformed " ++ name ++ "='" ++ raw ++ "'")])

/-- The defaults with the variables of an environment laid over them. -/
def ofEnvironment (lookup : String → Option String) : Config × List LogLine :=
  let defaults : Config := {}
  let dir := (lookup dataDirVar).filter fun d => !Text.isBlankText d.toList
  let (workers, workersLog) := number? lookup workersVar Decimal.maxNat64
  let (hops, hopsLog) := number? lookup maxHopsVar Decimal.maxNat32
  let (drain, drainLog) := number? lookup drainMillisVar Decimal.maxNat64
  let zeroLog := if workers = some 0 then [.warning ("Ignoring " ++ workersVar ++ "=0")] else []
  ({ dataDir := dir.getD defaults.dataDir
     workers := (workers.filter (· ≠ 0)).getD defaults.workers
     maxHops := match hops with
       | none => defaults.maxHops
       | some n => if n = 0 then none else some n
     drainMillis := drain.getD defaults.drainMillis },
   workersLog ++ zeroLog ++ hopsLog ++ drainLog)

/-! ### Files -/

open Json (Document)

/-- The settings in a document. A member that is left out keeps its default. -/
def ofDocument? (d : Document) : Option Config :=
  match d.record? [["data_dir"], ["worker_pool_size"], ["max_hops"], ["drain_timeout_ms"]] with
  | some [dataDir, workers, maxHops, drain] => do
    let defaults : Config := {}
    let dataDir ← Document.orDefault Document.text? defaults.dataDir dataDir
    let workers ← Document.orDefault (Document.nat? Decimal.maxNat64) defaults.workers workers
    let maxHops ←
      Document.orDefault (Document.nullable? (Document.nat? Decimal.maxNat32)) defaults.maxHops
        maxHops
    let drain ← Document.orDefault (Document.nat? Decimal.maxNat64) defaults.drainMillis drain
    return { dataDir := dataDir, workers := workers, maxHops := maxHops, drainMillis := drain }
  | _ => none

/-- The settings in a text. -/
def read? (text : String) : Option Config := (Document.parse? text).bind ofDocument?

/-- The settings as they are written. -/
def toJson (c : Config) : Json :=
  .object [("data_dir", .text c.dataDir), ("worker_pool_size", Json.ofNat c.workers),
    ("max_hops", Json.ofOption Json.ofNat c.maxHops),
    ("drain_timeout_ms", Json.ofNat c.drainMillis)]

end Config

end Flowgraph
