import Flowgraph.Graph.Codec
import Flowgraph.Error

/-!
# The store

Where the graph and two blobs of free JSON are kept: three texts in a directory, or in memory. A
text that was never written is empty, and an empty text reads as the empty graph or the empty
object.

Whether a write to a directory succeeds is up to the directory: the store is given the outcomes of
its writes. In memory every write succeeds.

* `Store.ofDirectory` creates the texts that are missing from a directory.
* `Store.writeContext`, `Store.readContext`, `Store.writeBlob`, `Store.readBlob` are the accesses,
  and `Store.writeError?` is the answer to a write.
-/

namespace Flowgraph

/-- What a file holds: a text, or bytes that are none. -/
inductive FileContent where
  | text (s : String)
  | binary
deriving DecidableEq

/-- The blobs of free JSON. -/
inductive Blob where
  | data
  | state
deriving DecidableEq

/-- The file that holds a blob. -/
def Blob.fileName : Blob → String
  | .data => "workflow_data.json"
  | .state => "workflow_state.json"

/-- How a write to a file of a directory ends. One that fails leaves the file as it was, or with
something else in it. -/
inductive WriteOutcome where
  | written
  | failed (left : Option FileContent)

/-- Where a graph and the blobs are kept. -/
structure Store where
  /-- Whether the files are in a directory, where others may change them. -/
  onDisk : Bool
  files : StringMap FileContent
  /-- How writes to the directory end, by the number of writes before. -/
  outcomes : Nat → WriteOutcome := fun _ => .written
  /-- The number of writes so far. -/
  writes : Nat := 0

namespace Store

/-- The file that holds the graph. -/
def contextFile : String := "workflow.json"

/-- The files that a store uses. -/
def fileNames : List String := [contextFile, Blob.data.fileName, Blob.state.fileName]

/-- A store that keeps nothing beyond the life of the engine. -/
def inMemory : Store where
  onDisk := false
  files := ∅

/-- The store of a directory; files that are missing are created empty. -/
def ofDirectory (files : StringMap FileContent) : Store where
  onDisk := true
  files := fileNames.foldl
    (fun fs name => if fs.contains name then fs else fs.insert name (.text "")) files

/-- Reads a file. In memory a missing file is empty; in a directory it is an error. -/
def readFile (s : Store) (name : String) : Except WorkflowError String :=
  match s.files.get? name with
  | some (.text t) => .ok t
  | some .binary => .error .io
  | none => if s.onDisk then .error .io else .ok ""

/-- How the next write ends. -/
def outcome (s : Store) : WriteOutcome := if s.onDisk then s.outcomes s.writes else .written

/-- The answer to the next write, if it fails. -/
def writeError? (s : Store) : Option WorkflowError :=
  match s.outcome with
  | .written => none
  | .failed _ => some .io

/-- The store behind a write, whether it has succeeded or not. -/
def writeFile (s : Store) (name text : String) : Store :=
  { s with
    files := match s.outcome with
      | .written => s.files.insert name (.text text)
      | .failed none => s.files
      | .failed (some left) => s.files.insert name left
    writes := s.writes + 1 }

/-- Reads the stored graph. A text that is no graph is an error. -/
def readContext (s : Store) : Except WorkflowError Context :=
  match s.readFile contextFile with
  | .error e => .error e
  | .ok text =>
    match Context.read? text with
    | none => .error .serialization
    | some c => .ok c

/-- Writes a graph over the one before. -/
def writeContext (s : Store) (c : Context) : Store := s.writeFile contextFile c.toPretty

/-- Reads a blob. One that was never written is the empty object. -/
def readBlob (s : Store) (b : Blob) : Except WorkflowError Json :=
  match s.readFile b.fileName with
  | .error e => .error e
  | .ok text =>
    if Text.isBlankText text.toList then .ok (.object [])
    else match Json.parse? text with
      | none => .error .serialization
      | some j => .ok j

/-- Writes a blob over the one before. -/
def writeBlob (s : Store) (b : Blob) (j : Json) : Store := s.writeFile b.fileName j.toPretty

/-! ### Laws -/

/-- All writes succeed: those to memory do so anyway. -/
def Reliable (s : Store) : Prop := s.onDisk = true → ∀ n, s.outcomes n = .written

theorem reliable_inMemory : inMemory.Reliable := nofun

theorem writeError?_eq_none_iff {s : Store} : s.writeError? = none ↔ s.outcome = .written := by
  unfold writeError?
  cases s.outcome <;> simp

theorem Reliable.writeError? {s : Store} (h : s.Reliable) : s.writeError? = none := by
  rw [writeError?_eq_none_iff, outcome]
  split
  · next hdisk => exact h hdisk s.writes
  · rfl

theorem Reliable.writeFile {s : Store} (h : s.Reliable) (name text : String) :
    (s.writeFile name text).Reliable := h

/-- What was written is read. -/
theorem readFile_writeFile {s : Store} (h : s.writeError? = none) (name text : String) :
    (s.writeFile name text).readFile name = .ok text := by
  simp only [readFile, writeFile, writeError?_eq_none_iff.mp h, StringMap.get?_insert_self]

/-- A write leaves the other files alone, whether it succeeds or not. -/
theorem readFile_writeFile_of_ne (s : Store) {name name' : String} (h : name' ≠ name)
    (text : String) : (s.writeFile name text).readFile name' = s.readFile name' := by
  have hget : (s.writeFile name text).files.get? name' = s.files.get? name' := by
    unfold writeFile
    dsimp only
    split
    · exact StringMap.get?_insert_of_ne _ _ h
    · rfl
    · exact StringMap.get?_insert_of_ne _ _ h
  rw [readFile, hget]
  rfl

end Store

end Flowgraph
