import Flowgraph.Proofs.Json.RoundTrip
import Flowgraph.Store

/-!
# Stored contexts

A context is written as a value without numbers, so its text is read back as the document of that
value, and every record in it as what it was written for. Maps are written in the order of their
keys, which reading keeps.

The variable of a field goes by two names: the one it is written under, and a former one. A text may
have the former name in some places and not in others. So the proofs are about a context that is
written with a choice for every place, and what is stored is the one that has it nowhere.

* `Context.toJsonAs` — a context with the former name in the places that one likes.
* `Context.read?_toPretty` — a context is read back from its text.
* `Store.readContext_writeContext` — and so from the store.
* `Context.read?_under_either_name` — and so from every text that has the former name in it.
-/

namespace Flowgraph

/-- A map is made of its entries again. -/
theorem StringMap.ofList_entries {α : Type} (m : StringMap α) : ofList m.entries = m :=
  ext (Entries.ofList_of_ascending m.ascending)

/-- What is read back one by one is read back as a list, also if it was written with regard to its
position. -/
theorem mapM_mapIdx {α β : Type} {write : Nat → α → β} {read : β → Option α}
    (h : ∀ i a, read (write i a) = some a) (as : List α) :
    (as.mapIdx write).mapM read = some as := by
  induction as generalizing write with
  | nil => rfl
  | cons a as ih =>
    rw [List.mapIdx_cons, List.mapM_cons, h, ih fun i => h (i + 1)]
    rfl

theorem mapIdx_const {α β : Type} (f : α → β) (as : List α) :
    (as.mapIdx fun _ => f) = as.map f :=
  List.mapIdx_eq_iff.mpr fun _ => List.getElem?_map

/-- What is written item by item is read item by item. -/
theorem mapM_map {α β : Type} {write : α → β} {read : β → Option α}
    (h : ∀ a, read (write a) = some a) (as : List α) : (as.map write).mapM read = some as := by
  rw [← mapIdx_const, mapM_mapIdx fun _ => h]

/-! ### Writing under either name -/

/-- Which variables are written under the former name: each has the position of its node and the
name of its field. -/
abbrev Places := Nat → String → Bool

/-- The two names of a field's variable. -/
def FieldState.variableKey (former : Bool) : String := if former then "variableName" else "producer"

/-- What is stored of a field, with the former name of the variable where it is asked for. -/
def FieldState.toJsonAs (former : Bool) (s : FieldState) : Json :=
  .object [("consumer", Json.ofText? s.consumer), (variableKey former, Json.ofText? s.producer)]

/-- What is stored of a node's members, with the former names of the variables of some fields. -/
def NodeState.toJsonAs (former : String → Bool) (s : NodeState) : Json :=
  .object [
    ("outputs", .object (s.outputs.entries.map fun (k, v) => (k, Json.ofText? v))),
    ("fields", .object (s.fields.entries.map fun (k, v) => (k, v.toJsonAs (former k))))]

/-- An entry of a graph, with the former names of the variables of some fields. -/
def NodeEntry.toJsonAs (former : String → Bool) (n : NodeEntry) : Json :=
  .object [("id", .text n.id), ("name", .text n.name), ("state", n.state.toJsonAs former)]

/-- A context, with the former name in the given places and in no others. -/
def Context.toJsonAs (former : Places) (c : Context) : Json :=
  .object [("nodes", .array (c.nodes.mapIdx fun i n => n.toJsonAs (former i)))]

/-- The text of a graph, with the former names of the variables at some places. -/
def Context.toPrettyAs (former : Places) (c : Context) : String := (c.toJsonAs former).toPretty

/-- What is stored has the former name nowhere. -/
theorem Context.toJsonAs_nowhere (c : Context) : c.toJsonAs (fun _ _ => false) = c.toJson := by
  rw [toJsonAs, mapIdx_const]
  rfl

/-! ### Reading -/

namespace Json

open Document

variable (num : Number → Numeral) {α : Type} {read : Document → Option α}

/-- What is written as an array is read. -/
theorem list?_document {write : Nat → α → Json}
    (h : ∀ i a, read ((write i a).document num) = some a) (as : List α) :
    list? read ((Json.array (as.mapIdx write)).document num) = some as := by
  rw [document, itemDocuments_eq, list?, ← mapIdx_const, List.mapIdx_mapIdx]
  exact mapM_mapIdx h as

/-- What is written as an object is read. -/
theorem map?_document {write : String → α → Json}
    (h : ∀ k a, read ((write k a).document num) = some a) (m : StringMap α) :
    map? read ((Json.object (m.entries.map fun (k, v) => (k, write k v))).document num) =
      some m := by
  rw [document, memberDocuments_eq, map?, List.map_map, mapM_map]
  · exact congrArg some m.ofList_entries
  · rintro ⟨k, v⟩
    show (read ((write k v).document num)).bind _ = _
    rw [h]
    rfl

/-- A text that may be absent is read as it was written. -/
theorem nullable?_document (s : Option String) :
    nullable? text? ((Json.ofText? s).document num) = some s := by
  cases s <;> rfl

end Json

open Json (Document)

variable (num : Json.Number → Json.Numeral)

/-- The record of a field's state is read under either name of its variable. -/
theorem FieldState.ofDocument?_toJsonAs (former : Bool) (s : FieldState) :
    ofDocument? ((s.toJsonAs former).document num) = some s := by
  obtain ⟨consumer, producer⟩ := s
  cases former <;> cases consumer <;> cases producer <;> rfl

/-- What is stored of a node's members is read under either name. -/
theorem NodeState.ofDocument?_toJsonAs (former : String → Bool) (s : NodeState) :
    ofDocument? ((s.toJsonAs former).document num) = some s := by
  have houtputs := Json.map?_document num (fun _ => Json.nullable?_document num) s.outputs
  have hfields := Json.map?_document num
    (fun k => FieldState.ofDocument?_toJsonAs num (former k)) s.fields
  have hrecord : ((s.toJsonAs former).document num).record? [["outputs"], ["fields"]] =
      some [some _, some _] := rfl
  rw [ofDocument?, hrecord]
  dsimp only [Document.orDefault]
  rw [houtputs]
  rw [hfields]
  rfl

/-- An entry is read under either name. -/
theorem NodeEntry.ofDocument?_toJsonAs (former : String → Bool) (n : NodeEntry) :
    ofDocument? ((n.toJsonAs former).document num) = some n := by
  have hstate := NodeState.ofDocument?_toJsonAs num former n.state
  have hrecord : ((n.toJsonAs former).document num).record? [["id"], ["name"], ["state"]] =
      some [some _, some _, some _] := rfl
  rw [ofDocument?, hrecord]
  dsimp only [Document.orDefault]
  rw [hstate]
  rfl

/-- A graph is read under either name. -/
theorem Context.ofDocument?_toJsonAs (former : Places) (c : Context) :
    ofDocument? ((c.toJsonAs former).document num) = some c := by
  have hnodes := Json.list?_document num
    (fun i => NodeEntry.ofDocument?_toJsonAs num (former i)) c.nodes
  have hrecord : ((c.toJsonAs former).document num).record? [["nodes"]] = some [some _] := rfl
  rw [ofDocument?, hrecord]
  dsimp only [Document.orDefault]
  rw [hnodes]
  rfl

/-- There are no numbers in a context. -/
theorem Context.eachNumber_toJsonAs (P : Json.Number → Prop) (former : Places) (c : Context) :
    (c.toJsonAs former).EachNumber P := by
  -- only text and flags are written, and neither holds a number
  have htext : ∀ s, (Json.ofText? s).EachNumber P := by
    intro s
    cases s <;> trivial
  have hstate : ∀ (former : String → Bool) (s : NodeState), (s.toJsonAs former).EachNumber P := by
    intro former s
    refine ⟨Json.eachNumberOfMembers_iff.mpr ?_, Json.eachNumberOfMembers_iff.mpr ?_, trivial⟩
    · intro m hm
      obtain ⟨e, -, rfl⟩ := List.mem_map.mp hm
      exact htext e.2
    · intro m hm
      obtain ⟨e, -, rfl⟩ := List.mem_map.mp hm
      exact ⟨htext e.2.consumer, htext e.2.producer, trivial⟩
  refine ⟨Json.eachNumberOfItems_iff.mpr fun item hitem => ?_, trivial⟩
  obtain ⟨i, hi, rfl⟩ := List.mem_mapIdx.mp hitem
  exact ⟨trivial, trivial, hstate (former i) _, trivial⟩

/-- **A context is read back from its text, whichever names are in it.** -/
theorem Context.read?_toPrettyAs (former : Places) (c : Context) :
    read? (c.toPrettyAs former) = some c := by
  -- the text begins with a brace, so it does not stand for the empty graph
  have hblank : ¬ Text.isBlankText (c.toPrettyAs former).toList = true := by
    have hhead : ∃ cs, (c.toPrettyAs former).toList = '\x7b' :: cs := by
      rw [toPrettyAs, Json.toPretty, String.toList_ofList]
      exact ⟨_, rfl⟩
    obtain ⟨cs, hcs⟩ := hhead
    have hbrace : Text.isBlank '\x7b' = false := by decide
    rw [hcs, Text.isBlankText, List.all_cons, hbrace]
    exact Bool.false_ne_true
  -- the numerals do not matter, since there are no numbers
  have hparse := Json.parse?_toPretty (fun _ => ⟨false, ⟨0, 0⟩, true⟩)
    (c.eachNumber_toJsonAs _ former)
  rw [read?, if_neg hblank, toPrettyAs, hparse]
  exact ofDocument?_toJsonAs _ former c

/-- **A context is read back from its text.** -/
theorem Context.read?_toPretty (c : Context) : read? c.toPretty = some c := by
  rw [toPretty, ← c.toJsonAs_nowhere]
  exact c.read?_toPrettyAs _

/-- **A stored context is read back.** -/
theorem Store.readContext_writeContext {s : Store} (h : s.writeError? = none) (c : Context) :
    (s.writeContext c).readContext = .ok c := by
  have hfile : (s.writeContext c).readFile contextFile = .ok c.toPretty :=
    readFile_writeFile h contextFile c.toPretty
  rw [readContext, hfile]
  dsimp only
  rw [Context.read?_toPretty]

/-- **Nothing is lost in writing a context and reading it**: whatever characters are in its names
and texts, it comes back from the text that is stored, and from every text that differs from this
one by the former name of some fields' variables. -/
theorem Context.read?_under_either_name (c : Context) :
    read? c.toPretty = some c ∧ ∀ former : Places, read? (c.toPrettyAs former) = some c :=
  ⟨c.read?_toPretty, fun former => c.read?_toPrettyAs former⟩

end Flowgraph
