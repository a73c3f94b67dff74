import Flowgraph.Proofs.Graph.Stored

/-!
# What a store remembers

The graph and the blobs are three texts under names of their own. So a write is read at its own
place only, and each place reads as what was written to it last, whatever was written elsewhere and
however often it has been read.

With blobs there is a limit. A value is written as deep as it is and read only down to
`Json.maxDepth`, so a value that is deeper takes the place of the one before and cannot be read.

* `Store.Access`, `Store.afterAll` — accesses to a store.
* `Store.readBlob_writeBlob` — a blob is read as it was written, down to the limit.
* `Store.readBlob_afterAll`, `Store.readContext_afterAll` — what is read after accesses.
* `Store.remembers_afterAll` — what a store in memory remembers, and exactly which blobs it loses.
-/

namespace Flowgraph

/-- A value as it is made: its objects are in order, and its numbers are read back from their
texts. -/
structure Json.Regular (j : Json) : Prop where
  ordered : j.Ordered
  numbers : j.EachNumber Number.RoundTrips

/-! ### Single accesses -/

theorem Blob.fileName_ne_contextFile (b : Blob) : b.fileName ≠ Store.contextFile := by
  cases b <;> decide

theorem Blob.fileName_ne {b b' : Blob} (h : b' ≠ b) : b'.fileName ≠ b.fileName := by
  cases b <;> cases b' <;> first | exact absurd rfl h | decide

namespace Store

section

variable (s : Store)

/-- What a blob reads as when a value is in it. -/
def blobReading (j : Json) : Except WorkflowError Json :=
  if j.depth ≤ Json.maxDepth then .ok j else .error .serialization

/-- A file with the text of a value is read as this value, down to the limit. -/
theorem readBlob_of_readFile {b : Blob} {j : Json} (h : j.Regular)
    (hfile : s.readFile b.fileName = .ok j.toPretty) : s.readBlob b = blobReading j := by
  rw [readBlob, hfile]
  dsimp only
  rw [Json.not_isBlankText_toPretty h.numbers, if_neg Bool.false_ne_true,
    Json.parse?_toPretty_eq h.ordered h.numbers, blobReading]
  -- the reader stops at the first level below the limit
  by_cases hdepth : j.depth ≤ Json.maxDepth
  · rw [if_pos hdepth, if_pos hdepth]
  · rw [if_neg hdepth, if_neg hdepth]

/-- **A blob is read as it was written**, down to the limit. -/
theorem readBlob_writeBlob (hs : s.writeError? = none) (b : Blob) {j : Json} (h : j.Regular) :
    (s.writeBlob b j).readBlob b = blobReading j :=
  readBlob_of_readFile _ h (readFile_writeFile hs b.fileName j.toPretty)

theorem readBlob_writeBlob_of_ne {b b' : Blob} (h : b' ≠ b) (j : Json) :
    (s.writeBlob b j).readBlob b' = s.readBlob b' := by
  rw [readBlob, readBlob, writeBlob, readFile_writeFile_of_ne s (Blob.fileName_ne h)]

theorem readBlob_writeContext (b : Blob) (c : Context) :
    (s.writeContext c).readBlob b = s.readBlob b := by
  rw [readBlob, readBlob, writeContext,
    readFile_writeFile_of_ne s (Blob.fileName_ne_contextFile b)]

theorem readContext_writeBlob (b : Blob) (j : Json) :
    (s.writeBlob b j).readContext = s.readContext := by
  rw [readContext, readContext, writeBlob,
    readFile_writeFile_of_ne s (Ne.symm (Blob.fileName_ne_contextFile b))]

end

/-! ### Accesses one after another -/

/-- An access to a store. -/
inductive Access where
  | writeBlob (b : Blob) (j : Json)
  | writeContext (c : Context)
  | readBlob (b : Blob)
  | readContext

namespace Access

/-- What an access writes to a blob. -/
def blob? (b : Blob) : Access → Option Json
  | .writeBlob b' j => if b' = b then some j else none
  | _ => none

/-- What an access writes to the graph. -/
def context? : Access → Option Context
  | .writeContext c => some c
  | _ => none

end Access

/-- The store behind an access; a read leaves it as it is. -/
def after (s : Store) : Access → Store
  | .writeBlob b j => s.writeBlob b j
  | .writeContext c => s.writeContext c
  | .readBlob _ => s
  | .readContext => s

/-- The store after some accesses, one after another. -/
def afterAll (s : Store) (as : List Access) : Store := as.foldl after s

/-- What was written to a blob last. -/
def lastBlob? (b : Blob) (as : List Access) : Option Json :=
  (as.filterMap (Access.blob? b)).getLast?

/-- What was written to the graph last. -/
def lastContext? (as : List Access) : Option Context := (as.filterMap Access.context?).getLast?

/-- The last of what is picked is the first only if nothing is picked behind it. -/
theorem getLast?_filterMap_cons {α β : Type} (pick : α → Option β) (a : α) (as : List α) :
    ((a :: as).filterMap pick).getLast? = ((as.filterMap pick).getLast?).or (pick a) := by
  cases ha : pick a with
  | none => rw [List.filterMap_cons_none ha, Option.or_none]
  | some b =>
    rw [List.filterMap_cons_some ha, List.getLast?_cons]
    cases (as.filterMap pick).getLast? <;> rfl

/-- Accesses do not make a store unreliable. -/
theorem Reliable.after {s : Store} (hs : s.Reliable) (a : Access) : (s.after a).Reliable := by
  cases a with
  | writeBlob b j => exact hs.writeFile _ _
  | writeContext c => exact hs.writeFile _ _
  | readBlob b => exact hs
  | readContext => exact hs

/-- One access, seen from a blob. -/
theorem readBlob_after {s : Store} (hs : s.Reliable) (b : Blob) {a : Access}
    (h : ∀ b j, a = .writeBlob b j → j.Regular) :
    (s.after a).readBlob b = ((a.blob? b).elim (s.readBlob b) blobReading) := by
  cases a with
  | writeBlob b' j =>
    by_cases hb : b' = b
    · subst hb
      rw [Store.after, readBlob_writeBlob s hs.writeError? b' (h b' j rfl), Access.blob?,
        if_pos rfl]
      rfl
    · rw [Store.after, readBlob_writeBlob_of_ne s (Ne.symm hb), Access.blob?, if_neg hb]
      rfl
  | writeContext c => exact s.readBlob_writeContext b c
  | readBlob b' => rfl
  | readContext => rfl

/-- One access, seen from the graph. -/
theorem readContext_after {s : Store} (hs : s.Reliable) (a : Access) :
    (s.after a).readContext = (a.context?.elim s.readContext .ok) := by
  cases a with
  | writeBlob b j => exact s.readContext_writeBlob b j
  | writeContext c => exact readContext_writeContext hs.writeError? c
  | readBlob b => rfl
  | readContext => rfl

/-- **What a blob reads as after accesses**: the value that was written last, or what it was. -/
theorem readBlob_afterAll {s : Store} (hs : s.Reliable) (b : Blob) {as : List Access}
    (h : ∀ b j, .writeBlob b j ∈ as → j.Regular) :
    (s.afterAll as).readBlob b = (lastBlob? b as).elim (s.readBlob b) blobReading := by
  induction as generalizing s with
  | nil => rfl
  | cons a as ih =>
    -- what was written last in the rest comes after what the first access wrote
    have hfirst := readBlob_after hs b (a := a) fun b j ha => h b j (ha ▸ List.mem_cons_self)
    have hrest := ih (hs.after a) fun b j hmem => h b j (List.mem_cons_of_mem _ hmem)
    rw [afterAll, List.foldl_cons, ← afterAll, hrest, hfirst, lastBlob?, lastBlob?,
      getLast?_filterMap_cons]
    cases (as.filterMap (Access.blob? b)).getLast? <;> rfl

/-- **What the graph reads as after accesses.** -/
theorem readContext_afterAll {s : Store} (hs : s.Reliable) (as : List Access) :
    (s.afterAll as).readContext = (lastContext? as).elim s.readContext .ok := by
  induction as generalizing s with
  | nil => rfl
  | cons a as ih =>
    -- what was written last in the rest comes after what the first access wrote
    rw [afterAll, List.foldl_cons, ← afterAll, ih (hs.after a), readContext_after hs, lastContext?,
      lastContext?, getLast?_filterMap_cons]
    cases (as.filterMap Access.context?).getLast? <;> rfl

/-! ### In memory -/

/-- What a store answers that has gone through accesses. -/
structure Remembers (s : Store) (as : List Access) : Prop where
  unwritten : ∀ b, lastBlob? b as = none → s.readBlob b = .ok (.object [])
  /-- The value that was written last is read, exactly if the reader goes as deep as it is. -/
  kept : ∀ b j, lastBlob? b as = some j → (s.readBlob b = .ok j ↔ j.depth ≤ Json.maxDepth)
  refused : ∀ b j, lastBlob? b as = some j → Json.maxDepth < j.depth →
    s.readBlob b = .error .serialization
  graph : s.readContext = .ok ((lastContext? as).getD {})
  /-- A further access is read at the place it writes to and nowhere else. -/
  elsewhere : ∀ a : Access, (∀ b, a.blob? b = none → (s.after a).readBlob b = s.readBlob b) ∧
    (a.context? = none → (s.after a).readContext = s.readContext)

/-- An access changes no place that it does not write to. -/
theorem after_elsewhere (s : Store) (a : Access) :
    (∀ b, a.blob? b = none → (s.after a).readBlob b = s.readBlob b) ∧
      (a.context? = none → (s.after a).readContext = s.readContext) := by
  refine ⟨fun b hb => ?_, fun hc => ?_⟩
  · cases a with
    | writeBlob b' j =>
      -- had it been this blob, the access would have written to it
      have hne : b ≠ b' := by
        rintro rfl
        rw [Access.blob?, if_pos rfl] at hb
        cases hb
      exact s.readBlob_writeBlob_of_ne hne j
    | writeContext c => exact s.readBlob_writeContext b c
    | readBlob b' => rfl
    | readContext => rfl
  · cases a with
    | writeBlob b j => exact s.readContext_writeBlob b j
    | writeContext c => cases hc
    | readBlob b => rfl
    | readContext => rfl

/-- **What a store in memory remembers**: the graph, and every blob down to the limit of the
reader. -/
theorem remembers_afterAll {as : List Access} (h : ∀ b j, .writeBlob b j ∈ as → j.Regular) :
    (inMemory.afterAll as).Remembers as where
  unwritten b hb := by
    rw [readBlob_afterAll reliable_inMemory b h, hb]
    rfl
  kept b j hb := by
    rw [readBlob_afterAll reliable_inMemory b h, hb]
    show blobReading j = .ok j ↔ _
    rw [blobReading]
    split
    · next hle => exact ⟨fun _ => hle, fun _ => rfl⟩
    · next hgt => exact ⟨nofun, fun hle => absurd hle hgt⟩
  refused b j hb hdeep := by
    rw [readBlob_afterAll reliable_inMemory b h, hb]
    exact if_neg (Nat.not_le.mpr hdeep)
  graph := by
    rw [readContext_afterAll reliable_inMemory]
    cases lastContext? as <;> rfl
  elsewhere := after_elsewhere _

/-- A blob of a text and a number beside a graph, read in between. -/
theorem remembers_text_and_one :
    ∃ j : Json, j = .array [.text "a", .number (.integer 1 (by decide))] ∧ j.Regular ∧
      (inMemory.afterAll [.writeBlob .data j, .readBlob .data, .writeContext {}]).Remembers
        [.writeBlob .data j, .readBlob .data, .writeContext {}] := by
  have hregular : (Json.array [.text "a", .number (.integer 1 (by decide))]).Regular :=
    ⟨⟨trivial, trivial, trivial⟩, ⟨trivial, Json.Number.roundTrips_integer 1 (by decide), trivial⟩⟩
  refine ⟨_, rfl, hregular, remembers_afterAll fun b j hmem => ?_⟩
  -- there is one write to a blob
  rcases List.mem_cons.mp hmem with heq | hmem
  · cases heq
    exact hregular
  · simp only [List.mem_cons, reduceCtorEq, List.not_mem_nil, or_self] at hmem

end Store

/-! ### Beyond the limit -/

/-- Arrays in one another, with nothing else in them. -/
def Json.nested : Nat → Json
  | 0 => .array []
  | n + 1 => .array [nested n]

theorem Json.depth_nested (n : Nat) : (nested n).depth = n + 1 := by
  induction n with
  | zero => rfl
  | succ n ih => rw [nested, depth, itemsDepth, itemsDepth, ih, Nat.max_zero]

theorem Json.regular_nested (n : Nat) : (nested n).Regular := by
  induction n with
  | zero => exact ⟨trivial, trivial⟩
  | succ n ih => exact ⟨⟨ih.ordered, trivial⟩, ⟨ih.numbers, trivial⟩⟩

/-- **Not every blob that can be written can be read**: one level more than the limit, and the value
is refused by the reader. So is its text in a file of a directory. -/
theorem Store.refuses_nested :
    (Json.nested 127).Regular ∧
      (inMemory.writeBlob .data (Json.nested 127)).readBlob .data = .error .serialization ∧
      (inMemory.writeBlob .data (Json.nested 126)).readBlob .data = .ok (Json.nested 126) ∧
      { ofDirectory ∅ with
        files := (ofDirectory ∅).files.insert Blob.data.fileName
          (.text (Json.nested 127).toPretty) }.readBlob .data = .error .serialization := by
  have hwritten : inMemory.writeError? = none := reliable_inMemory.writeError?
  -- written in memory, one level less, and as the text of a file
  refine ⟨Json.regular_nested 127, ?_, ?_, ?_⟩
  · rw [readBlob_writeBlob _ hwritten _ (Json.regular_nested 127), blobReading, Json.depth_nested]
    rfl
  · rw [readBlob_writeBlob _ hwritten _ (Json.regular_nested 126), blobReading, Json.depth_nested]
    rfl
  · rw [readBlob_of_readFile _ (Json.regular_nested 127), blobReading, Json.depth_nested]
    · rfl
    · rw [readFile, StringMap.get?_insert_self]

end Flowgraph
