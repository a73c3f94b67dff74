import Flowgraph.Proofs.Json.Numerals

/-!
# Values and their texts

A value is written as deep as it is, and read only down to a limit. So it comes back from its text
exactly if no more arrays and objects are nested in it than the reader allows, and a deeper one is
refused. It does not come back as something else, provided that its objects are in the order of
their keys, as those are that a value is made of, and that its numbers are read back from their own
texts.

* `toJson?_document` — the document of a value denotes that value, down to the limit.
* `parse?_toPretty_eq` — a value is read back from its text, down to the limit.
* `Document.parse?_of_isBlankText` — a blank text is no document.
-/

namespace Flowgraph

namespace Entries

variable {α : Type}

/-- A key behind all others is put at the end. -/
theorem insert_of_forall_lt {k : String} {v : α} {es : List (String × α)}
    (h : ∀ e ∈ es, e.1 < k) : insert k v es = es ++ [(k, v)] := by
  induction es with
  | nil => rfl
  | cons e es ih =>
    obtain ⟨he, hes⟩ := List.forall_mem_cons.mp h
    -- the key is neither before the first one nor the same
    have hnlt : ¬ k < e.1 := fun hlt => String.lt_irrefl _ (String.lt_trans hlt he)
    have hne : k ≠ e.1 := fun heq => String.lt_irrefl _ (heq ▸ he)
    rw [insert, if_neg hnlt, if_neg hne, ih hes, List.cons_append]

/-- Entries in ascending order stay as they are. -/
theorem ofList_of_ascending {es : List (String × α)} (h : Ascending es) : ofList es = es := by
  -- every entry is behind those that have been put in
  have hfold : ∀ es acc : List (String × α), Ascending (acc ++ es) →
      es.foldl (fun acc e => insert e.1 e.2 acc) acc = acc ++ es := by
    intro es
    induction es with
    | nil => exact fun acc _ => (List.append_nil acc).symm
    | cons e es ih =>
      intro acc hacc
      have hlt : ∀ a ∈ acc, a.1 < e.1 := fun a ha =>
        (List.pairwise_append.mp hacc).2.2 a ha e List.mem_cons_self
      rw [List.foldl_cons, insert_of_forall_lt hlt, ih]
      · exact List.append_assoc acc [e] es
      · rwa [List.append_assoc]
  exact hfold es [] h

end Entries

namespace Json

/-! ### Documents of values -/

mutual

theorem EachNumber.imp {P Q : Number → Prop} (h : ∀ n, P n → Q n) :
    ∀ {j : Json}, j.EachNumber P → j.EachNumber Q
  | .null, _ => trivial
  | .bool _, _ => trivial
  | .number n, hn => h n hn
  | .text _, _ => trivial
  | .array _, hs => EachNumberOfItems.imp h hs
  | .object _, hs => EachNumberOfMembers.imp h hs

theorem EachNumberOfItems.imp {P Q : Number → Prop} (h : ∀ n, P n → Q n) :
    ∀ {items : List Json}, EachNumberOfItems P items → EachNumberOfItems Q items
  | [], _ => trivial
  | _ :: _, ⟨hj, hs⟩ => ⟨EachNumber.imp h hj, EachNumberOfItems.imp h hs⟩

theorem EachNumberOfMembers.imp {P Q : Number → Prop} (h : ∀ n, P n → Q n) :
    ∀ {members : List (String × Json)},
      EachNumberOfMembers P members → EachNumberOfMembers Q members
  | [], _ => trivial
  | (_, _) :: _, ⟨hj, hs⟩ => ⟨EachNumber.imp h hj, EachNumberOfMembers.imp h hs⟩

end

section

variable {num : Number → Numeral}

mutual

/-- **The document of a value denotes that value**, as far as there is room for it. -/
theorem toJson?_document : ∀ (j : Json) (room : Nat), j.Ordered →
    j.EachNumber (fun n => (num n).toNumber? = some n) →
      (j.document num).toJson? room = if j.depth ≤ room then some j else none
  | .null, room, _, _ => rfl
  | .bool b, room, _, _ => rfl
  | .number n, room, _, hnum => by
    have hn : (num n).toNumber? = some n := hnum
    rw [document, Document.toJson?, hn]
    rfl
  | .text s, room, _, _ => rfl
  | .array items, 0, _, _ => rfl
  | .array items, room + 1, hord, hnum => by
    rw [document, Document.toJson?, itemsToJson?_itemDocuments items room hord hnum, depth]
    simp only [Nat.add_le_add_iff_right]
    split <;> rfl
  | .object members, 0, _, _ => rfl
  | .object members, room + 1, ⟨hasc, hord⟩, hnum => by
    rw [document, Document.toJson?, membersToJson?_memberDocuments members room hord hnum, depth]
    simp only [Nat.add_le_add_iff_right]
    split
    · -- the members are in order already
      rw [Option.map_some, Json.ofMembers, Entries.ofList_of_ascending hasc]
    · rfl

theorem itemsToJson?_itemDocuments : ∀ (items : List Json) (room : Nat), AllOrdered items →
    EachNumberOfItems (fun n => (num n).toNumber? = some n) items →
      Document.itemsToJson? room (itemDocuments num items) =
        if itemsDepth items ≤ room then some items else none
  | [], room, _, _ => rfl
  | item :: rest, room, ⟨hord, hords⟩, ⟨hnum, hnums⟩ => by
    rw [itemDocuments, Document.itemsToJson?, toJson?_document item room hord hnum,
      itemsToJson?_itemDocuments rest room hords hnums, itemsDepth]
    simp only [Nat.max_le]
    by_cases hitem : item.depth ≤ room <;> by_cases hrest : itemsDepth rest ≤ room <;>
      simp [hitem, hrest]

theorem membersToJson?_memberDocuments : ∀ (members : List (String × Json)) (room : Nat),
    MembersOrdered members →
    EachNumberOfMembers (fun n => (num n).toNumber? = some n) members →
      Document.membersToJson? room (memberDocuments num members) =
        if membersDepth members ≤ room then some members else none
  | [], room, _, _ => rfl
  | (key, value) :: rest, room, ⟨hord, hords⟩, ⟨hnum, hnums⟩ => by
    rw [memberDocuments, Document.membersToJson?, toJson?_document value room hord hnum,
      membersToJson?_memberDocuments rest room hords hnums, membersDepth]
    simp only [Nat.max_le]
    by_cases hvalue : value.depth ≤ room <;> by_cases hrest : membersDepth rest ≤ room <;>
      simp [hvalue, hrest]

end

end

/-- **A value is read back from its text**, unless it is deeper than the reader goes. -/
theorem parse?_toPretty_eq {j : Json} (hord : j.Ordered) (hnum : j.EachNumber Number.RoundTrips) :
    Json.parse? j.toPretty = if j.depth ≤ maxDepth then some j else none := by
  have hdocument := parse?_toPretty Number.numeral (hnum.imp fun _ h => h.written.1)
  rw [Json.parse?, hdocument]
  exact toJson?_document j maxDepth hord (hnum.imp fun _ h => h.written.2)

/-! ### Blank texts -/

theorem isDigit_of_isBlank {c : Char} (h : Text.isBlank c = true) : Decimal.isDigit c = false := by
  refine Bool.eq_false_iff.mpr fun hdigit => ?_
  simp only [Decimal.isDigit, Bool.and_eq_true, decide_eq_true_eq] at hdigit
  have hlow : 48 ≤ c.toNat := hdigit.1
  have hhigh : c.toNat ≤ 57 := hdigit.2
  simp only [Text.isBlank, Text.inRanges, Text.blankRanges, List.any_cons, List.any_nil,
    Bool.or_eq_true, Bool.and_eq_true, decide_eq_true_eq, Bool.false_eq_true, or_false] at h
  omega

/-- Some blanks are passed over, and at any other one no token begins. -/
theorem tokens_of_isBlankText {s : List Char} (h : Text.isBlankText s = true) :
    tokens s = some [] ∨ tokens s = none := by
  induction s with
  | nil =>
    rw [tokens]
    exact .inl rfl
  | cons c s ih =>
    rw [Text.isBlankText, List.all_cons, Bool.and_eq_true] at h
    obtain ⟨hc, hs⟩ := h
    by_cases hspace : isSpace c = true
    · rw [tokens_of_isSpace hspace]
      exact ih hs
    · refine .inr ?_
      have hscan : scanNumber false (c :: s) = none := by
        unfold scanNumber
        rw [List.takeWhile_cons_of_neg (Bool.eq_false_iff.mp (isDigit_of_isBlank hc))]
        rfl
      rw [tokens, if_neg hspace]
      · split
        · rfl
        · next hsome =>
          rw [hscan] at hsome
          cases hsome
      -- none of the characters with which a token begins is blank
      all_goals
        rintro rfl
        exact absurd hc (by decide)

/-- **A blank text is no document.** -/
theorem Document.parse?_of_isBlankText {s : String} (h : Text.isBlankText s.toList = true) :
    Document.parse? s = none := by
  rcases tokens_of_isBlankText h with htokens | htokens
  · rw [Document.parse?, htokens]
    rfl
  · rw [Document.parse?, htokens]
    rfl

/-- So a value is not written as a blank text. -/
theorem not_isBlankText_toPretty {j : Json} (hnum : j.EachNumber Number.RoundTrips) :
    Text.isBlankText j.toPretty.toList = false := by
  refine Bool.eq_false_iff.mpr fun hblank => ?_
  have hdocument := parse?_toPretty Number.numeral (hnum.imp fun _ h => h.written.1)
  rw [Document.parse?_of_isBlankText hblank] at hdocument
  cases hdocument

end Json

end Flowgraph
