/-!
# Finite maps from strings

A map lists its entries in strictly ascending order of keys, so two maps with the same entries are
equal. Strings are ordered by their code points, which is also the order of their UTF-8 bytes.

* `StringMap.get?_insert` : what is found after an insertion.
* `StringMap.mem_keys_iff` : the keys are those under which something is found.
-/

namespace Flowgraph

namespace Entries

variable {α : Type}

/-- Puts a value under a key into a list of entries in ascending order, in place of the value that
was there. -/
def insert (k : String) (v : α) : List (String × α) → List (String × α)
  | [] => [(k, v)]
  | (k', v') :: rest =>
    if k < k' then (k, v) :: (k', v') :: rest
    else if k = k' then (k, v) :: rest
    else (k', v') :: insert k v rest

/-- Entries in ascending order from entries in any order; of two with one key the later counts. -/
def ofList (es : List (String × α)) : List (String × α) :=
  es.foldl (fun acc e => insert e.1 e.2 acc) []

/-- The keys ascend strictly, so each comes once. -/
def Ascending (es : List (String × α)) : Prop := es.Pairwise (fun a b => a.1 < b.1)

/-- An insertion adds its entry at most. -/
theorem mem_insert {k : String} {v : α} {es : List (String × α)} {e : String × α}
    (h : e ∈ insert k v es) : e = (k, v) ∨ e ∈ es := by
  induction es with
  | nil => simpa [insert] using h
  | cons a rest ih =>
    simp only [insert] at h
    -- the entry comes first, takes the place of another, or goes among the rest
    split at h
    · simpa using h
    · split at h
      · simp only [List.mem_cons] at h ⊢
        rcases h with h | h
        · exact .inl h
        · exact .inr (.inr h)
      · simp only [List.mem_cons] at h ⊢
        rcases h with h | h
        · exact .inr (.inl h)
        · rcases ih h with h | h
          · exact .inl h
          · exact .inr (.inr h)

theorem lt_of_not_lt_of_ne {a b : String} (h : ¬ a < b) (hne : a ≠ b) : b < a := by
  rcases Decidable.em (b < a) with hlt | hnlt
  · exact hlt
  · exact absurd (String.le_antisymm (String.not_lt.mp hnlt) (String.not_lt.mp h)) hne

/-- An insertion leaves the keys ascending. -/
theorem ascending_insert {k : String} {v : α} {es : List (String × α)} (h : Ascending es) :
    Ascending (insert k v es) := by
  induction es with
  | nil => simp [insert, Ascending]
  | cons a rest ih =>
    obtain ⟨k', v'⟩ := a
    have hrest : Ascending rest := (List.pairwise_cons.mp h).2
    have hhead := (List.pairwise_cons.mp h).1
    simp only [insert]
    split
    · rename_i hlt
      refine List.pairwise_cons.mpr ⟨?_, h⟩
      intro e he
      rcases List.mem_cons.mp he with rfl | he
      · exact hlt
      · exact String.lt_trans hlt (hhead e he)
    · split
      · rename_i heq
        subst heq
        exact List.pairwise_cons.mpr ⟨hhead, hrest⟩
      · rename_i hnlt hne
        -- what is behind the head is the new key or was there before, and is larger both ways
        refine List.pairwise_cons.mpr ⟨?_, ih hrest⟩
        intro e he
        rcases mem_insert he with rfl | he
        · exact lt_of_not_lt_of_ne hnlt hne
        · exact hhead e he

/-- The keys ascend however the entries come. -/
theorem ascending_ofList (es : List (String × α)) : Ascending (ofList es) := by
  suffices ∀ acc : List (String × α), Ascending acc →
      Ascending (es.foldl (fun acc e => insert e.1 e.2 acc) acc) from
    this [] List.Pairwise.nil
  induction es with
  | nil => intro acc h; exact h
  | cons e rest ih => intro acc h; exact ih _ (ascending_insert h)

/-- What is found after an insertion. -/
theorem lookup_insert (k k' : String) (v : α) (es : List (String × α)) (h : Ascending es) :
    (insert k v es).lookup k' = if k' = k then some v else es.lookup k' := by
  induction es with
  | nil =>
    by_cases hk : k' = k
    · simp [insert, hk]
    · have hb : (k' == k) = false := by simpa using hk
      simp [insert, List.lookup_cons, hk, hb]
  | cons a rest ih =>
    obtain ⟨ka, va⟩ := a
    have hrest : Ascending rest := (List.pairwise_cons.mp h).2
    simp only [insert]
    -- the key is smaller than the first one, or equal to it, or it belongs further behind
    split
    · by_cases hk : k' = k
      · simp [hk]
      · have hb : (k' == k) = false := by simpa using hk
        simp [List.lookup_cons, hk, hb]
    · split
      · rename_i heq
        subst heq
        by_cases hk : k' = k
        · simp [hk]
        · have hb : (k' == k) = false := by simpa using hk
          simp [List.lookup_cons, hk, hb]
      · rename_i hne
        by_cases hk : k' = ka
        · subst hk
          have : k' ≠ k := fun he => hne he.symm
          simp [this]
        · have hb : (k' == ka) = false := by simpa using hk
          simp [List.lookup_cons, hb, ih hrest]

end Entries

/-- A finite map from strings: entries in strictly ascending order of keys. -/
structure StringMap (α : Type) where
  entries : List (String × α)
  ascending : Entries.Ascending entries

namespace StringMap

variable {α β : Type}

/-- The map without entries. -/
def empty : StringMap α := ⟨[], List.Pairwise.nil⟩

instance : EmptyCollection (StringMap α) := ⟨empty⟩
instance : Inhabited (StringMap α) := ⟨empty⟩

/-- Maps with the same entries are equal. -/
@[ext] theorem ext {m n : StringMap α} (h : m.entries = n.entries) : m = n := by
  cases m; cases n; simp_all

instance [DecidableEq α] : DecidableEq (StringMap α) := fun m n =>
  decidable_of_iff (m.entries = n.entries) ⟨ext, fun h => h ▸ rfl⟩

/-- The value under a key. -/
def get? (m : StringMap α) (k : String) : Option α := m.entries.lookup k

/-- Whether there is a value under a key. -/
def contains (m : StringMap α) (k : String) : Bool := (m.get? k).isSome

/-- The map with a value put under a key, in place of what was there. -/
def insert (m : StringMap α) (k : String) (v : α) : StringMap α :=
  ⟨Entries.insert k v m.entries, Entries.ascending_insert m.ascending⟩

/-- The map without what was under a key, as when a variable is removed. -/
def erase (m : StringMap α) (k : String) : StringMap α :=
  ⟨m.entries.filter fun e => e.1 != k, m.ascending.filter _⟩

/-- The map of a list of entries. Of two with one key the later one counts. -/
def ofList (es : List (String × α)) : StringMap α :=
  ⟨Entries.ofList es, Entries.ascending_ofList es⟩

/-- The keys, ascending. -/
def keys (m : StringMap α) : List String := m.entries.map (·.1)

/-- The values, in the order of their keys. -/
def values (m : StringMap α) : List α := m.entries.map (·.2)

/-- How many entries there are. -/
def size (m : StringMap α) : Nat := m.entries.length

@[simp] theorem get?_empty (k : String) : (empty : StringMap α).get? k = none := rfl

/-- What is found in a map after an insertion. -/
theorem get?_insert (m : StringMap α) (k k' : String) (v : α) :
    (m.insert k v).get? k' = if k' = k then some v else m.get? k' :=
  Entries.lookup_insert k k' v m.entries m.ascending

@[simp] theorem get?_insert_self (m : StringMap α) (k : String) (v : α) :
    (m.insert k v).get? k = some v := by simp [get?_insert]

/-- Under other keys an insertion changes nothing. -/
theorem get?_insert_of_ne (m : StringMap α) {k k' : String} (v : α) (h : k' ≠ k) :
    (m.insert k v).get? k' = m.get? k' := by simp [get?_insert, h]

/-- A map that is made from the keys. -/
theorem get?_ofList_map (f : String → α) (l : List String) (k : String) :
    (ofList (l.map fun v => (v, f v))).get? k = if k ∈ l then some (f k) else none := by
  -- what is there before the list is overridden by the list
  have hfold : ∀ (l : List String) (acc : List (String × α)), Entries.Ascending acc →
      List.lookup k ((l.map fun v => (v, f v)).foldl
          (fun acc e => Entries.insert e.1 e.2 acc) acc) =
        if k ∈ l then some (f k) else acc.lookup k := by
    intro l
    induction l with
    | nil => intro acc _; simp
    | cons v rest ih =>
      intro acc hacc
      rw [List.map_cons, List.foldl_cons, ih _ (Entries.ascending_insert hacc),
        Entries.lookup_insert _ _ _ _ hacc]
      by_cases hk : k = v
      · simp [hk]
      · simp [hk]
  exact hfold l [] List.Pairwise.nil

/-- The keys are those under which something is found. -/
theorem mem_keys_iff (m : StringMap α) (k : String) : k ∈ m.keys ↔ m.contains k = true := by
  obtain ⟨es, hes⟩ := m
  simp only [keys, contains, get?]
  clear hes
  induction es with
  | nil => simp
  | cons a rest ih =>
    obtain ⟨ka, va⟩ := a
    by_cases hk : k = ka
    · simp [hk]
    · have hb : (k == ka) = false := by simpa using hk
      simp [List.lookup_cons, hb, hk, ← ih]

end StringMap

end Flowgraph
