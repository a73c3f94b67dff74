import Flowgraph.Event

/-!
# The event bus

Who waits for which events. Under each key the listeners stand in the order of their registration,
and one listener may be registered any number of times, under one key or under several. A key
without listeners is not kept, so a bus has a slot for exactly the keys that someone waits for.

The view of a bus is `Bus.listeners`, the registrations under a key. The main statements say what
each operation does to it:

* `Bus.listeners_on` : a registration comes last under its key.
* `Bus.listeners_remove` : a removal takes the earliest registration under its key.
* `Bus.listeners_withdraw` : a withdrawal takes all of them, under every key.
* `Bus.isEmpty_iff` : only a bus of size zero is empty.
-/

namespace Flowgraph

/-- The name of a listener: the node that it belongs to, if it belongs to one, and a number that its
maker chooses. -/
structure ListenerId where
  owner : Option String
  number : Nat
deriving DecidableEq

/-- A listener: what it does when it hears an event, under a name of its own. -/
structure Listener (β : Type) where
  id : ListenerId
  reaction : β

/-- The listeners of each key that has some. -/
abbrev Slots (β : Type) := List (EventKey × List (Listener β))

namespace Slots

variable {β : Type}

/-- The listeners under a key, in the order in which they were registered. -/
def find (key : EventKey) : Slots β → List (Listener β)
  | [] => []
  | (k, ls) :: rest => if k = key then ls else find key rest

/-- Registers a listener behind the others under its key. -/
def add (key : EventKey) (l : Listener β) : Slots β → Slots β
  | [] => [(key, [l])]
  | (k, ls) :: rest => if k = key then (k, ls ++ [l]) :: rest else (k, ls) :: add key l rest

/-- Puts a slot in front of others, unless it is empty. -/
def cons (key : EventKey) (ls : List (Listener β)) (rest : Slots β) : Slots β :=
  if ls.isEmpty then rest else (key, ls) :: rest

/-- Takes the earliest registration of a listener out of a key's slot, if there is one. -/
def take? (key : EventKey) (id : ListenerId) : Slots β → Option (Slots β)
  | [] => none
  | (k, ls) :: rest =>
    if k = key then
      if ls.any (·.id = id) then some (cons k (ls.eraseP (·.id = id)) rest) else none
    else (take? key id rest).map ((k, ls) :: ·)

/-- How many registrations there are. -/
def size : Slots β → Nat
  | [] => 0
  | (_, ls) :: rest => ls.length + size rest

/-- Takes every registration of a listener out of all slots. -/
def strip (id : ListenerId) : Slots β → Slots β
  | [] => []
  | (k, ls) :: rest => cons k (ls.filter (·.id ≠ id)) (strip id rest)

/-- The keys under which there is a listener, in the order in which they came up. -/
def keys (slots : Slots β) : List EventKey := slots.map Prod.fst

/-- A key has one slot at most, and no slot is empty. -/
structure Tidy (slots : Slots β) : Prop where
  nodup : slots.keys.Nodup
  ne_nil : ∀ s ∈ slots, s.2 ≠ []

/-! ### Tidiness is kept -/

theorem tidy_nil : Tidy ([] : Slots β) :=
  ⟨List.nodup_nil, fun _ h => nomatch h⟩

theorem Tidy.tail {s : EventKey × List (Listener β)} {rest : Slots β}
    (h : Tidy (s :: rest : Slots β)) : Tidy rest :=
  ⟨(List.nodup_cons.mp h.nodup).2, fun s hs => h.ne_nil s (List.mem_cons_of_mem _ hs)⟩

/-- The key of the first slot has no other. -/
theorem Tidy.notMem_keys {s : EventKey × List (Listener β)} {rest : Slots β}
    (h : Tidy (s :: rest : Slots β)) : s.1 ∉ rest.keys :=
  (List.nodup_cons.mp h.nodup).1

/-- A slot in front keeps slots tidy if its key is new; without listeners it is left out. -/
theorem tidy_cons {key : EventKey} {ls : List (Listener β)} {rest : Slots β} (h : Tidy rest)
    (hkey : key ∉ rest.keys) : Tidy (cons key ls rest) := by
  unfold cons
  split
  · -- a slot without listeners is left out
    exact h
  · rename_i hls
    refine ⟨List.nodup_cons.mpr ⟨hkey, h.nodup⟩, fun s hs => ?_⟩
    rcases List.mem_cons.mp hs with rfl | hs
    · simpa using hls
    · exact h.ne_nil s hs

/-- A slot in front adds its key at most. -/
theorem keys_cons_subset (key : EventKey) (ls : List (Listener β)) (rest : Slots β) :
    (cons key ls rest).keys ⊆ key :: rest.keys := by
  intro k hk
  unfold cons at hk
  -- the slot is there, or it is left out
  split at hk
  · exact List.mem_cons_of_mem _ hk
  · exact hk

/-- A registration adds its key at most. -/
theorem mem_keys_add (key : EventKey) (l : Listener β) (slots : Slots β) {k : EventKey}
    (h : k ∈ (add key l slots).keys) : k = key ∨ k ∈ slots.keys := by
  induction slots with
  | nil => simpa [add, keys] using h
  | cons s rest ih =>
    rw [add] at h
    -- a key that has a slot already gets no second one
    split at h
    · exact .inr h
    · rcases List.mem_cons.mp h with rfl | h
      · exact .inr List.mem_cons_self
      · exact (ih h).imp_right (List.mem_cons_of_mem _)

/-- A registration keeps slots tidy. -/
theorem tidy_add (key : EventKey) (l : Listener β) {slots : Slots β} (h : Tidy slots) :
    Tidy (add key l slots) := by
  induction slots with
  | nil => exact ⟨by simp [add, keys], by simp [add]⟩
  | cons s rest ih =>
    rw [add]
    -- the key is that of the first slot, which gains a listener, or of one behind it
    split
    · refine ⟨h.nodup, fun s' hs' => ?_⟩
      rcases List.mem_cons.mp hs' with rfl | hs'
      · simp
      · exact h.ne_nil s' (List.mem_cons_of_mem _ hs')
    · rename_i hne
      -- the slots behind gain no key but the one that was not the first
      refine ⟨List.nodup_cons.mpr ⟨fun hmem => ?_, (ih h.tail).nodup⟩, fun s' hs' => ?_⟩
      · rcases mem_keys_add key l rest hmem with hk | hk
        · exact hne hk
        · exact h.notMem_keys hk
      · rcases List.mem_cons.mp hs' with rfl | hs'
        · exact h.ne_nil _ List.mem_cons_self
        · exact (ih h.tail).ne_nil s' hs'

/-- A removal adds no key. -/
theorem keys_take?_subset {key : EventKey} {id : ListenerId} {slots slots' : Slots β}
    (h : take? key id slots = some slots') : slots'.keys ⊆ slots.keys := by
  induction slots generalizing slots' with
  | nil => simp [take?] at h
  | cons s rest ih =>
    rw [take?] at h
    -- the slot may be left out when its last listener goes
    split at h
    · split at h
      · cases h
        exact keys_cons_subset _ _ _
      · cases h
    · obtain ⟨rest', hrest, rfl⟩ := Option.map_eq_some_iff.mp h
      exact List.cons_subset_cons _ (ih hrest)

/-- A removal keeps slots tidy. -/
theorem tidy_take? {key : EventKey} {id : ListenerId} {slots slots' : Slots β} (ht : Tidy slots)
    (h : take? key id slots = some slots') : Tidy slots' := by
  induction slots generalizing slots' with
  | nil => simp [take?] at h
  | cons s rest ih =>
    rw [take?] at h
    split at h
    · split at h
      · cases h
        exact tidy_cons ht.tail ht.notMem_keys
      · cases h
    · obtain ⟨rest', hrest, rfl⟩ := Option.map_eq_some_iff.mp h
      -- the slot in front stays, and its key is not among those behind it
      have htail := ih ht.tail hrest
      refine ⟨List.nodup_cons.mpr ⟨fun hk => ht.notMem_keys (keys_take?_subset hrest hk),
        htail.nodup⟩, fun s' hs' => ?_⟩
      rcases List.mem_cons.mp hs' with rfl | hs'
      · exact ht.ne_nil _ List.mem_cons_self
      · exact htail.ne_nil s' hs'

/-- A withdrawal adds no key. -/
theorem keys_strip_subset (id : ListenerId) (slots : Slots β) :
    (strip id slots).keys ⊆ slots.keys := by
  induction slots with
  | nil => exact List.Subset.refl _
  | cons s rest ih =>
    exact fun k hk => List.cons_subset_cons s.1 ih (keys_cons_subset _ _ _ hk)

/-- A withdrawal keeps slots tidy. -/
theorem tidy_strip (id : ListenerId) {slots : Slots β} (h : Tidy slots) :
    Tidy (strip id slots) := by
  induction slots with
  | nil => exact tidy_nil
  | cons s rest ih =>
    exact tidy_cons (ih h.tail) fun hk => h.notMem_keys (keys_strip_subset id rest hk)

/-! ### What is found -/

/-- Under a key without a slot there is no listener. -/
theorem find_of_notMem_keys {key : EventKey} {slots : Slots β} (h : key ∉ slots.keys) :
    find key slots = [] := by
  induction slots with
  | nil => rfl
  | cons s rest ih =>
    simp only [keys, List.map_cons, List.mem_cons, not_or] at h
    simp only [find, if_neg (Ne.symm h.1)]
    exact ih h.2

/-- What is found behind a slot in front. -/
theorem find_cons {key k : EventKey} {ls : List (Listener β)} {rest : Slots β}
    (hk : k ∉ rest.keys) : find key (cons k ls rest) = if k = key then ls else find key rest := by
  unfold cons
  split
  · rename_i hls
    split
    · -- a slot that is left out had no listener to be found
      rename_i hkey
      rw [find_of_notMem_keys (hkey ▸ hk), List.isEmpty_iff.mp hls]
    · rfl
  · rfl

/-- A registration comes last under its key. -/
theorem find_add (key key' : EventKey) (l : Listener β) (slots : Slots β) :
    find key' (add key l slots) =
      if key = key' then find key' slots ++ [l] else find key' slots := by
  induction slots with
  | nil => by_cases h : key = key' <;> simp [add, find, h]
  | cons s rest ih =>
    -- the listener goes to this slot, or to one behind it
    by_cases hk : s.1 = key
    · by_cases h : key = key' <;> simp [add, find, hk, h]
    · by_cases hk' : s.1 = key'
      · have h : ¬ key = key' := fun e => hk (hk'.trans e.symm)
        rw [add, if_neg hk, if_neg h, find, find, if_pos hk', if_pos hk']
      · simp [add, find, hk, hk', ih]

/-- A removal comes to nothing exactly if the listener is not registered under the key. -/
theorem take?_eq_none_iff {key : EventKey} {id : ListenerId} {slots : Slots β} :
    take? key id slots = none ↔ (find key slots).any (·.id = id) = false := by
  induction slots with
  | nil => simp [take?, find]
  | cons s rest ih =>
    -- only the slot of the key is searched
    by_cases hk : s.1 = key
    · by_cases h : s.2.any (·.id = id) = true <;> simp [take?, find, hk, h]
    · simp only [take?, find, if_neg hk, Option.map_eq_none_iff, ih]

/-- A removal takes the earliest registration under its key. -/
theorem find_take? {key : EventKey} {id : ListenerId} {slots slots' : Slots β} (ht : Tidy slots)
    (h : take? key id slots = some slots') (key' : EventKey) :
    find key' slots' =
      if key = key' then (find key' slots).eraseP (·.id = id) else find key' slots := by
  induction slots generalizing slots' with
  | nil => simp [take?] at h
  | cons s rest ih =>
    rw [take?] at h
    split at h
    · rename_i hk
      split at h
      · cases h
        -- the slot of the key loses the listener, and is taken out if that was the last
        rw [find_cons ht.notMem_keys, find, hk]
        split <;> rfl
      · cases h
    · rename_i hk
      obtain ⟨rest', hrest, rfl⟩ := Option.map_eq_some_iff.mp h
      simp only [find, ih ht.tail hrest]
      by_cases hk' : s.1 = key'
      · have hne : ¬ key = key' := fun e => hk (hk'.trans e.symm)
        simp only [hk', hne, if_true, if_false]
      · simp only [hk', if_false]

/-- A withdrawal takes a listener out under every key. -/
theorem find_strip {id : ListenerId} {slots : Slots β} (ht : Tidy slots) (key : EventKey) :
    find key (strip id slots) = (find key slots).filter (·.id ≠ id) := by
  induction slots with
  | nil => rfl
  | cons s rest ih =>
    rw [strip, find_cons fun hk => ht.notMem_keys (keys_strip_subset id rest hk), find,
      ih ht.tail]
    -- the slot that is left out is one in which nothing is found
    split <;> rfl

end Slots

/-- The listeners of a graph. No key is listed without a listener or twice. -/
structure Bus (β : Type) where
  slots : Slots β := []
  tidy : slots.Tidy := by exact Slots.tidy_nil

namespace Bus

variable {β : Type}

/-- The bus that nobody listens on. -/
def empty : Bus β := {}

instance : Inhabited (Bus β) := ⟨empty⟩

/-! ### Operations -/

/-- The registrations under a key, in order. -/
def listeners (b : Bus β) (key : EventKey) : List (Listener β) := b.slots.find key

/-- Registers a listener under a key. -/
def on (b : Bus β) (key : EventKey) (l : Listener β) : Bus β :=
  ⟨b.slots.add key l, Slots.tidy_add key l b.tidy⟩

/-- The bus without the earliest registration of a listener under a key, and whether there was
one. -/
def remove (b : Bus β) (key : EventKey) (id : ListenerId) : Bool × Bus β :=
  match h : b.slots.take? key id with
  | none => (false, b)
  | some slots => (true, ⟨slots, Slots.tidy_take? b.tidy h⟩)

/-- The bus without a listener, whatever it was registered under. -/
def withdraw (b : Bus β) (id : ListenerId) : Bus β :=
  ⟨b.slots.strip id, Slots.tidy_strip id b.tidy⟩

/-- How many registrations there are. -/
def size (b : Bus β) : Nat := b.slots.size

/-- Whether nobody listens. -/
def isEmpty (b : Bus β) : Bool := b.slots.isEmpty

/-! ### Laws -/

/-- Nobody listens on the empty bus. -/
@[simp] theorem listeners_empty (key : EventKey) : (empty : Bus β).listeners key = [] := rfl

/-- A registration comes last under its key and changes nothing under others. -/
theorem listeners_on (b : Bus β) (key key' : EventKey) (l : Listener β) :
    (b.on key l).listeners key' =
      if key = key' then b.listeners key' ++ [l] else b.listeners key' :=
  Slots.find_add key key' l b.slots

/-- A removal tells whether there was something to remove. -/
theorem fst_remove (b : Bus β) (key : EventKey) (id : ListenerId) :
    (b.remove key id).1 = (b.listeners key).any (·.id = id) := by
  unfold remove
  split
  · rename_i h
    exact (Slots.take?_eq_none_iff.mp h).symm
  · rename_i slots h
    -- something was taken out, so it was there
    cases hany : (b.listeners key).any (·.id = id) with
    | true => rfl
    | false => rw [Slots.take?_eq_none_iff.mpr hany] at h; cases h

/-- A removal takes out the earliest registration under its key and changes nothing under others. -/
theorem listeners_remove (b : Bus β) (key key' : EventKey) (id : ListenerId) :
    (b.remove key id).2.listeners key' =
      if key = key' then (b.listeners key').eraseP (·.id = id) else b.listeners key' := by
  unfold remove
  split
  · rename_i h
    -- nothing was taken out, and there is nothing to erase either
    have hany := Slots.take?_eq_none_iff.mp h
    by_cases hk : key = key'
    · subst hk
      rw [if_pos rfl]
      refine (List.eraseP_of_forall_not fun l hl hid => ?_).symm
      rw [List.any_eq_false] at hany
      exact hany l hl hid
    · rw [if_neg hk]
  · rename_i slots h
    exact Slots.find_take? b.tidy h key'

/-- After a withdrawal a listener is registered under no key. -/
theorem listeners_withdraw (b : Bus β) (id : ListenerId) (key : EventKey) :
    (b.withdraw id).listeners key = (b.listeners key).filter (·.id ≠ id) :=
  Slots.find_strip b.tidy key

/-- A bus of size zero is empty, since no slot is. -/
theorem isEmpty_iff (b : Bus β) : b.isEmpty = true ↔ b.size = 0 := by
  obtain ⟨slots, tidy⟩ := b
  cases slots with
  | nil => simp [isEmpty, size, Slots.size]
  | cons s rest =>
    -- no slot is empty, so the first one alone makes the size positive
    have hs : s.2.length ≠ 0 := by
      simpa using tidy.ne_nil s List.mem_cons_self
    simp only [isEmpty, List.isEmpty_cons, Bool.false_eq_true, size, Slots.size, false_iff]
    omega

end Bus

end Flowgraph
