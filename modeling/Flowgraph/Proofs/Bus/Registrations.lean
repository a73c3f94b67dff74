import Flowgraph.Bus

/-!
# The bus as a list of registrations

A bus keeps a slot for each key that someone waits for. Seen from outside it is a single list: the
registrations that are left, of all keys, in the order in which they were made. A registration goes
to the end of the list, a removal takes out the first entry of its listener under its key, and a
clearing leaves nothing. The slots are not to be seen, whatever order they stand in.

* `Bus.Mirrors` — a bus shows the registrations of a list, key by key, and their number.
* `Bus.Mirrors.step` — the same call to both leaves a bus that mirrors the list again, with the same
  answer.
* `Bus.ledger_of_calls` — what a bus is after any calls.
-/

namespace Flowgraph

variable {β : Type}

/-- A listener that is registered, and the key that it is registered under. -/
abbrev Registration (β : Type) := EventKey × Listener β

/-- Whether a registration is one of a listener under a key. -/
def Registration.concerns (key : EventKey) (id : ListenerId) (r : Registration β) : Bool :=
  decide (r.2.id = id) && decide (r.1 = key)

/-! ### How many registrations a bus holds -/

namespace Slots

theorem size_cons (key : EventKey) (ls : List (Listener β)) (rest : Slots β) :
    (cons key ls rest).size = ls.length + rest.size := by
  unfold cons
  split
  · next hls => rw [List.isEmpty_iff.mp hls, List.length_nil, Nat.zero_add]
  · rfl

theorem size_add (key : EventKey) (l : Listener β) (slots : Slots β) :
    (add key l slots).size = slots.size + 1 := by
  induction slots with
  | nil => rfl
  | cons s rest ih =>
    rw [add]
    split
    · rw [size, size, List.length_append, List.length_singleton]
      omega
    · rw [size, size, ih, Nat.add_assoc]

theorem size_take? {key : EventKey} {id : ListenerId} {slots slots' : Slots β}
    (h : take? key id slots = some slots') : slots'.size + 1 = slots.size := by
  induction slots generalizing slots' with
  | nil => cases h
  | cons s rest ih =>
    rw [take?] at h
    split at h
    · split at h
      · -- the listener is in this slot, and one is taken out
        next hany =>
        cases h
        obtain ⟨l, hl, hid⟩ := List.any_eq_true.mp hany
        have hpos : 0 < s.2.length := List.length_pos_of_mem hl
        rw [size_cons, size, List.length_eraseP_of_mem hl hid]
        omega
      · cases h
    · obtain ⟨rest', hrest, rfl⟩ := Option.map_eq_some_iff.mp h
      rw [size, size, ← ih hrest, Nat.add_assoc]

end Slots

namespace Bus

theorem size_on (b : Bus β) (key : EventKey) (l : Listener β) :
    (b.on key l).size = b.size + 1 :=
  Slots.size_add key l b.slots

/-- A removal takes out one registration, if it takes out any. -/
theorem size_remove (b : Bus β) (key : EventKey) (id : ListenerId) :
    (b.remove key id).2.size = if (b.remove key id).1 then b.size - 1 else b.size := by
  unfold remove
  split
  · rfl
  · next h => exact Nat.eq_sub_of_add_eq (Slots.size_take? h)

/-- A removal that takes nothing out leaves the bus as it is. -/
theorem remove_of_false {b : Bus β} {key : EventKey} {id : ListenerId}
    (h : (b.remove key id).1 = false) : (b.remove key id).2 = b := by
  unfold remove at h ⊢
  split at h
  · rfl
  · cases h

/-! ### Calls -/

/-- What a bus is asked to do. -/
inductive Call (β : Type) where
  | on (key : EventKey) (l : Listener β)
  | remove (key : EventKey) (id : ListenerId)
  | clear

/-- What a call leaves of a bus, and the answer, which only a removal gives. -/
def Call.run : Call β → Bus β → Bus β × Option Bool
  | .on key l, b => (b.on key l, none)
  | .remove key id, b => ((b.remove key id).2, some (b.remove key id).1)
  | .clear, _ => (empty, none)

/-- What the same call leaves of a list of registrations. -/
def Call.record : Call β → List (Registration β) → List (Registration β) × Option Bool
  | .on key l, rs => (rs ++ [(key, l)], none)
  | .remove key id, rs =>
    (rs.eraseP (Registration.concerns key id), some (rs.any (Registration.concerns key id)))
  | .clear, _ => ([], none)

/-- What calls leave, one after another, and their answers. -/
def inTurn {σ : Type} (step : Call β → σ → σ × Option Bool) :
    List (Call β) → σ → σ × List (Option Bool)
  | [], s => (s, [])
  | c :: rest, s =>
    let next := step c s
    let last := inTurn step rest next.1
    (last.1, next.2 :: last.2)

/-! ### What is to be seen of a list -/

/-- A bus shows the registrations of a list: those under each key, in order, and how many there
are. -/
structure Mirrors (rs : List (Registration β)) (b : Bus β) : Prop where
  listeners : ∀ key, b.listeners key = (rs.filter (·.1 = key)).map (·.2)
  size : b.size = rs.length

theorem mirrors_empty : Mirrors [] (empty : Bus β) :=
  ⟨fun _ => rfl, rfl⟩

/-- Under its key, an erasure takes out the first registration of the listener. -/
theorem filter_eraseP_same (key : EventKey) (id : ListenerId) (rs : List (Registration β)) :
    ((rs.eraseP (Registration.concerns key id)).filter (·.1 = key)).map (·.2) =
      ((rs.filter (·.1 = key)).map (·.2)).eraseP (·.id = id) := by
  rw [List.eraseP_map, List.eraseP_filter]
  rfl

/-- Under every other key, it takes out nothing. -/
theorem filter_eraseP_other {key key' : EventKey} (h : key ≠ key') (id : ListenerId)
    (rs : List (Registration β)) :
    (rs.eraseP (Registration.concerns key id)).filter (·.1 = key') = rs.filter (·.1 = key') := by
  rcases List.exists_or_eq_self_of_eraseP (Registration.concerns key id) rs with
    heq | ⟨r, before, after, -, hr, hrs, heq⟩
  · rw [heq]
  · -- the registration that goes is not among those under the other key
    have hkey : ¬ r.1 = key' := by
      rw [Registration.concerns, Bool.and_eq_true, decide_eq_true_eq, decide_eq_true_eq] at hr
      exact fun hkey => h (hr.2.symm.trans hkey)
    rw [heq, hrs, List.filter_append, List.filter_append, List.filter_cons_of_neg]
    simpa using hkey

namespace Mirrors

variable {rs : List (Registration β)} {b : Bus β} (h : Mirrors rs b)
include h

/-- A removal finds a registration in the bus exactly if there is one in the list. -/
theorem any_concerns (key : EventKey) (id : ListenerId) :
    rs.any (Registration.concerns key id) = (b.remove key id).1 := by
  rw [fst_remove, h.listeners key, List.any_map, List.any_filter]
  refine congrArg rs.any (funext fun r => ?_)
  exact Bool.and_comm ..

theorem on (key : EventKey) (l : Listener β) : Mirrors (rs ++ [(key, l)]) (b.on key l) where
  listeners key' := by
    rw [listeners_on, h.listeners key', List.filter_append, List.map_append]
    -- only what is listened to under this key becomes more
    by_cases hkey : key = key'
    · have hfilter : [(key, l)].filter (·.1 = key') = [(key, l)] := by simp [hkey]
      rw [if_pos hkey, hfilter, List.map_singleton]
    · have hfilter : [(key, l)].filter (·.1 = key') = [] := by simp [hkey]
      rw [if_neg hkey, hfilter, List.map_nil, List.append_nil]
  size := by rw [size_on, h.size, List.length_append, List.length_singleton]

theorem remove (key : EventKey) (id : ListenerId) :
    Mirrors (rs.eraseP (Registration.concerns key id)) (b.remove key id).2 where
  listeners key' := by
    rw [listeners_remove, h.listeners key']
    -- the first registration with the key and the listener is under this key
    by_cases hkey : key = key'
    · subst hkey
      rw [if_pos rfl, filter_eraseP_same]
    · rw [if_neg hkey, filter_eraseP_other hkey]
  size := by rw [size_remove, h.size, List.length_eraseP, h.any_concerns key id]

/-- **The same call to both** leaves a bus that mirrors the list again, with the same answer. -/
theorem step (c : Call β) :
    Mirrors (c.record rs).1 (c.run b).1 ∧ (c.record rs).2 = (c.run b).2 := by
  cases c with
  | on key l => exact ⟨h.on key l, rfl⟩
  | remove key id => exact ⟨h.remove key id, congrArg some (h.any_concerns key id)⟩
  | clear => exact ⟨mirrors_empty, rfl⟩

/-- And so do calls one after another. -/
theorem inTurn (calls : List (Call β)) :
    Mirrors (inTurn Call.record calls rs).1 (inTurn Call.run calls b).1 ∧
      (inTurn Call.record calls rs).2 = (inTurn Call.run calls b).2 := by
  induction calls generalizing rs b with
  | nil => exact ⟨h, rfl⟩
  | cons c rest ih =>
    -- each call is answered alike and leaves the two in step
    obtain ⟨hnext, hanswer⟩ := h.step c
    obtain ⟨hlast, hanswers⟩ := ih hnext
    exact ⟨hlast, List.cons_eq_cons.mpr ⟨hanswer, hanswers⟩⟩

end Mirrors

/-! ### After any calls -/

/-- A removal that answers yes has taken out the earliest registration of the listener under the
key. -/
theorem remove_iff (b : Bus β) (key : EventKey) (id : ListenerId) :
    (b.remove key id).1 = true ↔ ∃ before l after, b.listeners key = before ++ l :: after ∧
      l.id = id ∧ (∀ l' ∈ before, l'.id ≠ id) ∧
      (b.remove key id).2.listeners key = before ++ after := by
  rw [fst_remove, listeners_remove, if_pos rfl]
  constructor
  · intro hany
    obtain ⟨l, hl, hid⟩ := List.any_eq_true.mp hany
    -- the first of that number is the one that is taken out
    obtain ⟨l, before, after, hbefore, hid, hsplit, herase⟩ :=
      List.exists_of_eraseP (p := fun l => decide (l.id = id)) hl hid
    exact ⟨before, l, after, hsplit, of_decide_eq_true hid,
      fun l' hl' hid' => hbefore l' hl' (decide_eq_true hid'), herase⟩
  · rintro ⟨before, l, after, hsplit, hid, -⟩
    rw [hsplit]
    exact List.any_eq_true.mpr
      ⟨l, List.mem_append_right _ List.mem_cons_self, decide_eq_true hid⟩

/-- What is known of a bus after calls that left a list of registrations. -/
structure Ledger (calls : List (Call β)) (b : Bus β) (rs : List (Registration β)) : Prop where
  /-- Every removal so far has found a registration in the bus exactly if there was one left. -/
  answers : (inTurn Call.run calls empty).2 = (inTurn Call.record calls []).2
  /-- Under a key there are the registrations that are left of it, in order. -/
  listeners : ∀ key, b.listeners key = (rs.filter (·.1 = key)).map (·.2)
  size : b.size = rs.length
  isEmpty : b.isEmpty = true ↔ b.size = 0
  /-- A removal answers yes exactly if it takes a registration out, which is the earliest. -/
  removes : ∀ key id, (b.remove key id).1 = true ↔ ∃ before l after,
    b.listeners key = before ++ l :: after ∧ l.id = id ∧ (∀ l' ∈ before, l'.id ≠ id) ∧
      (b.remove key id).2.listeners key = before ++ after
  /-- Otherwise it changes nothing. -/
  refuses : ∀ key id, (b.remove key id).1 = false → (b.remove key id).2 = b
  /-- What is registered or removed under a key leaves the other keys alone. -/
  others : ∀ key key', key ≠ key' → (∀ l, (b.on key l).listeners key' = b.listeners key') ∧
    ∀ id, (b.remove key id).2.listeners key' = b.listeners key'

/-- **A bus is a list of registrations.** After any calls it shows the registrations that are left,
and has answered like the list. -/
theorem ledger_of_calls (calls : List (Call β)) :
    Ledger calls (inTurn Call.run calls empty).1 (inTurn Call.record calls []).1 := by
  obtain ⟨hmirrors, hanswers⟩ := mirrors_empty.inTurn calls
  refine ⟨hanswers.symm, hmirrors.listeners, hmirrors.size, isEmpty_iff _, remove_iff _,
    fun _ _ => remove_of_false, fun key key' hne => ⟨fun l => ?_, fun id => ?_⟩⟩
  · rw [listeners_on, if_neg hne]
  · rw [listeners_remove, if_neg hne]

end Bus

end Flowgraph
