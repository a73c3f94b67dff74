import Flowgraph.Builtin.Types
import Flowgraph.Proofs.Graph.Wiring
import Mathlib.Data.List.Induction

/-!
# What a registry holds after any registrations

A registry is asked for single types, with what makes their nodes run or without, and for all
built-in types at once, and any of this may be refused. What it holds then is known from the types
that were taken up on the way (`history`): each is found under the name in its description, and
nothing else is found. The lists that a registry gives are different views of the same types.

* `Registry.register_eq_ok_iff` — which types are taken up.
* `Registry.Holds.registerAll` — types registered one after another are held with those before.
* `Registry.partition_foldl` — the groups are a partition of the descriptions.
* `Registry.consistent_after` — what a registry is after any calls.
-/

namespace Flowgraph

/-- The check for repeated members passes exactly the types whose fields, and whose outputs, have
names of their own. -/
theorem NodeMetadata.repeatedMember_eq_none_iff {m : NodeMetadata} :
    m.repeatedMember = none ↔ m.Named := by
  refine ⟨named_of_repeatedMember, fun h => ?_⟩
  refine firstRepeated_eq_none_iff.mpr ⟨?_, fun _ _ => List.not_mem_nil⟩
  have hfields : (m.fields.map (MemberKind.field, ·.name)).Nodup :=
    List.Nodup.of_map Prod.snd (by rw [List.map_map]; exact h.fields)
  have houtputs : (m.outputs.map (MemberKind.output, ·.name)).Nodup :=
    List.Nodup.of_map Prod.snd (by rw [List.map_map]; exact h.outputs)
  refine List.nodup_append.mpr ⟨hfields, houtputs, fun a ha b hb hab => ?_⟩
  -- a field is no output, whatever the two are called
  obtain ⟨f, -, rfl⟩ := List.mem_map.mp ha
  obtain ⟨o, -, rfl⟩ := List.mem_map.mp hb
  cases hab

namespace Registry

variable {β : Type}

/-! ### Single registrations -/

/-- A type is taken up exactly if its name is free and its members have names of their own. -/
theorem register_eq_ok_iff {r r' : Registry β} {t : NodeType β} :
    r.register t = .ok r' ↔
      r.get? t.metadata.name = none ∧ t.metadata.Named ∧ r' = r.insert t.metadata.name t := by
  rw [register, StringMap.contains, ← NodeMetadata.repeatedMember_eq_none_iff]
  cases r.get? t.metadata.name with
  | some other =>
    constructor
    · intro h
      cases h
    · rintro ⟨h, -⟩
      cases h
  | none =>
    rw [if_neg (by simp)]
    -- the name is free, and what is left is whether a member has its name twice
    cases t.metadata.repeatedMember with
    | some member =>
      constructor
      · intro h
        cases h
      · rintro ⟨-, h, -⟩
        cases h
    | none => exact ⟨fun h => by cases h; exact ⟨rfl, rfl, rfl⟩, fun h => by rw [h.2.2]⟩

/-- A single type that is refused changes nothing. -/
theorem registerAll_single {r : Registry β} {t : NodeType β} {err : LoadError}
    (h : (r.registerAll [t]).2 = some err) : (r.registerAll [t]).1 = r := by
  rw [registerAll] at h ⊢
  cases hr : r.register t with
  | error err => rfl
  | ok r' =>
    rw [hr] at h
    cases h

/-- The types that are taken up of a list: all up to the first that is refused. -/
def taken (r : Registry β) : List (NodeType β) → List (NodeType β)
  | [] => []
  | t :: rest =>
    match r.register t with
    | .error _ => []
    | .ok r' => t :: taken r' rest

/-! ### What is held -/

/-- A registry holds exactly the given types, each under the name in its description. -/
structure Holds (r : Registry β) (ts : List (NodeType β)) : Prop where
  get?_eq_some_iff : ∀ name t, r.get? name = some t ↔ t ∈ ts ∧ t.metadata.name = name
  nodup : (ts.map (·.metadata.name)).Nodup
  named : ∀ t ∈ ts, t.metadata.Named

theorem holds_empty : Holds (∅ : StringMap (NodeType β)) [] where
  get?_eq_some_iff _ _ := ⟨nofun, nofun⟩
  nodup := .nil
  named := nofun

namespace Holds

variable {r : Registry β} {ts : List (NodeType β)} (h : Holds r ts)
include h

/-- A name is free as long as no type of that name is held. -/
theorem get?_eq_none_iff (name : String) :
    r.get? name = none ↔ ∀ t ∈ ts, t.metadata.name ≠ name := by
  rw [Option.eq_none_iff_forall_ne_some]
  constructor
  · exact fun hnone t ht hname => hnone t ((h.get?_eq_some_iff name t).mpr ⟨ht, hname⟩)
  · intro hall t ht
    obtain ⟨hmem, hname⟩ := (h.get?_eq_some_iff name t).mp ht
    exact hall t hmem hname

/-- **One more type is held** when it is taken up. -/
theorem register {r' : Registry β} {t : NodeType β} (hr : r.register t = .ok r') :
    Holds r' (ts ++ [t]) := by
  obtain ⟨hfree, hnamed, rfl⟩ := register_eq_ok_iff.mp hr
  have hnew := (h.get?_eq_none_iff _).mp hfree
  refine ⟨fun name t' => ?_, ?_, fun t' ht' => ?_⟩
  · rw [StringMap.get?_insert, List.mem_append, List.mem_singleton]
    by_cases hname : name = t.metadata.name
    · -- the name was free, so no type before has it
      rw [if_pos hname, Option.some.injEq]
      constructor
      · rintro rfl
        exact ⟨.inr rfl, hname.symm⟩
      · rintro ⟨ht' | rfl, hname'⟩
        · exact absurd (hname'.trans hname) (hnew t' ht')
        · rfl
    · rw [if_neg hname, h.get?_eq_some_iff]
      constructor
      · exact fun ht' => ⟨.inl ht'.1, ht'.2⟩
      · rintro ⟨ht' | rfl, hname'⟩
        · exact ⟨ht', hname'⟩
        · exact absurd hname'.symm hname
  · rw [List.map_append, List.nodup_append]
    refine ⟨h.nodup, List.nodup_singleton _, fun a ha b hb => ?_⟩
    obtain ⟨t', ht', rfl⟩ := List.mem_map.mp ha
    rw [List.mem_singleton.mp hb]
    exact hnew t' ht'
  · rcases List.mem_append.mp ht' with ht' | ht'
    · exact h.named t' ht'
    · exact List.mem_singleton.mp ht' ▸ hnamed

/-- **Types registered one after another** are held with those before, up to the first that is
refused. -/
theorem registerAll (types : List (NodeType β)) :
    Holds (r.registerAll types).1 (ts ++ taken r types) := by
  induction types generalizing r ts with
  | nil => rwa [taken, List.append_nil]
  | cons t rest ih =>
    rw [Registry.registerAll, taken]
    cases hr : r.register t with
    | error err => rwa [List.append_nil]
    | ok r' =>
      have hrest := ih (h.register hr)
      rwa [List.append_assoc] at hrest

/-! ### The views of a registry -/

theorem name_of_mem {name : String} {t : NodeType β} (ht : (name, t) ∈ r.entries) :
    t ∈ ts ∧ t.metadata.name = name :=
  (h.get?_eq_some_iff name t).mp (StringMap.mem_entries_iff.mp ht)

/-- The names that are listed are those of the descriptions that are listed. -/
theorem keys_eq : r.keys = r.allMetadata.map (·.name) := by
  rw [StringMap.keys, allMetadata, StringMap.values, List.map_map, List.map_map]
  exact List.map_congr_left fun e he => (h.name_of_mem he).2.symm

/-- The descriptions that are listed are those of the types held. -/
theorem perm_allMetadata : r.allMetadata.Perm (ts.map (·.metadata)) := by
  have hlisted : r.allMetadata.Nodup := List.Nodup.of_map (·.name) (h.keys_eq ▸ r.nodup_keys)
  have hheld : (ts.map (·.metadata)).Nodup :=
    List.Nodup.of_map (·.name) (by rw [List.map_map]; exact h.nodup)
  refine (List.perm_ext_iff_of_nodup hlisted hheld).mpr fun m => ?_
  rw [allMetadata, StringMap.values, List.map_map, List.mem_map, List.mem_map]
  constructor
  · rintro ⟨⟨name, t⟩, ht, rfl⟩
    exact ⟨t, (h.name_of_mem ht).1, rfl⟩
  · rintro ⟨t, ht, rfl⟩
    have hentry := StringMap.mem_entries_iff.mpr ((h.get?_eq_some_iff _ t).mpr ⟨ht, rfl⟩)
    exact ⟨_, hentry, rfl⟩

/-- Nodes can be made of the types that are held with what makes them run. -/
theorem instantiate_eq_ok_iff (nodeId name : String) (m : NodeMetadata) (b : β) :
    r.instantiate nodeId name = .ok (m, b) ↔ ⟨m, some b⟩ ∈ ts ∧ m.name = name := by
  rw [← h.get?_eq_some_iff name ⟨m, some b⟩, instantiate]
  cases r.get? name with
  | none => constructor <;> intro h <;> cases h
  | some t =>
    obtain ⟨m', behaviour⟩ := t
    cases behaviour with
    | none => constructor <;> intro h <;> cases h
    | some b' =>
      dsimp only
      rw [Except.ok.injEq, Option.some.injEq, Prod.mk.injEq, NodeType.mk.injEq, Option.some.injEq]

end Holds

theorem pairwise_keys (r : Registry β) : r.keys.Pairwise (· < ·) :=
  List.pairwise_map.mpr r.ascending

/-- What is found before registrations is found behind them, whatever they are. -/
theorem get?_registerAll {r : Registry β} {name : String} {t : NodeType β}
    (h : r.get? name = some t) (types : List (NodeType β)) :
    (r.registerAll types).1.get? name = some t := by
  induction types generalizing r with
  | nil => exact h
  | cons t' rest ih =>
    rw [registerAll]
    cases hr : r.register t' with
    | error err => exact h
    | ok r' =>
      obtain ⟨hfree, -, rfl⟩ := register_eq_ok_iff.mp hr
      refine ih ?_
      rw [StringMap.get?_insert_of_ne, h]
      -- the new name was free
      rintro rfl
      rw [hfree] at h
      cases h

/-! ### Groups -/

/-- Descriptions by group. A group has an entry when there is something in it. -/
abbrev Groups := List (NodeGroup × List NodeMetadata)

/-- Puts a description into its group, behind those that are there. -/
def Groups.add (m : NodeMetadata) : Groups → Groups
  | [] => [(m.group, [m])]
  | (g, ms) :: rest => if g = m.group then (g, ms ++ [m]) :: rest else (g, ms) :: add m rest

/-- The descriptions by group, as they get there one after another. -/
def grouped (r : Registry β) : Groups :=
  r.allMetadata.foldl (fun groups m => Groups.add m groups) []

/-- The groups are a partition of descriptions: no group has two entries, each entry holds the
descriptions of its group, in order, and together they hold each description once. -/
structure Groups.Partition (groups : Groups) (ms : List NodeMetadata) : Prop where
  nodup : (groups.map (·.1)).Nodup
  members : ∀ g, (groups.lookup g).getD [] = ms.filter (·.group = g)
  ne_nil : ∀ g, groups.lookup g ≠ some []
  perm : (groups.flatMap (·.2)).Perm ms

namespace Groups

theorem mem_keys_add {m : NodeMetadata} {groups : Groups} {g : NodeGroup}
    (h : g ∈ (groups.add m).map (·.1)) : g = m.group ∨ g ∈ groups.map (·.1) := by
  induction groups with
  | nil => exact .inl (List.mem_singleton.mp h)
  | cons e rest ih =>
    rw [add] at h
    split at h
    · exact .inr h
    · rcases List.mem_cons.mp h with rfl | h
      · exact .inr List.mem_cons_self
      · exact (ih h).imp_right (List.mem_cons_of_mem _)

theorem nodup_add {groups : Groups} (h : (groups.map (·.1)).Nodup) (m : NodeMetadata) :
    ((groups.add m).map (·.1)).Nodup := by
  induction groups with
  | nil => exact List.nodup_singleton _
  | cons e rest ih =>
    obtain ⟨hfirst, hrest⟩ := List.nodup_cons.mp h
    rw [add]
    split
    · exact h
    · next hne =>
      -- the entries behind gain no group but that of the description
      refine List.nodup_cons.mpr ⟨fun hmem => ?_, ih hrest⟩
      rcases mem_keys_add hmem with heq | hmem
      · exact hne heq
      · exact hfirst hmem

theorem perm_add (groups : Groups) (m : NodeMetadata) :
    ((groups.add m).flatMap (·.2)).Perm (groups.flatMap (·.2) ++ [m]) := by
  induction groups with
  | nil => exact .refl _
  | cons e rest ih =>
    rw [add]
    split
    · rw [List.flatMap_cons, List.flatMap_cons, List.append_assoc, List.append_assoc]
      exact List.perm_append_comm.append_left _
    · rw [List.flatMap_cons, List.flatMap_cons, List.append_assoc]
      exact ih.append_left _

theorem lookup_add (groups : Groups) (m : NodeMetadata) (g : NodeGroup) :
    (groups.add m).lookup g =
      if g = m.group then some ((groups.lookup g).getD [] ++ [m]) else groups.lookup g := by
  induction groups with
  | nil =>
    by_cases hg : g = m.group
    · rw [if_pos hg, hg, add, List.lookup_cons_self]
      rfl
    · rw [if_neg hg, add, List.lookup_cons, beq_false_of_ne hg]
  | cons e rest ih =>
    obtain ⟨g', ms⟩ := e
    rw [add]
    split
    · next hg' =>
      subst hg'
      by_cases hg : g = m.group
      · rw [if_pos hg, hg, List.lookup_cons_self, List.lookup_cons_self]
        rfl
      · rw [if_neg hg, List.lookup_cons, List.lookup_cons, beq_false_of_ne hg]
    · next hne =>
      by_cases hg : g = g'
      · -- an entry in front belongs to another group than the description
        subst hg
        rw [if_neg hne, List.lookup_cons_self, List.lookup_cons_self]
      · rw [List.lookup_cons, List.lookup_cons, beq_false_of_ne hg, ih]

/-- **One more description** is put where it belongs. -/
theorem Partition.add {groups : Groups} {ms : List NodeMetadata} (h : Partition groups ms)
    (m : NodeMetadata) : Partition (groups.add m) (ms ++ [m]) where
  nodup := nodup_add h.nodup m
  members g := by
    rw [lookup_add, List.filter_append]
    -- the new entry is in its own group and in no other
    by_cases hg : g = m.group
    · have hfilter : [m].filter (·.group = g) = [m] := by simp [hg]
      rw [if_pos hg, hfilter, Option.getD_some, h.members]
    · have hfilter : [m].filter (·.group = g) = [] := by simp [Ne.symm hg]
      rw [if_neg hg, hfilter, List.append_nil, h.members]
  ne_nil g := by
    rw [lookup_add]
    split
    · simp
    · exact h.ne_nil g
  perm := (perm_add groups m).trans (h.perm.append_right [m])

end Groups

/-- **The groups are a partition** of the descriptions that are put there. -/
theorem partition_foldl (ms : List NodeMetadata) :
    Groups.Partition (ms.foldl (fun groups m => Groups.add m groups) []) ms := by
  induction ms using List.reverseRec with
  | nil => exact ⟨.nil, fun _ => rfl, fun _ => nofun, .refl _⟩
  | append_singleton ms m ih =>
    rw [List.foldl_append]
    exact ih.add m

/-! ### After any calls -/

/-- What a registry is asked to take up. -/
inductive Call where
  | register (m : NodeMetadata) (b : Behaviour)
  /-- A description alone. -/
  | registerMetadata (m : NodeMetadata)
  | registerBuiltins (sink : Builtin.Sink)

/-- The types of a call, in the order in which they are registered. -/
def Call.types : Call → List (NodeType Behaviour)
  | .register m b => [⟨m, some b⟩]
  | .registerMetadata m => [⟨m, none⟩]
  | .registerBuiltins sink => Builtin.nodeTypes sink

/-- What a call leaves of a registry, and why a type was refused, if one was. -/
def Call.run (c : Call) (r : Registry Behaviour) : Registry Behaviour × Option LoadError :=
  r.registerAll c.types

/-- Whether a call is for a single type. -/
def Call.IsSingle (c : Call) : Prop := ∃ t, c.types = [t]

/-- What calls leave of a registry, one after another. -/
def after (r : Registry Behaviour) : List Call → Registry Behaviour
  | [] => r
  | c :: rest => after (c.run r).1 rest

/-- The types that are taken up in the course of calls. -/
def history (r : Registry Behaviour) : List Call → List (NodeType Behaviour)
  | [] => []
  | c :: rest => taken r c.types ++ history (c.run r).1 rest

theorem Holds.after {r : Registry Behaviour} {ts : List (NodeType Behaviour)} (h : Holds r ts)
    (calls : List Call) : Holds (r.after calls) (ts ++ r.history calls) := by
  induction calls generalizing r ts with
  | nil => rwa [history, List.append_nil]
  | cons c rest ih =>
    have hrest := ih (h.registerAll c.types)
    rwa [List.append_assoc] at hrest

/-- What is known of a registry with the types that it has taken up. -/
structure Consistent (r : Registry Behaviour) (ts : List (NodeType Behaviour)) : Prop where
  /-- A type is found under the name in its description, once it has been taken up. -/
  get?_eq_some_iff : ∀ name t, r.get? name = some t ↔ t ∈ ts ∧ t.metadata.name = name
  /-- Fields, and outputs, have names of their own. -/
  named : ∀ name t, r.get? name = some t →
    (t.metadata.fields.map (·.name)).Nodup ∧ (t.metadata.outputs.map (·.name)).Nodup
  /-- The next type is taken up exactly if its name is free and its members have such names. -/
  accepts_iff : ∀ t, (∃ r', r.register t = .ok r') ↔
    (∀ t' ∈ ts, t'.metadata.name ≠ t.metadata.name) ∧ t.metadata.Named
  /-- A call for a single type that is refused changes nothing. -/
  refused : ∀ c : Call, c.IsSingle → ∀ err, (c.run r).2 = some err → (c.run r).1 = r
  /-- No call replaces a type that is there. -/
  kept : ∀ (c : Call) name t, r.get? name = some t → (c.run r).1.get? name = some t
  /-- The names and the descriptions that are listed go together, and each is listed once. -/
  keys_eq : r.keys = r.allMetadata.map (·.name)
  ascending : r.keys.Pairwise (· < ·)
  perm : r.allMetadata.Perm (ts.map (·.metadata))
  grouped : r.grouped.Partition r.allMetadata
  inGroup : ∀ g, (r.grouped.lookup g).getD [] = r.inGroup g
  /-- Nodes can be made of the types that were taken up with what makes them run. -/
  instantiate_iff : ∀ nodeId name m b,
    r.instantiate nodeId name = .ok (m, b) ↔ ⟨m, some b⟩ ∈ ts ∧ m.name = name

/-- **A registry stays consistent**, whatever it is asked to take up. -/
theorem consistent_after (calls : List Call) :
    Consistent (after ∅ calls) (history ∅ calls) := by
  have h : Holds (after ∅ calls) (history ∅ calls) := holds_empty.after calls
  refine ⟨h.get?_eq_some_iff, fun name t ht => ?_, fun t => ?_, ?_, ?_, h.keys_eq,
    pairwise_keys _, h.perm_allMetadata, partition_foldl _, (partition_foldl _).members,
    h.instantiate_eq_ok_iff⟩
  · have hnamed := h.named t ((h.get?_eq_some_iff name t).mp ht).1
    exact ⟨hnamed.fields, hnamed.outputs⟩
  · rw [← h.get?_eq_none_iff]
    constructor
    · rintro ⟨r', hr⟩
      obtain ⟨hfree, hnamed, -⟩ := register_eq_ok_iff.mp hr
      exact ⟨hfree, hnamed⟩
    · rintro ⟨hfree, hnamed⟩
      exact ⟨_, register_eq_ok_iff.mpr ⟨hfree, hnamed, rfl⟩⟩
  · rintro c ⟨t, ht⟩ err herr
    rw [Call.run, ht] at herr ⊢
    exact registerAll_single herr
  · exact fun c name t ht => get?_registerAll ht c.types

end Registry

end Flowgraph
