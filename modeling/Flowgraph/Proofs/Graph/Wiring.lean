import Flowgraph.Engine.Lifecycle
import Mathlib.Data.List.Forall2
import Mathlib.Data.List.Nodup

/-!
# Which graphs can be wired

Wiring reads a stored graph entry by entry, looks up the type, goes through the outputs, through the
fields and through what the fields read, and last compares the name with those of the nodes before.
It stops at the first thing that is wrong. What comes of it can be said without following it: a
graph is wired exactly if it is well formed (`Context.WellFormed`), every node is then its type's
template with the stored state laid over it (`NodeMetadata.overlay`), and otherwise the error names
the first entry that keeps the graph from being well formed.

That relies on types whose fields and outputs have names of their own, which registration sees to
(`Registry.Registered`): a stored name stands for the first member of that name, and only that one
is wired.

* `NodeInstance.configure_settles` — a node is wired exactly if its state fits its type.
* `wireAfter_wired` — and a graph, if all its nodes are and have names of their own.
-/

namespace Flowgraph

/-! ### Registered types -/

/-- The registries that come about by registrations. -/
inductive Registry.Registered {β : Type} : Registry β → Prop
  | empty : Registry.Registered (∅ : StringMap (NodeType β))
  | register {r r' : Registry β} {t : NodeType β} (h : Registry.Registered r)
      (hr : r.register t = .ok r') : Registry.Registered r'

/-- All node types behave in a way. -/
def Registry.Behaves (P : Behaviour → Prop) (registry : Registry Behaviour) : Prop :=
  ∀ name t b, registry.get? name = some t → t.behaviour = some b → P b

theorem NodeMetadata.firstRepeated_eq_none_iff {α : Type} [DecidableEq α] {seen l : List α} :
    firstRepeated seen l = none ↔ l.Nodup ∧ ∀ a ∈ l, a ∉ seen := by
  induction l generalizing seen with
  | nil => simp [firstRepeated]
  | cons a rest ih =>
    rw [firstRepeated, List.nodup_cons, List.forall_mem_cons]
    by_cases ha : a ∈ seen
    · simp [ha]
    · rw [if_neg ha, ih]
      -- what is not among the elements seen and `a` is neither `a` nor seen
      constructor
      · rintro ⟨hrest, hseen⟩
        exact ⟨⟨fun hmem => hseen a hmem List.mem_cons_self, hrest⟩, ha,
          fun b hb hmem => hseen b hb (List.mem_cons_of_mem a hmem)⟩
      · rintro ⟨⟨hmem, hrest⟩, -, hseen⟩
        refine ⟨hrest, fun b hb hb' => ?_⟩
        rcases List.mem_cons.mp hb' with rfl | hb'
        · exact hmem hb
        · exact hseen b hb hb'

/-- The fields of a type, and its outputs, have names of their own. -/
structure NodeMetadata.Named (m : NodeMetadata) : Prop where
  fields : (m.fields.map (·.name)).Nodup
  outputs : (m.outputs.map (·.name)).Nodup

theorem NodeMetadata.named_of_repeatedMember {m : NodeMetadata} (h : m.repeatedMember = none) :
    m.Named := by
  obtain ⟨hmembers, -⟩ := firstRepeated_eq_none_iff.mp h
  have hfields : m.fields.map (MemberKind.field, ·.name) =
      (m.fields.map (·.name)).map (Prod.mk MemberKind.field) := by rw [List.map_map]; rfl
  have houtputs : m.outputs.map (MemberKind.output, ·.name) =
      (m.outputs.map (·.name)).map (Prod.mk MemberKind.output) := by rw [List.map_map]; rfl
  rw [members, hfields, houtputs, List.nodup_append] at hmembers
  exact ⟨hmembers.1.of_map, hmembers.2.1.of_map⟩

/-- A type stands under its own name, and its registration was accepted. -/
theorem Registry.Registered.of_get? {β : Type} {r : Registry β} (hr : r.Registered) {name : String}
    {t : NodeType β} (h : r.get? name = some t) :
    t.metadata.name = name ∧ ∃ r₀ r₁ : Registry β, r₀.register t = .ok r₁ := by
  induction hr with
  | empty => cases h
  | @register r r' t' _ hr ih =>
    by_cases hname : name = t'.metadata.name
    · rw [hname, register_name hr] at h
      obtain rfl := Option.some.inj h
      exact ⟨hname.symm, r, r', hr⟩
    · rw [get?_register_of_ne hr hname] at h
      exact ih h

/-- **Registered types have members with names of their own.** -/
theorem Registry.Registered.named {β : Type} {r : Registry β} (hr : r.Registered) {name : String}
    {t : NodeType β} (h : r.get? name = some t) : t.metadata.Named := by
  obtain ⟨-, r₀, r₁, hregister⟩ := hr.of_get? h
  -- the registration would have been refused otherwise
  unfold Registry.register at hregister
  split at hregister
  · cases hregister
  · split at hregister
    · cases hregister
    · next hnone => exact NodeMetadata.named_of_repeatedMember hnone

/-! ### Templates with a stored state laid over them -/

/-- The consumer with the stored text, if there is one. -/
def Consumer.overlay (stored : Option String) (c : Consumer) : Consumer :=
  { c with value := stored <|> c.value }

/-- The producer with the stored variable, if there is one. -/
def Producer.overlay (stored : Option String) (p : Producer) : Producer :=
  { p with name := stored <|> p.name }

/-- A field with what is stored laid over it. -/
def Field.overlay (s : FieldState) (f : Field) : Field :=
  { f with
    consumer := f.consumer.map (·.overlay s.consumer)
    producer := f.producer.map (·.overlay s.producer) }

/-- What is stored for a field: neither text nor variable, if it is not mentioned. -/
def NodeState.field (s : NodeState) (name : String) : FieldState := (s.fields.get? name).getD {}

/-- The node behind an output: none, if the output is not mentioned. -/
def NodeState.target (s : NodeState) (output : String) : Option String :=
  target? (s.outputs.get? output).join

/-- A node of a type with a stored state laid over the template. -/
def NodeMetadata.overlay (m : NodeMetadata) (id : String) (s : NodeState) : NodeInstance where
  id := id
  metadata := m
  fields := m.fields.map fun f => f.overlay (s.field f.name)
  outputs := m.outputs.map fun o =>
    { name := o.name, description := o.description, next := s.target o.name }

/-- The text that counts is the stored one, or else that of the template, or else the default. -/
theorem Consumer.raw_overlay (stored : Option String) (c : Consumer) :
    (c.overlay stored).raw = (stored <|> c.raw) := by
  cases stored <;> rfl

theorem Field.overlay_empty (f : Field) : f.overlay {} = f := by
  obtain ⟨name, consumer, producer⟩ := f
  cases consumer <;> cases producer <;> rfl

@[simp] theorem Field.overlay_name (s : FieldState) (f : Field) : (f.overlay s).name = f.name := rfl

/-! ### Well-formed graphs -/

/-- A stored field asks only for halves that the field has. -/
structure FieldState.Fits (s : FieldState) (f : Field) : Prop where
  consumer : s.consumer.isSome = true → f.consumer.isSome = true
  producer : s.producer.isSome = true → f.producer.isSome = true

/-- What is stored does not change which halves a field has. -/
theorem FieldState.fits_overlay (s t : FieldState) (f : Field) :
    s.Fits (f.overlay t) ↔ s.Fits f := by
  have hconsumer : (f.overlay t).consumer.isSome = f.consumer.isSome := Option.isSome_map
  have hproducer : (f.overlay t).producer.isSome = f.producer.isSome := Option.isSome_map
  constructor
  · intro h
    exact ⟨hconsumer ▸ h.consumer, hproducer ▸ h.producer⟩
  · intro h
    exact ⟨hconsumer ▸ h.consumer, hproducer ▸ h.producer⟩

/-- A stored state fits a type: it names outputs and fields of the type and halves that those fields
have, no required text is missing, and every text that counts passes its check. -/
structure NodeState.Fits (s : NodeState) (m : NodeMetadata) : Prop where
  outputs : ∀ name ∈ s.outputs.keys, ∃ o ∈ m.outputs, o.name = name
  fields : ∀ name ∈ s.fields.keys, ∃ f ∈ m.fields, f.name = name
  halves : ∀ f ∈ m.fields, (s.field f.name).Fits f
  required : ∀ f ∈ m.fields, ∀ c, f.consumer = some c → c.required = true →
    ((s.field f.name).consumer <|> c.raw).isSome = true
  valid : ∀ f ∈ m.fields, ∀ c, f.consumer = some c →
    (c.overlay (s.field f.name).consumer).check = .ok ()

/-- An entry names a registered type with a behaviour, and its state fits that type. -/
def NodeEntry.Fits (registry : Registry Behaviour) (e : NodeEntry) : Prop :=
  ∃ t b, registry.get? e.name = some t ∧ t.behaviour = some b ∧ e.state.Fits t.metadata

/-- The names of the nodes are distinct, and each entry fits its type. -/
structure Context.WellFormed (registry : Registry Behaviour) (c : Context) : Prop where
  distinct : c.ids.Nodup
  fits : ∀ e ∈ c.nodes, e.Fits registry

/-- The node that an entry becomes: its type's template with its state laid over it. -/
def NodeEntry.Becomes (registry : Registry Behaviour) (e : NodeEntry) (n : LiveNode) : Prop :=
  ∃ t b, registry.get? e.name = some t ∧ t.behaviour = some b ∧
    n = ⟨t.metadata.overlay e.id e.state, b⟩

/-- The node that an error is about. Errors of registrations are about none. -/
def LoadError.nodeId? : LoadError → Option String
  | .unknownNodeType nodeId _ => some nodeId
  | .noConstructor nodeId _ => some nodeId
  | .unknownOutput nodeId _ _ => some nodeId
  | .unknownField nodeId _ _ => some nodeId
  | .missingRequiredField nodeId _ _ => some nodeId
  | .invalidFieldValue nodeId _ => some nodeId
  | .duplicateNodeId nodeId => some nodeId
  | .duplicateNodeType _ => none
  | .duplicateMember _ _ _ => none

/-! ### Members by name -/

theorem StringMap.mem_entries_iff {α : Type} {m : StringMap α} {k : String} {v : α} :
    (k, v) ∈ m.entries ↔ m.get? k = some v := by
  obtain ⟨es, hes⟩ := m
  show (k, v) ∈ es ↔ es.lookup k = some v
  induction es with
  | nil => simp
  | cons e rest ih =>
    obtain ⟨k', v'⟩ := e
    obtain ⟨hlt, hrest⟩ := List.pairwise_cons.mp hes
    rw [List.mem_cons, List.lookup_cons]
    by_cases hk : k = k'
    · subst hk
      -- the key does not occur a second time
      have hmem : (k, v) ∉ rest := fun hmem => String.lt_irrefl k (hlt _ hmem)
      simp [hmem, eq_comm]
    · have hb : (k == k') = false := by simpa using hk
      simp [hk, hb, ih hrest]

theorem StringMap.nodup_keys {α : Type} (m : StringMap α) : (m.entries.map (·.1)).Nodup := by
  rw [List.Nodup, List.pairwise_map]
  have hlt : m.entries.Pairwise fun e e' => e.1 < e'.1 := m.ascending
  refine hlt.imp fun {e e'} h => ?_
  intro heq
  exact String.lt_irrefl e.1 (heq ▸ h)

section Members

variable {α β : Type} (name : α → String) (update : β → α → α)

/-- What becomes of a member when each entry of a list updates the member of its name. -/
def updated (es : List (String × β)) (a : α) : α :=
  match es.lookup (name a) with
  | none => a
  | some b => update b a

/-- Among members with names of their own, the first of a name is the only one. -/
theorem updateFirst_eq_map {l : List α} (h : (l.map name).Nodup) (k : String) (f : α → α) :
    NodeInstance.updateFirst (fun a => name a = k) f l =
      l.map fun a => if name a = k then f a else a := by
  induction l with
  | nil => rfl
  | cons a rest ih =>
    obtain ⟨ha, hrest⟩ := List.nodup_cons.mp h
    rw [NodeInstance.updateFirst, List.map_cons]
    by_cases hk : name a = k
    · -- no later member has the name, so the first is the only one
      have hother : ∀ b ∈ rest, (if name b = k then f b else b) = b := fun b hb =>
        if_neg fun hb' => ha (List.mem_map.mpr ⟨b, hb, hb'.trans hk.symm⟩)
      rw [if_pos (decide_eq_true hk), if_pos hk, List.map_congr_left hother, List.map_id']
    · rw [if_neg (by simpa using hk), if_neg hk, ih hrest]

/-- The first entry updates its member, and then the others theirs. -/
theorem map_updated_cons (hname : ∀ b a, name (update b a) = name a) {k : String} (b : β)
    {es : List (String × β)} (hk : k ∉ es.map (·.1)) (l : List α) :
    (l.map fun a => if name a = k then update b a else a).map (updated name update es) =
      l.map (updated name update ((k, b) :: es)) := by
  rw [List.map_map]
  refine List.map_congr_left fun a _ => ?_
  show updated name update es (if name a = k then update b a else a) = _
  rw [updated, updated, List.lookup_cons]
  -- a name that has just been updated does not come again
  by_cases ha : name a = k
  · have hlookup : es.lookup k = none := List.lookup_eq_none_iff.mpr fun e he =>
      bne_iff_ne.mpr fun hke => hk (List.mem_map.mpr ⟨e, he, hke.symm⟩)
    rw [if_pos ha, hname, ha, hlookup]
    simp
  · have hb : (name a == k) = false := by simpa using ha
    rw [if_neg ha, hb]

end Members

/-- An update that a view does not show is not seen in a list of views. -/
theorem NodeInstance.map_updateFirst {α β : Type} (view : α → β) {f : α → α}
    (hf : ∀ a, view (f a) = view a) (test : α → Bool) (l : List α) :
    (updateFirst test f l).map view = l.map view := by
  induction l with
  | nil => rfl
  | cons a rest ih =>
    rw [updateFirst]
    split
    · rw [List.map_cons, List.map_cons, hf]
    · rw [List.map_cons, List.map_cons, ih]

/-! ### Wiring a node -/

/-- How a step of the wiring ends: if a condition holds it leaves a node, and otherwise an error
about the node. -/
inductive Settles (P : Prop) (id : String) (n : NodeInstance) :
    NodeInstance × Option LoadError → Prop
  | accepted (h : P) : Settles P id n (n, none)
  | refused (h : ¬ P) (m : NodeInstance) {err : LoadError} (herr : err.nodeId? = some id) :
      Settles P id n (m, some err)

theorem Settles.of_eq {P : Prop} {id : String} {n m : NodeInstance} (h : P) (heq : m = n) :
    Settles P id n (m, none) := by
  rw [heq]
  exact .accepted h

theorem Settles.congr {P P' : Prop} {id : String} {n : NodeInstance}
    {r : NodeInstance × Option LoadError} (h : Settles P id n r) (hP : P ↔ P') :
    Settles P' id n r := by
  cases h with
  | accepted h => exact .accepted (hP.mp h)
  | refused h m herr => exact .refused (fun h' => h (hP.mpr h')) m herr

namespace NodeInstance

/-- The output with what is stored for it. -/
def pointTo (next : Option String) (o : Output) : Output := { o with next := target? next }

theorem output?_isNone_iff (n : NodeInstance) (name : String) :
    (n.output? name).isNone = true ↔ name ∉ n.outputs.map (·.name) := by
  rw [output?, Option.isNone_iff_eq_none, List.find?_eq_none]
  simp

/-- The outputs are wired exactly if all that are stored are declared. -/
theorem connectAll_settles (n : NodeInstance) (hn : (n.outputs.map (·.name)).Nodup)
    {es : List (String × Option String)} (hes : (es.map (·.1)).Nodup) :
    Settles (∀ e ∈ es, e.1 ∈ n.outputs.map (·.name)) n.id
      { n with outputs := n.outputs.map (updated Output.name pointTo es) } (n.connectAll es) := by
  induction es generalizing n with
  | nil =>
    have hid : n.outputs.map (updated Output.name pointTo []) = n.outputs := List.map_id' _
    rw [hid]
    exact .accepted (by simp)
  | cons e rest ih =>
    obtain ⟨name, next⟩ := e
    obtain ⟨hname, hrest⟩ := List.nodup_cons.mp hes
    rw [connectAll]
    split
    · next hnone =>
      refine .refused (fun h => ?_) n rfl
      exact (n.output?_isNone_iff name).mp hnone (h _ List.mem_cons_self)
    · next hsome =>
      have hdeclared : name ∈ n.outputs.map (·.name) := by
        by_contra hno
        exact hsome ((n.output?_isNone_iff name).mpr hno)
      have hout : (n.connect name next).outputs =
          n.outputs.map fun o => if o.name = name then pointTo next o else o :=
        updateFirst_eq_map Output.name hn name (pointTo next)
      -- the names of the outputs stay, so the others are looked up as before
      have hnames : (n.connect name next).outputs.map (·.name) = n.outputs.map (·.name) :=
        map_updateFirst Output.name (by intro o; rfl) _ n.outputs
      have hstep := ih (n.connect name next) (hnames ▸ hn) hrest
      rw [hnames, hout, map_updated_cons Output.name pointTo (fun _ _ => rfl) next hname] at hstep
      refine hstep.congr ?_
      rw [List.forall_mem_cons]
      exact ⟨fun h => ⟨hdeclared, h⟩, fun h => h.2⟩

/-! ### Fields -/

/-- The node with a stored state laid over the fields of a name. -/
def overlayField (n : NodeInstance) (name : String) (s : FieldState) : NodeInstance :=
  { n with fields := n.fields.map fun f => if f.name = name then f.overlay s else f }

theorem overlayField_names (n : NodeInstance) (name : String) (s : FieldState) :
    (n.overlayField name s).fields.map (·.name) = n.fields.map (·.name) := by
  rw [overlayField, List.map_map]
  refine List.map_congr_left fun f _ => ?_
  show (if f.name = name then f.overlay s else f).name = f.name
  split <;> rfl

theorem overlayField_empty (n : NodeInstance) (name : String) : n.overlayField name {} = n := by
  have hid : ∀ f ∈ n.fields, (if f.name = name then f.overlay {} else f) = f := fun f _ => by
    rw [Field.overlay_empty]
    exact ite_self f
  rw [overlayField, List.map_congr_left hid, List.map_id']

/-- The reading side first and then the publishing side is both at once. -/
theorem overlayField_overlayField (n : NodeInstance) (name : String)
    (text variableName : Option String) :
    (n.overlayField name ⟨text, none⟩).overlayField name ⟨none, variableName⟩ =
      n.overlayField name ⟨text, variableName⟩ := by
  rw [overlayField, overlayField, overlayField, List.map_map]
  congr 1
  refine List.map_congr_left fun f _ => ?_
  by_cases hf : f.name = name
  · obtain ⟨_, consumer, producer⟩ := f
    cases consumer <;> cases producer <;>
      simp_all [Field.overlay, Consumer.overlay, Producer.overlay]
  · simp [hf]

section Bind

variable {n : NodeInstance} (hn : (n.fields.map (·.name)).Nodup) (name : String)
include hn

theorem modifyField_eq {s : FieldState} {update : Field → Field} (h : ∀ f, update f = f.overlay s) :
    n.modifyField name update = n.overlayField name s := by
  obtain rfl : update = fun f => f.overlay s := funext h
  rw [modifyField, updateFirst_eq_map Field.name hn, overlayField]

theorem setValue_eq (text : String) :
    n.setValue name text = n.overlayField name ⟨some text, none⟩ := by
  refine modifyField_eq hn name fun f => ?_
  obtain ⟨_, consumer, producer⟩ := f
  cases producer <;> rfl

theorem setVariable_eq (variableName : String) :
    n.setVariable name variableName = n.overlayField name ⟨none, some variableName⟩ := by
  refine modifyField_eq hn name fun f => ?_
  obtain ⟨_, consumer, producer⟩ := f
  cases consumer <;> rfl

/-- The field that is found is the only one of its name. -/
theorem fits_iff_of_field? {f : Field} (hf : n.field? name = some f) (s : FieldState) :
    (∃ f ∈ n.fields, f.name = name ∧ s.Fits f) ↔ s.Fits f := by
  have hname : f.name = name := by simpa using List.find?_some hf
  have hmem : f ∈ n.fields := List.mem_of_find?_eq_some hf
  refine ⟨?_, fun h => ⟨f, hmem, hname, h⟩⟩
  rintro ⟨f', hmem', hname', h⟩
  rwa [List.inj_on_of_nodup_map hn hmem hmem' (hname.trans hname'.symm)]

/-- A field is wired exactly if it is declared and has the halves that are stored. -/
theorem bindField_settles (s : FieldState) :
    Settles (∃ f ∈ n.fields, f.name = name ∧ s.Fits f) n.id (n.overlayField name s)
      (n.bindField name s) := by
  obtain ⟨text, variableName⟩ := s
  unfold bindField
  cases hf : n.field? name with
  | none =>
    refine .refused ?_ n rfl
    rintro ⟨f, hmem, hname, -⟩
    simpa [hname] using List.find?_eq_none.mp hf f hmem
  | some f =>
    refine Settles.congr ?_ (fits_iff_of_field? hn name hf _).symm
    obtain ⟨fieldName, consumer, producer⟩ := f
    cases text with
    | none =>
      -- nothing is stored for the reading side
      cases variableName with
      | none =>
        show Settles _ _ _ (n, none)
        exact .of_eq ⟨nofun, nofun⟩ (overlayField_empty n name).symm
      | some v =>
        cases producer with
        | none =>
          show Settles _ _ _ (n, some _)
          exact .refused (fun h => nomatch h.producer rfl) n rfl
        | some p =>
          show Settles _ _ _ (n.setVariable name v, none)
          exact .of_eq ⟨nofun, fun _ => rfl⟩ (setVariable_eq hn name v)
    | some text =>
      cases consumer with
      | none =>
        show Settles _ _ _ (n, some _)
        exact .refused (fun h => nomatch h.consumer rfl) n rfl
      | some c =>
        have hvalue := setValue_eq hn name text
        cases variableName with
        | none =>
          show Settles _ _ _ (n.setValue name text, none)
          exact .of_eq ⟨fun _ => rfl, nofun⟩ hvalue
        | some v =>
          cases producer with
          | none =>
            show Settles _ _ _ (n.setValue name text, some _)
            exact .refused (fun h => nomatch h.producer rfl) _ rfl
          | some p =>
            show Settles _ _ _ ((n.setValue name text).setVariable name v, none)
            refine .of_eq ⟨fun _ => rfl, fun _ => rfl⟩ ?_
            rw [hvalue, setVariable_eq (overlayField_names n name _ ▸ hn),
              overlayField_overlayField]

end Bind

theorem exists_overlayField_iff (n : NodeInstance) (name : String) (s : FieldState) (k : String)
    (t : FieldState) :
    (∃ f ∈ (n.overlayField name s).fields, f.name = k ∧ t.Fits f) ↔
      ∃ f ∈ n.fields, f.name = k ∧ t.Fits f := by
  have hkept : ∀ f : Field, ((if f.name = name then f.overlay s else f).name = k ∧
      t.Fits (if f.name = name then f.overlay s else f)) ↔ (f.name = k ∧ t.Fits f) := by
    intro f
    split
    · rw [Field.overlay_name, FieldState.fits_overlay]
    · exact Iff.rfl
  simp only [overlayField, List.mem_map, exists_exists_and_eq_and, hkept]

/-- The fields are wired exactly if all that are stored are declared with those halves. -/
theorem bindAll_settles (n : NodeInstance) (hn : (n.fields.map (·.name)).Nodup)
    {es : List (String × FieldState)} (hes : (es.map (·.1)).Nodup) :
    Settles (∀ e ∈ es, ∃ f ∈ n.fields, f.name = e.1 ∧ e.2.Fits f) n.id
      { n with fields := n.fields.map (updated Field.name Field.overlay es) } (n.bindAll es) := by
  induction es generalizing n with
  | nil =>
    have hid : n.fields.map (updated Field.name Field.overlay []) = n.fields := List.map_id' _
    rw [hid]
    exact .accepted (by simp)
  | cons e rest ih =>
    obtain ⟨name, s⟩ := e
    obtain ⟨hname, hrest⟩ := List.nodup_cons.mp hes
    have hfirst := bindField_settles hn name s
    rw [bindAll]
    generalize n.bindField name s = r at hfirst ⊢
    cases hfirst with
    | refused h m herr => exact .refused (fun h' => h (h' _ List.mem_cons_self)) m herr
    | accepted h =>
      have hstep := ih (n.overlayField name s) (overlayField_names n name s ▸ hn) hrest
      have hfields : (n.overlayField name s).fields.map (updated Field.name Field.overlay rest) =
          n.fields.map (updated Field.name Field.overlay ((name, s) :: rest)) :=
        map_updated_cons Field.name Field.overlay (fun _ _ => rfl) s hname n.fields
      rw [hfields] at hstep
      refine hstep.congr ?_
      -- the other fields are looked up as before
      rw [List.forall_mem_cons]
      simp only [exists_overlayField_iff]
      exact ⟨fun h' => ⟨h, h'⟩, fun h' => h'.2⟩

/-! ### What fields read -/

theorem fieldFault?_settles (n : NodeInstance) (f : Field) :
    Settles (∀ c, f.consumer = some c → (c.required = true → c.isBound = true) ∧ c.check = .ok ())
      n.id n (n, n.fieldFault? f) := by
  unfold fieldFault?
  cases f.consumer with
  | none => exact .accepted nofun
  | some c =>
    simp only [Option.some.injEq, forall_eq']
    -- the text is asked for before it is checked
    split
    · next hunbound =>
      refine .refused (fun h => ?_) n rfl
      rw [Bool.and_eq_true, Bool.not_eq_true'] at hunbound
      rw [h.1 hunbound.1] at hunbound
      cases hunbound.2
    · next hbound =>
      have hbound : c.required = true → c.isBound = true := by simpa using hbound
      cases hcheck : c.check with
      | ok _ => exact .accepted ⟨hbound, rfl⟩
      | error fault => exact .refused (fun h => nomatch h.2) n rfl

theorem fieldsFault?_settles (n : NodeInstance) :
    Settles (∀ f ∈ n.fields, ∀ c, f.consumer = some c →
      (c.required = true → c.isBound = true) ∧ c.check = .ok ()) n.id n (n, n.fieldsFault?) := by
  cases hfault : n.fieldsFault? with
  | none =>
    refine .accepted fun f hf => ?_
    have hnone : n.fieldFault? f = none := List.findSome?_eq_none_iff.mp hfault f hf
    have h := n.fieldFault?_settles f
    rw [hnone] at h
    cases h with
    | accepted h => exact h
  | some err =>
    -- the fault is that of some field
    obtain ⟨f, hf, hsome⟩ := List.exists_of_findSome?_eq_some hfault
    have h := n.fieldFault?_settles f
    rw [hsome] at h
    cases h with
    | refused h _ herr => exact .refused (fun h' => h (h' f hf)) n herr

/-! ### Nodes -/

/-- The fields of a node, and its outputs, have names of their own. -/
structure Named (n : NodeInstance) : Prop where
  fields : (n.fields.map (·.name)).Nodup
  outputs : (n.outputs.map (·.name)).Nodup

theorem named_ofMetadata {m : NodeMetadata} (hm : m.Named) (id : String) :
    (ofMetadata id m).Named where
  fields := hm.fields
  outputs := by
    rw [ofMetadata, List.map_map]
    exact hm.outputs

/-- The node with a stored state laid over it. -/
def overlay (n : NodeInstance) (s : NodeState) : NodeInstance :=
  { n with
    fields := n.fields.map (updated Field.name Field.overlay s.fields.entries)
    outputs := n.outputs.map (updated Output.name pointTo s.outputs.entries) }

/-- A node takes a state: it has the outputs and the fields that are mentioned, the fields with the
halves that are stored for them, and reads no field amiss with the state laid over it. -/
structure Accepts (n : NodeInstance) (s : NodeState) : Prop where
  outputs : ∀ e ∈ s.outputs.entries, e.1 ∈ n.outputs.map (·.name)
  halves : ∀ e ∈ s.fields.entries, ∃ f ∈ n.fields, f.name = e.1 ∧ e.2.Fits f
  reads : ∀ f ∈ (n.overlay s).fields, ∀ c, f.consumer = some c →
    (c.required = true → c.isBound = true) ∧ c.check = .ok ()

/-- **A node is wired exactly if it takes the state**, and the state is then laid over it. -/
theorem configure_accepts {n : NodeInstance} (hn : n.Named) (s : NodeState) :
    Settles (n.Accepts s) n.id (n.overlay s) (n.configure s) := by
  -- outputs first, then fields, and what is read is checked last: one refusal for each
  have hout := connectAll_settles n hn.outputs s.outputs.nodup_keys
  rw [configure]
  generalize n.connectAll s.outputs.entries = r at hout ⊢
  cases hout with
  | refused h n' herr => exact .refused (fun h' => h h'.outputs) n' herr
  | accepted houtputs =>
    have hfield := bindAll_settles
      { n with outputs := n.outputs.map (updated Output.name pointTo s.outputs.entries) }
      hn.fields s.fields.nodup_keys
    dsimp only
    generalize NodeInstance.bindAll _ s.fields.entries = r at hfield ⊢
    cases hfield with
    | refused h n' herr => exact .refused (fun h' => h h'.halves) n' herr
    | accepted hhalves =>
      refine (fieldsFault?_settles (n.overlay s)).congr ?_
      exact ⟨fun h => ⟨houtputs, hhalves, h⟩, fun h => h.reads⟩

theorem updated_outputs (s : NodeState) (o : OutputSpec) :
    updated Output.name pointTo s.outputs.entries ⟨o.name, o.description, none⟩ =
      { name := o.name, description := o.description, next := s.target o.name } := by
  rw [updated, NodeState.target, StringMap.get?]
  cases s.outputs.entries.lookup o.name <;> rfl

theorem updated_fields (s : NodeState) (f : Field) :
    updated Field.name Field.overlay s.fields.entries f = f.overlay (s.field f.name) := by
  rw [updated, NodeState.field, StringMap.get?]
  cases s.fields.entries.lookup f.name with
  | none => exact f.overlay_empty.symm
  | some state => rfl

/-- The template after its outputs and fields were wired is the overlay. -/
theorem updated_eq_overlay (m : NodeMetadata) (id : String) (s : NodeState) :
    { ofMetadata id m with
      fields := m.fields.map (updated Field.name Field.overlay s.fields.entries)
      outputs := (ofMetadata id m).outputs.map (updated Output.name pointTo s.outputs.entries) } =
      m.overlay id s := by
  have hfields := List.map_congr_left (l := m.fields) fun f _ => updated_fields s f
  have houtputs : (ofMetadata id m).outputs.map (updated Output.name pointTo s.outputs.entries) =
      (m.overlay id s).outputs := by
    rw [ofMetadata, List.map_map]
    exact List.map_congr_left fun o _ => updated_outputs s o
  rw [hfields, houtputs]
  rfl

section Fits

variable {m : NodeMetadata} (s : NodeState)

theorem declared_iff (id : String) :
    (∀ e ∈ s.outputs.entries, e.1 ∈ (ofMetadata id m).outputs.map (·.name)) ↔
      ∀ name ∈ s.outputs.keys, ∃ o ∈ m.outputs, o.name = name := by
  simp [StringMap.keys, ofMetadata]

/-- The state of a field is the entry of its name. -/
theorem field_eq_of_mem {name : String} {state : FieldState}
    (h : (name, state) ∈ s.fields.entries) :
    s.field name = state := by
  rw [NodeState.field, StringMap.mem_entries_iff.mp h]
  rfl

theorem halves_iff {fields : List Field} (hfields : (fields.map (·.name)).Nodup) :
    (∀ e ∈ s.fields.entries, ∃ f ∈ fields, f.name = e.1 ∧ e.2.Fits f) ↔
      (∀ name ∈ s.fields.keys, ∃ f ∈ fields, f.name = name) ∧
        ∀ f ∈ fields, (s.field f.name).Fits f := by
  constructor
  · intro h
    refine ⟨fun name hname => ?_, fun f hf => ?_⟩
    · obtain ⟨e, he, rfl⟩ := List.mem_map.mp hname
      obtain ⟨f, hf, hfname, -⟩ := h e he
      exact ⟨f, hf, hfname⟩
    · cases hstate : s.fields.get? f.name with
      | none =>
        -- a field that is not mentioned asks for nothing
        rw [NodeState.field, hstate]
        exact ⟨nofun, nofun⟩
      | some state =>
        have hmem : (f.name, state) ∈ s.fields.entries := StringMap.mem_entries_iff.mpr hstate
        obtain ⟨f', hf', hname, hfits⟩ := h _ hmem
        rw [field_eq_of_mem s hmem, ← List.inj_on_of_nodup_map hfields hf' hf hname]
        exact hfits
  · rintro ⟨hdeclared, hfits⟩ ⟨name, state⟩ he
    obtain ⟨f, hf, rfl⟩ := hdeclared name (List.mem_map.mpr ⟨_, he, rfl⟩)
    exact ⟨f, hf, rfl, field_eq_of_mem s he ▸ hfits f hf⟩

theorem reads_iff (id : String) :
    (∀ f ∈ (m.overlay id s).fields, ∀ c, f.consumer = some c →
        (c.required = true → c.isBound = true) ∧ c.check = .ok ()) ↔
      ∀ f ∈ m.fields, ∀ c, f.consumer = some c →
        (c.required = true → ((s.field f.name).consumer <|> c.raw).isSome = true) ∧
          (c.overlay (s.field f.name).consumer).check = .ok () := by
  rw [NodeMetadata.overlay, List.forall_mem_map]
  refine forall₂_congr fun f _ => ?_
  -- the overlay changes the half that reads, and only where there is one
  cases hc : f.consumer with
  | none => simp [Field.overlay, hc]
  | some c =>
    have hconsumer : (f.overlay (s.field f.name)).consumer =
        some (c.overlay (s.field f.name).consumer) := by
      rw [Field.overlay, hc]
      rfl
    simp only [hconsumer, Option.some.injEq, forall_eq', Consumer.isBound, Consumer.raw_overlay]
    exact Iff.rfl

/-- The three parts of the wiring accept exactly what fits. -/
theorem fits_iff (hm : m.Named) (id : String) :
    s.Fits m ↔ (∀ e ∈ s.outputs.entries, e.1 ∈ (ofMetadata id m).outputs.map (·.name)) ∧
      (∀ e ∈ s.fields.entries, ∃ f ∈ m.fields, f.name = e.1 ∧ e.2.Fits f) ∧
      ∀ f ∈ (m.overlay id s).fields, ∀ c, f.consumer = some c →
        (c.required = true → c.isBound = true) ∧ c.check = .ok () := by
  rw [declared_iff, halves_iff s hm.fields, reads_iff]
  constructor
  · intro h
    exact ⟨h.outputs, ⟨h.fields, h.halves⟩,
      fun f hf c hc => ⟨h.required f hf c hc, h.valid f hf c hc⟩⟩
  · rintro ⟨houtputs, ⟨hfields, hhalves⟩, hreads⟩
    exact ⟨houtputs, hfields, hhalves, fun f hf c hc => (hreads f hf c hc).1,
      fun f hf c hc => (hreads f hf c hc).2⟩

end Fits

/-- **A node is wired exactly if its state fits its type**, and it is then its type's template with
the state laid over it. -/
theorem configure_settles {m : NodeMetadata} (hm : m.Named) (id : String) (s : NodeState) :
    Settles (s.Fits m) id (m.overlay id s) ((ofMetadata id m).configure s) := by
  have h := configure_accepts (named_ofMetadata hm id) s
  have hoverlay : (ofMetadata id m).overlay s = m.overlay id s := updated_eq_overlay m id s
  rw [hoverlay] at h
  refine h.congr ((fits_iff s hm id).trans ?_).symm
  rw [← hoverlay]
  exact ⟨fun h => ⟨h.1, h.2.1, h.2.2⟩, fun h => ⟨h.outputs, h.halves, h.reads⟩⟩

/-- **A stored node is built exactly if its state fits its type.** -/
theorem ofEntry_eq {m : NodeMetadata} (hm : m.Named) (e : NodeEntry) :
    (e.state.Fits m ∧ ofEntry e m = .ok (m.overlay e.id e.state)) ∨
      (¬ e.state.Fits m ∧ ∃ err, ofEntry e m = .error err ∧ err.nodeId? = some e.id) := by
  have h := configure_settles hm e.id e.state
  rw [ofEntry]
  generalize (ofMetadata e.id m).configure e.state = r at h ⊢
  cases h with
  | accepted h => exact .inl ⟨h, rfl⟩
  | refused h n herr => exact .inr ⟨h, _, rfl, herr⟩

end NodeInstance

/-! ### Wiring a graph -/

namespace Engine

variable {registry : Registry Behaviour}

/-- How the wiring of an entry ends: it fits and becomes a node, or it does not, and the error is
about it. -/
inductive EntryWired (registry : Registry Behaviour) (e : NodeEntry) :
    Except LoadError LiveNode → Prop
  | ok {n : LiveNode} (hfits : e.Fits registry) (hn : e.Becomes registry n) (hid : n.id = e.id) :
      EntryWired registry e (.ok n)
  | error {err : LoadError} (hfits : ¬ e.Fits registry) (herr : err.nodeId? = some e.id) :
      EntryWired registry e (.error err)

/-- The node of an entry, before its name is compared with the others. -/
def wireEntry (registry : Registry Behaviour) (e : NodeEntry) : Except LoadError LiveNode :=
  match registry.instantiate e.id e.name with
  | .error err => .error err
  | .ok (metadata, behaviour) =>
    match NodeInstance.ofEntry e metadata with
    | .error err => .error err
    | .ok node => .ok ⟨node, behaviour⟩

theorem wireEntry_wired (hr : registry.Registered) (e : NodeEntry) :
    EntryWired registry e (wireEntry registry e) := by
  rw [wireEntry, Registry.instantiate]
  -- an entry that fits does so for the type that is found
  have hunique : ∀ {t : NodeType Behaviour}, registry.get? e.name = some t → e.Fits registry →
      t.behaviour.isSome = true ∧ e.state.Fits t.metadata := by
    rintro t ht ⟨t', b, ht', hb, hfits⟩
    rw [ht] at ht'
    obtain rfl := Option.some.inj ht'
    exact ⟨hb ▸ rfl, hfits⟩
  cases htype : registry.get? e.name with
  | none =>
    show EntryWired registry e (.error (.unknownNodeType e.id e.name))
    refine .error ?_ rfl
    rintro ⟨t, b, ht, -⟩
    rw [htype] at ht
    cases ht
  | some t =>
    obtain ⟨m, behaviour⟩ := t
    cases behaviour with
    | none =>
      show EntryWired registry e (.error (.noConstructor e.id e.name))
      exact .error (fun hfits => nomatch (hunique htype hfits).1) rfl
    | some b =>
      dsimp only
      rcases NodeInstance.ofEntry_eq (hr.named htype) e with ⟨hfits, hok⟩ | ⟨hfits, err, herr, hid⟩
      · rw [hok]
        exact .ok ⟨_, b, htype, rfl, hfits⟩ ⟨_, b, htype, rfl, rfl⟩ rfl
      · rw [herr]
        exact .error (fun hfits' => hfits (hunique htype hfits').2) hid

theorem wireAfter_cons (nodes : List LiveNode) (e : NodeEntry) (rest : List NodeEntry) :
    wireAfter registry nodes (e :: rest) =
      match wireEntry registry e with
      | .error err => .error err
      | .ok n =>
        if n.id ∈ nodes.map (·.id) then .error (.duplicateNodeId n.id)
        else wireAfter registry (nodes ++ [n]) rest := by
  rw [wireAfter, wireEntry]
  cases registry.instantiate e.id e.name with
  | error err => rfl
  | ok built =>
    obtain ⟨m, b⟩ := built
    dsimp only
    cases NodeInstance.ofEntry e m with
    | error err => rfl
    | ok node =>
      -- the loop looks through the nodes, the statement through their names
      have hany : (nodes.any (·.id = node.id)) = true ↔ node.id ∈ nodes.map (·.id) := by
        simp
      dsimp only
      by_cases h : node.id ∈ nodes.map (·.id)
      · rw [if_pos (hany.mpr h)]
        exact (if_pos h).symm
      · rw [if_neg fun h' => h (hany.mp h')]
        exact (if_neg h).symm

/-- A name that is taken is refused, so names stay distinct. -/
theorem nodup_concat {nodes : List LiveNode} {n : LiveNode} (hnodes : (nodes.map (·.id)).Nodup)
    (hn : n.id ∉ nodes.map (·.id)) : ((nodes ++ [n]).map (·.id)).Nodup := by
  rw [List.map_append, List.nodup_append]
  refine ⟨hnodes, List.nodup_singleton _, ?_⟩
  rintro id hin _ hid rfl
  rw [List.map_singleton, List.mem_singleton] at hid
  exact hn (hid ▸ hin)

theorem nodup_of_wireAfter {nodes nodes' : List LiveNode} {entries : List NodeEntry}
    (hnodes : (nodes.map (·.id)).Nodup) (h : wireAfter registry nodes entries = .ok nodes') :
    (nodes'.map (·.id)).Nodup := by
  induction entries generalizing nodes with
  | nil =>
    cases h
    exact hnodes
  | cons e rest ih =>
    -- a name that is taken would have been refused
    rw [wireAfter_cons] at h
    split at h
    · cases h
    · split at h
      · cases h
      · next hn => exact ih (nodup_concat hnodes hn) h

/-- **The nodes of a graph that was wired have names of their own**, whatever the registry holds. -/
theorem nodup_of_wire {c : Context} {nodes : List LiveNode} (h : wire registry c = .ok nodes) :
    (nodes.map (·.id)).Nodup := by
  have hnil : (([] : List LiveNode).map (·.id)).Nodup := List.nodup_nil
  exact nodup_of_wireAfter hnil h

/-- What is true of how the types behave is true of how the nodes of a graph do that is wired. -/
theorem behaves_of_wireAfter {P : Behaviour → Prop} (hr : registry.Behaves P)
    {nodes nodes' : List LiveNode} {entries : List NodeEntry}
    (hnodes : ∀ n ∈ nodes, P n.behaviour) (h : wireAfter registry nodes entries = .ok nodes') :
    ∀ n ∈ nodes', P n.behaviour := by
  induction entries generalizing nodes with
  | nil =>
    cases h
    exact hnodes
  | cons entry rest ih =>
    rw [wireAfter, Registry.instantiate] at h
    cases htype : registry.get? entry.name with
    | none => rw [htype] at h; cases h
    | some t =>
      rw [htype] at h
      obtain ⟨metadata, behaviour⟩ := t
      cases behaviour with
      | none => cases h
      | some b =>
        dsimp only at h
        split at h
        · cases h
        · split at h
          · cases h
          · -- the new node does what its type says
            refine ih (List.forall_mem_append.mpr ⟨hnodes, ?_⟩) h
            exact List.forall_mem_singleton.mpr (hr _ _ b htype rfl)

theorem behaves_of_wire {P : Behaviour → Prop} (hr : registry.Behaves P) {c : Context}
    {nodes : List LiveNode} (h : wire registry c = .ok nodes) : ∀ n ∈ nodes, P n.behaviour :=
  behaves_of_wireAfter hr (List.forall_mem_nil _) h

/-- How the wiring of a graph ends, behind nodes that are wired: all entries become nodes, with
names of their own, or there is a first one that does not fit or whose name is taken. -/
inductive Wired (registry : Registry Behaviour) (nodes : List LiveNode) (entries : List NodeEntry) :
    Except LoadError (List LiveNode) → Prop
  | ok {new : List LiveNode} (hfits : ∀ e ∈ entries, e.Fits registry)
      (hnew : List.Forall₂ (NodeEntry.Becomes registry) entries new)
      (hids : new.map (·.id) = entries.map (·.id))
      (hdistinct : ((nodes ++ new).map (·.id)).Nodup) :
      Wired registry nodes entries (.ok (nodes ++ new))
  | error (before after : List NodeEntry) {e : NodeEntry} {err : LoadError}
      (hentries : entries = before ++ e :: after) (hfits : ∀ e ∈ before, e.Fits registry)
      (hdistinct : (nodes.map (·.id) ++ before.map (·.id)).Nodup)
      (he : e.Fits registry → e.id ∈ nodes.map (·.id) ++ before.map (·.id))
      (herr : err.nodeId? = some e.id) : Wired registry nodes entries (.error err)

theorem Wired.nil {nodes : List LiveNode} (hnodes : (nodes.map (·.id)).Nodup) :
    Wired registry nodes [] (.ok nodes) := by
  have h : Wired registry nodes [] (.ok (nodes ++ [])) :=
    .ok nofun .nil rfl (by rw [List.append_nil]; exact hnodes)
  rwa [List.append_nil] at h

/-- The first entry is refused. -/
theorem Wired.refused {nodes : List LiveNode} {e : NodeEntry} {err : LoadError}
    (hnodes : (nodes.map (·.id)).Nodup) (he : e.Fits registry → e.id ∈ nodes.map (·.id))
    (herr : err.nodeId? = some e.id) (rest : List NodeEntry) :
    Wired registry nodes (e :: rest) (.error err) := by
  refine .error [] rest rfl nofun ?_ ?_ herr
  · rw [List.map_nil, List.append_nil]
    exact hnodes
  · rw [List.map_nil, List.append_nil]
    exact he

/-- The first entry becomes a node, behind which the others are wired. -/
theorem Wired.cons {nodes : List LiveNode} {e : NodeEntry} {rest : List NodeEntry} {n : LiveNode}
    {r : Except LoadError (List LiveNode)} (hfits : e.Fits registry) (hn : e.Becomes registry n)
    (hid : n.id = e.id) (h : Wired registry (nodes ++ [n]) rest r) :
    Wired registry nodes (e :: rest) r := by
  cases h with
  | @ok new hfits' hnew hids hdistinct =>
    rw [List.append_assoc] at hdistinct ⊢
    refine .ok ?_ (.cons hn hnew) ?_ hdistinct
    · exact List.forall_mem_cons.mpr ⟨hfits, hfits'⟩
    · rw [List.singleton_append, List.map_cons, List.map_cons, hid, hids]
  | @error before after e' err hentries hfits' hdistinct he' herr =>
    -- the entry joins those in front of the one that is refused
    have hcons : nodes.map (·.id) ++ (e :: before).map (·.id) =
        (nodes ++ [n]).map (·.id) ++ before.map (·.id) := by
      rw [List.map_append, List.append_assoc, List.map_cons, List.map_singleton, hid]
      rfl
    refine .error (e :: before) after ?_ ?_ ?_ ?_ herr
    · rw [hentries]
      rfl
    · exact List.forall_mem_cons.mpr ⟨hfits, hfits'⟩
    · rw [hcons]
      exact hdistinct
    · rw [hcons]
      exact he'

/-- **The wiring of a graph**, entry by entry behind the nodes that are wired already. -/
theorem wireAfter_wired (hr : registry.Registered) (nodes : List LiveNode)
    (entries : List NodeEntry) (hnodes : (nodes.map (·.id)).Nodup) :
    Wired registry nodes entries (wireAfter registry nodes entries) := by
  induction entries generalizing nodes with
  | nil => exact .nil hnodes
  -- an entry goes in behind the nodes there are, so the induction is over any such list
  | cons e rest ih =>
    rw [wireAfter_cons]
    have hentry := wireEntry_wired hr e
    generalize wireEntry registry e = r at hentry ⊢
    cases hentry with
    | error hfits herr => exact .refused hnodes (fun h => absurd h hfits) herr rest
    | @ok n hfits hn hid =>
      dsimp only
      split
      · next hmem =>
        have htaken : (LoadError.duplicateNodeId n.id).nodeId? = some e.id := congrArg some hid
        exact .refused hnodes (fun _ => hid ▸ hmem) htaken rest
      · next hmem => exact .cons hfits hn hid (ih (nodes ++ [n]) (nodup_concat hnodes hmem))

end Engine

end Flowgraph
