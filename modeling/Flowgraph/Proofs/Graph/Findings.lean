import Flowgraph.Proofs.Graph.Wiring
import Flowgraph.Graph.Validation

/-!
# Findings and wiring

Two functions judge a stored graph. Wiring builds the nodes one after another and stops at the first
thing that is wrong; findings are collected from the descriptions of the types alone and list
everything. So both can be compared only through what they accept, and that is said here without
following either: a graph has no fatal finding exactly if its names are distinct and its entries are
*declared*, and it is well formed exactly if besides that its entries are *sound*, which no finding
is about.

* `Context.passes_iff` — what it takes to have no fatal finding.
* `Context.wellFormed_iff` — what wiring asks for beyond that.
* `Engine.mem_findings_of_wire` — an error of the wiring for which there is a kind of findings is
  among the findings.
-/

namespace Flowgraph

variable {registry : Registry Behaviour} {c : Context}

/-! ### What findings look at -/

/-- A stored state mentions only outputs and fields of a type, and supplies the texts that have to
be there. -/
structure NodeState.Declared (s : NodeState) (m : NodeMetadata) : Prop where
  outputs : ∀ name ∈ s.outputs.keys, ∃ o ∈ m.outputs, o.name = name
  fields : ∀ name ∈ s.fields.keys, ∃ f ∈ m.fields, f.name = name
  required : ∀ f ∈ m.fields, ∀ c, f.consumer = some c → c.required = true →
    ((s.field f.name).consumer <|> c.raw).isSome = true

/-- A stored state asks only for halves that the fields have, and every text that counts passes its
check. -/
structure NodeState.Sound (s : NodeState) (m : NodeMetadata) : Prop where
  halves : ∀ f ∈ m.fields, (s.field f.name).Fits f
  valid : ∀ f ∈ m.fields, ∀ c, f.consumer = some c →
    (c.overlay (s.field f.name).consumer).check = .ok ()

theorem NodeState.fits_iff_declared {s : NodeState} {m : NodeMetadata} :
    s.Fits m ↔ s.Declared m ∧ s.Sound m := by
  constructor
  · intro h
    exact ⟨⟨h.outputs, h.fields, h.required⟩, ⟨h.halves, h.valid⟩⟩
  · rintro ⟨hd, hs⟩
    exact ⟨hd.outputs, hd.fields, hs.halves, hd.required, hs.valid⟩

/-- An entry names a registered type, and its state is declared there. -/
def NodeEntry.Declared (registry : Registry Behaviour) (e : NodeEntry) : Prop :=
  ∃ t, registry.get? e.name = some t ∧ e.state.Declared t.metadata

/-- The type of an entry, if it is registered at all, has a behaviour, and the state is sound. -/
def NodeEntry.Sound (registry : Registry Behaviour) (e : NodeEntry) : Prop :=
  ∀ t, registry.get? e.name = some t → t.behaviour.isSome = true ∧ e.state.Sound t.metadata

theorem NodeEntry.fits_iff {e : NodeEntry} :
    e.Fits registry ↔ e.Declared registry ∧ e.Sound registry := by
  constructor
  · rintro ⟨t, b, ht, hb, hfits⟩
    obtain ⟨hd, hs⟩ := NodeState.fits_iff_declared.mp hfits
    refine ⟨⟨t, ht, hd⟩, fun t' ht' => ?_⟩
    rw [ht] at ht'
    obtain rfl := Option.some.inj ht'
    exact ⟨hb ▸ rfl, hs⟩
  · -- the declared type is the sound one, since a name has one type
    rintro ⟨⟨t, ht, hd⟩, hsound⟩
    obtain ⟨hb, hs⟩ := hsound t ht
    obtain ⟨b, hb⟩ := Option.isSome_iff_exists.mp hb
    exact ⟨t, b, ht, hb, NodeState.fits_iff_declared.mpr ⟨hd, hs⟩⟩

/-- A graph without fatal findings. -/
def Context.Passes (registry : Registry Behaviour) (c : Context) : Prop :=
  ∀ f ∈ c.findings (some registry.metadata?), f.isFatal = false

/-! ### Repeated names -/

namespace Context

/-- A name that stands before is found again. -/
theorem mem_repeated {seen before after : List String} {a : String} (h : a ∈ seen ++ before) :
    a ∈ repeated seen (before ++ a :: after) := by
  -- the names in front go one by one to those that were seen
  induction before generalizing seen with
  | nil =>
    rw [List.append_nil] at h
    rw [List.nil_append, repeated, if_pos h]
    exact List.mem_cons_self
  | cons b before ih =>
    rw [List.cons_append, repeated]
    split
    · next hb =>
      -- what was seen stays seen
      refine List.mem_cons_of_mem _ (ih ?_)
      rcases List.mem_append.mp h with h | h
      · exact List.mem_append_left _ h
      · rcases List.mem_cons.mp h with rfl | h
        · exact List.mem_append_left _ hb
        · exact List.mem_append_right _ h
    · refine ih ?_
      rcases List.mem_append.mp h with h | h
      · exact List.mem_append_left _ (List.mem_cons_of_mem _ h)
      · rcases List.mem_cons.mp h with rfl | h
        · exact List.mem_append_left _ List.mem_cons_self
        · exact List.mem_append_right _ h

theorem repeated_eq_nil_iff {seen l : List String} :
    repeated seen l = [] ↔ l.Nodup ∧ ∀ a ∈ l, a ∉ seen := by
  rw [← NodeMetadata.firstRepeated_eq_none_iff]
  induction l generalizing seen with
  | nil => exact iff_of_true rfl rfl
  | cons a rest ih =>
    rw [repeated, NodeMetadata.firstRepeated]
    split
    · constructor <;> intro h <;> cases h
    · exact ih

/-! ### Findings on a node -/

/-- What may be found on a node of a known type. -/
inductive Found (n : NodeEntry) (m : NodeMetadata) : Finding → Prop
  | output {name : String} (hkey : name ∈ n.state.outputs.keys)
      (hno : ¬ ∃ o ∈ m.outputs, o.name = name) : Found n m (.unknownOutput n.id name)
  | field {name : String} (hkey : name ∈ n.state.fields.keys)
      (hno : ¬ ∃ f ∈ m.fields, f.name = name) : Found n m (.unknownField n.id name)
  | required {f : Field} {c : Consumer} (hf : f ∈ m.fields) (hc : f.consumer = some c)
      (hr : c.required = true) (hnone : ((n.state.field f.name).consumer <|> c.raw) = none) :
      Found n m (.missingRequiredValue n.id f.name)

theorem isNone_findOutput_iff (m : NodeMetadata) (name : String) :
    (m.findOutput name).isNone = true ↔ ¬ ∃ o ∈ m.outputs, o.name = name := by
  simp [NodeMetadata.findOutput, List.find?_eq_none]

theorem isNone_findField_iff (m : NodeMetadata) (name : String) :
    (m.findField name).isNone = true ↔ ¬ ∃ f ∈ m.fields, f.name = name := by
  simp [NodeMetadata.findField, List.find?_eq_none]

/-- A text is missing if none is stored and the template has none either. -/
theorem missing_iff (s : NodeState) (f : Field) (c : Consumer) :
    (c.required && !(match s.fields.get? f.name with
        | none => false
        | some s => s.consumer.isSome) && !c.isBound) = true ↔
      c.required = true ∧ ((s.field f.name).consumer <|> c.raw) = none := by
  rw [NodeState.field, Consumer.isBound]
  cases s.fields.get? f.name with
  | none => simp
  | some stored => simp [and_assoc]

theorem mem_memberFindings_iff {n : NodeEntry} {m : NodeMetadata} {f : Finding} :
    f ∈ memberFindings n m ↔ Found n m f := by
  rw [memberFindings, List.mem_append, List.mem_append, List.mem_map, List.mem_map,
    List.mem_filterMap]
  constructor
  · -- a member that is not declared, or a field without what it requires
    rintro ((⟨name, hname, rfl⟩ | ⟨name, hname, rfl⟩) | ⟨field, hfield, hf⟩)
    · obtain ⟨hkey, hno⟩ := List.mem_filter.mp hname
      exact .output hkey ((isNone_findOutput_iff m name).mp hno)
    · obtain ⟨hkey, hno⟩ := List.mem_filter.mp hname
      exact .field hkey ((isNone_findField_iff m name).mp hno)
    · split at hf
      · cases hf
      · next c hc =>
        by_cases hmissing : c.required = true ∧
            ((n.state.field field.name).consumer <|> c.raw) = none
        · have hsome := (if_pos ((missing_iff n.state field c).mpr hmissing)).symm.trans hf
          cases hsome
          exact .required hfield hc hmissing.1 hmissing.2
        · have hnone := (if_neg (mt (missing_iff n.state field c).mp hmissing)).symm.trans hf
          cases hnone
  · rintro (⟨hkey, hno⟩ | ⟨hkey, hno⟩ | ⟨hfield, hc, hr, hnone⟩)
    · refine .inl (.inl ⟨_, List.mem_filter.mpr ⟨hkey, ?_⟩, rfl⟩)
      exact (isNone_findOutput_iff m _).mpr hno
    · refine .inl (.inr ⟨_, List.mem_filter.mpr ⟨hkey, ?_⟩, rfl⟩)
      exact (isNone_findField_iff m _).mpr hno
    · refine .inr ⟨_, hfield, ?_⟩
      rw [hc]
      exact if_pos ((missing_iff n.state _ _).mpr ⟨hr, hnone⟩)

/-- Nothing is found exactly on the nodes whose state is declared. -/
theorem declared_iff_not_found {n : NodeEntry} {m : NodeMetadata} :
    n.state.Declared m ↔ ∀ f, ¬ Found n m f := by
  constructor
  · intro h f hf
    cases hf with
    | output hkey hno => exact hno (h.outputs _ hkey)
    | field hkey hno => exact hno (h.fields _ hkey)
    | required hf hc hr hnone =>
      have hsome := h.required _ hf _ hc hr
      rw [hnone] at hsome
      cases hsome
  · -- each kind of finding stands for one way of mentioning what is not there
    intro h
    constructor
    · intro name hkey
      by_contra hno
      exact h _ (.output hkey hno)
    · intro name hkey
      by_contra hno
      exact h _ (.field hkey hno)
    · intro f hf c hc hr
      by_contra hno
      exact h _ (.required hf hc hr (by simpa using hno))

theorem typeFindings_of_get? {n : NodeEntry} {t : NodeType Behaviour}
    (h : registry.get? n.name = some t) :
    typeFindings registry.metadata? n = memberFindings n t.metadata := by
  rw [typeFindings, Registry.metadata?, h]
  rfl

theorem typeFindings_of_none {n : NodeEntry} (h : registry.get? n.name = none) :
    typeFindings registry.metadata? n = [.unknownNodeType n.id n.name] := by
  rw [typeFindings, Registry.metadata?, h]
  rfl

theorem typeFindings_eq_nil_iff {n : NodeEntry} :
    typeFindings registry.metadata? n = [] ↔ n.Declared registry := by
  rw [NodeEntry.Declared]
  cases htype : registry.get? n.name with
  | none =>
    rw [typeFindings_of_none htype]
    simp
  | some t =>
    rw [typeFindings_of_get? htype, List.eq_nil_iff_forall_not_mem]
    simp only [mem_memberFindings_iff, Option.some.injEq, exists_eq_left', declared_iff_not_found]

/-- Whatever is found on a node against its type is fatal. -/
theorem isFatal_of_mem_typeFindings {n : NodeEntry} {f : Finding}
    (h : f ∈ typeFindings registry.metadata? n) : f.isFatal = true := by
  cases htype : registry.get? n.name with
  | none =>
    rw [typeFindings_of_none htype, List.mem_singleton] at h
    rw [h]
    rfl
  | some t =>
    rw [typeFindings_of_get? htype] at h
    cases mem_memberFindings_iff.mp h with
    | output _ _ => rfl
    | field _ _ => rfl
    | required _ _ _ _ => rfl

/-! ### Findings on a graph -/

theorem mem_findings_iff {f : Finding} :
    f ∈ c.findings (some registry.metadata?) ↔
      f ∈ (repeated [] c.ids).map .duplicateNodeId ∨
        f ∈ c.brokenLinks ++ (if c.hasCycle then [.cycleDetected] else []) ∨
        ∃ n ∈ c.nodes, f ∈ typeFindings registry.metadata? n := by
  rw [findings, shapeFindings, List.append_assoc, List.append_assoc, List.mem_append,
    ← List.append_assoc, List.mem_append, List.mem_flatMap]

/-- Links that lead nowhere and cycles are reported and no more. -/
theorem isFatal_of_mem_links {f : Finding}
    (h : f ∈ c.brokenLinks ++ (if c.hasCycle then [.cycleDetected] else [])) :
    f.isFatal = false := by
  rcases List.mem_append.mp h with h | h
  · obtain ⟨l, -, rfl⟩ := List.mem_map.mp h
    rfl
  · split at h
    · rw [List.mem_singleton.mp h]
      rfl
    · cases h

/-- **A graph has no fatal finding** exactly if its names are distinct and its entries declared. -/
theorem passes_iff : c.Passes registry ↔ c.ids.Nodup ∧ ∀ e ∈ c.nodes, e.Declared registry := by
  have hids : c.ids.Nodup ↔ repeated [] c.ids = [] := by
    rw [repeated_eq_nil_iff]
    simp
  rw [hids]
  simp only [← typeFindings_eq_nil_iff]
  constructor
  · intro h
    have hfatal : ∀ f ∈ c.findings (some registry.metadata?), ¬ f.isFatal = true := by
      intro f hf
      rw [h f hf]
      exact Bool.false_ne_true
    -- repeated names and whatever is found on a node would be fatal
    constructor
    · apply List.eq_nil_iff_forall_not_mem.mpr
      intro id hid
      exact hfatal _ (mem_findings_iff.mpr (.inl (List.mem_map_of_mem hid))) rfl
    · intro e he
      apply List.eq_nil_iff_forall_not_mem.mpr
      intro f hf
      exact hfatal f (mem_findings_iff.mpr (.inr (.inr ⟨e, he, hf⟩)))
        (isFatal_of_mem_typeFindings hf)
  · -- what is left is about links
    rintro ⟨hrepeated, hnodes⟩ f hf
    rcases mem_findings_iff.mp hf with hf | hf | ⟨n, hn, hf⟩
    · rw [hrepeated] at hf
      cases hf
    · exact isFatal_of_mem_links hf
    · rw [hnodes n hn] at hf
      cases hf

/-- **What wiring asks for beyond the absence of fatal findings**: every entry is sound. -/
theorem wellFormed_iff :
    c.WellFormed registry ↔ c.Passes registry ∧ ∀ e ∈ c.nodes, e.Sound registry := by
  rw [passes_iff]
  constructor
  · intro h
    exact ⟨⟨h.distinct, fun e he => (NodeEntry.fits_iff.mp (h.fits e he)).1⟩,
      fun e he => (NodeEntry.fits_iff.mp (h.fits e he)).2⟩
  · rintro ⟨⟨hids, hdeclared⟩, hsound⟩
    exact ⟨hids, fun e he => NodeEntry.fits_iff.mpr ⟨hdeclared e he, hsound e he⟩⟩

end Context

/-! ### Errors that repeat a finding -/

/-- The finding that an error of the wiring repeats. There is none about types without a behaviour
and about values that do not fit their field. -/
def LoadError.finding? : LoadError → Option Finding
  | .unknownNodeType nodeId nodeType => some (.unknownNodeType nodeId nodeType)
  | .noConstructor .. => none
  | .unknownOutput nodeId _ output => some (.unknownOutput nodeId output)
  | .unknownField nodeId _ field => some (.unknownField nodeId field)
  | .missingRequiredField nodeId _ field => some (.missingRequiredValue nodeId field)
  | .invalidFieldValue .. => none
  | .duplicateNodeId nodeId => some (.duplicateNodeId nodeId)
  | .duplicateNodeType _ => none
  | .duplicateMember .. => none

theorem LoadError.isFatal_of_finding? {err : LoadError} {f : Finding}
    (h : err.finding? = some f) : f.isFatal = true := by
  cases err <;> cases h <;> rfl

/-- An error about a node that repeats no finding. -/
theorem LoadError.unexamined {err : LoadError} {nodeId : String} (hid : err.nodeId? = some nodeId)
    (hnone : err.finding? = none) :
    (∃ nodeType, err = .noConstructor nodeId nodeType) ∨
      ∃ fault, err = .invalidFieldValue nodeId fault := by
  cases err <;> cases hid <;> cases hnone
  · exact .inl ⟨_, rfl⟩
  · exact .inr ⟨_, rfl⟩

namespace NodeInstance

theorem connectAll_fields (n : NodeInstance) (es : List (String × Option String)) :
    (n.connectAll es).1.fields = n.fields :=
  connectAll_keeps (P := (·.fields = n.fields)) (fun _ _ _ h => h) es rfl

theorem bindField_names (n : NodeInstance) (name : String) (s : FieldState) :
    (n.bindField name s).1.fields.map (·.name) = n.fields.map (·.name) :=
  bindField_keeps (P := (·.fields.map (·.name) = n.fields.map (·.name)))
    (fun m _ => (map_updateFirst Field.name (by intro f; rfl) _ m.fields).trans)
    (fun m _ => (map_updateFirst Field.name (by intro f; rfl) _ m.fields).trans) s rfl

/-! Of the three parts of a node's wiring each has one kind of error that repeats a finding. -/

section Errors

variable {n n' : NodeInstance} {err : LoadError} {f : Finding} (hf : err.finding? = some f)
include hf

/-- The outputs are wired up to one that the node does not have. -/
theorem connectAll_error {es : List (String × Option String)}
    (h : n.connectAll es = (n', some err)) :
    ∃ name ∈ es.map (·.1), name ∉ n.outputs.map (·.name) ∧ f = .unknownOutput n.id name := by
  induction es generalizing n with
  | nil => cases h
  | cons e rest ih =>
    obtain ⟨name, next⟩ := e
    rw [connectAll] at h
    split at h
    · next hnone =>
      have hno := (output?_isNone_iff n name).mp hnone
      cases h
      cases hf
      exact ⟨name, List.mem_cons_self, hno, rfl⟩
    · -- the rest is wired on a node whose outputs have the same names
      obtain ⟨other, hmem, hno, rfl⟩ := ih h
      have hnames : (n.connect name next).outputs.map (·.name) = n.outputs.map (·.name) :=
        map_updateFirst Output.name (by intro o; rfl) _ n.outputs
      rw [hnames] at hno
      exact ⟨other, List.mem_cons_of_mem _ hmem, hno, rfl⟩

theorem bindField_error {name : String} {s : FieldState}
    (h : n.bindField name s = (n', some err)) :
    name ∉ n.fields.map (·.name) ∧ f = .unknownField n.id name := by
  rw [bindField] at h
  cases hfield : n.field? name with
  | none =>
    rw [hfield] at h
    cases h
    cases hf
    refine ⟨?_, rfl⟩
    intro hmem
    obtain ⟨a, ha, haname⟩ := List.mem_map.mp hmem
    exact List.find?_eq_none.mp hfield a ha (decide_eq_true haname)
  | some a =>
    -- no finding is about a half that a field lacks
    rw [hfield] at h
    obtain ⟨text, variableName⟩ := s
    obtain ⟨fieldName, consumer, producer⟩ := a
    cases text <;> cases consumer <;> cases variableName <;> cases producer <;> cases h <;> cases hf

/-- The fields are wired up to one that the node does not have. -/
theorem bindAll_error {es : List (String × FieldState)} (h : n.bindAll es = (n', some err)) :
    ∃ name ∈ es.map (·.1), name ∉ n.fields.map (·.name) ∧ f = .unknownField n.id name := by
  induction es generalizing n with
  | nil => cases h
  | cons e rest ih =>
    obtain ⟨name, s⟩ := e
    rw [bindAll] at h
    split at h
    · next hfirst =>
      cases h
      obtain ⟨hno, rfl⟩ := bindField_error hf hfirst
      exact ⟨name, List.mem_cons_self, hno, rfl⟩
    · next m hfirst =>
      -- what was wired so far has changed neither the names of the fields nor that of the node
      have hnames := bindField_names n name s
      have hid := (bindField_sameKind n name s).1
      rw [hfirst] at hnames hid
      obtain ⟨other, hmem, hno, rfl⟩ := ih h
      dsimp only at hnames hid
      rw [hnames] at hno
      rw [hid]
      exact ⟨other, List.mem_cons_of_mem _ hmem, hno, rfl⟩

/-- A text that has to be there is missing. -/
theorem fieldsFault?_error (h : n.fieldsFault? = some err) :
    ∃ a ∈ n.fields, ∃ c, a.consumer = some c ∧ c.required = true ∧ c.raw = none ∧
      f = .missingRequiredValue n.id a.name := by
  obtain ⟨a, ha, hfault⟩ := List.exists_of_findSome?_eq_some h
  rw [fieldFault?] at hfault
  split at hfault
  · cases hfault
  · next c hc =>
    split at hfault
    · next hmissing =>
      rw [Bool.and_eq_true, Bool.not_eq_true', Consumer.isBound] at hmissing
      have hnone : c.raw = none := by simpa using hmissing.2
      cases hfault
      cases hf
      exact ⟨a, ha, c, hc, hmissing.1, hnone, rfl⟩
    · -- nor about a text that does not pass its check
      split at hfault
      · cases hfault
      · cases hfault
        cases hf

end Errors

/-- Past the outputs and the fields, a node is its type's template with the state laid over it. -/
theorem eq_overlay_of_bindAll {m : NodeMetadata} (hm : m.Named) {id : String} {s : NodeState}
    {n n' : NodeInstance} (hout : (ofMetadata id m).connectAll s.outputs.entries = (n, none))
    (hfields : n.bindAll s.fields.entries = (n', none)) : n' = m.overlay id s := by
  have h := connectAll_settles (ofMetadata id m) (named_ofMetadata hm id).outputs
    s.outputs.nodup_keys
  rw [hout] at h
  cases h with
  | accepted _ =>
    -- the fields are bound on the node whose outputs are connected
    have h := bindAll_settles
      { ofMetadata id m with
        outputs := (ofMetadata id m).outputs.map (updated Output.name pointTo s.outputs.entries) }
      hm.fields s.fields.nodup_keys
    rw [hfields] at h
    cases h with
    | accepted _ => exact updated_eq_overlay m id s

/-- **An error of a node's wiring** for which there is a kind of findings is found on the node. -/
theorem found_of_configure {m : NodeMetadata} (hm : m.Named) (e : NodeEntry) {n : NodeInstance}
    {err : LoadError} {f : Finding} (hf : err.finding? = some f)
    (h : (ofMetadata e.id m).configure e.state = (n, some err)) : Context.Found e m f := by
  rw [configure] at h
  split at h
  · next hout =>
    cases h
    obtain ⟨name, hkey, hno, rfl⟩ := connectAll_error hf hout
    refine .output hkey ?_
    rintro ⟨o, ho, hname⟩
    apply hno
    rw [ofMetadata, List.map_map]
    exact List.mem_map.mpr ⟨o, ho, hname⟩
  · next m₁ hout =>
    -- wiring the outputs has left the fields as they were
    have hkept := connectAll_fields (ofMetadata e.id m) e.state.outputs.entries
    have hid := (connectAll_sameKind (ofMetadata e.id m) e.state.outputs.entries).1
    rw [hout] at hkept hid
    dsimp only at hkept hid
    split at h
    · next hfields =>
      cases h
      obtain ⟨name, hkey, hno, rfl⟩ := bindAll_error hf hfields
      rw [hkept] at hno
      rw [hid]
      refine .field hkey ?_
      intro hdeclared
      exact hno (List.mem_map.mpr hdeclared)
    · next m₂ hfields =>
      obtain ⟨rfl, hfault⟩ := Prod.mk.inj h
      rw [eq_overlay_of_bindAll hm hout hfields] at hfault
      obtain ⟨a, ha, c, hc, hr, hnone, rfl⟩ := fieldsFault?_error hf hfault
      -- the field that reads nothing is one of the template's with what is stored for it
      obtain ⟨field, hfield, rfl⟩ := List.mem_map.mp ha
      obtain ⟨c, hc', rfl⟩ := Option.map_eq_some_iff.mp hc
      rw [Consumer.raw_overlay] at hnone
      rw [Field.overlay_name]
      exact .required hfield hc' hr hnone

end NodeInstance

namespace Engine

open Context

theorem mem_typeFindings_of_wireEntry (hr : registry.Registered) {e : NodeEntry} {err : LoadError}
    {f : Finding} (hf : err.finding? = some f) (h : wireEntry registry e = .error err) :
    f ∈ typeFindings registry.metadata? e := by
  rw [wireEntry, Registry.instantiate] at h
  cases htype : registry.get? e.name with
  | none =>
    rw [htype] at h
    cases h
    cases hf
    rw [typeFindings_of_none htype]
    exact List.mem_cons_self
  | some t =>
    rw [htype] at h
    obtain ⟨m, behaviour⟩ := t
    cases behaviour with
    -- a type that cannot be constructed is refused without a finding
    | none =>
      cases h
      cases hf
    | some b =>
      dsimp only at h
      rw [typeFindings_of_get? htype, mem_memberFindings_iff]
      split at h
      · next hentry =>
        cases h
        rw [NodeInstance.ofEntry] at hentry
        split at hentry
        · cases hentry
        · next hconfigure =>
          cases hentry
          exact NodeInstance.found_of_configure (hr.named htype) e hf hconfigure
      · cases h

/-- How the wiring of entries fails: at an entry by itself, or at one whose name is taken. -/
theorem wireAfter_error (hr : registry.Registered) {nodes : List LiveNode}
    {entries : List NodeEntry} {err : LoadError}
    (h : wireAfter registry nodes entries = .error err) :
    (∃ e ∈ entries, wireEntry registry e = .error err) ∨ ∃ before e after,
      entries = before ++ e :: after ∧ e.id ∈ nodes.map (·.id) ++ before.map (·.id) ∧
        err = .duplicateNodeId e.id := by
  induction entries generalizing nodes with
  | nil => cases h
  | cons e rest ih =>
    rw [wireAfter_cons] at h
    have hwired := wireEntry_wired hr e
    cases hentry : wireEntry registry e with
    | error err' =>
      rw [hentry] at h
      cases h
      exact .inl ⟨e, List.mem_cons_self, hentry⟩
    | ok n =>
      rw [hentry] at h hwired
      have hid : n.id = e.id := by
        cases hwired with
        | ok _ _ hid => exact hid
      dsimp only at h
      split at h
      · next htaken =>
        -- the name is taken by one of the nodes that are wired
        cases h
        rw [hid] at htaken ⊢
        exact .inr ⟨[], e, rest, rfl, List.mem_append_left _ htaken, rfl⟩
      · -- or the rest fails, behind one node more
        rcases ih h with ⟨e', he', herr⟩ | ⟨before, e', after, rfl, hmem, herr⟩
        · exact .inl ⟨e', List.mem_cons_of_mem _ he', herr⟩
        · refine .inr ⟨e :: before, e', after, rfl, ?_, herr⟩
          rw [List.map_append, List.append_assoc, List.map_singleton, hid] at hmem
          exact hmem

/-- **The errors of wiring are among the findings**, as far as there is a kind for them. -/
theorem mem_findings_of_wire (hr : registry.Registered) {err : LoadError} {f : Finding}
    (hf : err.finding? = some f) (h : wire registry c = .error err) :
    f ∈ c.findings (some registry.metadata?) := by
  rcases wireAfter_error hr h with ⟨e, he, hentry⟩ | ⟨before, e, after, hnodes, hmem, rfl⟩
  · exact mem_findings_iff.mpr (.inr (.inr ⟨e, he, mem_typeFindings_of_wireEntry hr hf hentry⟩))
  · cases hf
    refine mem_findings_iff.mpr (.inl (List.mem_map_of_mem ?_))
    rw [ids, hnodes, List.map_append, List.map_cons]
    exact mem_repeated hmem

end Engine

end Flowgraph
