import Flowgraph.Proofs.Graph.Wiring

/-!
# Wiring a node again

A node that is wired can be wired again. What the first state set stays where the second says
nothing: an output that the second does not mention keeps what is behind it, and of a field each
half keeps what it has unless something is stored for that half. So two states in turn do what one
state does that is made of both, the second laid over the first (`NodeState.overlay`).

That is first an equation between nodes (`NodeInstance.overlay_overlay`). That the one state is
taken if the two are, each in its turn, needs an argument of its own: the fields are checked on a
node that both states are laid over, and what the first of the two checks saw is gone by then.

* `NodeInstance.configure_eq_iff` — which states a node takes, and what becomes of it.
* `NodeInstance.design_configure` — wiring sets targets, texts and variables and nothing else, even
  where it is refused half way.
* `NodeInstance.configures_in_turn` — the nodes of a registered type are wired by two states in turn
  as they are by the one.
-/

namespace Flowgraph

/-! ### Maps laid over one another -/

namespace StringMap

variable {α : Type}

/-- The entries of two maps; where both have a key, the values are combined. -/
def mergeWith (f : α → α → α) (m later : StringMap α) : StringMap α :=
  later.entries.foldl (fun acc e => acc.insert e.1 (((m.get? e.1).map (f · e.2)).getD e.2)) m

theorem get?_mergeWith (f : α → α → α) (m later : StringMap α) (k : String) :
    (m.mergeWith f later).get? k = Option.merge f (m.get? k) (later.get? k) := by
  -- before the last entries are put in, what is there is what is in `m` under other keys
  have hfold : ∀ (es : List (String × α)) (acc : StringMap α), (es.map (·.1)).Nodup →
      (es.foldl (fun acc e => acc.insert e.1 (((m.get? e.1).map (f · e.2)).getD e.2)) acc).get? k =
        (es.lookup k).elim (acc.get? k) fun b => some (((m.get? k).map (f · b)).getD b) := by
    intro es
    induction es with
    | nil => exact fun acc _ => rfl
    | cons e rest ih =>
      intro acc hes
      obtain ⟨k', b⟩ := e
      obtain ⟨hk', hrest⟩ := List.nodup_cons.mp hes
      rw [List.foldl_cons, ih _ hrest, List.lookup_cons]
      -- the keys differ from one another, so an entry found is the only one
      by_cases hk : k = k'
      · subst hk
        have hlookup : rest.lookup k = none := List.lookup_eq_none_iff.mpr fun e he =>
          bne_iff_ne.mpr fun hke => hk' (List.mem_map.mpr ⟨e, he, hke.symm⟩)
        rw [hlookup, beq_self_eq_true]
        exact get?_insert_self ..
      · rw [beq_false_of_ne hk]
        dsimp only
        rw [get?_insert_of_ne _ _ hk]
  rw [mergeWith, hfold _ _ later.nodup_keys, ← get?]
  cases m.get? k <;> cases later.get? k <;> rfl

/-- The keys are those of both maps. -/
theorem mem_entries_mergeWith {f : α → α → α} {m later : StringMap α} {k : String} {v : α}
    (h : (k, v) ∈ (m.mergeWith f later).entries) :
    (∃ a, (k, a) ∈ m.entries) ∨ ∃ b, (k, b) ∈ later.entries := by
  rw [mem_entries_iff, get?_mergeWith] at h
  simp only [mem_entries_iff]
  cases ha : m.get? k with
  | some a => exact .inl ⟨a, rfl⟩
  | none =>
    cases hb : later.get? k with
    | some b => exact .inr ⟨b, rfl⟩
    | none =>
      -- neither map has the key
      rw [ha, hb] at h
      cases h

end StringMap

/-! ### States laid over one another -/

/-- What is stored for a field by one state and another: each half of the later one, if it has one,
and else of the earlier. -/
def FieldState.overlay (s later : FieldState) : FieldState where
  consumer := later.consumer <|> s.consumer
  producer := later.producer <|> s.producer

/-- Two states as one: the later target of an output counts, whatever it is, and of a field each
half counts that the later state has, or else that of the earlier. -/
def NodeState.overlay (s later : NodeState) : NodeState where
  outputs := s.outputs.mergeWith (fun _ next => next) later.outputs
  fields := s.fields.mergeWith FieldState.overlay later.fields

theorem FieldState.overlay_empty (s : FieldState) : s.overlay {} = s := by
  obtain ⟨consumer, producer⟩ := s
  rfl

theorem FieldState.empty_overlay (s : FieldState) : FieldState.overlay {} s = s := by
  obtain ⟨consumer, producer⟩ := s
  cases consumer <;> cases producer <;> rfl

theorem FieldState.overlay_self (s : FieldState) : s.overlay s = s := by
  obtain ⟨consumer, producer⟩ := s
  cases consumer <;> cases producer <;> rfl

/-- A field has the halves for two states if it has them for each. -/
theorem FieldState.Fits.overlay {s later : FieldState} {f : Field} (h : s.Fits f)
    (hlater : later.Fits f) : (s.overlay later).Fits f where
  consumer hsome := by
    cases hc : later.consumer with
    | some text => exact hlater.consumer (by rw [hc]; rfl)
    -- the later state says nothing of this half
    | none =>
      rw [FieldState.overlay, hc] at hsome
      exact h.consumer hsome
  producer hsome := by
    cases hp : later.producer with
    | some name => exact hlater.producer (by rw [hp]; rfl)
    | none =>
      rw [FieldState.overlay, hp] at hsome
      exact h.producer hsome

namespace NodeState

variable (s later : NodeState)

theorem get?_outputs_overlay (name : String) :
    (s.overlay later).outputs.get? name =
      (later.outputs.get? name <|> s.outputs.get? name) := by
  rw [overlay, StringMap.get?_mergeWith]
  cases s.outputs.get? name <;> cases later.outputs.get? name <;> rfl

theorem field_overlay (name : String) :
    (s.overlay later).field name = (s.field name).overlay (later.field name) := by
  simp only [field, overlay, StringMap.get?_mergeWith]
  cases s.fields.get? name with
  | none =>
    rw [Option.getD_none, FieldState.empty_overlay]
    cases later.fields.get? name <;> rfl
  | some a =>
    cases later.fields.get? name with
    | none => exact (FieldState.overlay_empty a).symm
    | some b => rfl

end NodeState

theorem Field.overlay_overlay (f : Field) (s later : FieldState) :
    (f.overlay s).overlay later = f.overlay (s.overlay later) := by
  obtain ⟨name, consumer, producer⟩ := f
  obtain ⟨text, variableName⟩ := s
  obtain ⟨text', variableName'⟩ := later
  cases consumer <;> cases producer <;> cases text <;> cases variableName <;> cases text' <;>
    cases variableName' <;> rfl

/-- The output with the stored target, if the output is mentioned. -/
def Output.overlay (stored : Option (Option String)) (o : Output) : Output :=
  { o with next := (stored.map target?).getD o.next }

theorem Output.overlay_overlay (o : Output) (stored later : Option (Option String)) :
    (o.overlay stored).overlay later = o.overlay (later <|> stored) := by
  cases later <;> rfl

theorem NodeInstance.updated_output (s : NodeState) (o : Output) :
    updated Output.name pointTo s.outputs.entries o = o.overlay (s.outputs.get? o.name) := by
  rw [updated, StringMap.get?]
  cases s.outputs.entries.lookup o.name <;> rfl

/-! ### What wiring leaves alone -/

/-- The field without what wiring sets. -/
def Field.design (f : Field) : Field :=
  { f with
    consumer := f.consumer.map fun c => { c with value := none }
    producer := f.producer.map fun p => { p with name := none } }

/-- An output without what was wired. -/
def Output.design (o : Output) : Output := { o with next := none }

namespace NodeInstance

/-- The node without what wiring sets: its name and its type, the fields and the outputs in their
order, with all that is declared of them. -/
def design (n : NodeInstance) : NodeInstance :=
  { n with fields := n.fields.map Field.design, outputs := n.outputs.map Output.design }

theorem design_connect (n : NodeInstance) (output : String) (next : Option String) :
    (n.connect output next).design = n.design := by
  have houtputs := map_updateFirst Output.design
    (f := fun o => { o with next := target? next }) (fun _ => rfl) (·.name = output) n.outputs
  rw [design, connect, houtputs]
  rfl

theorem design_modifyField (n : NodeInstance) (name : String) {update : Field → Field}
    (h : ∀ f, (update f).design = f.design) : (n.modifyField name update).design = n.design := by
  rw [design, modifyField, map_updateFirst Field.design h]
  rfl

theorem design_setValue (n : NodeInstance) (name text : String) :
    (n.setValue name text).design = n.design := by
  refine design_modifyField n name fun f => ?_
  obtain ⟨_, consumer, producer⟩ := f
  cases consumer <;> rfl

theorem design_setVariable (n : NodeInstance) (name variableName : String) :
    (n.setVariable name variableName).design = n.design := by
  refine design_modifyField n name fun f => ?_
  obtain ⟨_, consumer, producer⟩ := f
  cases producer <;> rfl

/-- **Wiring sets targets, texts and variables, and nothing else**, whether it is refused or not. -/
theorem design_configure (n : NodeInstance) (s : NodeState) :
    (n.configure s).1.design = n.design :=
  configure_keeps (P := (·.design = n.design))
    (fun m output next => (design_connect m output next).trans)
    (fun m name text => (design_setValue m name text).trans)
    (fun m name v => (design_setVariable m name v).trans) s rfl

/-- Nodes of one design have fields and outputs of the same names. -/
theorem Named.of_design {n n' : NodeInstance} (h : n.Named) (hd : n'.design = n.design) :
    n'.Named := by
  have hfields : n'.fields.map (·.name) = n.fields.map (·.name) := by
    have hd := congrArg (fun m => m.fields.map (·.name)) hd
    rwa [design, design, List.map_map, List.map_map] at hd
  have houtputs : n'.outputs.map (·.name) = n.outputs.map (·.name) := by
    have hd := congrArg (fun m => m.outputs.map (·.name)) hd
    rwa [design, design, List.map_map, List.map_map] at hd
  exact ⟨hfields ▸ h.fields, houtputs ▸ h.outputs⟩

/-! ### Wiring in turn -/

/-- **A node is wired exactly if it takes the state**, which is then laid over it. -/
theorem configure_eq_iff {n n' : NodeInstance} (hn : n.Named) {s : NodeState} :
    n.configure s = (n', none) ↔ n.Accepts s ∧ n' = n.overlay s := by
  have h := configure_accepts hn s
  generalize n.configure s = r at h ⊢
  -- the outcome is that of the node's own check
  cases h with
  | accepted h =>
    constructor
    · intro heq
      exact ⟨h, (Prod.mk.inj heq).1.symm⟩
    · rintro ⟨-, rfl⟩
      rfl
  | refused h m _ =>
    constructor
    · intro heq
      cases (Prod.mk.inj heq).2
    · rintro ⟨h', -⟩
      exact absurd h' h

/-- Every member of a node is overlaid with what is stored under its name. -/
theorem overlay_eq (n : NodeInstance) (s : NodeState) : n.overlay s =
    { n with
      fields := n.fields.map fun f => f.overlay (s.field f.name)
      outputs := n.outputs.map fun o => o.overlay (s.outputs.get? o.name) } := by
  have hfields := List.map_congr_left (l := n.fields) fun f _ => updated_fields s f
  have houtputs := List.map_congr_left (l := n.outputs) fun o _ => updated_output s o
  rw [overlay, hfields, houtputs]

/-- **Two states laid over a node are one.** -/
theorem overlay_overlay (n : NodeInstance) (s later : NodeState) :
    (n.overlay s).overlay later = n.overlay (s.overlay later) := by
  -- member by member, by name
  have hfields : ∀ f ∈ n.fields, (f.overlay (s.field f.name)).overlay (later.field f.name) =
      f.overlay ((s.overlay later).field f.name) := fun f _ => by
    rw [Field.overlay_overlay, NodeState.field_overlay]
  have houtputs : ∀ o ∈ n.outputs,
      (o.overlay (s.outputs.get? o.name)).overlay (later.outputs.get? o.name) =
        o.overlay ((s.overlay later).outputs.get? o.name) := fun o _ => by
    rw [Output.overlay_overlay, NodeState.get?_outputs_overlay]
  rw [overlay_eq n (s.overlay later), ← List.map_congr_left hfields,
    ← List.map_congr_left houtputs, overlay_eq n s, overlay_eq]
  dsimp only
  rw [List.map_map, List.map_map]
  rfl

/-- A state that is laid over a node is there, so laying it over once more changes nothing. -/
theorem overlay_overlay_self (n : NodeInstance) (s : NodeState) :
    (n.overlay s).overlay s = n.overlay s := by
  have hfields : ∀ name, (s.overlay s).field name = s.field name := fun name => by
    rw [NodeState.field_overlay, FieldState.overlay_self]
  have houtputs : ∀ name, (s.overlay s).outputs.get? name = s.outputs.get? name := fun name => by
    rw [NodeState.get?_outputs_overlay]
    cases s.outputs.get? name <;> rfl
  rw [overlay_overlay, overlay_eq n (s.overlay s), overlay_eq n s]
  simp only [hfields, houtputs]

theorem names_outputs_overlay (n : NodeInstance) (s : NodeState) :
    (n.overlay s).outputs.map (·.name) = n.outputs.map (·.name) := by
  rw [overlay_eq, List.map_map]
  rfl

/-- The fields with a state laid over them have the same halves. -/
theorem exists_fits_overlay_iff (n : NodeInstance) (s : NodeState) (name : String)
    (state : FieldState) :
    (∃ f ∈ (n.overlay s).fields, f.name = name ∧ state.Fits f) ↔
      ∃ f ∈ n.fields, f.name = name ∧ state.Fits f := by
  rw [overlay_eq]
  simp only [List.mem_map, exists_exists_and_eq_and, Field.overlay_name, FieldState.fits_overlay]

/-- **A state of two is taken** where the first is taken, and the second behind it. -/
theorem Accepts.overlay {n : NodeInstance} (hn : n.Named) {s later : NodeState} (h : n.Accepts s)
    (hlater : (n.overlay s).Accepts later) : n.Accepts (s.overlay later) where
  outputs e he := by
    -- an output is mentioned by one of the two
    rcases StringMap.mem_entries_mergeWith he with ⟨next, hmem⟩ | ⟨next, hmem⟩
    · exact h.outputs (e.1, next) hmem
    · exact names_outputs_overlay n s ▸ hlater.outputs (e.1, next) hmem
  halves := by
    have hhalves : ∀ e ∈ later.fields.entries, ∃ f ∈ n.fields, f.name = e.1 ∧ e.2.Fits f :=
      fun e he => (exists_fits_overlay_iff n s e.1 e.2).mp (hlater.halves e he)
    obtain ⟨hdeclared, hfits⟩ := (halves_iff s hn.fields).mp h.halves
    obtain ⟨hdeclared', hfits'⟩ := (halves_iff later hn.fields).mp hhalves
    -- in terms of the names that are declared, and the halves of each field
    refine (halves_iff (s.overlay later) hn.fields).mpr ⟨fun name hname => ?_, fun f hf => ?_⟩
    · obtain ⟨e, he, rfl⟩ := List.mem_map.mp hname
      rcases StringMap.mem_entries_mergeWith he with ⟨state, hmem⟩ | ⟨state, hmem⟩
      · exact hdeclared _ (List.mem_map.mpr ⟨_, hmem, rfl⟩)
      · exact hdeclared' _ (List.mem_map.mpr ⟨_, hmem, rfl⟩)
    · rw [NodeState.field_overlay]
      exact (hfits f hf).overlay (hfits' f hf)
  reads := by
    -- the check of the second state saw the same node
    rw [← overlay_overlay]
    exact hlater.reads

/-- A state that was taken is taken again. -/
theorem Accepts.again {n : NodeInstance} {s : NodeState} (h : n.Accepts s) :
    (n.overlay s).Accepts s where
  outputs e he := by
    rw [names_outputs_overlay]
    exact h.outputs e he
  halves e he := (exists_fits_overlay_iff n s e.1 e.2).mpr (h.halves e he)
  reads := by
    rw [overlay_overlay_self]
    exact h.reads

/-! ### Nodes of registered types -/

/-- The nodes of a type: those that are made of it, and what wiring leaves of them, as often as they
are wired and whether it is refused or not. -/
inductive IsOf (m : NodeMetadata) : NodeInstance → Prop
  | made (id : String) : IsOf m (ofMetadata id m)
  | configured {n : NodeInstance} (h : IsOf m n) (s : NodeState) : IsOf m (n.configure s).1

/-- A node of a type has the name that it was made with, and all that the type declares. -/
theorem IsOf.design_eq {m : NodeMetadata} {n : NodeInstance} (h : n.IsOf m) :
    n.design = (ofMetadata n.id m).design := by
  induction h with
  | made id => rfl
  | @configured n _ s ih => rw [design_configure, configure_id, ih]

/-- **Wiring in turn is wiring once.** For every node of a registered type: if one state is taken
and another behind it, the node that comes of them is what the node becomes with the second laid
over the first, which is taken; taking the second once more changes nothing. And no wiring, not even
one that is refused, alters the name of the node, its type, or what is declared of its fields and
outputs. -/
theorem configures_in_turn {β : Type} {registry : Registry β} (hr : registry.Registered)
    {name : String} {t : NodeType β} (ht : registry.get? name = some t) {n : NodeInstance}
    (hn : n.IsOf t.metadata) :
    (∀ s later n₁ n₂, n.configure s = (n₁, none) → n₁.configure later = (n₂, none) →
      n.configure (s.overlay later) = (n₂, none) ∧ n₂.configure later = (n₂, none)) ∧
    ∀ s, (n.configure s).1.design = (ofMetadata n.id t.metadata).design := by
  have hnamed : ∀ {m : NodeInstance}, m.design = n.design → m.Named := fun hm =>
    (named_ofMetadata (hr.named ht) n.id).of_design (hm.trans hn.design_eq)
  refine ⟨fun s later n₁ n₂ h₁ h₂ => ?_, fun s => (design_configure n s).trans hn.design_eq⟩
  have hd₁ : n₁.design = n.design := by
    have hd := design_configure n s
    rwa [h₁] at hd
  have hd₂ : n₂.design = n.design := by
    have hd := design_configure n₁ later
    rw [h₂] at hd
    exact hd.trans hd₁
  obtain ⟨hs, rfl⟩ := (configure_eq_iff (hnamed rfl)).mp h₁
  obtain ⟨hlater, rfl⟩ := (configure_eq_iff (hnamed hd₁)).mp h₂
  have hboth : n.Accepts (s.overlay later) := hs.overlay (hnamed rfl) hlater
  constructor
  · exact (configure_eq_iff (hnamed rfl)).mpr ⟨hboth, overlay_overlay n s later⟩
  · exact (configure_eq_iff (hnamed hd₂)).mpr ⟨hlater.again, (overlay_overlay_self _ later).symm⟩

/-- A type whose nodes ask something and publish the answer. -/
def asker : NodeMetadata where
  name := "Ask"
  group := .action
  color := .rose
  fields := [{ name := "question", consumer := some { kind := .string }, producer := some {} }]
  outputs := [⟨"Next", ""⟩]

/-- A question that is stored first stays when the answer's name is stored, and the output, which is
mentioned again, leads nowhere in the end. -/
theorem configures_question_then_answer :
    let s : NodeState := {
      outputs := StringMap.insert ∅ "Next" (some "b")
      fields := StringMap.insert ∅ "question" { consumer := some "Who?" } }
    let later : NodeState := {
      outputs := StringMap.insert ∅ "Next" none
      fields := StringMap.insert ∅ "question" { producer := some "who" } }
    ∃ n₁ n₂, (ofMetadata "a" asker).configure s = (n₁, none) ∧ n₁.configure later = (n₂, none) ∧
      (ofMetadata "a" asker).configure (s.overlay later) = (n₂, none) ∧
      n₂.configure later = (n₂, none) ∧ n₂.next.toOption = some none ∧
      (n₂.consumer "question").toOption.bind Consumer.raw = some "Who?" ∧
      (n₂.producer "question").toOption.bind Producer.variableName = some "who" := by
  intro s later
  let t : NodeType Unit := ⟨asker, none⟩
  have hr : Registry.Registered (StringMap.insert ∅ "Ask" t) := .register .empty (t := t) rfl
  let n₁ := ((ofMetadata "a" asker).configure s).1
  have h₁ : (ofMetadata "a" asker).configure s = (n₁, none) :=
    Prod.ext rfl (Option.isNone_iff_eq_none.mp (by decide +kernel))
  have h₂ : n₁.configure later = ((n₁.configure later).1, none) :=
    Prod.ext rfl (Option.isNone_iff_eq_none.mp (by decide +kernel))
  have ht : StringMap.get? (StringMap.insert ∅ "Ask" t) "Ask" = some t := rfl
  obtain ⟨hturn, -⟩ := configures_in_turn hr ht (.made "a")
  obtain ⟨hone, hagain⟩ := hturn s later _ _ h₁ h₂
  refine ⟨_, _, h₁, h₂, hone, hagain, ?_, ?_, ?_⟩ <;> rfl

end NodeInstance

end Flowgraph
