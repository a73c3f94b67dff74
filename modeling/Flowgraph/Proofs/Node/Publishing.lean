import Flowgraph.Proofs.Graph.Wiring
import Flowgraph.Proofs.Template.Mentions
import Flowgraph.Proofs.Expression.Depth

/-!
# Publishing and reading back

A node publishes a value under the name that is stored for one of its producers, and another node
reads it through a placeholder. Publishing takes the name as it stands. Reading takes what stands
between the braces for a path: outer blanks go, and a dot leads into the value. So a name comes back
exactly if it says the same both ways, which is what `Readable` describes.

* `Variables.eq_trim_of_resolve` — the only paths to a value that has no fields are its name and the
  name among blanks.
* `Producer.readsBack_iff` — what a producer publishes can be read back exactly if its name is
  readable.
* `NodeInstance.publishes_of_configure` — wiring takes every name as it is stored, so the same holds
  of the producers of a wired node.
-/

namespace Flowgraph

/-! ### Cutting -/

namespace Text

theorem mem_of_mem_trim {c : Char} {s : List Char} (h : c ∈ trim s) : c ∈ s := by
  rw [trim, trimEnd, List.mem_reverse] at h
  have h := List.mem_reverse.mp ((List.dropWhile_suffix _).mem h)
  exact (List.dropWhile_suffix _).mem h

/-- A separator stands in no piece of a cut. -/
theorem not_mem_of_mem_cutAt {sep : Char} {s piece : List Char} (h : piece ∈ cutAt sep s) :
    sep ∉ piece := by
  induction s generalizing piece with
  | nil =>
    rw [cutAt, List.mem_singleton] at h
    rw [h]
    exact List.not_mem_nil
  | cons c rest ih =>
    rw [cutAt] at h
    split at h
    · rcases List.mem_cons.mp h with rfl | h
      · exact List.not_mem_nil
      · exact ih h
    · next hc =>
      cases hcut : cutAt sep rest with
      | nil => exact absurd hcut (cutAt_ne_nil sep rest)
      | cons first pieces =>
        rw [hcut] at h ih
        rcases List.mem_cons.mp h with rfl | h
        · -- the first piece grows by a character that is no separator
          rw [List.mem_cons, not_or]
          exact ⟨Ne.symm hc, ih List.mem_cons_self⟩
        · exact ih (List.mem_cons_of_mem _ h)

/-- A cut with a single piece has cut nothing. -/
theorem of_cutAt_eq_singleton {sep : Char} {s piece : List Char} (h : cutAt sep s = [piece]) :
    piece = s ∧ sep ∉ s := by
  have heq : piece = s := by
    have hjoin := intercalate_cutAt sep s
    rw [h] at hjoin
    simpa [List.intercalate] using hjoin
  -- the piece is the text, and it holds no separator
  refine ⟨heq, ?_⟩
  rw [← heq]
  exact not_mem_of_mem_cutAt (h ▸ List.mem_singleton_self piece)

end Text

/-! ### Paths to a value -/

namespace Variables

/-- **The paths to a value without fields** that is the only variable: its name, which then has no
dots and no outer blanks, and the name among blanks. -/
theorem eq_trim_of_resolve {name path : String} {b : Bool} {v : Value}
    (h : resolve (StringMap.insert ∅ name (.boolean b)) path = some v) :
    name.toList = Text.trim path.toList ∧ '.' ∉ name.toList := by
  unfold resolve at h
  cases hsegments : segments path.toList with
  | nil => exact absurd hsegments (Text.cutAt_ne_nil _ _)
  | cons head rest =>
    rw [hsegments] at h
    dsimp only at h
    rw [StringMap.get?_insert] at h
    split at h
    · next hhead =>
      cases rest with
      | nil =>
        -- a single segment is the path without its outer blanks
        obtain ⟨rfl, hdot⟩ := Text.of_cutAt_eq_singleton hsegments
        have hname : name.toList = Text.trim path.toList := by
          rw [← hhead, String.toList_ofList, Text.trim_trim]
        exact ⟨hname, hname ▸ hdot⟩
      | cons segment rest =>
        -- a truth value has no fields, so nothing is found behind a dot
        cases h
    · cases h

end Variables

/-! ### Readable names -/

/-- A name that stands for itself between the braces of a placeholder. -/
structure Readable (name : String) : Prop where
  ne_empty : name ≠ ""
  /-- There are no braces, at which a placeholder would begin or end. -/
  inner : ∀ c ∈ name.toList, Template.isInner c = true
  /-- There are no dots, which would lead into a value. -/
  undotted : '.' ∉ name.toList
  /-- There are no outer blanks, which do not count. -/
  trimmed : Text.trim name.toList = name.toList

/-- The text that consists of the placeholder of a name. -/
def Template.placeholderOf (name : String) : String := "\x7b\x7b" ++ name ++ "\x7d\x7d"

theorem Template.toList_placeholderOf (name : String) :
    (placeholderOf name).toList = (Part.placeholder name.toList).source := by
  simp [placeholderOf, Part.source]

namespace Readable

variable {name : String}

theorem toList_ne_nil (h : Readable name) : name.toList ≠ [] := fun hnil =>
  h.ne_empty (String.toList_eq_nil_iff.mp hnil)

/-- A readable name is a variable of expressions. -/
theorem plain (h : Readable name) : (Expression.Token.path name).Plain := by
  have hopen : '\x7b' ∉ name.toList := fun hmem =>
    ((Template.isInner_iff _).mp (h.inner _ hmem)).1 rfl
  have hclose : '\x7d' ∉ name.toList := fun hmem =>
    ((Template.isInner_iff _).mp (h.inner _ hmem)).2 rfl
  refine ⟨?_, hclose⟩
  rw [Expression.pathOf?, h.trimmed, if_neg (not_or.mpr ⟨h.toList_ne_nil, hopen⟩),
    String.ofList_toList]

theorem resolve_insert (h : Readable name) (vars : Variables) (v : Value) :
    Variables.resolve (vars.insert name v) name = some v :=
  Variables.resolve_insert vars v h.undotted h.trimmed

/-- The placeholder of a readable name is filled with the text of the value. -/
theorem fill_placeholderOf (h : Readable name) (vars : Variables) (v : Value) :
    Template.fill (vars.insert name v) (Template.placeholderOf name) = v.display := by
  have hplaceholder : Template.placeholder? (Template.placeholderOf name).toList =
      some (name.toList, []) := by
    refine Template.placeholder?_eq_some_iff.mpr ⟨?_, h.toList_ne_nil, h.inner⟩
    rw [Template.toList_placeholderOf, List.append_nil]
  have hnil : Template.parts [] = [] := by rw [Template.parts]
  rw [Template.fill, Template.parts_of_placeholder? hplaceholder, hnil, List.flatMap_singleton,
    Template.Part.fill, String.ofList_toList, h.resolve_insert]
  exact String.ofList_toList

/-- The placeholder of a readable name has the value as an expression. -/
theorem evaluate_placeholderOf (h : Readable name) (vars : Variables) (v : Value) :
    Expression.evaluate .any (Template.placeholderOf name) (vars.insert name v) = .ok v := by
  -- the template is scanned into the path alone
  have hscan : Expression.Lexeme.scan (Template.placeholderOf name).toList =
      .ok [⟨.path name, 0⟩] := by
    have hspelling : (Template.placeholderOf name).toList =
        (Expression.Token.path name).spelling ++ [] := by
      rw [Template.toList_placeholderOf, List.append_nil]
      rfl
    rw [Expression.Lexeme.scan, hspelling, Expression.scanFrom_path h.plain,
      Expression.Lexeme.scanFrom]
    rfl
  rw [Expression.evaluate, hscan]
  dsimp only
  rw [h.resolve_insert]
  rfl

end Readable

/-! ### Reading back -/

/-- Whatever a producer publishes, and whatever other variables there are, a consumer with the
placeholder of a name reads the text of the value, and the value itself. -/
def Producer.ReadsBack (p : Producer) (name : String) : Prop :=
  ∀ (vars : Variables) (v : Value) (c : Consumer), c.raw = some (Template.placeholderOf name) →
    c.readString (p.publish vars v) = v.display ∧ c.evaluate .any (p.publish vars v) = .ok v

namespace Producer

variable {p : Producer} {name : String}

theorem variableName_eq_some (hname : p.name = some name) (hne : name ≠ "") :
    p.variableName = some name := by
  rw [variableName, hname, Option.filter_some, if_pos (decide_eq_true hne)]

theorem publish_eq (hname : p.name = some name) (hne : name ≠ "") (vars : Variables) (v : Value) :
    p.publish vars v = vars.insert name v := by
  rw [publish, variableName_eq_some hname hne]

theorem readsBack_of_readable (hname : p.name = some name) (h : Readable name) :
    p.ReadsBack name := by
  intro vars v c hraw
  rw [publish_eq hname h.ne_empty]
  constructor
  · rw [Consumer.readString, hraw]
    exact h.fill_placeholderOf vars v
  · rw [Consumer.evaluate, Consumer.withRaw, hraw]
    dsimp only
    rw [h.evaluate_placeholderOf]
    rfl

/-- Two truth values that are published in turn show a different text, so some placeholder leads to
one of them. -/
theorem exists_mention_of_readsBack (hname : p.name = some name) (hne : name ≠ "")
    (h : p.ReadsBack name) : ∃ m ∈ Template.mentions (Template.placeholderOf name), ∃ b v,
      Variables.resolve (StringMap.insert ∅ name (.boolean b)) m.path = some v := by
  by_contra hnone
  simp only [not_exists, not_and] at hnone
  have hunresolved : ∀ m ∈ Template.mentions (Template.placeholderOf name), ∀ b,
      Variables.resolve (StringMap.insert ∅ name (.boolean b)) m.path = none :=
    fun m hm b => Option.eq_none_iff_forall_ne_some.mpr (hnone m hm b)
  have hread : ∀ b : Bool, Template.fill (StringMap.insert ∅ name (.boolean b))
      (Template.placeholderOf name) = boolText b := fun b => by
    have hb := (h ∅ (.boolean b) { kind := .string, value := some _ } rfl).1
    rw [publish_eq hname hne] at hb
    exact hb
  -- the same text would be filled in for both
  have hsame : boolText true = boolText false := by
    calc boolText true
        = Template.fill (StringMap.insert ∅ name (.boolean true))
            (Template.placeholderOf name) := (hread true).symm
      _ = Template.fill (StringMap.insert ∅ name (.boolean false))
            (Template.placeholderOf name) := Template.fill_congr fun m hm => by
          rw [hunresolved m hm, hunresolved m hm]
      _ = boolText false := hread false
  exact absurd hsame (by decide)

/-- **Reading back what was published**: it works for all values exactly if the name is readable. -/
theorem readsBack_iff (hname : p.name = some name) (hne : name ≠ "") :
    p.ReadsBack name ↔ Readable name := by
  refine ⟨?_, readsBack_of_readable hname⟩
  intro h
  obtain ⟨m, hm, b, v, hresolve⟩ := exists_mention_of_readsBack hname hne h
  obtain ⟨htrim, hdot⟩ := Variables.eq_trim_of_resolve hresolve
  obtain ⟨before, body, hoccurs, -, hpath⟩ := Template.mem_mentions_iff.mp hm
  -- the name is the body of a placeholder without its outer blanks
  rw [hpath, String.toList_ofList, Text.trim_trim] at htrim
  refine ⟨hne, ?_, hdot, ?_⟩
  · intro c hc
    rw [htrim] at hc
    exact hoccurs.inner c (Text.mem_of_mem_trim hc)
  · rw [htrim, Text.trim_trim]

end Producer

/-! ### Producers of wired nodes -/

namespace NodeInstance

/-- Among the members of a list only the first of a name is updated. -/
theorem find?_updateFirst {k : String} {f : Field → Field} (hf : ∀ a, (f a).name = a.name)
    (l : List Field) (name : String) :
    (updateFirst (·.name = k) f l).find? (·.name = name) =
      (l.find? (·.name = name)).map fun a => if name = k then f a else a := by
  induction l with
  | nil => rfl
  | cons a rest ih =>
    rw [updateFirst]
    by_cases hk : a.name = k
    · rw [if_pos (decide_eq_true hk)]
      by_cases hname : a.name = name
      · rw [List.find?_cons_of_pos (by simpa [hf] using hname),
          List.find?_cons_of_pos (by simpa using hname), Option.map_some,
          if_pos (hname.symm.trans hk)]
      · rw [List.find?_cons_of_neg (by simpa [hf] using hname),
          List.find?_cons_of_neg (by simpa using hname)]
        -- the fields behind it stay, and the name that is asked for is another
        have hne : name ≠ k := fun h => hname (hk.trans h.symm)
        simp only [if_neg hne, Option.map_id']
    · rw [if_neg (by simpa using hk)]
      by_cases hname : a.name = name
      · rw [List.find?_cons_of_pos (by simpa using hname),
          List.find?_cons_of_pos (by simpa using hname), Option.map_some,
          if_neg fun h => hk (hname.trans h)]
      · rw [List.find?_cons_of_neg (by simpa using hname),
          List.find?_cons_of_neg (by simpa using hname), ih]

theorem field?_setValue (n : NodeInstance) (k text name : String) :
    (n.setValue k text).field? name = (n.field? name).map fun f =>
      if name = k then { f with consumer := f.consumer.map fun c => { c with value := some text } }
      else f := by
  exact find?_updateFirst (by intro f; rfl) n.fields name

theorem field?_setVariable (n : NodeInstance) (k variableName name : String) :
    (n.setVariable k variableName).field? name = (n.field? name).map fun f =>
      if name = k then
        { f with producer := f.producer.map fun p => { p with name := some variableName } }
      else f := by
  exact find?_updateFirst (by intro f; rfl) n.fields name

/-- Setting a text leaves the producers alone. -/
theorem producer_setValue (n : NodeInstance) (k text name : String) :
    (n.setValue k text).producer name = n.producer name := by
  rw [producer, producer, field?_setValue]
  cases n.field? name with
  | none => rfl
  | some f =>
    rw [Option.map_some]
    by_cases hk : name = k
    · rw [if_pos hk]
    · rw [if_neg hk]

theorem producer_setVariable {n : NodeInstance} {k : String} {p : Producer}
    (h : n.producer k = .ok p) (variableName : String) :
    (n.setVariable k variableName).producer k = .ok { p with name := some variableName } := by
  rw [producer] at h
  rw [producer, field?_setVariable]
  split at h
  · -- the field is there and it has a producer, which takes the name over
    cases h
  · next f hf =>
    split at h
    · cases h
    · next hp =>
      cases h
      rw [hf, Option.map_some, if_pos rfl]
      simp only [hp, Option.map_some]

/-- Wiring a field leaves the others alone. -/
theorem field?_bindField_of_ne {n : NodeInstance} {name other : String} (hne : other ≠ name)
    (s : FieldState) : (n.bindField name s).1.field? other = n.field? other := by
  refine bindField_keeps (P := (·.field? other = n.field? other)) (fun m text h => ?_)
    (fun m variableName h => ?_) s rfl
  · rw [field?_setValue]
    simpa only [if_neg hne, Option.map_id'] using h
  · rw [field?_setVariable]
    simpa only [if_neg hne, Option.map_id'] using h

/-- A field that is wired has a producer for the variable that is stored. -/
theorem publishes_of_bindField {n n' : NodeInstance} {name v : String} {s : FieldState}
    (h : n.bindField name s = (n', none)) (hs : s.producer = some v) :
    ∃ p, n'.producer name = .ok p ∧ p.name = some v := by
  obtain ⟨text, variableName⟩ := s
  obtain rfl : variableName = some v := hs
  rw [bindField] at h
  cases hf : n.field? name with
  | none =>
    rw [hf] at h
    cases h
  | some f =>
    rw [hf] at h
    obtain ⟨fieldName, consumer, producer⟩ := f
    cases producer with
    | none => cases text <;> cases consumer <;> cases h
    | some p =>
      have hproducer : n.producer name = .ok p := by rw [NodeInstance.producer, hf]
      -- the value is stored first, which leaves the producer as it is
      cases text with
      | none =>
        have hn' : n' = n.setVariable name v := by
          cases consumer <;> cases h <;> rfl
        rw [hn']
        exact ⟨_, producer_setVariable hproducer v, rfl⟩
      | some text =>
        cases consumer with
        | none => cases h
        | some c =>
          cases h
          rw [← producer_setValue n name text] at hproducer
          exact ⟨_, producer_setVariable hproducer v, rfl⟩

theorem field?_bindAll_of_not_mem {name : String} {es : List (String × FieldState)}
    (h : name ∉ es.map (·.1)) (n : NodeInstance) :
    (n.bindAll es).1.field? name = n.field? name := by
  refine bindAll_keeps (P := (·.field? name = n.field? name)) (fun e he m hm => ?_) rfl
  have hne : name ≠ e.1 := fun heq => h (heq ▸ List.mem_map_of_mem he)
  exact (field?_bindField_of_ne hne e.2).trans hm

/-- After all fields are wired, each has a producer for the variable that is stored for it. -/
theorem publishes_of_bindAll {n n' : NodeInstance} {es : List (String × FieldState)}
    (hes : (es.map (·.1)).Nodup) (h : n.bindAll es = (n', none)) {name v : String} {s : FieldState}
    (hmem : (name, s) ∈ es) (hs : s.producer = some v) :
    ∃ p, n'.producer name = .ok p ∧ p.name = some v := by
  induction es generalizing n with
  | nil => cases hmem
  | cons e rest ih =>
    obtain ⟨k, st⟩ := e
    obtain ⟨hk, hrest⟩ := List.nodup_cons.mp hes
    rw [bindAll] at h
    split at h
    · cases h
    · next m hfirst =>
      rcases List.mem_cons.mp hmem with heq | hmem
      · obtain ⟨rfl, rfl⟩ := Prod.mk.inj heq
        obtain ⟨p, hp, hpname⟩ := publishes_of_bindField hfirst hs
        refine ⟨p, ?_, hpname⟩
        -- the entries behind it are about other fields
        have hlater := field?_bindAll_of_not_mem hk m
        rw [h] at hlater
        rw [← hp, producer, producer, hlater]
      · -- the entry is among the others
        exact ih hrest h hmem

/-- **What a wired node publishes.** A name that is stored for a producer is taken as it stands, so
that what is published under it can be read back exactly if the name is readable. -/
theorem publishes_of_configure {n n' : NodeInstance} {s : NodeState} {field name : String}
    (h : n.configure s = (n', none)) (hname : (s.field field).producer = some name)
    (hne : name ≠ "") :
    ∃ p, n'.producer field = .ok p ∧ p.variableName = some name ∧
      (p.ReadsBack name ↔ Readable name) := by
  have hmem : (field, s.field field) ∈ s.fields.entries := by
    rw [StringMap.mem_entries_iff]
    rw [NodeState.field] at hname ⊢
    cases hstate : s.fields.get? field with
    | none =>
      rw [hstate] at hname
      cases hname
    | some state => rfl
  -- the last part of the wiring only looks at what fields read
  have hpublishes : ∃ p, n'.producer field = .ok p ∧ p.name = some name := by
    rw [configure] at h
    split at h
    · cases h
    · split at h
      · cases h
      · next hfields =>
        obtain ⟨rfl, -⟩ := Prod.mk.inj h
        exact publishes_of_bindAll s.fields.nodup_keys hfields hmem hname
  obtain ⟨p, hp, hpname⟩ := hpublishes
  exact ⟨p, hp, Producer.variableName_eq_some hpname hne, Producer.readsBack_iff hpname hne⟩

/-- A type with a field that publishes. -/
def putter : NodeMetadata where
  name := "Put"
  group := .value
  color := .sky
  fields := [{ name := "out", producer := some {} }]

/-- A name of one letter is readable. -/
theorem reads_back_letter : ∃ n p,
    (ofMetadata "p" putter).configure
      { fields := StringMap.insert ∅ "out" { producer := some "r" } } = (n, none) ∧
    n.producer "out" = .ok p ∧ p.variableName = some "r" ∧ p.ReadsBack "r" := by
  have hreadable : Readable "r" := ⟨by decide, by simp [Template.isInner], by decide, by decide⟩
  have hstored : (NodeState.field { fields := StringMap.insert ∅ "out" { producer := some "r" } }
      "out").producer = some "r" := rfl
  obtain ⟨p, hp, hname, hreads⟩ :=
    publishes_of_configure (n := ofMetadata "p" putter) rfl hstored (by decide)
  exact ⟨_, p, rfl, hp, hname, hreads.mpr hreadable⟩

/-- **A name with a dot is taken, and nothing is read back under it**: the placeholder asks for a
field of another variable. -/
theorem not_reads_back_dotted : ∃ n p,
    (ofMetadata "p" putter).configure
      { fields := StringMap.insert ∅ "out" { producer := some "a.b" } } = (n, none) ∧
    n.producer "out" = .ok p ∧ p.variableName = some "a.b" ∧ ¬ p.ReadsBack "a.b" ∧
    ∃ c : Consumer, c.raw = some "\x7b\x7ba.b\x7d\x7d" ∧
      c.readString (p.publish ∅ (.boolean true)) = "" ∧
      c.evaluate .any (p.publish ∅ (.boolean true)) = .error (.expression (.unresolved "a.b")) := by
  refine ⟨_, { name := some "a.b" }, rfl, rfl, rfl, fun h => ?_, ?_⟩
  · have hreadable := (Producer.readsBack_iff rfl (by decide)).mp h
    exact absurd hreadable.undotted (by decide)
  -- it is found neither in a template nor in an expression
  have hparts : Template.parts "\x7b\x7ba.b\x7d\x7d".toList = [.placeholder "a.b".toList] := by cbv
  have hscan : Expression.Lexeme.scan "\x7b\x7ba.b\x7d\x7d".toList = .ok [⟨.path "a.b", 0⟩] := by
    cbv
  refine ⟨{ kind := .double, value := some _ }, rfl, ?_, ?_⟩
  · show Template.fill _ "\x7b\x7ba.b\x7d\x7d" = _
    rw [Template.fill, hparts]
    rfl
  · show (Expression.evaluate .any "\x7b\x7ba.b\x7d\x7d" _).mapError _ = _
    rw [Expression.evaluate, hscan]
    rfl

end NodeInstance

end Flowgraph
