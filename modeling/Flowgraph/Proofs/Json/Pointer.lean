import Flowgraph.Variables
import Flowgraph.Proofs.Node.Publishing

/-!
# Dotted paths as pointers into JSON

A dotted path is cut at its dots, and the pieces, without outer blanks, are the name of a variable
and the fields that lead on from its value. Where that value comes from JSON, the fields are steps
into the JSON: to the member of an object by its key, to the element of an array by its position
(`Json.Reaches`). A path comes to nothing exactly if a step fails or ends at null (`Json.Misses`).

The name of the variable is taken from the path like every other piece, so a name that has a dot or
outer blanks is on no path at all.

* `Variables.resolve_eq` — a path is resolved name by name.
* `Variables.resolve_extended` — one more piece is one more field.
* `Json.behind_eq_some_iff`, `Json.behind_eq_none_iff` — fields of a JSON value are steps into it.
* `Variables.dotted_paths_chart` — what dotted paths come to.
-/

namespace Flowgraph

/-! ### Cutting and trimming -/

namespace Text

theorem cutAt_append_sep (sep : Char) (s t : List Char) :
    cutAt sep (s ++ sep :: t) = cutAt sep s ++ cutAt sep t := by
  induction s with
  | nil =>
    show cutAt sep (sep :: t) = [[]] ++ cutAt sep t
    rw [cutAt, if_pos rfl]
    rfl
  | cons c s ih =>
    rw [List.cons_append, cutAt, cutAt, ih]
    split
    · rfl
    · -- the character belongs to the first piece, which is in front of the separator
      cases hcut : cutAt sep s with
      | nil => exact absurd hcut (cutAt_ne_nil sep s)
      | cons piece pieces => rfl

/-- Pieces without separators are what a cut finds in them when they are joined. -/
theorem cutAt_intercalate {sep : Char} {pieces : List (List Char)} (hne : pieces ≠ [])
    (h : ∀ piece ∈ pieces, sep ∉ piece) : cutAt sep ([sep].intercalate pieces) = pieces := by
  induction pieces with
  | nil => exact absurd rfl hne
  | cons piece rest ih =>
    obtain ⟨hpiece, hrest⟩ := List.forall_mem_cons.mp h
    cases rest with
    | nil => rw [List.intercalate_singleton, cutAt_of_not_mem hpiece]
    | cons next rest =>
      rw [List.intercalate_cons_cons, List.append_assoc, List.singleton_append, cutAt_append_sep,
        cutAt_of_not_mem hpiece, ih (List.cons_ne_nil _ _) hrest]
      rfl

/-- Blanks at the front of a text are at the front of its first piece. -/
theorem map_trim_cutAt_trimStart {sep : Char} (hsep : isBlank sep = false) (s : List Char) :
    (cutAt sep (trimStart s)).map trim = (cutAt sep s).map trim := by
  induction s with
  | nil => rfl
  | cons c rest ih =>
    by_cases hc : isBlank c = true
    · -- a blank in front goes, and it is not the separator
      have hne : c ≠ sep := by
        rintro rfl
        rw [hc] at hsep
        cases hsep
      have hstart : ∀ t, trimStart (c :: t) = trimStart t := fun t => List.dropWhile_cons_of_pos hc
      rw [hstart, ih, cutAt, if_neg hne]
      cases hcut : cutAt sep rest with
      | nil => exact absurd hcut (cutAt_ne_nil sep rest)
      | cons piece pieces =>
        have htrim : trim (c :: piece) = trim piece := congrArg trimEnd (hstart piece)
        simp only [List.map_cons, htrim]
    · rw [trimStart, List.dropWhile_cons_of_neg hc]

/-- Blanks at the end of a text are at the end of its last piece. -/
theorem map_trimEnd_cutAt_trimEnd {sep : Char} (hsep : isBlank sep = false) (s : List Char) :
    (cutAt sep (trimEnd s)).map trimEnd = (cutAt sep s).map trimEnd := by
  induction s with
  | nil => rfl
  | cons c rest ih =>
    rw [trimEnd_cons, cutAt]
    split
    · next hblank =>
      -- nothing but blanks is left, so there is a single piece
      have hne : c ≠ sep := by
        rintro rfl
        rw [hblank.2] at hsep
        cases hsep
      rw [hblank.1] at ih
      rw [if_neg hne]
      cases hcut : cutAt sep rest with
      | nil => exact absurd hcut (cutAt_ne_nil sep rest)
      | cons piece pieces =>
        rw [hcut] at ih
        obtain ⟨hpiece, hpieces⟩ := List.cons_eq_cons.mp ih
        have hend : trimEnd (c :: piece) = [] := by
          rw [trimEnd_cons, if_pos ⟨hpiece.symm, hblank.2⟩]
        rw [List.map_cons, hend, ← hpieces]
        rfl
    · rw [cutAt]
      split
      · rw [List.map_cons, List.map_cons, ih]
      · -- the character goes on with the first piece of the rest, on both sides
        cases hcut : cutAt sep rest with
        | nil => exact absurd hcut (cutAt_ne_nil sep rest)
        | cons piece pieces =>
          cases hcut' : cutAt sep (trimEnd rest) with
          | nil => exact absurd hcut' (cutAt_ne_nil sep _)
          | cons piece' pieces' =>
            rw [hcut, hcut'] at ih
            obtain ⟨hpiece, hpieces⟩ := List.cons_eq_cons.mp ih
            rw [List.map_cons, List.map_cons, hpieces, trimEnd_cons, trimEnd_cons, hpiece]

/-- A text may be trimmed before it is cut into pieces that are trimmed. -/
theorem map_trim_cutAt_trim {sep : Char} (hsep : isBlank sep = false) (s : List Char) :
    (cutAt sep (trim s)).map trim = (cutAt sep s).map trim := by
  have hends : ∀ ps : List (List Char), ps.map trim = (ps.map trimEnd).map trimStart := by
    intro ps
    rw [List.map_map]
    exact List.map_congr_left fun p _ => (trimStart_trimEnd p).symm
  calc (cutAt sep (trim s)).map trim
      = ((cutAt sep (trimEnd (trimStart s))).map trimEnd).map trimStart := hends _
    _ = (cutAt sep (trimStart s)).map trim := by rw [map_trimEnd_cutAt_trimEnd hsep, ← hends]
    _ = (cutAt sep s).map trim := map_trim_cutAt_trimStart hsep s

end Text

/-! ### Paths and names -/

namespace Variables

/-- The names on a path: its pieces between the dots, without outer blanks. -/
def names (path : String) : List String :=
  (Text.cutAt '.' path.toList).map fun piece => String.ofList (Text.trim piece)

/-- The value behind fields of a value. -/
def behind (names : List String) (v : Value) : Option Value := names.foldlM Value.field? v

theorem follow_eq_behind (v : Value) (pieces : List (List Char)) :
    follow v pieces = behind (pieces.map fun piece => String.ofList (Text.trim piece)) v := by
  induction pieces generalizing v with
  | nil => rfl
  | cons piece rest ih =>
    rw [follow, List.map_cons, behind, List.foldlM_cons]
    cases v.field? (String.ofList (Text.trim piece)) with
    | none => rfl
    | some inner => exact ih inner

/-- **A path is resolved name by name**: the first is that of a variable, and each further one leads
to a field of the value before. -/
theorem resolve_eq (vars : Variables) {path head : String} {rest : List String}
    (h : names path = head :: rest) : vars.resolve path = (vars.get? head).bind (behind rest) := by
  have hdot : Text.isBlank '.' = false := by decide
  have htrim := congrArg (List.map String.ofList) (Text.map_trim_cutAt_trim hdot path.toList)
  rw [List.map_map, List.map_map] at htrim
  -- trimming the path first makes no difference to its names
  have hsegments : (segments path.toList).map (fun piece => String.ofList (Text.trim piece)) =
      head :: rest := htrim.trans h
  obtain ⟨first, pieces, hcut, rfl, rfl⟩ := List.map_eq_cons_iff.mp hsegments
  rw [resolve, hcut]
  simp only [follow_eq_behind]

theorem names_ne_nil (path : String) : names path ≠ [] := fun h =>
  Text.cutAt_ne_nil _ _ (List.map_eq_nil_iff.mp h)

/-- **One more piece is one more field.** -/
theorem resolve_extended (vars : Variables) (path : String) {segment : String}
    (h : '.' ∉ segment.toList) : vars.resolve (path ++ "." ++ segment) =
      (vars.resolve path).bind (·.field? (Text.trimmed segment)) := by
  have hnames : names (path ++ "." ++ segment) = names path ++ [Text.trimmed segment] := by
    have htext : (path ++ "." ++ segment).toList = path.toList ++ '.' :: segment.toList := by simp
    rw [names, htext, Text.cutAt_append_sep, Text.cutAt_of_not_mem h, List.map_append]
    rfl
  -- the last segment is one more step behind the path
  cases hpath : names path with
  | nil => exact absurd hpath (names_ne_nil path)
  | cons head rest =>
    rw [hpath, List.cons_append] at hnames
    rw [resolve_eq vars hnames, resolve_eq vars hpath, Option.bind_assoc]
    refine congrArg (vars.get? head).bind (funext fun v => ?_)
    rw [behind, List.foldlM_append]
    exact congrArg ((behind rest v).bind ·) (funext fun inner => Option.bind_fun_some _)

/-- The path to fields of a variable: its name and further pieces, with dots between them. -/
def dotted (name : String) (segments : List String) : String := ".".intercalate (name :: segments)

theorem names_dotted {name : String} {segments : List String} (hdot : '.' ∉ name.toList)
    (h : ∀ s ∈ segments, '.' ∉ s.toList) :
    names (dotted name segments) = Text.trimmed name :: segments.map Text.trimmed := by
  -- no dot is in a piece, so the cuts are where the dots were put
  have hpieces : ∀ piece ∈ (name :: segments).map String.toList, '.' ∉ piece := by
    intro piece hpiece
    obtain ⟨s, hs, rfl⟩ := List.mem_map.mp hpiece
    rcases List.mem_cons.mp hs with rfl | hs
    · exact hdot
    · exact h s hs
  have htext : (dotted name segments).toList =
      ['.'].intercalate ((name :: segments).map String.toList) := String.toList_intercalate
  rw [names, htext, Text.cutAt_intercalate (by simp) hpieces, List.map_map]
  rfl

/-- A name that a path can have for that of its variable. -/
structure Plain (name : String) : Prop where
  dot : '.' ∉ name.toList
  trim : Text.trim name.toList = name.toList

/-- The names on a path are plain. -/
theorem plain_of_mem_names {path name : String} (h : name ∈ names path) : Plain name := by
  obtain ⟨piece, hpiece, rfl⟩ := List.mem_map.mp h
  refine ⟨?_, ?_⟩
  · rw [String.toList_ofList]
    exact fun hmem => Text.not_mem_of_mem_cutAt hpiece (Text.mem_of_mem_trim hmem)
  · rw [String.toList_ofList, Text.trim_trim]

/-- **A variable of any other name is on no path.** -/
theorem resolve_insert_of_not_plain {name : String} (h : ¬ Plain name) (vars : Variables)
    (v : Value) (path : String) : resolve (vars.insert name v) path = vars.resolve path := by
  cases hpath : names path with
  | nil => exact absurd hpath (names_ne_nil path)
  | cons head rest =>
    have hne : head ≠ name := by
      rintro rfl
      exact h (plain_of_mem_names (hpath ▸ List.mem_cons_self))
    rw [resolve_eq _ hpath, resolve_eq _ hpath, StringMap.get?_insert_of_ne _ _ hne]

end Variables

/-! ### Steps into JSON -/

namespace Json

/-- Steps from a JSON value lead to another: to the member of an object under a key, and to the
element of an array at the position that a text denotes. -/
inductive Reaches : Json → List String → Json → Prop
  | here (j : Json) : Reaches j [] j
  | member {members : List (String × Json)} {key : String} {rest : List String} {x y : Json}
      (hx : members.lookup key = some x) (h : Reaches x rest y) :
      Reaches (.object members) (key :: rest) y
  | element {items : List Json} {text : String} {rest : List String} {i : Nat} {x y : Json}
      (hi : Decimal.readNat64 text.toList = some i) (hx : items[i]? = some x)
      (h : Reaches x rest y) : Reaches (.array items) (text :: rest) y

/-- Whether a JSON value holds no others. -/
def IsScalar : Json → Prop
  | .bool _ | .number _ | .text _ => True
  | _ => False

/-- Steps from a JSON value come to nothing: one of them fails, or they come past null. -/
inductive Misses : Json → List String → Prop
  | null (rest : List String) : Misses .null rest
  | scalar {j : Json} (h : j.IsScalar) (name : String) (rest : List String) :
      Misses j (name :: rest)
  | noMember {members : List (String × Json)} {key : String} (h : members.lookup key = none)
      (rest : List String) : Misses (.object members) (key :: rest)
  | noElement {items : List Json} {text : String}
      (h : ∀ i, Decimal.readNat64 text.toList = some i → items.length ≤ i)
      (rest : List String) : Misses (.array items) (text :: rest)
  | member {members : List (String × Json)} {key : String} {rest : List String} {x : Json}
      (hx : members.lookup key = some x) (h : Misses x rest) :
      Misses (.object members) (key :: rest)
  | element {items : List Json} {text : String} {rest : List String} {i : Nat} {x : Json}
      (hi : Decimal.readNat64 text.toList = some i) (hx : items[i]? = some x)
      (h : Misses x rest) : Misses (.array items) (text :: rest)

theorem reaches_cons_iff {j y : Json} {name : String} {rest : List String} :
    Reaches j (name :: rest) y ↔ ∃ x, j.child? name = some x ∧ Reaches x rest y := by
  constructor
  · intro h
    cases h with
    | member hx h => exact ⟨_, hx, h⟩
    | element hi hx h => exact ⟨_, by rw [child?, hi]; exact hx, h⟩
  · rintro ⟨x, hx, h⟩
    -- a step is made into objects and arrays only
    cases j with
    | object members => exact .member hx h
    | array items =>
      obtain ⟨i, hi, hx⟩ := Option.bind_eq_some_iff.mp hx
      exact .element hi hx h
    | null | bool _ | number _ | text _ => cases hx

theorem misses_cons_iff {j : Json} {name : String} {rest : List String} :
    Misses j (name :: rest) ↔
      j.child? name = none ∨ ∃ x, j.child? name = some x ∧ Misses x rest := by
  constructor
  · -- a path misses at its first name, or behind it
    intro h
    cases h with
    | null => exact .inl rfl
    | scalar hj => cases j <;> first | exact hj.elim | exact .inl rfl
    | noMember h => exact .inl h
    | noElement h =>
      refine .inl (Option.bind_eq_none_iff.mpr fun i hi => ?_)
      exact List.getElem?_eq_none_iff.mpr (h i hi)
    | member hx h => exact .inr ⟨_, hx, h⟩
    | element hi hx h => exact .inr ⟨_, by rw [child?, hi]; exact hx, h⟩
  · rintro (hnone | ⟨x, hx, h⟩)
    · cases j with
      | null => exact .null _
      | bool _ | number _ | text _ =>
        -- nothing is inside a scalar
        refine .scalar ?_ _ _
        exact trivial
      | object members => exact .noMember hnone _
      | array items =>
        refine .noElement (fun i hi => ?_) _
        exact List.getElem?_eq_none_iff.mp (Option.bind_eq_none_iff.mp hnone i hi)
    · cases j with
      | object members => exact .member hx h
      | array items =>
        obtain ⟨i, hi, hx⟩ := Option.bind_eq_some_iff.mp hx
        exact .element hi hx h
      | null | bool _ | number _ | text _ => cases hx

theorem misses_nil_iff {j : Json} : Misses j [] ↔ j = .null := by
  constructor
  · intro h
    cases h
    rfl
  · rintro rfl
    exact .null _

theorem ofJson?_eq_none_iff {j : Json} : Value.ofJson? j = none ↔ j = .null := by
  cases j <;> simp [Value.ofJson?]

/-- A field of a value that comes from JSON is a step into the JSON. -/
theorem bind_field?_ofJson? (j : Json) (name : String) :
    (Value.ofJson? j).bind (·.field? name) = (j.child? name).bind Value.ofJson? := by
  cases j <;> rfl

theorem bind_behind_cons (j : Json) (name : String) (rest : List String) :
    (Value.ofJson? j).bind (Variables.behind (name :: rest)) =
      (j.child? name).bind fun x => (Value.ofJson? x).bind (Variables.behind rest) := by
  have hcons : Variables.behind (name :: rest) = fun v =>
      (v.field? name).bind (Variables.behind rest) := rfl
  rw [hcons, ← Option.bind_assoc, bind_field?_ofJson?, Option.bind_assoc]

/-- **Fields of a JSON value are steps into it.** -/
theorem behind_eq_some_iff {j : Json} {names : List String} {v : Value} :
    (Value.ofJson? j).bind (Variables.behind names) = some v ↔
      ∃ y, Reaches j names y ∧ Value.ofJson? y = some v := by
  induction names generalizing j with
  | nil =>
    have hnil : (Value.ofJson? j).bind (Variables.behind []) = Value.ofJson? j :=
      Option.bind_fun_some _
    rw [hnil]
    constructor
    · exact fun h => ⟨j, .here j, h⟩
    · rintro ⟨y, hy, h⟩
      cases hy
      exact h
  -- one name leads to a member, and the rest are followed from there
  | cons name rest ih =>
    rw [bind_behind_cons, Option.bind_eq_some_iff]
    simp only [ih, reaches_cons_iff]
    constructor
    · rintro ⟨x, hx, y, hy, hv⟩
      exact ⟨y, ⟨x, hx, hy⟩, hv⟩
    · rintro ⟨y, ⟨x, hx, hy⟩, hv⟩
      exact ⟨x, hx, y, hy, hv⟩

/-- **There is no value exactly if the steps come to nothing.** -/
theorem behind_eq_none_iff {j : Json} {names : List String} :
    (Value.ofJson? j).bind (Variables.behind names) = none ↔ Misses j names := by
  induction names generalizing j with
  | nil =>
    have hnil : (Value.ofJson? j).bind (Variables.behind []) = Value.ofJson? j :=
      Option.bind_fun_some _
    rw [hnil, ofJson?_eq_none_iff, misses_nil_iff]
  | cons name rest ih =>
    rw [bind_behind_cons, misses_cons_iff]
    cases hx : j.child? name with
    | none => exact ⟨fun _ => .inl rfl, fun _ => rfl⟩
    | some x =>
      rw [Option.bind_some, ih]
      simp

end Json

/-! ### What paths come to -/

namespace Variables

/-- What dotted paths from a variable come to that has its value from JSON. Blanks may stand around
the name of the variable and around each further piece. -/
structure Charted (vars : Variables) (name : String) (j : Json) : Prop where
  /-- A value is found exactly if the steps lead to JSON that has it. -/
  found : ∀ (head : String) (segments : List String), Text.trimmed head = name →
    (∀ s ∈ segments, '.' ∉ s.toList) → ∀ v, vars.resolve (dotted head segments) = some v ↔
      ∃ y, j.Reaches (segments.map Text.trimmed) y ∧ Value.ofJson? y = some v
  /-- None is found exactly if a step fails, or ends at null. -/
  absent : ∀ (head : String) (segments : List String), Text.trimmed head = name →
    (∀ s ∈ segments, '.' ∉ s.toList) →
    (vars.resolve (dotted head segments) = none ↔ j.Misses (segments.map Text.trimmed))

theorem resolve_dotted {vars : Variables} {name head : String} {j : Json} (hname : Plain name)
    (h : vars.get? name = Value.ofJson? j) {segments : List String}
    (hhead : Text.trimmed head = name) (hsegments : ∀ s ∈ segments, '.' ∉ s.toList) :
    vars.resolve (dotted head segments) =
      (Value.ofJson? j).bind (behind (segments.map Text.trimmed)) := by
  -- blanks around the name of the variable hold no dot either
  have hdot : '.' ∉ head.toList := by
    have hname := hname.dot
    rwa [← hhead, Text.toList_trimmed, Text.mem_trim_iff (by decide)] at hname
  rw [resolve_eq vars (names_dotted hdot hsegments), hhead, h]

/-- **Dotted paths are pointers into JSON**, if the name of the variable has no dot and no outer
blanks, and otherwise no path leads to the variable. Behind any path, one more piece is one more
field. -/
theorem dotted_paths_chart (vars : Variables) :
    (∀ name j, vars.get? name = Value.ofJson? j → Plain name → Charted vars name j) ∧
      (∀ name, ¬ Plain name → ∀ v path,
        resolve (vars.insert name v) path = vars.resolve path) ∧
      ∀ (path segment : String), '.' ∉ segment.toList → vars.resolve (path ++ "." ++ segment) =
        (vars.resolve path).bind (·.field? (Text.trimmed segment)) := by
  refine ⟨fun name j h hname =>
      ⟨fun head segments hhead hsegments v => ?_, fun head segments hhead hsegments => ?_⟩,
    fun name hname v path => resolve_insert_of_not_plain hname vars v path,
    fun path segment => resolve_extended vars path⟩
  · -- both are read off the same chain of fields
    rw [resolve_dotted hname h hhead hsegments, Json.behind_eq_some_iff]
  · rw [resolve_dotted hname h hhead hsegments, Json.behind_eq_none_iff]

/-- A list of goods, and a member that is null. -/
def payload : Json :=
  .object [("gone", .null), ("items", .array [.object [("label", .text "copper")]])]

/-- The label of the first goods is found, with blanks around the name and the position, and nothing
is found behind null. -/
theorem charted_payload :
    resolve (StringMap.insert ∅ "payload" (.structured (.json payload)))
        (dotted " payload " ["items", " 0 ", "label"]) = some (.text "copper") ∧
      resolve (StringMap.insert ∅ "payload" (.structured (.json payload)))
        (dotted "payload" ["gone", "label"]) = none := by
  obtain ⟨hfound, habsent⟩ := (dotted_paths_chart
    (StringMap.insert ∅ "payload" (.structured (.json payload)))).1 "payload" payload rfl
      ⟨by decide, by decide⟩
  have hposition : Text.trimmed " 0 " = "0" := by decide
  refine ⟨(hfound " payload " ["items", " 0 ", "label"] (by decide) (by decide) _).mpr
      ⟨.text "copper", ?_, rfl⟩,
    (habsent "payload" ["gone", "label"] (by decide) (by decide)).mpr ?_⟩
  · exact .member rfl (.element (i := 0) (by rw [hposition]; decide) rfl (.member rfl (.here _)))
  · exact .member rfl (.null _)

/-- A variable whose name has a dot is not found under its name, nor is anything behind it. -/
theorem not_charted_dotted : ¬ ∀ (vars : Variables) (name : String) (j : Json),
    vars.get? name = Value.ofJson? j → Charted vars name j := by
  intro h
  have hfound := (h (StringMap.insert ∅ "a.b" (.structured (.json (.array [.text "copper"]))))
    "a.b" (.array [.text "copper"]) rfl).found "a.b" ["0"] (by decide) (by decide) (.text "copper")
  -- the path is cut at the dot, so it looks for another variable
  have hnone : resolve (StringMap.insert ∅ "a.b" (.structured (.json (.array [.text "copper"]))))
      (dotted "a.b" ["0"]) = none := by
    rw [resolve_insert_of_not_plain fun hplain => hplain.dot (by decide)]
    cbv
  rw [hnone] at hfound
  have hreaches :
      Json.Reaches (.array [.text "copper"]) (["0"].map Text.trimmed) (.text "copper") :=
    .element (i := 0) (by decide) rfl (.here _)
  cases hfound.mpr ⟨_, hreaches, rfl⟩

end Variables

end Flowgraph
