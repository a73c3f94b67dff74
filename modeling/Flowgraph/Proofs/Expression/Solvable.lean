import Flowgraph.Proofs.Field.Literals

/-!
# Expressions that have a number under some variables

A text may be no expression at all, and then no variables help. For one that is, its variables have
to be found, and there are two things that they cannot mend. Where the path of one variable leads
through the value of another, as in the sum of `a` and `a.b`, that value would have to be a number
and to have a field. And a divisor in which no variable occurs is what it is.

There is nothing else. Where no path leads through another, JSON objects can be nested so that every
path ends at the same text. The text to choose is `NaN`: what is computed from it is not a number
either, hence not zero, and no divisor that depends on a variable stands in the way.

* `Variables.exists_resolve` — one text at the end of all paths.
* `Expr.exists_eval_iff`, `exists_evaluateNumber_iff` — when there are variables under which a tree,
  or a text, has a number.
-/

namespace Flowgraph

/-! ### Paths -/

/-- Follows names from field to field. -/
def Value.pursue : List String → Value → Option Value
  | [], v => some v
  | k :: ks, v => (v.field? k).bind (pursue ks)

theorem Value.pursue_append (v : Value) (ks rest : List String) :
    v.pursue (ks ++ rest) = (v.pursue ks).bind (pursue rest) := by
  induction ks generalizing v with
  | nil => rfl
  | cons k ks ih =>
    rw [List.cons_append, pursue, pursue]
    cases v.field? k with
    | none => rfl
    | some w => exact ih w

namespace Variables

/-- The names along a path: that of a variable, and those of the fields behind it. -/
def route (path : String) : List String :=
  (segments path.toList).map fun segment => String.ofList (Text.trim segment)

theorem follow_eq (v : Value) (segments : List (List Char)) :
    follow v segments =
      v.pursue (segments.map fun segment => String.ofList (Text.trim segment)) := by
  induction segments generalizing v with
  | nil => rfl
  | cons segment rest ih =>
    rw [follow, List.map_cons, Value.pursue]
    cases v.field? (String.ofList (Text.trim segment)) with
    | none => rfl
    | some inner => exact ih inner

theorem exists_route (path : String) : ∃ k ks, route path = k :: ks := by
  rw [← List.ne_nil_iff_exists_cons, route, Ne, List.map_eq_nil_iff]
  exact Text.cutAt_ne_nil '.' _

theorem resolve_of_route {path k : String} {ks : List String} (h : route path = k :: ks)
    (vars : Variables) : vars.resolve path = (vars.get? k).bind (Value.pursue ks) := by
  obtain ⟨segment, rest, hsegments, rfl, rfl⟩ := List.map_eq_cons_iff.mp h
  have hfollow : (follow · rest) = Value.pursue (rest.map fun s => String.ofList (Text.trim s)) :=
    funext fun v => follow_eq v rest
  rw [resolve, hsegments, ← hfollow]

/-- A path that goes on from the end of another leads on from the value there. -/
theorem resolve_of_route_append {p q : String} {rest : List String}
    (h : route q = route p ++ rest) (vars : Variables) :
    vars.resolve q = (vars.resolve p).bind (Value.pursue rest) := by
  obtain ⟨k, ks, hp⟩ := exists_route p
  rw [hp, List.cons_append] at h
  rw [resolve_of_route h, resolve_of_route hp]
  cases vars.get? k with
  | none => rfl
  | some v => exact Value.pursue_append v ks rest

/-- No path of a list leads through the value of another. -/
def Apart (paths : List String) : Prop :=
  ∀ p ∈ paths, ∀ q ∈ paths, route p <+: route q → route p = route q

end Variables

/-! ### Values at the ends of routes -/

namespace Value

/-- No route of a list goes on from the end of another. -/
def PrefixFree (routes : List (List String)) : Prop :=
  ∀ r ∈ routes, ∀ s ∈ routes, r <+: s → r = s

/-- How the routes go on that begin with a name. -/
def branches (k : String) (routes : List (List String)) : List (List String) :=
  routes.filterMap fun
    | [] => none
    | k' :: ks => if k' = k then some ks else none

theorem mem_branches_iff {k : String} {ks : List String} {routes : List (List String)} :
    ks ∈ branches k routes ↔ k :: ks ∈ routes := by
  rw [branches, List.mem_filterMap]
  constructor
  · rintro ⟨_ | ⟨k', ks'⟩, hr, hks⟩
    · cases hks
    · dsimp only at hks
      split at hks
      · next heq =>
        cases hks
        rwa [← heq]
      · cases hks
  · intro h
    exact ⟨k :: ks, h, if_pos rfl⟩

theorem PrefixFree.branches {routes : List (List String)} (h : PrefixFree routes) (k : String) :
    PrefixFree (branches k routes) := by
  intro r hr s hs hrs
  have heq : k :: r = k :: s := h _ (mem_branches_iff.mp hr) _ (mem_branches_iff.mp hs)
    (List.cons_prefix_cons.mpr ⟨rfl, hrs⟩)
  exact (List.cons.inj heq).2

theorem mem_heads {k : String} {ks : List String} {routes : List (List String)}
    (h : k :: ks ∈ routes) : k ∈ routes.filterMap List.head? :=
  List.mem_filterMap.mpr ⟨k :: ks, h, rfl⟩

/-- The text itself will do where the only route is that of no steps. -/
theorem exists_pursue_nil (leaf : String) {routes : List (List String)}
    (hnil : ∀ r ∈ routes, r = []) :
    ∃ j v, Value.ofJson? j = some v ∧ ∀ r ∈ routes, v.pursue r = some (.text leaf) := by
  refine ⟨.text leaf, .text leaf, rfl, fun r hr => ?_⟩
  rw [hnil r hr]
  rfl

/-- **JSON with one text at the end of every route.** -/
theorem exists_pursue (leaf : String) (n : Nat) {routes : List (List String)}
    (hfree : PrefixFree routes) (hlen : ∀ r ∈ routes, r.length ≤ n) :
    ∃ j v, Value.ofJson? j = some v ∧ ∀ r ∈ routes, v.pursue r = some (.text leaf) := by
  -- on the number of levels: every name that a route begins with gets its own JSON
  induction n generalizing routes with
  | zero =>
    refine exists_pursue_nil leaf fun r hr => ?_
    exact List.length_eq_zero_iff.mp (Nat.le_zero.mp (hlen r hr))
  | succ n ih =>
    by_cases hroot : [] ∈ routes
    · exact exists_pursue_nil leaf fun r hr => (hfree [] hroot r hr List.nil_prefix).symm
    have hbelow : ∀ k, ∃ j v, Value.ofJson? j = some v ∧
        ∀ r ∈ branches k routes, v.pursue r = some (.text leaf) := by
      intro k
      exact ih (hfree.branches k) fun r hr =>
        Nat.le_of_succ_le_succ (hlen _ (mem_branches_iff.mp hr))
    choose j v hv hpursue using hbelow
    let members := (routes.filterMap List.head?).map fun k => (k, j k)
    refine ⟨.ofMembers members, _, rfl, fun r hr => ?_⟩
    cases r with
    | nil => exact absurd hr hroot
    | cons k ks =>
      have hchild : Json.child? (.ofMembers members) k = some (j k) :=
        (StringMap.get?_ofList_map j _ k).trans (if_pos (mem_heads hr))
      rw [Value.pursue, Value.field?, Structured.field?, hchild, Option.bind_some, hv,
        Option.bind_some]
      exact hpursue k ks (mem_branches_iff.mpr hr)

end Value

/-- **One text at the end of all paths**, if no path leads through another. -/
theorem Variables.exists_resolve (leaf : String) {paths : List String} (h : Apart paths) :
    ∃ vars : Variables, ∀ p ∈ paths, vars.resolve p = some (.text leaf) := by
  have hfree : Value.PrefixFree (paths.map route) := by
    intro r hr s hs
    obtain ⟨p, hp, rfl⟩ := List.mem_map.mp hr
    obtain ⟨q, hq, rfl⟩ := List.mem_map.mp hs
    exact h p hp q hq
  -- the values under the first step of the paths, one for each such step
  have hvalue : ∀ k, ∃ v : Value, ∀ r ∈ Value.branches k (paths.map route),
      v.pursue r = some (.text leaf) := by
    intro k
    let below := Value.branches k (paths.map route)
    have hlen : ∀ r ∈ below, r.length ≤ below.flatten.length := fun r hr =>
      (List.sublist_flatten_of_mem hr).length_le
    obtain ⟨-, v, -, hv⟩ := Value.exists_pursue leaf _ (hfree.branches k) hlen
    exact ⟨v, hv⟩
  choose v hv using hvalue
  refine ⟨.ofList (((paths.map route).filterMap List.head?).map fun k => (k, v k)), fun p hp => ?_⟩
  obtain ⟨k, ks, hroute⟩ := exists_route p
  have hmem : k :: ks ∈ paths.map route := hroute ▸ List.mem_map_of_mem hp
  rw [resolve_of_route hroute, StringMap.get?_ofList_map, if_pos (Value.mem_heads hmem),
    Option.bind_some]
  exact hv k ks (Value.mem_branches_iff.mpr hmem)

/-! ### What is not a number -/

namespace Decimal

open Float.Model

/-- The result is not a number if one of the operands is none. -/
def Absorbs (op : UnpackedFloat → UnpackedFloat → UnpackedFloat) : Prop :=
  (∀ y, op .notANumber y = .notANumber) ∧ ∀ x, op x .notANumber = .notANumber

theorem absorbs_add : Absorbs (UnpackedFloat.add Format.binary64) :=
  ⟨fun _ => rfl, fun x => by cases x <;> rfl⟩

theorem absorbs_sub : Absorbs (UnpackedFloat.sub Format.binary64) :=
  ⟨fun _ => rfl, fun x => by cases x <;> rfl⟩

theorem absorbs_mul : Absorbs (UnpackedFloat.mul Format.binary64) :=
  ⟨fun _ => rfl, fun x => by cases x <;> rfl⟩

theorem absorbs_div : Absorbs (UnpackedFloat.div Format.binary64) :=
  ⟨fun _ => rfl, fun x => by cases x <;> rfl⟩

theorem unpack_of_isNaN {x : Float} (h : x.isNaN = true) : x.toModel.unpack = .notANumber := by
  have h : x.toModel.unpack.isNaN = true := h
  cases hx : x.toModel.unpack with
  | notANumber => rfl
  | _ =>
    rw [hx] at h
    cases h

theorem isNaN_of_unpack {u : UnpackedFloat} (h : u = .notANumber) :
    (Float.ofModel (pack u)).isNaN = true := by
  rw [h]
  decide

theorem isNaN_of_absorbs {op : UnpackedFloat → UnpackedFloat → UnpackedFloat} (hop : Absorbs op)
    {x y : Float} (h : x.isNaN = true ∨ y.isNaN = true) :
    (Float.ofModel (pack (op x.toModel.unpack y.toModel.unpack))).isNaN = true := by
  refine isNaN_of_unpack ?_
  rcases h with h | h
  · rw [unpack_of_isNaN h]
    exact hop.1 _
  · rw [unpack_of_isNaN h]
    exact hop.2 _

theorem isNaN_neg {x : Float} (h : x.isNaN = true) : (-x).isNaN = true := by
  refine isNaN_of_unpack ?_
  rw [unpack_of_isNaN h]
  rfl

/-- What is no number is not zero. -/
theorem beq_zero_of_isNaN {x : Float} (h : x.isNaN = true) : (x == 0) = false := by
  show x.toModel.unpack.beq (Float.toModel 0).unpack = false
  rw [unpack_of_isNaN h]
  rfl

theorem exists_asNumber?_nan : ∃ x, (Value.text "NaN").asNumber? = some x ∧ x.isNaN = true :=
  ⟨0.0 / 0.0, rfl, by decide⟩

end Decimal

namespace Expression

/-! ### Operators -/

namespace BinaryOp

variable {op : BinaryOp} {a b c : Float}

/-- Only a divisor that is zero is refused. -/
theorem exists_apply_iff :
    (∃ c, op.apply a b = .ok c) ↔ (op = .divide → (b == 0) = false) := by
  by_cases hop : op = .divide
  · subst hop
    rw [apply]
    cases b == 0 with
    | false => simp
    | true => simp
  · -- the other operators have a result for any operands
    refine ⟨fun _ h => absurd h hop, fun _ => ?_⟩
    cases op with
    | divide => exact absurd rfl hop
    | _ => exact ⟨_, rfl⟩

theorem isNaN_of_apply (h : op.apply a b = .ok c) (hn : a.isNaN = true ∨ b.isNaN = true) :
    c.isNaN = true := by
  cases op with
  | add =>
    cases h
    exact Decimal.isNaN_of_absorbs Decimal.absorbs_add hn
  | subtract =>
    cases h
    exact Decimal.isNaN_of_absorbs Decimal.absorbs_sub hn
  | multiply =>
    cases h
    exact Decimal.isNaN_of_absorbs Decimal.absorbs_mul hn
  -- dividing is refused by zero, and otherwise absorbs like the others
  | divide =>
    rw [apply] at h
    split at h
    · cases h
    · cases h
      exact Decimal.isNaN_of_absorbs Decimal.absorbs_div hn

end BinaryOp

/-! ### Trees -/

namespace Expr

/-- The paths of the variables in a tree. -/
def paths : Expr → List String
  | .number _ => []
  | .path p => [p]
  | .negate e => e.paths
  | .binary _ left right => left.paths ++ right.paths

/-- No divisor is zero that has a value without variables. -/
def Divisible : Expr → Prop
  | .number _ => True
  | .path _ => True
  | .negate e => e.Divisible
  | .binary op left right => left.Divisible ∧ right.Divisible ∧
      (op = .divide → ∀ y, right.eval StringMap.empty = .ok y → (y == 0) = false)

/-- What no variables can mend is in order. -/
structure Solvable (tree : Expr) : Prop where
  /-- No variable is a number and has a field as well. -/
  apart : Variables.Apart tree.paths
  divisible : tree.Divisible

variable {tree : Expr} {vars : Variables} {x : Float}

theorem eval_negate_eq_ok_iff {e : Expr} :
    (negate e).eval vars = .ok x ↔ ∃ a, e.eval vars = .ok a ∧ x = -a := by
  rw [eval]
  cases e.eval vars with
  | error err => simp
  | ok a => simp [eq_comm]

theorem eval_binary_eq_ok_iff {op : BinaryOp} {left right : Expr} :
    (binary op left right).eval vars = .ok x ↔
      ∃ a b, left.eval vars = .ok a ∧ right.eval vars = .ok b ∧ op.apply a b = .ok x := by
  rw [eval]
  cases left.eval vars with
  | error err => simp
  | ok a =>
    cases right.eval vars with
    | error err => simp
    | ok b => simp

/-- A tree with a number has a number for each of its variables. -/
theorem operand_of_eval (h : tree.eval vars = .ok x) {p : String} (hp : p ∈ tree.paths) :
    ∃ y, operand vars p = .ok y := by
  induction tree generalizing x with
  | number y => cases hp
  | path q =>
    cases List.mem_singleton.mp hp
    exact ⟨x, h⟩
  | negate e ih =>
    obtain ⟨a, ha, -⟩ := eval_negate_eq_ok_iff.mp h
    exact ih ha hp
  | binary op left right ihl ihr =>
    obtain ⟨a, b, ha, hb, -⟩ := eval_binary_eq_ok_iff.mp h
    rcases List.mem_append.mp hp with hp | hp
    · exact ihl ha hp
    · exact ihr hb hp

/-- A number under no variables is the number under all. -/
theorem eval_of_empty (h : tree.eval StringMap.empty = .ok x) (vars : Variables) :
    tree.eval vars = .ok x := by
  induction tree generalizing x with
  | number y => exact h
  | path q =>
    rw [eval, operand, resolve_empty] at h
    cases h
  | negate e ih =>
    obtain ⟨a, ha, hx⟩ := eval_negate_eq_ok_iff.mp h
    exact eval_negate_eq_ok_iff.mpr ⟨a, ih ha, hx⟩
  | binary op left right ihl ihr =>
    obtain ⟨a, b, ha, hb, hx⟩ := eval_binary_eq_ok_iff.mp h
    exact eval_binary_eq_ok_iff.mpr ⟨a, b, ihl ha, ihr hb, hx⟩

/-- What is a number has no fields. -/
theorem pursue_of_asNumber? {v : Value} {y : Float} (h : v.asNumber? = some y) (k : String)
    (ks : List String) : v.pursue (k :: ks) = none := by
  cases v with
  | structured s => cases h
  | _ => rfl

theorem exists_asNumber?_of_operand {p : String} {y : Float} (h : operand vars p = .ok y) :
    ∃ v, vars.resolve p = some v ∧ v.asNumber? = some y := by
  rw [operand] at h
  split at h
  · cases h
  · next v hv =>
    split at h
    · cases h
    · next z hz =>
      cases h
      exact ⟨v, hv, hz⟩

/-- Two variables that are numbers are not one a field of the other. -/
theorem route_eq_of_operand {p q : String} {y z : Float} (hp : operand vars p = .ok y)
    (hq : operand vars q = .ok z) (hpq : Variables.route p <+: Variables.route q) :
    Variables.route p = Variables.route q := by
  obtain ⟨v, hv, hy⟩ := exists_asNumber?_of_operand hp
  obtain ⟨w, hw, -⟩ := exists_asNumber?_of_operand hq
  obtain ⟨rest, hrest⟩ := hpq
  have hrest : Variables.route q = Variables.route p ++ rest := hrest.symm
  rw [Variables.resolve_of_route_append hrest, hv] at hw
  cases rest with
  | nil => rw [hrest, List.append_nil]
  | cons k ks =>
    have hnone : v.pursue (k :: ks) = none := pursue_of_asNumber? hy k ks
    rw [Option.bind_some, hnone] at hw
    cases hw

theorem solvable_of_eval (h : tree.eval vars = .ok x) : tree.Solvable where
  apart p hp q hq hpq := by
    obtain ⟨y, hy⟩ := operand_of_eval h hp
    obtain ⟨z, hz⟩ := operand_of_eval h hq
    exact route_eq_of_operand hy hz hpq
  divisible := by
    induction tree generalizing x with
    | number y => trivial
    | path q => trivial
    | negate e ih =>
      obtain ⟨a, ha, -⟩ := eval_negate_eq_ok_iff.mp h
      exact ih ha
    | binary op left right ihl ihr =>
      obtain ⟨a, b, ha, hb, hx⟩ := eval_binary_eq_ok_iff.mp h
      refine ⟨ihl ha, ihr hb, fun hop y hy => ?_⟩
      -- the divisor has the same value here
      have heq : b = y := Except.ok.inj (hb.symm.trans (eval_of_empty hy vars))
      rw [← heq]
      exact BinaryOp.exists_apply_iff.mp ⟨x, hx⟩ hop

/-- **Where no variable is a number, the tree has a value**, which is none either unless it is the
value without variables. -/
theorem exists_eval_of_isNaN
    (hvars : ∀ p ∈ tree.paths, ∃ y, operand vars p = .ok y ∧ y.isNaN = true)
    (hdiv : tree.Divisible) :
    ∃ x, tree.eval vars = .ok x ∧ (x.isNaN = true ∨ tree.eval StringMap.empty = .ok x) := by
  induction tree with
  | number y => exact ⟨y, rfl, .inr rfl⟩
  | path p =>
    obtain ⟨y, hy, hnan⟩ := hvars p (List.mem_singleton_self p)
    exact ⟨y, hy, .inl hnan⟩
  | negate e ih =>
    obtain ⟨a, ha, hcases⟩ := ih hvars hdiv
    refine ⟨-a, eval_negate_eq_ok_iff.mpr ⟨a, ha, rfl⟩, ?_⟩
    rcases hcases with hnan | hempty
    · exact .inl (Decimal.isNaN_neg hnan)
    · exact .inr (eval_negate_eq_ok_iff.mpr ⟨a, hempty, rfl⟩)
  | binary op left right ihl ihr =>
    obtain ⟨hl, hr, hnonzero⟩ := hdiv
    obtain ⟨a, ha, hacases⟩ := ihl (fun p hp => hvars p (List.mem_append_left _ hp)) hl
    obtain ⟨b, hb, hbcases⟩ := ihr (fun p hp => hvars p (List.mem_append_right _ hp)) hr
    -- a divisor is no number, or it is what it is without variables
    have hdivisor : op = .divide → (b == 0) = false := by
      intro hop
      rcases hbcases with hnan | hempty
      · exact Decimal.beq_zero_of_isNaN hnan
      · exact hnonzero hop b hempty
    obtain ⟨c, hc⟩ := BinaryOp.exists_apply_iff.mpr hdivisor
    refine ⟨c, eval_binary_eq_ok_iff.mpr ⟨a, b, ha, hb, hc⟩, ?_⟩
    rcases hacases with hnan | haempty
    · exact .inl (BinaryOp.isNaN_of_apply hc (.inl hnan))
    · rcases hbcases with hnan | hbempty
      · exact .inl (BinaryOp.isNaN_of_apply hc (.inr hnan))
      · exact .inr (eval_binary_eq_ok_iff.mpr ⟨a, b, haempty, hbempty, hc⟩)

/-- **When a tree has a number under some variables.** -/
theorem exists_eval_iff : (∃ vars x, tree.eval vars = .ok x) ↔ tree.Solvable := by
  constructor
  · rintro ⟨vars, x, hx⟩
    exact solvable_of_eval hx
  · intro h
    -- give every path the text of a number that no operation can fail on
    obtain ⟨vars, hvars⟩ := Variables.exists_resolve "NaN" h.apart
    obtain ⟨y, hy, hnan⟩ := Decimal.exists_asNumber?_nan
    have hoperand : ∀ p ∈ tree.paths, ∃ y, operand vars p = .ok y ∧ y.isNaN = true := by
      intro p hp
      refine ⟨y, ?_, hnan⟩
      rw [operand, hvars p hp]
      dsimp only
      rw [hy]
    obtain ⟨x, hx, -⟩ := exists_eval_of_isNaN hoperand h.divisible
    exact ⟨vars, x, hx⟩

/-- A variable and a field of it have no sum. -/
example : ¬ (binary .add (.path "a") (.path "a.b")).Solvable := fun h =>
  absurd (h.apart "a" (by decide) "a.b" (by decide) (by decide)) (by decide)

end Expr

/-! ### Texts -/

/-- A text that is an expression, in which what no variables can mend is in order. -/
def Solvable (text : String) : Prop :=
  ∃ ls tree, Lexeme.scan text.toList = .ok ls ∧ parse text.utf8ByteSize ls = .ok tree ∧
    tree.Solvable

theorem evaluateNumber_eq_ok_iff {text : String} {vars : Variables} {x : Float} :
    evaluateNumber text vars = .ok x ↔ evaluate .number text vars = .ok (.number x) := by
  rw [evaluateNumber]
  split
  · next heq => simp [heq]
  · next heq => simp [heq]
  · next v hv heq =>
    have hne : v ≠ .number x := hv x
    simp [heq, hne]

theorem coerce_number_eq_ok_iff {v : Value} {x : Float} :
    coerce .number v = .ok (.number x) ↔ v.asNumber? = some x := by
  rw [coerce]
  cases v.asNumber? with
  | none => simp
  | some y => simp

/-- A text that is parsed is read as the number of its tree, if that has one. -/
theorem evaluateNumber_of_parse {text : String} {ls : List Lexeme} {tree : Expr}
    (hscan : Lexeme.scan text.toList = .ok ls) (hparse : parse text.utf8ByteSize ls = .ok tree)
    {vars : Variables} {x : Float} :
    evaluateNumber text vars = .ok x ↔ tree.eval vars = .ok x := by
  rw [evaluateNumber_eq_ok_iff, evaluate, hscan]
  split
  · next heq => cases heq
  · next path start heq =>
    -- a variable that stands alone is looked up by either
    cases heq
    rw [parse_path] at hparse
    cases hparse
    rw [Expr.eval, operand]
    cases vars.resolve path with
    | none => simp
    | some v =>
      dsimp only
      rw [coerce_number_eq_ok_iff]
      cases v.asNumber? with
      | none => simp
      | some y => simp
  · next heq =>
    cases heq
    rw [hparse]
    dsimp only
    cases tree.eval vars with
    | error err => simp
    | ok y => simp [coerce_number_eq_ok_iff, Value.asNumber?]

/-- What is no expression is not read as a number. -/
theorem exists_parse_of_evaluateNumber {text : String} {vars : Variables} {x : Float}
    (h : evaluateNumber text vars = .ok x) :
    ∃ ls tree, Lexeme.scan text.toList = .ok ls ∧ parse text.utf8ByteSize ls = .ok tree := by
  cases hscan : Lexeme.scan text.toList with
  | error err =>
    rw [evaluateNumber, evaluate, hscan] at h
    cases h
  | ok ls =>
    cases hparse : parse text.utf8ByteSize ls with
    | error err =>
      rw [evaluateNumber, evaluate_of_fault hscan hparse] at h
      cases h
    | ok tree => exact ⟨ls, tree, rfl, hparse⟩

/-- **When a text is read as a number under some variables.** -/
theorem exists_evaluateNumber_iff {text : String} :
    (∃ vars x, evaluateNumber text vars = .ok x) ↔ Solvable text := by
  constructor
  · rintro ⟨vars, x, hx⟩
    obtain ⟨ls, tree, hscan, hparse⟩ := exists_parse_of_evaluateNumber hx
    have heval : tree.eval vars = .ok x := (evaluateNumber_of_parse hscan hparse).mp hx
    exact ⟨ls, tree, hscan, hparse, Expr.exists_eval_iff.mp ⟨vars, x, heval⟩⟩
  · rintro ⟨ls, tree, hscan, hparse, hsolvable⟩
    obtain ⟨vars, x, heval⟩ := Expr.exists_eval_iff.mpr hsolvable
    exact ⟨vars, x, (evaluateNumber_of_parse hscan hparse).mpr heval⟩

end Expression

end Flowgraph
