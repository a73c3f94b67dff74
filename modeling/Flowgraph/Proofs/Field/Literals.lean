import Flowgraph.Proofs.Expression.Placeholders

/-!
# Literals

A text without placeholders is checked when a graph is loaded and read again whenever its node runs.
Truth values, whole numbers and options are read from the text alone, so the reading repeats the
check. A number is read under the variables of a walk, while the check had none. Moreover the two
disagree on what a variable is: a text in which the check finds no placeholder may still have
variables as an expression. It is the value that decides. An expression that has one under some
variables has found each of its own there, and where there are none it has none.

* `Expression.resolves_of_evaluate` — an expression with a value finds all its variables.
* `Expression.evaluate_of_empty` — a value under no variables is the value under all.
* `Consumer.lasting_of_check` — a literal that passes its check is read whenever its node runs.
-/

namespace Flowgraph

namespace Expression

/-! ### Variables of an expression with a value -/

/-- A tree with a number finds every variable among the tokens it was derived from: no operator and
no bracket passes over an operand. -/
theorem Derives.resolves_of_eval {n : Nonterminal} {ts : List Token} {tree : Expr}
    {vars : Variables} (h : Derives n ts tree) {x : Float} (hx : tree.eval vars = .ok x)
    {p : String}
    (hp : .path p ∈ ts) : ∃ v, vars.resolve p = some v := by
  induction h generalizing x with
  | ofProduct _ ih => exact ih hx hp
  | sum _ ht _ iha ihb | product _ ht _ iha ihb =>
    -- both operands have a number, and the operator itself is no variable
    rw [Expr.eval] at hx
    split at hx
    · cases hx
    · next a ha =>
      split at hx
      · cases hx
      · next b hb =>
        rcases List.mem_append.mp hp with hp | hp
        · exact iha ha hp
        · rcases List.mem_cons.mp hp with rfl | hp
          · cases ht
          · exact ihb hb hp
  | ofNegation _ ih => exact ih hx hp
  | ofPrimary _ ih => exact ih hx hp
  | negation _ ih =>
    rw [Expr.eval] at hx
    split at hx
    · cases hx
    · next a ha =>
      rcases List.mem_cons.mp hp with hp | hp
      · cases hp
      · exact ih ha hp
  | number x =>
    cases List.mem_singleton.mp hp
  | path q =>
    cases List.mem_singleton.mp hp
    rw [Expr.eval, operand] at hx
    split at hx
    · cases hx
    · next v hv => exact ⟨v, hv⟩
  | brackets _ ih =>
    rcases List.mem_cons.mp hp with hp | hp
    · cases hp
    · rcases List.mem_append.mp hp with hp | hp
      · exact ih hx hp
      · cases List.mem_singleton.mp hp

/-- **An expression with a value finds all its variables.** -/
theorem resolves_of_evaluate {kind : ValueKind} {text : String} {ls : List Lexeme}
    {vars : Variables} {v : Value} (hscan : Lexeme.scan text.toList = .ok ls)
    (h : evaluate kind text vars = .ok v) :
    ∀ m ∈ mentions ls, ∃ w, vars.resolve m.path = some w := by
  intro m hm
  obtain ⟨l, hl, hmention⟩ := List.mem_filterMap.mp hm
  have htoken : l.token = .path m.path := by
    rw [Lexeme.mention?] at hmention
    split at hmention
    · next p hp =>
      cases hmention
      exact hp
    · cases hmention
  rw [evaluate, hscan] at h
  split at h
  · cases h
  · next path start heq =>
    -- a variable that stands alone is looked up
    cases heq
    cases List.mem_singleton.mp hl
    cases htoken
    split at h
    · cases h
    · next w hw => exact ⟨w, hw⟩
  · next heq =>
    cases heq
    split at h
    · cases h
    · next tree hparse =>
      split at h
      · cases h
      · next x hx =>
        refine (derives_of_parse hparse).resolves_of_eval hx ?_
        rw [← htoken]
        exact List.mem_map_of_mem hl

/-- Where there are no variables, nothing is found. -/
theorem resolve_empty (path : String) : Variables.resolve StringMap.empty path = none := by
  rw [Variables.resolve]
  split
  · rfl
  · rw [StringMap.get?_empty]
    rfl

/-- **A value under no variables is the value under all**, since the expression has none. -/
theorem evaluate_of_empty {kind : ValueKind} {text : String} {v : Value}
    (h : evaluate kind text StringMap.empty = .ok v) (vars : Variables) :
    evaluate kind text vars = .ok v := by
  cases hscan : Lexeme.scan text.toList with
  | error err =>
    rw [evaluate, hscan] at h
    cases h
  | ok ls =>
    -- a path that is mentioned would have to resolve, and among no variables none does
    have hnone : ∀ m ∈ mentions ls, Variables.resolve vars m.path =
        Variables.resolve StringMap.empty m.path := by
      intro m hm
      obtain ⟨w, hw⟩ := resolves_of_evaluate hscan h m hm
      rw [resolve_empty] at hw
      cases hw
    rw [evaluate_congr hscan hnone, h]

theorem evaluateNumber_of_empty {text : String} {x : Float}
    (h : evaluateNumber text StringMap.empty = .ok x) (vars : Variables) :
    evaluateNumber text vars = .ok x := by
  rw [evaluateNumber] at h
  -- a value that is no number is an error, with and without variables
  split at h
  · cases h
  · next y heval =>
    rw [evaluateNumber, evaluate_of_empty heval]
    exact h
  · cases h

end Expression

/-! ### Checks and readings -/

/-- A text counts as one without placeholders if their pattern occurs nowhere in it. -/
theorem Template.hasPlaceholder_eq_false_iff {s : String} :
    hasPlaceholder s = false ↔ ∀ before body, ¬ Occurs s.toList before body := by
  rw [← Bool.not_eq_true, hasPlaceholder_iff, not_not, List.eq_nil_iff_forall_not_mem]
  constructor
  · intro h before body hocc
    exact h ⟨_, _⟩ (mem_mentions_iff.mpr ⟨before, body, hocc, rfl, rfl⟩)
  · intro h m hm
    obtain ⟨before, body, hocc, -⟩ := mem_mentions_iff.mp hm
    exact h before body hocc

namespace Consumer

open Expression

/-- A text that is read as the kind of its field, whatever the variables of the walk are. -/
structure Lasting (c : Consumer) (raw : String) : Prop where
  boolean : c.kind = .boolean → ∃ b, c.readBoolean = .ok b
  long : c.kind = .long → ∃ n, c.readLong = .ok n
  enumeration : c.kind = .enumeration →
    c.readOption (fun cs => some (String.ofList cs)) = .ok (Text.trimmed raw)
  /-- One number, which is also the one that the check has seen. -/
  double : c.kind = .double →
    ∃ x, c.readDouble StringMap.empty = .ok x ∧ ∀ vars, c.readDouble vars = .ok x

variable {c : Consumer} {raw : String}

/-- The check of a text without placeholders is by its kind. -/
theorem check_of_literal (hraw : c.raw = some raw) (hplain : Template.hasPlaceholder raw = false) :
    c.check = match c.kind with
      | .string => .ok ()
      | .eventType => .ok ()
      | .boolean => c.readBoolean.map fun _ => ()
      | .long => c.readLong.map fun _ => ()
      | .double => (c.readDouble StringMap.empty).map fun _ => ()
      | .enumeration => c.checkOption raw := by
  rw [check, hraw]
  dsimp only
  rw [hplain]
  rfl

theorem readOption_of_checkOption (hraw : c.raw = some raw) (h : c.checkOption raw = .ok ()) :
    c.readOption (fun cs => some (String.ofList cs)) = .ok (Text.trimmed raw) := by
  rw [readOption, withRaw, hraw]
  dsimp only
  rw [h]
  rfl

theorem readDouble_of_empty {x : Float} (h : c.readDouble StringMap.empty = .ok x)
    (vars : Variables) : c.readDouble vars = .ok x := by
  rw [readDouble, withRaw] at h ⊢
  split at h
  · cases h
  · next raw hraw =>
    cases hnumber : Expression.evaluateNumber raw StringMap.empty with
    | error err =>
      rw [hnumber] at h
      cases h
    | ok y =>
      rw [hnumber] at h
      rw [Expression.evaluateNumber_of_empty hnumber]
      exact h

/-- **A literal that passes its check is read whenever its node runs**, and a number is the same
one each time. -/
theorem lasting_of_check (hraw : c.raw = some raw)
    (hlit : ∀ before body, ¬ Template.Occurs raw.toList before body) (h : c.check = .ok ()) :
    c.Lasting raw := by
  rw [check_of_literal hraw (Template.hasPlaceholder_eq_false_iff.mpr hlit)] at h
  -- the check of each kind is the reading itself, whose result it drops
  refine ⟨fun hkind => ?_, fun hkind => ?_, fun hkind => ?_, fun hkind => ?_⟩
  · rw [hkind] at h
    obtain ⟨b, hb, -⟩ := Expression.exists_of_map_eq_ok h
    exact ⟨b, hb⟩
  · rw [hkind] at h
    obtain ⟨n, hn, -⟩ := Expression.exists_of_map_eq_ok h
    exact ⟨n, hn⟩
  · rw [hkind] at h
    exact readOption_of_checkOption hraw h
  · rw [hkind] at h
    obtain ⟨x, hx, -⟩ := Expression.exists_of_map_eq_ok h
    exact ⟨x, hx, readDouble_of_empty hx⟩

/-- A sign before a number in brackets, which is read without variables. -/
theorem lasting_negated_seven :
    ∃ c : Consumer, c.kind = .double ∧ c.raw = some "-(7)" ∧ c.check = .ok () ∧
      c.Lasting "-(7)" := by
  obtain ⟨x, hx⟩ : ∃ x, Decimal.readNumber ['7'] = some x := ⟨_, rfl⟩
  have hscan : Lexeme.scan ['-', '(', '7', ')'] =
      .ok [⟨.minus, 0⟩, ⟨.openParen, 1⟩, ⟨.number x, 2⟩, ⟨.closeParen, 3⟩] := by
    simp [Lexeme.scan, Lexeme.scanFrom, isSpace, Token.ofChar?, isNumeric, Decimal.isDigit, hx,
      Except.map]
  have hparse : parse 4 [⟨.minus, 0⟩, ⟨.openParen, 1⟩, ⟨.number x, 2⟩, ⟨.closeParen, 3⟩] =
      .ok (.negate (.number x)) := by cbv
  have hnumber : evaluateNumber "-(7)" StringMap.empty = .ok (-x) := by
    rw [evaluateNumber, Expression.evaluate, show "-(7)".toList = ['-', '(', '7', ')'] from rfl,
      hscan]
    dsimp only
    rw [show "-(7)".utf8ByteSize = 4 from rfl, hparse]
    rfl
  have hplain : Template.hasPlaceholder "-(7)" = false := by cbv
  let c : Consumer := { kind := .double, value := some "-(7)" }
  have hcheck : c.check = .ok () := by
    have hread : c.readDouble StringMap.empty = .ok (-x) := by
      show (evaluateNumber "-(7)" StringMap.empty).mapError FieldFault.expression = _
      rw [hnumber]
      rfl
    rw [check_of_literal (c := c) rfl hplain]
    show (c.readDouble StringMap.empty).map _ = _
    rw [hread]
    rfl
  exact ⟨c, rfl, rfl, hcheck,
    lasting_of_check rfl (Template.hasPlaceholder_eq_false_iff.mp hplain) hcheck⟩

end Consumer

end Flowgraph
