import Flowgraph.Proofs.Expression.Solvable

/-!
# Prospects

A text with placeholders passes the check of a field whatever else it holds, since what it reads as
is known only when its node runs. What that promises depends on the kind of the field. A truth value
and a whole number are read from the text as it stands, in which no variable is replaced, so a text
with placeholders is never read as one. A number is evaluated, and there are variables under which
the evaluation succeeds exactly if the text is a solvable expression.

* `Consumer.prospects_of_check` — when a field that has passed its check can be read at all.
* `Consumer.passes_without_prospect` — a field that passes and is never read.
-/

namespace Flowgraph

/-! ### Braces -/

theorem Template.Occurs.brace_mem {s before body : List Char} (h : Occurs s before body) :
    '\x7b' ∈ s := by
  obtain ⟨after, rfl⟩ := h.text
  rw [source_placeholder_append]
  exact List.mem_append_right _ List.mem_cons_self

theorem Value.readBool_of_brace {s : List Char} (h : '\x7b' ∈ s) : readBool s = none := by
  -- the brace is no letter, so the word would have it too
  have hword : ∀ word : String, '\x7b' ∉ word.toList → Decimal.isWord word s = false := by
    intro word hword
    rw [Decimal.isWord, beq_eq_false_iff_ne]
    intro heq
    have hmem : '\x7b' ∈ s.map Char.toLower := List.mem_map.mpr ⟨'\x7b', h, rfl⟩
    exact hword (heq ▸ hmem)
  rw [readBool, hword "true" (by decide), hword "false" (by decide)]
  rfl

theorem Decimal.readInt64_of_brace {s : List Char} (h : '\x7b' ∈ s) : readInt64 s = none := by
  -- the sign is no brace, so the brace is behind it
  have hrest : '\x7b' ∈ (takeSign s).2 := by
    unfold takeSign
    split
    · exact (List.mem_cons.mp h).resolve_left (by decide)
    · exact (List.mem_cons.mp h).resolve_left (by decide)
    · exact h
  have hdigits : ¬ (takeSign s).2.all isDigit = true := by
    intro hall
    exact absurd (List.all_eq_true.mp hall _ hrest) (by decide)
  rw [readInt64, readInt]
  exact if_neg fun hgood => hdigits hgood.2

namespace Consumer

open Expression

/-- What the kind of a field tells of a text that has passed its check. -/
structure Prospects (c : Consumer) (raw : String) : Prop where
  /-- A truth value is read from a text without placeholders, and only from one. -/
  boolean : c.kind = .boolean →
    ((∃ b, c.readBoolean = .ok b) ↔ ∀ before body, ¬ Template.Occurs raw.toList before body)
  long : c.kind = .long →
    ((∃ n, c.readLong = .ok n) ↔ ∀ before body, ¬ Template.Occurs raw.toList before body)
  /-- A number is read under some variables if the text is a solvable expression, -/
  double : c.kind = .double → ((∃ vars x, c.readDouble vars = .ok x) ↔ Solvable raw)
  /-- and under all if it has no placeholders. -/
  literal : c.kind = .double → (∀ before body, ¬ Template.Occurs raw.toList before body) →
    ∃ x, ∀ vars, c.readDouble vars = .ok x

variable {c : Consumer} {raw : String}

theorem readBoolean_of_occurs (hraw : c.raw = some raw) {before body : List Char}
    (h : Template.Occurs raw.toList before body) :
    c.readBoolean = .error (.malformed raw c.kind.label) := by
  have hbrace : '\x7b' ∈ Text.trim raw.toList := (Text.mem_trim_iff (by decide) _).mpr h.brace_mem
  rw [readBoolean, withRaw, hraw]
  dsimp only
  rw [Value.readBool_of_brace hbrace]
  rfl

theorem readLong_of_occurs (hraw : c.raw = some raw) {before body : List Char}
    (h : Template.Occurs raw.toList before body) :
    c.readLong = .error (.malformed raw c.kind.label) := by
  have hbrace : '\x7b' ∈ Text.trim raw.toList := (Text.mem_trim_iff (by decide) _).mpr h.brace_mem
  rw [readLong, withRaw, hraw]
  dsimp only
  rw [Decimal.readInt64_of_brace hbrace]
  rfl

theorem readDouble_eq_ok_iff (hraw : c.raw = some raw) {vars : Variables} {x : Float} :
    c.readDouble vars = .ok x ↔ evaluateNumber raw vars = .ok x := by
  rw [readDouble, withRaw, hraw]
  dsimp only
  cases evaluateNumber raw vars <;> simp [Except.mapError]

/-- **When a field that has passed its check can be read.** -/
theorem prospects_of_check (hraw : c.raw = some raw) (h : c.check = .ok ()) :
    c.Prospects raw where
  boolean hkind := by
    constructor
    · -- the braces of a placeholder are in the text as it stands
      rintro ⟨b, hb⟩ before body hocc
      rw [readBoolean_of_occurs hraw hocc] at hb
      cases hb
    · -- without placeholders the check has read the text already
      intro hlit
      exact (lasting_of_check hraw hlit h).boolean hkind
  long hkind := by
    constructor
    · rintro ⟨n, hn⟩ before body hocc
      rw [readLong_of_occurs hraw hocc] at hn
      cases hn
    · intro hlit
      exact (lasting_of_check hraw hlit h).long hkind
  double _ := by
    rw [← exists_evaluateNumber_iff]
    exact exists_congr fun vars => exists_congr fun x => readDouble_eq_ok_iff hraw
  literal hkind hlit := by
    obtain ⟨x, -, hx⟩ := (lasting_of_check hraw hlit h).double hkind
    exact ⟨x, hx⟩

/-- A quotient of two fields of one variable. -/
theorem prospects_of_quotient :
    ∃ c : Consumer, c.kind = .double ∧ c.raw = some "\x7b\x7ba.x\x7d\x7d/\x7b\x7ba.y\x7d\x7d" ∧
      c.check = .ok () ∧ c.Prospects "\x7b\x7ba.x\x7d\x7d/\x7b\x7ba.y\x7d\x7d" ∧
      ∃ vars x, c.readDouble vars = .ok x := by
  have hscan : Lexeme.scan "\x7b\x7ba.x\x7d\x7d/\x7b\x7ba.y\x7d\x7d".toList =
      .ok [⟨.path "a.x", 0⟩, ⟨.slash, 7⟩, ⟨.path "a.y", 8⟩] := by cbv
  have hparse : parse 15 [⟨.path "a.x", 0⟩, ⟨.slash, 7⟩, ⟨.path "a.y", 8⟩] =
      .ok (.binary .divide (.path "a.x") (.path "a.y")) := by cbv
  have hsolvable : Solvable "\x7b\x7ba.x\x7d\x7d/\x7b\x7ba.y\x7d\x7d" := by
    refine ⟨_, _, hscan, hparse, ?_, trivial, trivial, fun _ y hy => ?_⟩
    · show ∀ p ∈ ["a.x", "a.y"], ∀ q ∈ ["a.x", "a.y"], _
      decide
    · -- the divisor has no value without variables
      rw [Expr.eval, operand, resolve_empty] at hy
      cases hy
  have hplaceholder :
      Template.hasPlaceholder "\x7b\x7ba.x\x7d\x7d/\x7b\x7ba.y\x7d\x7d" = true := by cbv
  let c : Consumer := { kind := .double, value := some "\x7b\x7ba.x\x7d\x7d/\x7b\x7ba.y\x7d\x7d" }
  have hcheck : c.check = .ok () := by
    show (if Template.hasPlaceholder _ = true then Except.ok () else _) = _
    rw [hplaceholder]
    rfl
  have hprospects := prospects_of_check (c := c) rfl hcheck
  exact ⟨c, rfl, rfl, hcheck, hprospects, (hprospects.double rfl).mpr hsolvable⟩

/-- **Passing the check is no promise for a whole number.** A placeholder passes and is never read,
whatever the variables are: they are not looked at. -/
theorem passes_without_prospect :
    ∃ c : Consumer, c.kind = .long ∧ c.raw = some "\x7b\x7bcount\x7d\x7d" ∧ c.check = .ok () ∧
      c.readLong = .error (.malformed "\x7b\x7bcount\x7d\x7d" "long") := by
  have hplaceholder : Template.hasPlaceholder "\x7b\x7bcount\x7d\x7d" = true := by cbv
  let c : Consumer := { kind := .long, value := some "\x7b\x7bcount\x7d\x7d" }
  have hcheck : c.check = .ok () := by
    show (if Template.hasPlaceholder _ = true then Except.ok () else _) = _
    rw [hplaceholder]
    rfl
  have hread : c.readLong = .error (.malformed "\x7b\x7bcount\x7d\x7d" "long") := by
    show c.orMalformed _ (Decimal.readInt64 (Text.trim "\x7b\x7bcount\x7d\x7d".toList)) = _
    rw [Decimal.readInt64_of_brace (by decide)]
    rfl
  exact ⟨c, rfl, rfl, hcheck, hread⟩

end Consumer

end Flowgraph
