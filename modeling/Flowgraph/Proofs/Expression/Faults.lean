import Flowgraph.Proofs.Expression.Bytes
import Flowgraph.Proofs.Expression.Viable

/-!
# Where a text is at fault

When a text is refused for another reason than its depth or that it is empty, the position that is
reported is where the fault is: what is before it is in order, and with what is there no expression
goes on.

* `evaluate_eq_parse_iff` — a text is refused by the scanner or by the parser.
* `points_of_scan`, `points_of_parse` — the places at which they do.
* `refused_at_fault` — the place that is reported.
-/

namespace Flowgraph.Text

/-! ### Bytes of a string -/

theorem utf8Len_eq_byteLength (s : List Char) : String.utf8Len s = byteLength s := by
  induction s with
  | nil => rfl
  | cons c rest ih => rw [String.utf8Len, byteLength, ih, Nat.add_comm]

theorem utf8ByteSize_eq_byteLength (s : String) : s.utf8ByteSize = byteLength s.toList := by
  rw [← utf8Len_eq_byteLength, ← String.utf8ByteSize_ofList, String.ofList_toList]

theorem eq_nil_of_byteLength {s : List Char} (h : byteLength s = 0) : s = [] := by
  cases s with
  | nil => rfl
  | cons c rest =>
    have hpos := c.utf8Size_pos
    rw [byteLength] at h
    omega

/-- A text may be cut where the bytes of a part of it end. -/
theorem isValid_of_append {s : String} {before after : List Char}
    (h : s.toList = before ++ after) : String.Pos.Raw.IsValid s ⟨byteLength before⟩ := by
  refine String.Pos.Raw.isValid_iff_exists_append.mpr
    ⟨String.ofList before, String.ofList after, ?_, ?_⟩
  · rw [← String.ofList_append, ← h, String.ofList_toList]
  · have hsize : (String.ofList before).utf8ByteSize = byteLength before := by
      rw [String.utf8ByteSize_ofList, utf8Len_eq_byteLength]
    exact congrArg String.Pos.Raw.mk hsize.symm

end Flowgraph.Text

namespace Flowgraph.Expression

/-! ### Refusals -/

/-- **A text is refused by the scanner or by the parser.** -/
theorem evaluate_eq_parse_iff {kind : ValueKind} {text text' : String} {vars : Variables}
    {pos : Nat} {fault : Fault} :
    evaluate kind text vars = .error (.parse text' pos fault) ↔ text' = text ∧
      (Lexeme.scan text.toList = .error (pos, fault) ∨
        ∃ ls, Lexeme.scan text.toList = .ok ls ∧
          parse text.utf8ByteSize ls = .error (pos, fault)) := by
  cases hs : Lexeme.scan text.toList with
  | error e =>
    obtain ⟨pos', fault'⟩ := e
    rw [evaluate, hs]
    constructor
    · rintro h
      cases h
      exact ⟨rfl, .inl rfl⟩
    · rintro ⟨rfl, h | ⟨ls, h, -⟩⟩ <;> cases h
      rfl
  | ok ls =>
    cases hp : parse text.utf8ByteSize ls with
    | error e =>
      obtain ⟨pos', fault'⟩ := e
      rw [evaluate_of_fault hs hp]
      constructor
      · rintro h
        cases h
        exact ⟨rfl, .inr ⟨ls, rfl, hp⟩⟩
      · rintro ⟨rfl, h | ⟨ls', h, hp'⟩⟩ <;> cases h
        rw [hp] at hp'
        cases hp'
        rfl
    | ok tree =>
      constructor
      · -- a text with a tree evaluates to something, or to an error of another kind
        intro h
        exact absurd (h ▸ trivial) (not_parseError_of_tree hs hp kind vars)
      · rintro ⟨rfl, h | ⟨ls', h, hp'⟩⟩ <;> cases h
        rw [hp] at hp'
        cases hp'

/-! ### Places -/

/-- What is wrong with a text behind a part that has these tokens. -/
inductive Offence (text : String) (before after : List Char) (ls : List Lexeme) (fault : Fault) :
    Prop
  /-- The scanner stops, because no token begins there. -/
  | scanner (hscan : Lexeme.scan text.toList = .error (Text.byteLength before, fault))
      (hstuck : Stuck after fault)
      (hnone : ∀ t cs rest, after = cs ++ rest → Token.Written t cs → ¬ t.EndsBefore rest)
  /-- The parser stops at a token: the tokens before it go on to a sentence, but not with it. -/
  | token {l : Lexeme} {ls' : List Lexeme}
      (hscan : Lexeme.scan text.toList = .ok (ls ++ l :: ls'))
      (hparse : parse text.utf8ByteSize (ls ++ l :: ls') = .error (l.start, fault))
      (hstart : l.start = Text.byteLength before) (hbegins : Begins .sum (ls.map Lexeme.token))
      (hnot : ¬ Begins .sum (ls.map Lexeme.token ++ [l.token]))
  /-- The parser stops at the end: the tokens go on to a sentence, but they are none. -/
  | ending (hafter : after = []) (hscan : Lexeme.scan text.toList = .ok ls)
      (hparse : parse text.utf8ByteSize ls = .error (text.utf8ByteSize, fault))
      (hbegins : Begins .sum (ls.map Lexeme.token))
      (hnot : ∀ tree, ¬ Derives .sum (ls.map Lexeme.token) tree)

/-- A position is where a text is at fault. -/
structure Points (text : String) (pos : Nat) (fault : Fault) : Prop where
  le : pos ≤ text.utf8ByteSize
  isValid : String.Pos.Raw.IsValid text ⟨pos⟩
  /-- What is before the position has tokens or is blank. -/
  offence : ∃ before after ls, text.toList = before ++ after ∧ Text.byteLength before = pos ∧
    Lexeme.scanFrom 0 before = .ok ls ∧
    (Lexeme.scan before = .ok ls ∨ ∀ c ∈ before, isSpace c = true) ∧
    Offence text before after ls fault

/-- A text that is cut into tokens, of which there may be none. -/
theorem scan_or_blank {s : List Char} {ls : List Lexeme} (h : Lexeme.scanFrom 0 s = .ok ls) :
    Lexeme.scan s = .ok ls ∨ ∀ c ∈ s, isSpace c = true := by
  cases ls with
  | nil => exact .inr (isSpace_of_scanFrom h)
  | cons l ls =>
    rw [Lexeme.scan, h]
    exact .inl rfl

theorem points_of_offence {text : String} {before after : List Char} {ls : List Lexeme}
    {fault : Fault} (hsplit : text.toList = before ++ after)
    (hbefore : Lexeme.scanFrom 0 before = .ok ls) (h : Offence text before after ls fault) :
    Points text (Text.byteLength before) fault where
  le := by
    rw [Text.utf8ByteSize_eq_byteLength, hsplit, Text.byteLength_append]
    exact Nat.le_add_right _ _
  isValid := Text.isValid_of_append hsplit
  offence := ⟨before, after, ls, hsplit, rfl, hbefore, scan_or_blank hbefore, h⟩

/-- **The scanner points at what is no token.** -/
theorem points_of_scan {text : String} {pos : Nat} {fault : Fault}
    (h : Lexeme.scan text.toList = .error (pos, fault)) (hf : fault ≠ .empty) :
    Points text pos fault := by
  -- the text is not empty, so the complaint is the scanner's
  have hscan : Lexeme.scanFrom 0 text.toList = .error (pos, fault) := by
    rw [Lexeme.scan] at h
    split at h
    · next heq => rw [heq, h]
    · cases h
      exact absurd rfl hf
    · cases h
  obtain ⟨before, after, ls, hsplit, rfl, hbefore, hstuck⟩ := exists_stuck_of_scanFrom hscan
  rw [Nat.zero_add] at h ⊢
  refine points_of_offence hsplit hbefore (.scanner h hstuck ?_)
  rintro t cs rest rfl hw
  exact hstuck.not_written hw

/-- **The parser points at the first token with which no sentence goes on.** -/
theorem points_of_parse {text : String} {ls : List Lexeme} {pos : Nat} {fault : Fault}
    (hs : Lexeme.scan text.toList = .ok ls)
    (h : parse text.utf8ByteSize ls = .error (pos, fault)) (hf : fault ≠ .tooDeep) :
    Points text pos fault := by
  obtain ⟨used, rest, rfl, rfl, hbegins, hnext, hnot⟩ := parse_error h hf
  have hscan : Lexeme.scanFrom 0 text.toList = .ok (used ++ rest) := by
    rw [Lexeme.scan] at hs
    split at hs
    · cases hs
    · cases hs
    · next heq => rw [heq, hs]
  obtain ⟨before, after, hsplit, hbefore, hpos⟩ := exists_split_of_scanFrom hscan
  rw [Nat.zero_add, Nat.zero_add, ← Text.utf8ByteSize_eq_byteLength] at hpos
  rw [hpos]
  refine points_of_offence hsplit hbefore ?_
  cases rest with
  | nil =>
    rw [List.append_nil] at hs h hnot
    -- nothing is left behind the end
    have hsize := Text.utf8ByteSize_eq_byteLength text
    rw [hsplit, Text.byteLength_append] at hsize
    have hpos : text.utf8ByteSize = Text.byteLength before := hpos
    exact .ending (Text.eq_nil_of_byteLength (by omega)) hs h hbegins hnot
  | cons l ls' => exact .token hs h hpos hbegins (hnext l ls' rfl)

/-- **The position that is reported is that of the fault.** The scan takes no part of a text that
splits a character; and when a text is refused, but neither for its depth nor because it is empty,
the position is where the scanner or the parser cannot go on. -/
theorem refused_at_fault (text : String) :
    scanBytes text.toList 0 = some (Lexeme.scanFrom 0 text.toList) ∧
      ∀ kind vars text' pos fault, evaluate kind text vars = .error (.parse text' pos fault) →
        fault ≠ .empty → fault ≠ .tooDeep → text' = text ∧ Points text pos fault := by
  refine ⟨scanBytes_zero text.toList, fun kind vars text' pos fault h hempty hdeep => ?_⟩
  obtain ⟨rfl, hscan | ⟨ls, hscan, hparse⟩⟩ := evaluate_eq_parse_iff.mp h
  · -- the text is refused as it is read, or the tokens are as they are parsed
    exact ⟨rfl, points_of_scan hscan hempty⟩
  · exact ⟨rfl, points_of_parse hscan hparse hdeep⟩

/-- A closing bracket behind a variable, whose name takes more bytes than characters. -/
theorem refused_at_bracket :
    evaluate .any "\x7b\x7bé\x7d\x7d )" {} =
        .error (.parse "\x7b\x7bé\x7d\x7d )" 7 (.unexpectedToken .closeParen)) ∧
      Points "\x7b\x7bé\x7d\x7d )" 7 (.unexpectedToken .closeParen) := by
  have h : evaluate .any "\x7b\x7bé\x7d\x7d )" {} =
      .error (.parse "\x7b\x7bé\x7d\x7d )" 7 (.unexpectedToken .closeParen)) := by
    cbv
  refine ⟨h, ((refused_at_fault _).2 _ _ _ _ _ h ?_ ?_).2⟩ <;> intro heq <;> cases heq

end Flowgraph.Expression
