import Flowgraph.Proofs.Expression.Placeholders

/-!
# How texts are cut into tokens

The scanner said in other words. A token may be written in certain ways (`Token.Written`), of which
the scanner takes the longest: a number ends where digits and points end (`Token.EndsBefore`). A
text begins with a blank, with a token, or with something that no token begins with
(`Opening`), and the scanner goes on behind the first two and stops at the third.

* `scanFrom_written`, `scanFrom_of_stuck` — what the scanner makes of each beginning.
* `opening` — there is no other.
* `exists_split_of_scanFrom` — where a text is cut in front of a token, the scanner finds the tokens
  before it in what is before it.
* `exists_stuck_of_scanFrom` — a fault of the scanner is where no token begins, behind a text that
  is cut into tokens.
-/

namespace Flowgraph.Expression

/-! ### What is written for a token -/

/-- What may be written for a token. -/
inductive Token.Written : Token → List Char → Prop
  | sign {c : Char} {t : Token} (h : Token.ofChar? c = some t) : Written t [c]
  | number {digits : List Char} {x : Float} (hne : digits ≠ [])
      (hall : ∀ c ∈ digits, isNumeric c = true) (hx : Decimal.readNumber digits = some x) :
      Written (.number x) digits
  /-- The first two closing braces are those at the end. -/
  | path {body : List Char} {p : String}
      (hcut : cutAtClose (body ++ ['\x7d', '\x7d']) = some (body, []))
      (hp : pathOf? body = some p) :
      Written (.path p) ('\x7b' :: '\x7b' :: (body ++ ['\x7d', '\x7d']))

/-- A token does not go on in a text behind it. -/
def Token.EndsBefore : Token → List Char → Prop
  | .number _, c :: _ => isNumeric c = false
  | _, _ => True

theorem Token.Written.ne_nil {t : Token} {cs : List Char} (h : t.Written cs) : cs ≠ [] := by
  cases h with
  | sign _ => exact List.cons_ne_nil _ _
  | number hne _ _ => exact hne
  | path _ _ => exact List.cons_ne_nil _ _

/-- What ends in front of a text ends in front of each part that the text begins with. -/
theorem Token.EndsBefore.of_append {t : Token} {s s' : List Char} (h : t.EndsBefore (s ++ s')) :
    t.EndsBefore s := by
  cases t with
  | number x =>
    cases s with
    | nil => exact trivial
    | cons c s => exact h
  | path _ | plus | minus | star | slash | openParen | closeParen => exact trivial

/-- The cut at two closing braces does not depend on what is behind them. -/
theorem cutAtClose_of_cutAtClose {s body after : List Char} (h : cutAtClose s = some (body, after))
    (rest : List Char) : cutAtClose (body ++ '\x7d' :: '\x7d' :: rest) = some (body, rest) := by
  induction s using cutAtClose.induct generalizing body with
  | case1 => cases h
  | case2 s =>
    rw [cutAtClose] at h
    cases h
    rw [List.nil_append, cutAtClose]
  | case3 c s hne ih =>
    rw [cutAtClose] at h
    · obtain ⟨⟨body', after'⟩, hcut, heq⟩ := Option.map_eq_some_iff.mp h
      cases heq
      rw [List.cons_append, cutAtClose, ih hcut]
      · rfl
      · -- the first two characters are those of the text that was cut, which are no closing braces
        rw [eq_append_of_cutAtClose hcut] at hne
        intro rest' hc hrest
        cases body' with
        | nil => exact hne _ hc rfl
        | cons d body' =>
          obtain ⟨rfl, -⟩ := List.cons_eq_cons.mp hrest
          exact hne _ hc rfl
    · exact hne

theorem cutAtClose_append_right {s body after : List Char} (h : cutAtClose s = some (body, after))
    (rest : List Char) : cutAtClose (s ++ rest) = some (body, after ++ rest) := by
  rw [eq_append_of_cutAtClose h, List.append_assoc]
  exact cutAtClose_of_cutAtClose h (after ++ rest)

/-! ### What the scanner makes of a beginning -/

theorem scanFrom_space {c : Char} (h : isSpace c = true) (pos : Nat) (rest : List Char) :
    Lexeme.scanFrom pos (c :: rest) = Lexeme.scanFrom (pos + 1) rest := by
  rw [Lexeme.scanFrom, h]
  · rfl
  · rintro _ rfl
    cases h

theorem isSpace_of_ofChar? {c : Char} {t : Token} (h : Token.ofChar? c = some t) :
    isSpace c = false := by
  unfold Token.ofChar? at h
  split at h <;> first | rfl | cases h

/-- A digit or a point is no blank and no operator. -/
theorem kind_of_isNumeric {c : Char} (h : isNumeric c = true) :
    isSpace c = false ∧ Token.ofChar? c = none := by
  constructor
  · refine Bool.eq_false_iff.mpr fun hspace => ?_
    simp only [isSpace, Bool.or_eq_true, decide_eq_true_eq] at hspace
    rcases hspace with ((rfl | rfl) | rfl) | rfl <;> exact absurd h (by decide)
  · rw [Option.eq_none_iff_forall_ne_some]
    intro t ht
    unfold Token.ofChar? at ht
    split at ht <;> first | exact absurd h (by decide) | cases ht

theorem scanFrom_numeric {c : Char} (h : isNumeric c = true) (pos : Nat) (rest : List Char) :
    Lexeme.scanFrom pos (c :: rest) =
      match Decimal.readNumber ((c :: rest).takeWhile isNumeric) with
      | none => .error (pos, .badNumber (String.ofList ((c :: rest).takeWhile isNumeric)))
      | some x =>
        (Lexeme.scanFrom (pos + ((c :: rest).takeWhile isNumeric).length)
          ((c :: rest).dropWhile isNumeric)).map (⟨.number x, pos⟩ :: ·) := by
  obtain ⟨hspace, hchar⟩ := kind_of_isNumeric h
  rw [Lexeme.scanFrom, List.dropWhile_cons_of_pos h]
  · cases hx : Decimal.readNumber ((c :: rest).takeWhile isNumeric) <;>
      simp only [hspace, hchar, h, hx, Bool.false_eq_true, if_false, if_true]
  · rintro _ rfl
    cases h

/-- What a text begins with that no token begins with, and the fault that the scanner finds
there. -/
inductive Stuck : List Char → Fault → Prop
  | unterminated {inner : List Char} (h : cutAtClose inner = none) :
      Stuck ('\x7b' :: '\x7b' :: inner) .unterminated
  | badVariable {inner body after : List Char} (hcut : cutAtClose inner = some (body, after))
      (h : pathOf? body = none) : Stuck ('\x7b' :: '\x7b' :: inner) .badVariable
  | badNumber {c : Char} {rest : List Char} (hc : isNumeric c = true)
      (h : Decimal.readNumber ((c :: rest).takeWhile isNumeric) = none) :
      Stuck (c :: rest) (.badNumber (String.ofList ((c :: rest).takeWhile isNumeric)))
  | unexpectedChar {c : Char} {rest : List Char} (hspace : isSpace c = false)
      (hchar : Token.ofChar? c = none) (hnumeric : isNumeric c = false)
      (hopen : ∀ inner, c :: rest ≠ '\x7b' :: '\x7b' :: inner) :
      Stuck (c :: rest) (.unexpectedChar c)

theorem Stuck.ne_nil {s : List Char} {fault : Fault} (h : Stuck s fault) : s ≠ [] := by
  cases h <;> exact List.cons_ne_nil _ _

/-- The scanner stops where no token begins. -/
theorem scanFrom_of_stuck {s : List Char} {fault : Fault} (h : Stuck s fault) (pos : Nat) :
    Lexeme.scanFrom pos s = .error (pos, fault) := by
  cases h with
  | unterminated h => rw [scanFrom_braces, h]
  | badVariable hcut h => simp only [scanFrom_braces, hcut, h]
  | badNumber hc h => rw [scanFrom_numeric hc, h]
  | @unexpectedChar c rest hspace hchar hnumeric hopen =>
    rw [Lexeme.scanFrom]
    · simp only [hspace, hchar, hnumeric, Bool.false_eq_true, if_false]
    · rintro inner rfl heq
      exact hopen inner (heq ▸ rfl)

/-- A run of digits and points ends where the token ends. -/
theorem span_of_endsBefore {digits rest : List Char} {x : Float}
    (hall : ∀ c ∈ digits, isNumeric c = true) (he : (Token.number x).EndsBefore rest) :
    (digits ++ rest).takeWhile isNumeric = digits ∧
      (digits ++ rest).dropWhile isNumeric = rest := by
  rw [List.takeWhile_append_of_pos hall, List.dropWhile_append_of_pos hall]
  cases rest with
  | nil => exact ⟨List.append_nil _, rfl⟩
  | cons d rest =>
    have hd : ¬ isNumeric d = true := Bool.eq_false_iff.mp he
    rw [List.takeWhile_cons_of_neg hd, List.dropWhile_cons_of_neg hd, List.append_nil]
    exact ⟨rfl, rfl⟩

/-- The four braces of a variable count besides what is between them. -/
theorem Token.byteLength_braces (body : List Char) :
    Text.byteLength ('\x7b' :: '\x7b' :: (body ++ ['\x7d', '\x7d'])) =
      Text.byteLength body + 4 := by
  have hopen : Char.utf8Size '\x7b' = 1 := rfl
  have hclose : Text.byteLength ['\x7d', '\x7d'] = 2 := rfl
  rw [Text.byteLength, Text.byteLength, Text.byteLength_append, hopen, hclose]
  omega

/-- **What is written for a token is read as it**, if the token does not go on behind it. -/
theorem scanFrom_written {t : Token} {cs rest : List Char} (h : t.Written cs)
    (he : t.EndsBefore rest) (pos : Nat) : Lexeme.scanFrom pos (cs ++ rest) =
      (Lexeme.scanFrom (pos + Text.byteLength cs) rest).map (⟨t, pos⟩ :: ·) := by
  cases h with
  | @sign c _ ht =>
    have hsize : Text.byteLength [c] = 1 := (single_of_ofChar? ht).2.1
    rw [List.singleton_append, scanFrom_ofChar (isSpace_of_ofChar? ht) ht, hsize]
  | @number _ x hne hall hx =>
    -- the number takes all of its characters and none behind them
    obtain ⟨htake, hdrop⟩ := span_of_endsBefore hall he
    rw [byteLength_of_numeric hall]
    cases cs with
    | nil => exact absurd rfl hne
    | cons c cs =>
      rw [List.cons_append] at htake hdrop ⊢
      rw [scanFrom_numeric (hall c List.mem_cons_self), htake, hdrop, hx]
  | @path body p hcut hp =>
    have hcut := cutAtClose_append_right hcut rest
    rw [Token.byteLength_braces, ← Nat.add_assoc, List.cons_append, List.cons_append,
      scanFrom_braces, hcut]
    simp only [hp, List.nil_append]

/-! ### Beginnings -/

/-- What a text may begin with. -/
inductive Opening : List Char → Prop
  | nil : Opening []
  | blank {c : Char} {rest : List Char} (h : isSpace c = true) : Opening (c :: rest)
  | token {t : Token} {cs rest : List Char} (h : t.Written cs) (he : t.EndsBefore rest) :
      Opening (cs ++ rest)
  | stuck {s : List Char} {fault : Fault} (h : Stuck s fault) : Opening s

/-- A text that begins with a digit or a point begins with a number, or with none. -/
theorem opening_of_isNumeric {c : Char} (h : isNumeric c = true) (rest : List Char) :
    Opening (c :: rest) := by
  cases hx : Decimal.readNumber ((c :: rest).takeWhile isNumeric) with
  | none => exact .stuck (.badNumber h hx)
  | some x =>
    rw [← List.takeWhile_append_dropWhile (p := isNumeric) (l := c :: rest)]
    refine .token (t := .number x) (.number ?_ (fun d hd => List.mem_takeWhile_imp hd) hx) ?_
    · rw [List.takeWhile_cons_of_pos h]
      exact List.cons_ne_nil _ _
    · -- what is dropped is as long as it can be
      cases hdrop : (c :: rest).dropWhile isNumeric with
      | nil => exact trivial
      | cons d after =>
        have hhead := List.head_dropWhile_not isNumeric (l := c :: rest) (by rw [hdrop]; nofun)
        simp only [hdrop, List.head_cons] at hhead
        exact hhead

/-- A text that begins with two opening braces begins with a variable, or with none. -/
theorem opening_of_braces (inner : List Char) : Opening ('\x7b' :: '\x7b' :: inner) := by
  cases hcut : cutAtClose inner with
  | none => exact .stuck (.unterminated hcut)
  | some r =>
    obtain ⟨body, after⟩ := r
    cases hp : pathOf? body with
    | none => exact .stuck (.badVariable hcut hp)
    | some p =>
      -- the body ends at the first pair of closing braces
      have hsplit : '\x7b' :: '\x7b' :: inner =
          '\x7b' :: '\x7b' :: (body ++ ['\x7d', '\x7d']) ++ after := by
        rw [eq_append_of_cutAtClose hcut]
        simp
      rw [hsplit]
      exact .token (t := .path p) (.path (cutAtClose_of_cutAtClose hcut []) hp) trivial

/-- **Every text begins in one of these ways.** -/
theorem opening (s : List Char) : Opening s := by
  cases s with
  | nil => exact .nil
  | cons c rest =>
    by_cases hnumeric : isNumeric c = true
    · exact opening_of_isNumeric hnumeric rest
    by_cases hspace : isSpace c = true
    · exact .blank hspace
    by_cases hopen : ∃ inner, c :: rest = '\x7b' :: '\x7b' :: inner
    · obtain ⟨inner, heq⟩ := hopen
      rw [heq]
      exact opening_of_braces inner
    cases hchar : Token.ofChar? c with
    | some t =>
      -- a sign ends where it ends, whatever is behind it
      have he : t.EndsBefore rest := by
        cases t with
        | number x =>
          unfold Token.ofChar? at hchar
          split at hchar <;> cases hchar
        | path _ | plus | minus | star | slash | openParen | closeParen => exact trivial
      have htoken : Opening ([c] ++ rest) := .token (.sign hchar) he
      exact htoken
    | none =>
      exact .stuck (.unexpectedChar (Bool.eq_false_iff.mpr hspace) hchar
        (Bool.eq_false_iff.mpr hnumeric) fun inner heq => hopen ⟨inner, heq⟩)

/-- What holds of a text because it holds of what is behind its first blank or token. -/
theorem opening_induction {P : List Char → Prop} (nil : P [])
    (blank : ∀ c rest, isSpace c = true → P rest → P (c :: rest))
    (token : ∀ t cs rest, Token.Written t cs → t.EndsBefore rest → P rest → P (cs ++ rest))
    (stuck : ∀ s fault, Stuck s fault → P s) (s : List Char) : P s := by
  -- on the length, since a token may be many characters long
  induction hlen : s.length using Nat.strongRecOn generalizing s with
  | ind n ih =>
    subst hlen
    cases opening s with
    | nil => exact nil
    | @blank c rest h => exact blank c rest h (ih _ (Nat.lt_succ_self _) rest rfl)
    | @token t cs rest h he =>
      refine token t cs rest h he (ih _ ?_ rest rfl)
      have hpos := List.length_pos_iff.mpr h.ne_nil
      rw [List.length_append]
      omega
    | @stuck _ fault h => exact stuck s fault h

/-! ### Cuts -/

theorem scanFrom_nil (pos : Nat) : Lexeme.scanFrom pos [] = .ok [] := by rw [Lexeme.scanFrom]

/-- **A text that is cut in front of a token** has the tokens before it in what is before it. -/
theorem exists_split_of_scanFrom {s : List Char} {pos : Nat} {ls ls' : List Lexeme}
    (h : Lexeme.scanFrom pos s = .ok (ls ++ ls')) :
    ∃ before after, s = before ++ after ∧ Lexeme.scanFrom pos before = .ok ls ∧
      position (pos + Text.byteLength s) ls' = pos + Text.byteLength before := by
  induction s using opening_induction generalizing pos ls with
  | nil =>
    rw [scanFrom_nil] at h
    obtain ⟨rfl, rfl⟩ := List.append_eq_nil_iff.mp (Except.ok.inj h).symm
    exact ⟨[], [], rfl, scanFrom_nil pos, rfl⟩
  | blank c rest hc ih =>
    rw [scanFrom_space hc] at h
    obtain ⟨before, after, rfl, hbefore, hpos⟩ := ih h
    refine ⟨c :: before, after, rfl, (scanFrom_space hc pos before).trans hbefore, ?_⟩
    have hsize := (single_of_isSpace hc).2
    rwa [Text.byteLength, Text.byteLength, hsize, ← Nat.add_assoc, ← Nat.add_assoc]
  | token t cs rest hw he ih =>
    cases ls with
    | nil =>
      -- the cut is right here
      rw [scanFrom_written hw he] at h
      obtain ⟨ls', -, rfl⟩ := exists_of_map_eq_ok h
      exact ⟨[], cs ++ rest, rfl, scanFrom_nil pos, rfl⟩
    | cons l ls =>
      rw [scanFrom_written hw he] at h
      obtain ⟨tail, htail, heq⟩ := exists_of_map_eq_ok h
      obtain ⟨rfl, rfl⟩ := List.cons_eq_cons.mp heq
      obtain ⟨before, after, rfl, hbefore, hpos⟩ := ih htail
      refine ⟨cs ++ before, after, (List.append_assoc ..).symm, ?_, ?_⟩
      · rw [scanFrom_written hw he.of_append, hbefore]
        rfl
      · rwa [Text.byteLength_append, Text.byteLength_append cs before, ← Nat.add_assoc,
          ← Nat.add_assoc]
  | stuck s fault hs =>
    rw [scanFrom_of_stuck hs] at h
    cases h

/-- **A fault of the scanner** is where no token begins, behind a text that is cut into tokens. -/
theorem exists_stuck_of_scanFrom {s : List Char} {pos pos' : Nat} {fault : Fault}
    (h : Lexeme.scanFrom pos s = .error (pos', fault)) :
    ∃ before after ls, s = before ++ after ∧ pos' = pos + Text.byteLength before ∧
      Lexeme.scanFrom pos before = .ok ls ∧ Stuck after fault := by
  induction s using opening_induction generalizing pos with
  | nil =>
    rw [scanFrom_nil] at h
    cases h
  | blank c rest hc ih =>
    rw [scanFrom_space hc] at h
    obtain ⟨before, after, ls, rfl, rfl, hbefore, hstuck⟩ := ih h
    refine ⟨c :: before, after, ls, rfl, ?_, (scanFrom_space hc pos before).trans hbefore, hstuck⟩
    rw [Text.byteLength, (single_of_isSpace hc).2, Nat.add_assoc]
  | token t cs rest hw he ih =>
    rw [scanFrom_written hw he] at h
    -- the fault is behind the token, so the token joins the text before it
    cases hrest : Lexeme.scanFrom (pos + Text.byteLength cs) rest with
    | ok ls =>
      rw [hrest] at h
      cases h
    | error err =>
      rw [hrest] at h
      obtain rfl : err = (pos', fault) := Except.error.inj h
      obtain ⟨before, after, ls, rfl, rfl, hbefore, hstuck⟩ := ih hrest
      refine ⟨cs ++ before, after, ⟨t, pos⟩ :: ls, (List.append_assoc ..).symm, ?_, ?_, hstuck⟩
      · rw [Text.byteLength_append, Nat.add_assoc]
      · rw [scanFrom_written hw he.of_append, hbefore]
        rfl
  | stuck s fault' hs =>
    rw [scanFrom_of_stuck hs] at h
    cases h
    exact ⟨[], s, [], rfl, rfl, scanFrom_nil _, hs⟩

/-- Where the scanner stops, no token begins. -/
theorem Stuck.not_written {t : Token} {cs rest : List Char} {fault : Fault}
    (h : Stuck (cs ++ rest) fault) (hw : t.Written cs) : ¬ t.EndsBefore rest := by
  intro he
  -- behind a token the fault would be behind its position
  have hscan := scanFrom_of_stuck h 0
  rw [scanFrom_written hw he] at hscan
  cases hrest : Lexeme.scanFrom (0 + Text.byteLength cs) rest with
  | ok ls =>
    rw [hrest] at hscan
    cases hscan
  | error err =>
    rw [hrest] at hscan
    obtain rfl : err = (0, fault) := Except.error.inj hscan
    obtain ⟨before, -, -, -, hpos, -⟩ := exists_stuck_of_scanFrom hrest
    cases cs with
    | nil => exact hw.ne_nil rfl
    | cons c cs =>
      have hsize := Char.utf8Size_pos c
      rw [Text.byteLength] at hpos
      omega

/-- A text without tokens is blank. -/
theorem isSpace_of_scanFrom {s : List Char} {pos : Nat} (h : Lexeme.scanFrom pos s = .ok []) :
    ∀ c ∈ s, isSpace c = true := by
  induction s using opening_induction generalizing pos with
  | nil => exact List.forall_mem_nil _
  | blank c rest hc ih =>
    rw [scanFrom_space hc] at h
    exact List.forall_mem_cons.mpr ⟨hc, ih h⟩
  | token t cs rest hw he _ =>
    rw [scanFrom_written hw he] at h
    -- a token would be among the lexemes
    obtain ⟨ls, -, heq⟩ := exists_of_map_eq_ok h
    cases heq
  | stuck s fault hs =>
    rw [scanFrom_of_stuck hs] at h
    cases h

end Flowgraph.Expression
