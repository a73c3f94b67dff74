import Flowgraph.Proofs.Json.Printing

/-!
# The texts of numbers

A number is read up to the first character that cannot belong to it. So a text that is a number by
itself is the same number in front of a blank, a comma or a bracket, and it is enough to know of a
number that it is read back from its own text.

That is so for every integer. For a floating-point number it is a property of the digits that were
chosen for it, which is left to `Number.RoundTrips`.

* `scanNumber_append` — what is read of a number does not depend on what is behind it.
* `Number.RoundTrips` — a number is read back from its text.
* `Number.RoundTrips.written` — and so wherever the text stands.
* `Number.roundTrips_integer` — integers are.
-/

namespace Flowgraph.Json

/-! ### In front of another text -/

/-- The digits at the beginning of a text, in front of another one that goes on with none. -/
theorem takeWhile_isDigit_append {s rest : List Char}
    (h : s.dropWhile Decimal.isDigit = [] → Breaks rest) :
    (s ++ rest).takeWhile Decimal.isDigit = s.takeWhile Decimal.isDigit ∧
      (s ++ rest).dropWhile Decimal.isDigit = s.dropWhile Decimal.isDigit ++ rest := by
  induction s with
  | nil =>
    cases rest with
    | nil => exact ⟨rfl, rfl⟩
    | cons c rest =>
      -- what follows begins with no digit, since the digits go to the end of the text
      have hc := Bool.eq_false_iff.mp (h rfl).1
      exact ⟨List.takeWhile_cons_of_neg hc, List.dropWhile_cons_of_neg hc⟩
  | cons c s ih =>
    by_cases hc : Decimal.isDigit c = true
    · rw [List.dropWhile_cons_of_pos hc] at h
      obtain ⟨htake, hdrop⟩ := ih h
      rw [List.cons_append, List.takeWhile_cons_of_pos hc, List.takeWhile_cons_of_pos hc,
        List.dropWhile_cons_of_pos hc, List.dropWhile_cons_of_pos hc, htake, hdrop]
      exact ⟨rfl, rfl⟩
    · rw [List.cons_append, List.takeWhile_cons_of_neg hc, List.takeWhile_cons_of_neg hc,
        List.dropWhile_cons_of_neg hc, List.dropWhile_cons_of_neg hc]
      exact ⟨rfl, rfl⟩

theorem scanFraction_of_ne {c : Char} (h : c ≠ '.') (s : List Char) :
    scanFraction (c :: s) = some ([], c :: s) := by
  unfold scanFraction
  split
  · next heq => exact absurd (List.cons.inj heq).1 h
  · rfl

theorem scanFraction_append {s ds after rest : List Char} (h : scanFraction s = some (ds, after))
    (hrest : after = [] → Breaks rest) : scanFraction (s ++ rest) = some (ds, after ++ rest) := by
  cases s with
  | nil =>
    cases h
    -- the text is at its end, and what follows does not go on with the number
    cases rest with
    | nil => rfl
    | cons c rest => exact scanFraction_of_ne (hrest rfl).2.1 rest
  | cons c s =>
    by_cases hc : c = '.'
    · subst hc
      rw [scanFraction] at h
      split at h
      · cases h
      · next hne =>
        cases h
        obtain ⟨htake, hdrop⟩ := takeWhile_isDigit_append hrest
        rw [List.cons_append, scanFraction]
        simp only [htake, hdrop, if_neg hne]
    · rw [scanFraction_of_ne hc] at h
      cases h
      exact scanFraction_of_ne hc _

/-- A sign is taken off alike if there is something behind it. -/
theorem takeSign_append {s : List Char} (h : s ≠ []) (rest : List Char) :
    Decimal.takeSign (s ++ rest) =
      ((Decimal.takeSign s).1, (Decimal.takeSign s).2 ++ rest) := by
  cases s with
  | nil => exact absurd rfl h
  | cons c s =>
    by_cases hminus : c = '-'
    · subst hminus
      rfl
    · by_cases hplus : c = '+'
      · subst hplus
        rfl
      · -- any other character is left where it is
        have hplain : ∀ t, Decimal.takeSign (c :: t) = (false, c :: t) := by
          intro t
          unfold Decimal.takeSign
          split
          · next heq => exact absurd (List.cons.inj heq).1 hminus
          · next heq => exact absurd (List.cons.inj heq).1 hplus
          · rfl
        rw [List.cons_append, hplain, hplain]
        rfl

theorem scanExponent_append {s after rest : List Char} {e : Option Int}
    (h : scanExponent s = some (e, after)) (hrest : after = [] → Breaks rest) :
    scanExponent (s ++ rest) = some (e, after ++ rest) := by
  cases s with
  | nil =>
    cases h
    cases rest with
    | nil => rfl
    | cons c rest =>
      obtain ⟨-, -, hlower, hupper⟩ := hrest rfl
      rw [List.nil_append, scanExponent, if_neg (not_or.mpr ⟨hlower, hupper⟩)]
  | cons c s =>
    rw [scanExponent] at h
    split at h
    · next hmark =>
      dsimp only at h
      split at h
      · cases h
      · next hne =>
        cases h
        -- there is a digit behind the mark, so there is something to take a sign off
        have hs : s ≠ [] := by
          rintro rfl
          exact hne rfl
        obtain ⟨htake, hdrop⟩ := takeWhile_isDigit_append hrest
        rw [List.cons_append, scanExponent, if_pos hmark, takeSign_append hs]
        simp only [htake, hdrop, if_neg hne]
    · next hmark =>
      cases h
      rw [List.cons_append, scanExponent, if_neg hmark]

/-- The digits before the point: a zero stands alone. -/
def wholeDigits (s : List Char) : List Char :=
  if (s.takeWhile Decimal.isDigit).head? = some '0' then ['0'] else s.takeWhile Decimal.isDigit

theorem scanNumber_eq_some_iff {negative : Bool} {s after : List Char} {m : Numeral} :
    scanNumber negative s = some (m, after) ↔ s.takeWhile Decimal.isDigit ≠ [] ∧
      ∃ fraction behind exponent,
        scanFraction (s.drop (wholeDigits s).length) = some (fraction, behind) ∧
        scanExponent behind = some (exponent, after) ∧
        m = ⟨negative, ⟨Decimal.digitsValue (wholeDigits s ++ fraction),
          exponent.getD 0 - (fraction.length : Int)⟩, fraction = [] && exponent.isNone⟩ := by
  unfold scanNumber
  dsimp only
  rw [← wholeDigits]
  split
  · -- without a digit in front there is no number
    next hnil =>
    exact ⟨nofun, fun h => absurd hnil h.1⟩
  · next hne =>
    simp only [Option.bind_eq_bind, Option.bind_eq_some_iff, Option.pure_def, Option.some.injEq,
      Prod.mk.injEq, Prod.exists]
    constructor
    · rintro ⟨fraction, behind, hfraction, exponent, after, hexponent, rfl, rfl⟩
      exact ⟨hne, fraction, behind, exponent, hfraction, hexponent, rfl⟩
    · rintro ⟨-, fraction, behind, exponent, hfraction, hexponent, rfl⟩
      exact ⟨fraction, behind, hfraction, exponent, after, hexponent, rfl, rfl⟩

theorem length_wholeDigits_le {s : List Char} (h : s.takeWhile Decimal.isDigit ≠ []) :
    (wholeDigits s).length ≤ s.length := by
  have htake := (List.takeWhile_prefix Decimal.isDigit (l := s)).length_le
  have hpos := List.length_pos_iff.mpr h
  rw [wholeDigits]
  split
  · exact Nat.le_trans hpos htake
  · exact htake

theorem drop_length_takeWhile (s : List Char) :
    s.drop (s.takeWhile Decimal.isDigit).length = s.dropWhile Decimal.isDigit :=
  (congrArg (List.drop _) List.takeWhile_append_dropWhile.symm).trans List.drop_left

/-- The digits before the point, in front of another text: those that there are go on only if they
take up the whole text. -/
theorem wholeDigits_append {s rest : List Char} (hne : s.takeWhile Decimal.isDigit ≠ [])
    (hrest : s.drop (wholeDigits s).length = [] → Breaks rest) :
    (s ++ rest).takeWhile Decimal.isDigit ≠ [] ∧ wholeDigits (s ++ rest) = wholeDigits s := by
  cases s with
  | nil => exact absurd rfl hne
  | cons c s =>
    by_cases hc : Decimal.isDigit c = true
    · have hcons : ∀ t, (c :: t).takeWhile Decimal.isDigit = c :: t.takeWhile Decimal.isDigit :=
        fun t => List.takeWhile_cons_of_pos hc
      refine ⟨?_, ?_⟩
      · rw [List.cons_append, hcons]
        exact List.cons_ne_nil _ _
      -- a leading zero stands alone, whatever is behind it
      by_cases hzero : c = '0'
      · rw [wholeDigits, wholeDigits, List.cons_append, hcons, hcons, hzero]
        rfl
      · have hhead : ∀ t, wholeDigits (c :: t) = (c :: t).takeWhile Decimal.isDigit := by
          intro t
          rw [wholeDigits, hcons]
          exact if_neg fun h => hzero (Option.some.inj h)
        have hdrop : (c :: s).drop (wholeDigits (c :: s)).length =
            (c :: s).dropWhile Decimal.isDigit := by
          rw [hhead]
          exact drop_length_takeWhile _
        rw [hdrop] at hrest
        rw [List.cons_append, hhead, hhead]
        exact (takeWhile_isDigit_append hrest).1
    · exact absurd (List.takeWhile_cons_of_neg hc) hne

/-- **What is read of a number does not depend on what is behind it**, as long as that does not go
on where the number ended with its text. -/
theorem scanNumber_append {negative : Bool} {s after rest : List Char} {m : Numeral}
    (h : scanNumber negative s = some (m, after)) (hrest : after = [] → Breaks rest) :
    scanNumber negative (s ++ rest) = some (m, after ++ rest) := by
  obtain ⟨hne, fraction, behind, exponent, hfraction, hexponent, rfl⟩ :=
    scanNumber_eq_some_iff.mp h
  -- a text that is over before its last part is over behind it
  have hbehind : behind = [] → Breaks rest := by
    rintro rfl
    cases hexponent
    exact hrest rfl
  have hwhole : s.drop (wholeDigits s).length = [] → Breaks rest := by
    intro hnil
    rw [hnil] at hfraction
    cases hfraction
    exact hbehind rfl
  obtain ⟨hne', hsame⟩ := wholeDigits_append hne hwhole
  refine scanNumber_eq_some_iff.mpr ⟨hne', fraction, behind ++ rest, exponent, ?_,
    scanExponent_append hexponent hrest, ?_⟩
  · rw [hsame, List.drop_append_of_le_length (length_wholeDigits_le hne)]
    exact scanFraction_append hfraction hbehind
  · rw [hsame]

/-! ### Numbers that are read back -/

theorem tokens_of_isSpace {c : Char} (h : isSpace c = true) (s : List Char) :
    tokens (c :: s) = tokens s := by
  rw [tokens.eq_def]
  exact if_pos h

/-- A number begins with its sign or a digit. -/
theorem isDigit_of_scanNumber {negative : Bool} {c : Char} {s : List Char}
    (h : scanNumber negative (c :: s) ≠ none) : Decimal.isDigit c = true := by
  by_cases hc : Decimal.isDigit c = true
  · exact hc
  · refine absurd ?_ h
    unfold scanNumber
    rw [List.takeWhile_cons_of_neg hc]
    rfl

/-- Where a text does not begin with a blank, a token begins, and a number begins with its sign or a
digit. -/
theorem exists_token {c : Char} {s : List Char} {ts : List Token} (hc : ¬ isSpace c = true)
    (h : tokens (c :: s) = some ts) :
    ∃ t ts', ts = t :: ts' ∧ ((∃ m, t = .number m) → c = '-' ∨ Decimal.isDigit c = true) := by
  -- of the tokens that are no numbers nothing more is claimed
  have hmap : ∀ {t : Token} {r : Option (List Token)}, r.map (t :: ·) = some ts →
      (∀ m, t ≠ .number m) →
        ∃ t ts', ts = t :: ts' ∧ ((∃ m, t = .number m) → c = '-' ∨ Decimal.isDigit c = true) := by
    intro t r hr ht
    obtain ⟨ts', -, rfl⟩ := Option.map_eq_some_iff.mp hr
    exact ⟨t, ts', rfl, fun ⟨m, hm⟩ => absurd hm (ht m)⟩
  rw [tokens.eq_def] at h
  dsimp only at h
  rw [if_neg hc] at h
  -- the cases of the tokenizer in its order, with the numbers at the end
  split at h
  · exact hmap h (by rintro _ ⟨⟩)
  · exact hmap h (by rintro _ ⟨⟩)
  · exact hmap h (by rintro _ ⟨⟩)
  · exact hmap h (by rintro _ ⟨⟩)
  · exact hmap h (by rintro _ ⟨⟩)
  · exact hmap h (by rintro _ ⟨⟩)
  · split at h
    · cases h
    · exact hmap h (by rintro _ ⟨⟩)
  · split at h
    · exact hmap h (by rintro _ ⟨⟩)
    · cases h
  · split at h
    · exact hmap h (by rintro _ ⟨⟩)
    · cases h
  · split at h
    · exact hmap h (by rintro _ ⟨⟩)
    · cases h
  · split at h
    · cases h
    · obtain ⟨ts', -, rfl⟩ := Option.map_eq_some_iff.mp h
      exact ⟨_, ts', rfl, fun _ => .inl rfl⟩
  · split at h
    · cases h
    · next hscan =>
      obtain ⟨ts', -, rfl⟩ := Option.map_eq_some_iff.mp h
      have hsome : scanNumber false (c :: s) ≠ none := by
        rw [hscan]
        exact Option.some_ne_none _
      exact ⟨_, ts', rfl, fun _ => .inr (isDigit_of_scanNumber hsome)⟩

theorem tokens_minus (s : List Char) : tokens ('-' :: s) =
    (scanNumber true s).bind fun r => (tokens r.2).map (.number r.1 :: ·) := by
  rw [tokens, if_neg (by decide)]
  split
  · next hscan =>
    rw [hscan]
    rfl
  · next hscan =>
    rw [hscan]
    rfl

theorem tokens_digit {c : Char} (hc : Decimal.isDigit c = true) (s : List Char) :
    tokens (c :: s) =
      (scanNumber false (c :: s)).bind fun r => (tokens r.2).map (.number r.1 :: ·) := by
  have hspace : ¬ isSpace c = true := by
    intro h
    simp only [isSpace, Bool.or_eq_true, decide_eq_true_eq] at h
    rcases h with ((rfl | rfl) | rfl) | rfl <;> exact absurd hc (by decide)
  rw [tokens, if_neg hspace]
  · split
    · next hscan =>
      rw [hscan]
      rfl
    · next hscan =>
      rw [hscan]
      rfl
  -- a digit is none of the characters that open another token
  all_goals
    rintro rfl
    exact absurd hc (by decide)

/-- A text without tokens is passed over. -/
theorem spells_of_tokens_nil {s : List Char} (h : tokens s = some []) (rest : List Char) :
    Spells s [] rest := by
  induction s with
  | nil => exact Spells.nil rest
  | cons c s ih =>
    by_cases hc : isSpace c = true
    · rw [tokens_of_isSpace hc] at h
      exact (spells_space hc (s ++ rest)).append (ih h)
    · obtain ⟨t, ts, heq, -⟩ := exists_token hc h
      cases heq

/-- A number of which only blanks are left is spelled by its text. -/
theorem spells_of_scanNumber {negative : Bool} {s after : List Char} {m : Numeral}
    (hscan : scanNumber negative s = some (m, after)) (hafter : tokens after = some [])
    {rest : List Char} (hrest : Breaks rest) :
    (scanNumber negative (s ++ rest)).bind (fun r => (tokens r.2).map (.number r.1 :: ·)) =
      (tokens rest).map ([.number m] ++ ·) := by
  have hpass := spells_of_tokens_nil hafter rest
  rw [Spells] at hpass
  rw [scanNumber_append hscan fun _ => hrest, Option.bind_some]
  dsimp only
  rw [hpass, Option.map_map]
  rfl

/-- **A text that is a number by itself is the same number in front of another text.** -/
theorem spells_of_tokens {s : List Char} {m : Numeral} (h : tokens s = some [.number m])
    {rest : List Char} (hrest : Breaks rest) : Spells s [.number m] rest := by
  -- behind leading blanks there is the sign or the first digit
  induction s with
  | nil =>
    rw [tokens] at h
    cases h
  | cons c s ih =>
    by_cases hc : isSpace c = true
    · rw [tokens_of_isSpace hc] at h
      exact (spells_space hc (s ++ rest)).append (ih h)
    · obtain ⟨t, ts, heq, hfirst⟩ := exists_token hc h
      cases heq
      rcases hfirst ⟨m, rfl⟩ with rfl | hdigit
      · rw [tokens_minus] at h
        obtain ⟨⟨m', after⟩, hscan, hts⟩ := Option.bind_eq_some_iff.mp h
        obtain ⟨ts, hafter, heq⟩ := Option.map_eq_some_iff.mp hts
        cases heq
        rw [Spells, List.cons_append, tokens_minus]
        exact spells_of_scanNumber hscan hafter hrest
      · rw [tokens_digit hdigit] at h
        obtain ⟨⟨m', after⟩, hscan, hts⟩ := Option.bind_eq_some_iff.mp h
        obtain ⟨ts, hafter, heq⟩ := Option.map_eq_some_iff.mp hts
        cases heq
        rw [Spells, List.cons_append, tokens_digit hdigit]
        exact spells_of_scanNumber hscan hafter hrest

namespace Number

/-- A number is read back from its text. -/
def RoundTrips (n : Number) : Prop := Json.parse? (String.ofList n.chars) = some (.number n)

/-- The numeral that the text of a number is, if it is one. -/
def numeral (n : Number) : Numeral :=
  match tokens n.chars with
  | some [.number m] => m
  | _ => ⟨false, ⟨0, 0⟩, true⟩

/-- Only a number is read as one. -/
theorem eq_number_of_toJson? {d : Document} {room : Nat} {n : Number}
    (h : d.toJson? room = some (.number n)) : ∃ m, d = .number m ∧ m.toNumber? = some n := by
  cases d with
  | number m =>
    obtain ⟨n', hn, heq⟩ := Option.map_eq_some_iff.mp h
    cases heq
    exact ⟨m, rfl, hn⟩
  -- every other document is read as a value of its own kind, if at all
  | null => cases h
  | bool b => cases h
  | text s =>
    obtain ⟨t, -, heq⟩ := Option.map_eq_some_iff.mp h
    cases heq
  | array items =>
    cases room with
    | zero => cases h
    | succ room =>
      obtain ⟨js, -, heq⟩ := Option.map_eq_some_iff.mp h
      cases heq
  | object members =>
    cases room with
    | zero => cases h
    | succ room =>
      obtain ⟨js, -, heq⟩ := Option.map_eq_some_iff.mp h
      cases heq

theorem eq_cons_of_value {fuel : Nat} {ts rest : List Token} {m : Numeral}
    (h : Document.value fuel ts = some (.number m, rest)) : ts = .number m :: rest := by
  cases fuel with
  | zero => cases h
  | succ fuel =>
    rw [Document.value.eq_def] at h
    dsimp only at h
    split at h
    case h_3 =>
      cases h
      rfl
    -- an array or an object is read in several steps, which end in no number
    case h_6 =>
      obtain ⟨r, -, h⟩ := Option.bind_eq_some_iff.mp h
      obtain ⟨r', -, h⟩ := Option.bind_eq_some_iff.mp h
      cases h
    case h_8 =>
      obtain ⟨r, -, h⟩ := Option.bind_eq_some_iff.mp h
      obtain ⟨r', -, h⟩ := Option.bind_eq_some_iff.mp h
      cases h
    all_goals cases h

/-- The tokens of a document that is a number. -/
theorem tokens_of_parse? {s : String} {m : Numeral} (h : Document.parse? s = some (.number m)) :
    tokens s.toList = some [.number m] := by
  obtain ⟨ts, hts, h⟩ := Option.bind_eq_some_iff.mp h
  obtain ⟨⟨d, rest⟩, hvalue, h⟩ := Option.bind_eq_some_iff.mp h
  dsimp only at h
  split at h
  · next hrest =>
    cases h
    subst hrest
    rw [hts, eq_cons_of_value hvalue]
  · cases h

/-- **A number that is read back from its text is so wherever the text stands.** -/
theorem RoundTrips.written {n : Number} (h : n.RoundTrips) :
    n.WrittenAs n.numeral ∧ n.numeral.toNumber? = some n := by
  obtain ⟨d, hd, hjson⟩ := Option.bind_eq_some_iff.mp h
  obtain ⟨m, rfl, hm⟩ := eq_number_of_toJson? hjson
  have htokens := tokens_of_parse? hd
  rw [String.toList_ofList] at htokens
  have hnumeral : n.numeral = m := by
    rw [numeral, htokens]
  rw [hnumeral]
  exact ⟨fun rest hrest => spells_of_tokens htokens hrest, hm⟩

/-- A number is read back from its text if that is a numeral for it. -/
theorem roundTrips_of_tokens {n : Number} {m : Numeral} (h : tokens n.chars = some [.number m])
    (hm : m.toNumber? = some n) : n.RoundTrips := by
  have hdocument : Document.parse? (String.ofList n.chars) = some (.number m) := by
    refine Document.parse?_of_tokens ?_
    rw [String.toList_ofList]
    exact h
  rw [RoundTrips, Json.parse?, hdocument]
  show (m.toNumber?.map Json.number) = _
  rw [hm]
  rfl

/-! ### Integers -/

/-- The digits of a natural number begin with a zero only if they are one. -/
theorem eq_zero_of_head? (k : Nat) (h : (Decimal.natDigits k).head? = some '0') : k = 0 := by
  induction k using Nat.strongRecOn with
  | ind k ih =>
    rcases Nat.lt_or_ge k 10 with hlt | hge
    · rw [Decimal.natDigits, Nat.toDigits_of_lt_base hlt] at h
      exact Nat.digitChar_eq_zero.mp (Option.some.inj h)
    · -- the first digit is that of the number without its last digit
      have hsplit : Decimal.natDigits k = Nat.toDigits 10 (k / 10) ++ Nat.toDigits 10 (k % 10) := by
        rw [Nat.toDigits_append_toDigits (by decide) (by omega) (by omega), Nat.div_add_mod]
        rfl
      have hfirst : (Nat.toDigits 10 (k / 10)).head? = some '0' := by
        cases hcs : Nat.toDigits 10 (k / 10) with
        | nil => exact absurd hcs Nat.toDigits_ne_nil
        | cons c cs =>
          rw [hsplit, hcs] at h
          exact h
      have := ih (k / 10) (by omega) hfirst
      omega

theorem isDigit_of_mem_natDigits {k : Nat} {c : Char} (h : c ∈ Decimal.natDigits k) :
    Decimal.isDigit c = true :=
  Nat.isDigit_of_mem_toDigits (by decide) (by decide) h

theorem wholeDigits_natDigits (k : Nat) : wholeDigits (Decimal.natDigits k) = Decimal.natDigits k ∧
    (Decimal.natDigits k).takeWhile Decimal.isDigit = Decimal.natDigits k := by
  have htake : (Decimal.natDigits k).takeWhile Decimal.isDigit = Decimal.natDigits k := by
    have happ : (Decimal.natDigits k ++ []).takeWhile Decimal.isDigit = _ :=
      List.takeWhile_append_of_pos fun c hc => isDigit_of_mem_natDigits hc
    rwa [List.append_nil, List.takeWhile_nil, List.append_nil] at happ
  refine ⟨?_, htake⟩
  rw [wholeDigits, htake]
  -- a number that begins with a zero is zero
  split
  · next hhead =>
    rw [eq_zero_of_head? k hhead]
    rfl
  · rfl

/-- The digits of a natural number are read as that number. -/
theorem scanNumber_natDigits (negative : Bool) (k : Nat) :
    scanNumber negative (Decimal.natDigits k) = some (⟨negative, ⟨k, 0⟩, true⟩, []) := by
  obtain ⟨hwhole, htake⟩ := wholeDigits_natDigits k
  have hvalue : Decimal.digitsValue (Decimal.natDigits k) = k :=
    Nat.ofDigitChars_ten_toDigits
  refine scanNumber_eq_some_iff.mpr ⟨?_, [], [], none, ?_, rfl, ?_⟩
  · rw [htake]
    exact Nat.toDigits_ne_nil
  · rw [hwhole, List.drop_length]
    rfl
  · rw [hwhole, List.append_nil, hvalue]
    rfl

theorem tokens_natDigits (k : Nat) :
    tokens (Decimal.natDigits k) = some [.number ⟨false, ⟨k, 0⟩, true⟩] := by
  have hscan := scanNumber_natDigits false k
  have hne : Decimal.natDigits k ≠ [] := Nat.toDigits_ne_nil
  cases hcs : Decimal.natDigits k with
  | nil => exact absurd hcs hne
  | cons c cs =>
    have hdigit : Decimal.isDigit c = true :=
      isDigit_of_mem_natDigits (hcs ▸ List.mem_cons_self)
    rw [hcs] at hscan
    rw [tokens_digit hdigit, hscan]
    simp only [Option.bind_some, tokens, Option.map_some]

/-- **An integer is read back from its text.** -/
theorem roundTrips_integer (n : Int) (fits : Decimal.minInt64 ≤ n ∧ n ≤ Decimal.maxNat64) :
    (Number.integer n fits).RoundTrips := by
  have hof : ofInt? n = some (.integer n fits) := dif_pos fits
  by_cases hneg : n < 0
  · -- a sign and the digits of the opposite number
    have hchars : (Number.integer n fits).chars = '-' :: Decimal.natDigits n.natAbs := by
      rw [chars, Decimal.intDigits, if_pos hneg]
    refine roundTrips_of_tokens (m := ⟨true, ⟨n.natAbs, 0⟩, true⟩) ?_ ?_
    · rw [hchars, tokens_minus, scanNumber_natDigits]
      simp only [Option.bind_some, tokens, Option.map_some]
    · have hne : n.natAbs ≠ 0 := Int.natAbs_ne_zero.mpr (Int.ne_of_lt hneg)
      have habs : -(n.natAbs : Int) = n := by omega
      simp only [Numeral.toNumber?, Bool.true_and, decide_eq_true hne, if_true, habs, hof]
      rfl
  · have hchars : (Number.integer n fits).chars = Decimal.natDigits n.natAbs := by
      rw [chars, Decimal.intDigits, if_neg hneg]
    have habs : (n.natAbs : Int) = n := by omega
    refine roundTrips_of_tokens (hchars ▸ tokens_natDigits n.natAbs) ?_
    simp only [Numeral.toNumber?, Bool.false_and, habs, hof]
    rfl

end Number

end Flowgraph.Json
