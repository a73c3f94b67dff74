import Flowgraph.Proofs.Expression.Lexis

/-!
# Scanning bytes

The scanner of expressions takes characters off a list. The same can be done over the bytes of the
text: `scanBytes` looks at one byte after the other, counts positions in bytes, and takes a part of
the text between two of them whenever it needs characters. There is no such part where a position is
inside of a character (`Text.cutBytes?`), and then the scan comes to nothing.

* `scanBytes_append` — it never does, and comes to what the scanner of characters comes to.
-/

namespace Flowgraph.Text

/-! ### Bytes and parts -/

/-- The bytes of a text in UTF-8. -/
def bytes (s : List Char) : List UInt8 := s.flatMap String.utf8EncodeChar

theorem bytes_cons (c : Char) (rest : List Char) :
    bytes (c :: rest) = String.utf8EncodeChar c ++ bytes rest := List.flatMap_cons

theorem bytes_append (s t : List Char) : bytes (s ++ t) = bytes s ++ bytes t := List.flatMap_append

theorem length_bytes (s : List Char) : (bytes s).length = byteLength s := by
  induction s with
  | nil => rfl
  | cons c rest ih =>
    rw [bytes_cons, List.length_append, String.length_utf8EncodeChar, ih, byteLength]

theorem byteLength_concat {c : Char} (h : c.utf8Size = 1) (s : List Char) :
    byteLength (s ++ [c]) = byteLength s + 1 := by
  rw [byteLength_append, byteLength, h]
  rfl

/-- Cuts a text behind so many bytes, if a character ends there. -/
def cutBytes? : Nat → List Char → Option (List Char × List Char)
  | 0, s => some ([], s)
  | _ + 1, [] => none
  | n + 1, c :: rest =>
    if c.utf8Size ≤ n + 1 then
      (cutBytes? (n + 1 - c.utf8Size) rest).map fun (before, after) => (c :: before, after)
    else none

theorem cutBytes?_append (before after : List Char) :
    cutBytes? (byteLength before) (before ++ after) = some (before, after) := by
  induction before with
  | nil =>
    rw [byteLength, List.nil_append]
    exact cutBytes?.eq_1 after
  | cons c before ih =>
    have hpos := c.utf8Size_pos
    -- a character takes a byte at least, so the count is not used up
    obtain ⟨n, hn⟩ : ∃ n, c.utf8Size + byteLength before = n + 1 :=
      ⟨c.utf8Size + byteLength before - 1, by omega⟩
    rw [byteLength, hn, List.cons_append, cutBytes?, if_pos (by omega), ← hn,
      Nat.add_sub_cancel_left, ih]
    rfl

/-- **A text is cut where a character ends**, and nowhere else. -/
theorem cutBytes?_eq_some_iff {n : Nat} {s before after : List Char} :
    cutBytes? n s = some (before, after) ↔ s = before ++ after ∧ byteLength before = n := by
  constructor
  · intro h
    induction n, s using cutBytes?.induct generalizing before with
    | case1 s =>
      rw [cutBytes?] at h
      cases h
      exact ⟨rfl, rfl⟩
    | case2 n => cases h
    -- the character is taken whole, and the rest of the bytes is cut behind it
    | case3 n c rest hle ih =>
      rw [cutBytes?, if_pos hle] at h
      obtain ⟨⟨before', after'⟩, hcut, heq⟩ := Option.map_eq_some_iff.mp h
      cases heq
      obtain ⟨rfl, hsize⟩ := ih hcut
      refine ⟨rfl, ?_⟩
      rw [byteLength, hsize]
      omega
    | case4 n c rest hle =>
      rw [cutBytes?, if_neg hle] at h
      cases h
  · rintro ⟨rfl, rfl⟩
    exact cutBytes?_append before after

/-- The text from a byte on. -/
def sliceFrom? (s : List Char) (start : Nat) : Option (List Char) :=
  (cutBytes? start s).map Prod.snd

/-- The text between two bytes. -/
def slice? (s : List Char) (start stop : Nat) : Option (List Char) :=
  if start ≤ stop then
    (sliceFrom? s start).bind fun rest => (cutBytes? (stop - start) rest).map Prod.fst
  else none

theorem sliceFrom?_append (before after : List Char) :
    sliceFrom? (before ++ after) (byteLength before) = some after := by
  rw [sliceFrom?, cutBytes?_append]
  rfl

theorem slice?_append (before text after : List Char) :
    slice? (before ++ (text ++ after)) (byteLength before) (byteLength before + byteLength text) =
      some text := by
  rw [slice?, if_pos (Nat.le_add_right _ _), sliceFrom?_append, Option.bind_some,
    Nat.add_sub_cancel_left, cutBytes?_append]
  rfl

/-! ### Bytes and characters -/

/-- A character of one byte is its byte, and the bytes of any other are no such characters. -/
theorem bytes_of_char (c : Char) :
    (∃ b, String.utf8EncodeChar c = [b] ∧ b.toChar = c) ∨
      0x80 ≤ c.toNat ∧ ∀ b ∈ String.utf8EncodeChar c, 0x80 ≤ b.toChar.toNat := by
  have hval : ∀ b : UInt8, b.toChar.toNat = b.toNat := fun _ => rfl
  rw [String.utf8EncodeChar]
  by_cases hone : c.val.toNat ≤ 127
  · refine .inl ⟨UInt8.ofNat c.val.toNat, if_pos hone, Char.ext (UInt32.toNat_inj.mp ?_)⟩
    have hmod : (UInt8.ofNat c.val.toNat).toNat = c.val.toNat % 256 := UInt8.toNat_ofNat'
    exact hmod.trans (Nat.mod_eq_of_lt (by omega))
  · refine .inr ⟨Nat.lt_of_not_le hone, ?_⟩
    simp only [hone, if_false, hval]
    -- the first byte is at least 192 and the others are at least 128
    split
    · simp; omega
    split
    · simp; omega
    · simp; omega

/-- A test that is the same for all characters of more than one byte may be made on the first byte
of a character. -/
theorem test_toChar {α : Type} {test : Char → α} {a : α}
    (h : ∀ c : Char, 0x80 ≤ c.toNat → test c = a) {c : Char} {b : UInt8} {bs : List UInt8}
    (hc : String.utf8EncodeChar c = b :: bs) : test b.toChar = test c := by
  rcases bytes_of_char c with ⟨b', hb', rfl⟩ | ⟨hlarge, hall⟩
  · rw [hc] at hb'
    cases hb'
    rfl
  · rw [h _ hlarge, h _ (hall b (hc ▸ List.mem_cons_self))]

theorem exists_utf8EncodeChar (c : Char) : ∃ b bs, String.utf8EncodeChar c = b :: bs :=
  List.exists_cons_of_ne_nil String.utf8EncodeChar_ne_nil

/-- Whether a text begins with a character of one byte is seen at its first byte. -/
theorem head?_bytes_iff {d : Char} (hd : d.toNat < 0x80) (s : List Char) :
    (bytes s).head?.map UInt8.toChar = some d ↔ s.head? = some d := by
  cases s with
  | nil => exact Iff.rfl
  | cons c rest =>
    -- the first byte stands for the character, or is larger than every character of one byte
    obtain ⟨b, bs, hc⟩ := exists_utf8EncodeChar c
    have hother : ∀ c : Char, 0x80 ≤ c.toNat → decide (c = d) = false := by
      rintro c hlarge
      rw [decide_eq_false_iff_not]
      rintro rfl
      omega
    have htest := test_toChar hother hc
    rw [bytes_cons, hc, List.cons_append, List.head?_cons, List.head?_cons, Option.map_some,
      Option.some_inj, Option.some_inj]
    exact decide_eq_decide.mp htest

theorem getElem?_bytes (before rest : List Char) :
    (bytes (before ++ rest))[byteLength before]? = (bytes rest).head? := by
  rw [bytes_append, ← length_bytes, List.getElem?_append_right (Nat.le_refl _), Nat.sub_self,
    List.head?_eq_getElem?]

theorem drop_bytes (before rest : List Char) :
    (bytes (before ++ rest)).drop (byteLength before) = bytes rest := by
  rw [bytes_append, ← length_bytes, List.drop_left]

end Flowgraph.Text

namespace Flowgraph.Expression

/-- The first of two closing braces that follow each other. -/
def closeAt? : List UInt8 → Option Nat
  | [] => none
  | b :: rest =>
    if b.toChar = '\x7d' ∧ rest.head?.map UInt8.toChar = some '\x7d' then some 0
    else (closeAt? rest).map (· + 1)

/-- Reads what begins with a byte: a blank or a token, and the position behind it. It comes to
nothing where a part of the text would split a character. -/
def readByte (s : List Char) (i : Nat) (b : UInt8) : Option (Located (Option Token × Nat)) :=
  if isSpace b.toChar then some (.ok (none, i + 1))
  else match Token.ofChar? b.toChar with
    | some t => some (.ok (some t, i + 1))
    | none =>
      if b.toChar = '\x7b' ∧ (Text.bytes s)[i + 1]?.map UInt8.toChar = some '\x7b' then
        (Text.sliceFrom? s (i + 2)).bind fun inner =>
          match closeAt? (Text.bytes inner) with
          | none => some (.error (i, .unterminated))
          | some offset =>
            (Text.slice? s (i + 2) (i + 2 + offset)).map fun body =>
              match pathOf? body with
              | none => .error (i, .badVariable)
              | some p => .ok (some (.path p), i + 2 + offset + 2)
      else if isNumeric b.toChar then
        -- the byte here is the first of the run
        let run := ((Text.bytes s).drop (i + 1)).takeWhile fun b => isNumeric b.toChar
        (Text.slice? s i (i + 1 + run.length)).map fun text =>
          match Decimal.readNumber text with
          | none => .error (i, .badNumber (String.ofList text))
          | some x => .ok (some (.number x), i + 1 + run.length)
      else (Text.sliceFrom? s i).map fun rest => .error (i, .unexpectedChar (rest.headD '?'))

/-- What is read is not empty. -/
theorem lt_of_readByte {s : List Char} {i j : Nat} {b : UInt8} {t : Option Token}
    (h : readByte s i b = some (.ok (t, j))) : i < j := by
  unfold readByte at h
  -- whatever is read takes at least its first byte
  dsimp only at h
  split at h
  · cases h
    exact Nat.lt_succ_self i
  split at h
  · cases h
    exact Nat.lt_succ_self i
  split at h
  · obtain ⟨inner, -, h⟩ := Option.bind_eq_some_iff.mp h
    split at h
    · cases h
    · obtain ⟨body, -, h⟩ := Option.map_eq_some_iff.mp h
      split at h <;> cases h
      omega
  split at h
  · obtain ⟨text, -, h⟩ := Option.map_eq_some_iff.mp h
    split at h <;> cases h
    omega
  · obtain ⟨after, -, h⟩ := Option.map_eq_some_iff.mp h
    cases h

/-- Cuts a text into tokens from a byte on. -/
def scanBytes (s : List Char) (i : Nat) : Option (Located (List Lexeme)) :=
  match _hb : (Text.bytes s)[i]? with
  | none => some (.ok [])
  | some b =>
    match _hr : readByte s i b with
    | none => none
    | some (.error e) => some (.error e)
    | some (.ok (t, j)) => (scanBytes s j).map (·.map ((t.map fun t => ⟨t, i⟩).toList ++ ·))
termination_by (Text.bytes s).length - i
decreasing_by
  have := (List.getElem?_eq_some_iff.mp _hb).1
  have := lt_of_readByte _hr
  omega

/-! ### Tests on bytes -/

section Tests

variable {c : Char} {b : UInt8} {bs : List UInt8} (h : String.utf8EncodeChar c = b :: bs)
include h

theorem isSpace_toChar : isSpace b.toChar = isSpace c := by
  refine Text.test_toChar (a := false) (fun d hd => Bool.eq_false_iff.mpr fun hspace => ?_) h
  simp only [isSpace, Bool.or_eq_true, decide_eq_true_eq] at hspace
  rcases hspace with ((rfl | rfl) | rfl) | rfl <;> exact absurd hd (by decide)

theorem isNumeric_toChar : isNumeric b.toChar = isNumeric c := by
  refine Text.test_toChar (a := false) (fun d hd => Bool.eq_false_iff.mpr fun hnumeric => ?_) h
  have hsize := Char.utf8Size_eq_one_iff.mp (utf8Size_of_isNumeric hnumeric)
  exact absurd hd (Nat.not_le.mpr (Nat.lt_succ_of_le hsize))

theorem ofChar?_toChar : Token.ofChar? b.toChar = Token.ofChar? c := by
  refine Text.test_toChar (a := none) (fun d hd => ?_) h
  rw [Option.eq_none_iff_forall_ne_some]
  intro t ht
  have hsize := Char.utf8Size_eq_one_iff.mp (single_of_ofChar? ht).2.1
  exact absurd hd (Nat.not_le.mpr (Nat.lt_succ_of_le hsize))

end Tests

/-- The bytes of a run of digits and points. -/
theorem takeWhile_bytes (s : List Char) :
    (Text.bytes s).takeWhile (fun b => isNumeric b.toChar) =
      Text.bytes (s.takeWhile isNumeric) := by
  induction s with
  | nil => rfl
  | cons c rest ih =>
    obtain ⟨b, bs, hc⟩ := Text.exists_utf8EncodeChar c
    have htest := isNumeric_toChar hc
    by_cases hnumeric : isNumeric c = true
    · -- a numeric character is one byte, which is numeric as well
      have hsize := String.length_utf8EncodeChar c
      rw [utf8Size_of_isNumeric hnumeric, hc, List.length_cons] at hsize
      obtain rfl : bs = [] := List.length_eq_zero_iff.mp (by omega)
      rw [List.takeWhile_cons_of_pos hnumeric, Text.bytes_cons, Text.bytes_cons, hc,
        List.singleton_append, List.singleton_append,
        List.takeWhile_cons_of_pos (by rw [htest, hnumeric]), ih]
    · rw [List.takeWhile_cons_of_neg hnumeric, Text.bytes_cons, hc, List.cons_append,
        List.takeWhile_cons_of_neg (by rwa [htest])]
      rfl

/-- Bytes that are no closing braces are passed over. -/
theorem closeAt?_append {bs : List UInt8} (h : ∀ b ∈ bs, b.toChar ≠ '\x7d') (rest : List UInt8) :
    closeAt? (bs ++ rest) = (closeAt? rest).map (· + bs.length) := by
  induction bs with
  | nil => exact Option.map_id'.symm
  | cons b bs ih =>
    obtain ⟨hb, hbs⟩ := List.forall_mem_cons.mp h
    rw [List.cons_append, closeAt?, if_neg fun hclose => hb hclose.1, ih hbs, Option.map_map]
    rfl

/-- A character that is not the first of two closing braces is passed over. -/
theorem closeAt?_cons {c : Char} {rest : List Char}
    (h : ∀ rest', c = '\x7d' → rest = '\x7d' :: rest' → False) :
    closeAt? (Text.bytes (c :: rest)) =
      (closeAt? (Text.bytes rest)).map (· + c.utf8Size) := by
  rw [Text.bytes_cons, ← String.length_utf8EncodeChar]
  by_cases hc : c = '\x7d'
  · -- one closing brace is not the end, if no other follows
    subst hc
    have hbytes : String.utf8EncodeChar '\x7d' = [0x7d] := rfl
    have hnext : ¬ (Text.bytes rest).head?.map UInt8.toChar = some '\x7d' := by
      rw [Text.head?_bytes_iff (by decide), List.head?_eq_some_iff]
      rintro ⟨rest', hrest⟩
      exact h rest' rfl hrest
    rw [hbytes, List.singleton_append, closeAt?, if_neg fun hclose => hnext hclose.2]
    rfl
  · refine closeAt?_append (fun b hb heq => ?_) _
    -- no byte of any other character is that of a closing brace
    rcases Text.bytes_of_char c with ⟨b', hb', rfl⟩ | ⟨-, hall⟩
    · rw [hb', List.mem_singleton] at hb
      exact hc (hb ▸ heq)
    · exact absurd (heq ▸ hall b hb) (by decide)

/-- **The first two closing braces** are found in the bytes where they are in the text. -/
theorem closeAt?_bytes (s : List Char) :
    closeAt? (Text.bytes s) = (cutAtClose s).map fun r => Text.byteLength r.1 := by
  induction s using cutAtClose.induct with
  | case1 => rfl
  | case2 rest => rfl
  | case3 c rest hne ih =>
    rw [closeAt?_cons hne, ih, cutAtClose]
    · rw [Option.map_map, Option.map_map]
      refine Option.map_congr fun r _ => ?_
      exact Nat.add_comm _ _
    · exact hne

/-! ### Reading a byte -/

section Read

variable (before : List Char) {c : Char} {rest : List Char} {b : UInt8} {bs : List UInt8}
  (hb : String.utf8EncodeChar c = b :: bs)
include hb

theorem readByte_space (h : isSpace c = true) :
    readByte (before ++ c :: rest) (Text.byteLength before) b =
      some (.ok (none, Text.byteLength before + 1)) := by
  rw [readByte, isSpace_toChar hb, if_pos h]

theorem readByte_sign {t : Token} (h : Token.ofChar? c = some t) :
    readByte (before ++ c :: rest) (Text.byteLength before) b =
      some (.ok (some t, Text.byteLength before + 1)) := by
  have hspace : ¬ isSpace c = true := Bool.eq_false_iff.mp (isSpace_of_ofChar? h)
  rw [readByte, isSpace_toChar hb, if_neg hspace, ofChar?_toChar hb, h]

/-- Two opening braces are seen at two bytes. -/
theorem braces_iff : (b.toChar = '\x7b' ∧
    (Text.bytes (before ++ c :: rest))[Text.byteLength before + 1]?.map UInt8.toChar =
      some '\x7b') ↔ ∃ inner, c :: rest = '\x7b' :: '\x7b' :: inner := by
  have hfirst : b.toChar = '\x7b' ↔ c = '\x7b' := by
    have hhead := Text.head?_bytes_iff (d := '\x7b') (by decide) (c :: rest)
    rwa [Text.bytes_cons, hb, List.cons_append, List.head?_cons, List.head?_cons, Option.map_some,
      Option.some_inj, Option.some_inj] at hhead
  -- a brace has one byte, so the second one is looked for where it has to be
  have hnext : (Text.bytes (before ++ '\x7b' :: rest))[Text.byteLength before + 1]?.map
      UInt8.toChar = some '\x7b' ↔ rest.head? = some '\x7b' := by
    have hsize : Char.utf8Size '\x7b' = 1 := rfl
    rw [← Text.byteLength_concat hsize, List.append_cons before _ rest, Text.getElem?_bytes,
      Text.head?_bytes_iff (by decide)]
  rw [hfirst]
  constructor
  · rintro ⟨rfl, h⟩
    obtain ⟨inner, rfl⟩ := List.head?_eq_some_iff.mp (hnext.mp h)
    exact ⟨inner, rfl⟩
  · rintro ⟨inner, heq⟩
    obtain ⟨rfl, rfl⟩ := List.cons_eq_cons.mp heq
    exact ⟨rfl, hnext.mpr rfl⟩

theorem readByte_numeric (h : isNumeric c = true) :
    readByte (before ++ c :: rest) (Text.byteLength before) b =
      some (match Decimal.readNumber ((c :: rest).takeWhile isNumeric) with
        | none => .error (Text.byteLength before,
            .badNumber (String.ofList ((c :: rest).takeWhile isNumeric)))
        | some x => .ok (some (.number x),
            Text.byteLength before + Text.byteLength ((c :: rest).takeWhile isNumeric))) := by
  obtain ⟨hspace, hchar⟩ := kind_of_isNumeric h
  have hsize := utf8Size_of_isNumeric h
  have hopen : ¬ ∃ inner, c :: rest = '\x7b' :: '\x7b' :: inner := by
    rintro ⟨inner, heq⟩
    obtain ⟨rfl, -⟩ := List.cons_eq_cons.mp heq
    cases h
  -- the run behind the byte is that behind the character
  have hrun : (((Text.bytes (before ++ c :: rest)).drop (Text.byteLength before + 1)).takeWhile
      fun b => isNumeric b.toChar).length = Text.byteLength (rest.takeWhile isNumeric) := by
    rw [← Text.byteLength_concat hsize, List.append_cons before c rest, Text.drop_bytes,
      takeWhile_bytes, Text.length_bytes]
  have hstop : Text.byteLength before + 1 + Text.byteLength (rest.takeWhile isNumeric) =
      Text.byteLength before + Text.byteLength ((c :: rest).takeWhile isNumeric) := by
    rw [List.takeWhile_cons_of_pos h, Text.byteLength, hsize, Nat.add_assoc]
  have hslice := Text.slice?_append before ((c :: rest).takeWhile isNumeric)
    ((c :: rest).dropWhile isNumeric)
  rw [List.takeWhile_append_dropWhile] at hslice
  rw [readByte]
  simp only [isSpace_toChar hb, hspace, ofChar?_toChar hb, hchar, braces_iff before hb, hopen,
    isNumeric_toChar hb, h, hrun, hstop, hslice, Bool.false_eq_true, if_false, if_true,
    Option.map_some]

theorem readByte_other (hspace : isSpace c = false) (hchar : Token.ofChar? c = none)
    (hnumeric : isNumeric c = false) (hopen : ∀ inner, c :: rest ≠ '\x7b' :: '\x7b' :: inner) :
    readByte (before ++ c :: rest) (Text.byteLength before) b =
      some (.error (Text.byteLength before, .unexpectedChar c)) := by
  have hopen : ¬ ∃ inner, c :: rest = '\x7b' :: '\x7b' :: inner := not_exists.mpr hopen
  rw [readByte]
  simp only [isSpace_toChar hb, hspace, ofChar?_toChar hb, hchar, braces_iff before hb, hopen,
    isNumeric_toChar hb, hnumeric, Text.sliceFrom?_append, Bool.false_eq_true, if_false,
    Option.map_some, List.headD_cons]

end Read

theorem readByte_braces (before inner : List Char) {b : UInt8} {bs : List UInt8}
    (hb : String.utf8EncodeChar '\x7b' = b :: bs) :
    readByte (before ++ '\x7b' :: '\x7b' :: inner) (Text.byteLength before) b =
      some (match cutAtClose inner with
        | none => .error (Text.byteLength before, .unterminated)
        | some (body, _) =>
          match pathOf? body with
          | none => .error (Text.byteLength before, .badVariable)
          | some p => .ok (some (.path p), Text.byteLength before + Text.byteLength body + 4)) := by
  have hspace : isSpace '\x7b' = false := by decide
  have hchar : Token.ofChar? '\x7b' = none := rfl
  have hexists : ∃ inner', '\x7b' :: '\x7b' :: inner = '\x7b' :: '\x7b' :: inner' := ⟨inner, rfl⟩
  have hopen := (braces_iff before hb).mpr hexists
  have hstart : Text.byteLength (before ++ ['\x7b', '\x7b']) = Text.byteLength before + 2 :=
    Text.byteLength_append before ['\x7b', '\x7b']
  have hsplit : before ++ '\x7b' :: '\x7b' :: inner = before ++ ['\x7b', '\x7b'] ++ inner := by simp
  have hinner := Text.sliceFrom?_append (before ++ ['\x7b', '\x7b']) inner
  rw [hstart, ← hsplit] at hinner
  rw [readByte]
  simp only [hspace, hchar, hopen, hinner, Bool.false_eq_true, if_false, if_true,
    Option.bind_some, closeAt?_bytes, and_self]
  -- the bytes between the braces are those of what is cut off there
  cases hcut : cutAtClose inner with
  | none => rfl
  | some r =>
    obtain ⟨body, after⟩ := r
    have hbody := Text.slice?_append (before ++ ['\x7b', '\x7b']) body ('\x7d' :: '\x7d' :: after)
    rw [← eq_append_of_cutAtClose hcut, hstart, ← hsplit] at hbody
    simp only [Option.map_some, hbody]
    cases pathOf? body with
    | none => rfl
    | some p =>
      have hstop : Text.byteLength before + 2 + Text.byteLength body + 2 =
          Text.byteLength before + Text.byteLength body + 4 := by omega
      simp only [hstop]

/-- What is written for a token is read over its bytes. -/
theorem readByte_written (before : List Char) {t : Token} {cs rest : List Char}
    (h : t.Written cs) (he : t.EndsBefore rest) {c : Char} {tail : List Char} (hcs : cs = c :: tail)
    {b : UInt8} {bs : List UInt8} (hb : String.utf8EncodeChar c = b :: bs) :
    readByte (before ++ (cs ++ rest)) (Text.byteLength before) b =
      some (.ok (some t, Text.byteLength before + Text.byteLength cs)) := by
  cases h with
  | sign ht =>
    cases hcs
    have hsize : Text.byteLength [c] = 1 := (single_of_ofChar? ht).2.1
    -- an operator is one byte, and is read by its first character
    rw [hsize, List.singleton_append]
    exact readByte_sign before hb ht
  | @number _ x hne hall hx =>
    subst hcs
    -- the digits end where the token does
    obtain ⟨htake, -⟩ := span_of_endsBefore hall he
    rw [List.cons_append] at htake ⊢
    rw [readByte_numeric before hb (hall c List.mem_cons_self), htake, hx]
  | @path body p hcut hp =>
    cases hcs
    -- the closing braces are found before what follows is looked at
    have hcut := cutAtClose_append_right hcut rest
    rw [List.cons_append, List.cons_append, readByte_braces before _ hb, hcut]
    simp only [hp, Token.byteLength_braces, Nat.add_assoc]

theorem readByte_stuck (before : List Char) {s : List Char} {fault : Fault} (h : Stuck s fault)
    {c : Char} {tail : List Char} (hs : s = c :: tail) {b : UInt8} {bs : List UInt8}
    (hb : String.utf8EncodeChar c = b :: bs) :
    readByte (before ++ s) (Text.byteLength before) b =
      some (.error (Text.byteLength before, fault)) := by
  -- each way to be stuck is told from the first byte
  cases h with
  | unterminated h =>
    cases hs
    rw [readByte_braces before _ hb, h]
  | badVariable hcut h =>
    cases hs
    simp only [readByte_braces before _ hb, hcut, h]
  | badNumber hc h =>
    cases hs
    rw [readByte_numeric before hb hc, h]
  | unexpectedChar hspace hchar hnumeric hopen =>
    cases hs
    exact readByte_other before hb hspace hchar hnumeric hopen

/-! ### Scanning -/

theorem scanBytes_of_getElem? {s : List Char} {i : Nat} {b : UInt8}
    (h : (Text.bytes s)[i]? = some b) : scanBytes s i =
      match readByte s i b with
      | none => none
      | some (.error e) => some (.error e)
      | some (.ok (t, j)) =>
        (scanBytes s j).map (·.map ((t.map fun t => ⟨t, i⟩).toList ++ ·)) := by
  rw [scanBytes]
  split
  · -- the text goes on, so it has not ended here
    next heq =>
    rw [h] at heq
    cases heq
  · next b' heq =>
    rw [h] at heq
    cases heq
    split <;> next heq => rw [heq]

/-- The byte at a position is the first of the character there. -/
theorem getElem?_of_eq_cons (before rest : List Char) {c : Char} {b : UInt8} {bs : List UInt8}
    (h : String.utf8EncodeChar c = b :: bs) :
    (Text.bytes (before ++ c :: rest))[Text.byteLength before]? = some b := by
  rw [Text.getElem?_bytes, Text.bytes_cons, h, List.cons_append, List.head?_cons]

/-- **The scan of the bytes is that of the characters**, from any character on. -/
theorem scanBytes_append (before s : List Char) :
    scanBytes (before ++ s) (Text.byteLength before) =
      some (Lexeme.scanFrom (Text.byteLength before) s) := by
  induction s using opening_induction generalizing before with
  | nil =>
    have hbyte : (Text.bytes (before ++ []))[Text.byteLength before]? = none :=
      Text.getElem?_bytes before []
    rw [scanFrom_nil, scanBytes]
    split
    · rfl
    · next heq =>
      rw [hbyte] at heq
      cases heq
  | blank c rest h ih =>
    obtain ⟨b, bs, hb⟩ := Text.exists_utf8EncodeChar c
    have hsize := Text.byteLength_concat (single_of_isSpace h).2 before
    rw [scanBytes_of_getElem? (getElem?_of_eq_cons before rest hb), readByte_space before hb h,
      scanFrom_space h, ← hsize, List.append_cons before c rest]
    simp only [ih]
    -- a blank adds no token
    cases Lexeme.scanFrom (Text.byteLength (before ++ [c])) rest <;> rfl
  | token t cs rest h he ih =>
    obtain ⟨c, tail, hcs⟩ := List.exists_cons_of_ne_nil h.ne_nil
    obtain ⟨b, bs, hb⟩ := Text.exists_utf8EncodeChar c
    have hbyte : (Text.bytes (before ++ (cs ++ rest)))[Text.byteLength before]? = some b := by
      rw [hcs]
      exact getElem?_of_eq_cons before _ hb
    have ih := ih (before ++ cs)
    rw [List.append_assoc, Text.byteLength_append] at ih
    rw [scanBytes_of_getElem? hbyte, readByte_written before h he hcs hb, scanFrom_written h he]
    simp only [ih]
    rfl
  | stuck s fault h =>
    obtain ⟨c, tail, hs⟩ := List.exists_cons_of_ne_nil h.ne_nil
    obtain ⟨b, bs, hb⟩ := Text.exists_utf8EncodeChar c
    have hbyte : (Text.bytes (before ++ s))[Text.byteLength before]? = some b := by
      rw [hs]
      exact getElem?_of_eq_cons before _ hb
    rw [scanBytes_of_getElem? hbyte, readByte_stuck before h hs hb, scanFrom_of_stuck h]

/-- **No part of a text that the scan takes splits a character**, and it comes to what the scan of
the characters comes to. -/
theorem scanBytes_zero (s : List Char) : scanBytes s 0 = some (Lexeme.scanFrom 0 s) :=
  scanBytes_append [] s

end Flowgraph.Expression
