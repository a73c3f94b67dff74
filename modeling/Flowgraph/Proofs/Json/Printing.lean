import Flowgraph.Json.Printer
import Flowgraph.Proofs.Json.Spelling

/-!
# What is printed is read back

Reading undoes the escapes of strings and passes over the lines and blanks of a pretty text, so a
value is read back as a document of the same shape. How the text of a number is read is left open:
`Number.WrittenAs` says that it is read as a numeral, and a value without numbers needs nothing.

* `scanString_flatMap` — a text is read back from its string.
* `spells_prettyChars` — a value is written as the tokens of its document.
* `parse?_toPretty` — a value is read back from its text as its document.
-/

namespace Flowgraph.Json

/-! ### Strings -/

/-- The pieces that a character is written as denote it, in front of any others. -/
def Denotes (piece : Piece) (c : Char) : Prop :=
  ∀ pieces, joinPieces (piece :: pieces) = (joinPieces pieces).map (c :: ·)

/-- A character denotes itself. -/
theorem denotes_char (c : Char) : Denotes (.char c) c := fun _ => rfl

/-- A unit below the surrogates is a character by itself, whatever follows. -/
theorem denotes_unit {n : Nat} (h : n < 0xD800) : Denotes (.unit n) (Char.ofNat n) := by
  have hhigh : isHighSurrogate n = false := by
    rw [isHighSurrogate, decide_eq_false (Nat.not_le.mpr h), Bool.false_and]
  have hlow : isLowSurrogate n = false := by
    have hlt : n < 0xDC00 := Nat.lt_trans h (by decide)
    rw [isLowSurrogate, decide_eq_false (Nat.not_le.mpr hlt), Bool.false_and]
  intro pieces
  -- a unit behind it is looked at only if this one may begin a pair
  cases pieces with
  | nil => simp [joinPieces, hhigh, hlow]
  | cons piece pieces => cases piece <;> simp [joinPieces, hhigh, hlow]

/-- Of the four hexadecimal digits of a control character the first two are zeros, and they are read
as its number. -/
theorem fourHex_control : ∀ n < 0x20,
    fourHex n = ['0', '0', Nat.digitChar (n / 16), Nat.digitChar (n % 16)] ∧
      fourHexValue? '0' '0' (Nat.digitChar (n / 16)) (Nat.digitChar (n % 16)) = some n := by
  decide

/-- A character that needs no escape is read as itself. -/
theorem scanString_char {c : Char} (rest : List Char) (hquote : c ≠ '"') (hback : c ≠ '\\')
    (hcontrol : ¬ c.toNat < 0x20) :
    scanString (c :: rest) = (scanString rest).map fun r => (.char c :: r.1, r.2) := by
  -- neither of the two things that end a string or begin an escape, and no control character
  have hplain : ¬ (decide (c.toNat < 0x20) || decide (c = '\\')) = true := by
    rw [decide_eq_false hcontrol, decide_eq_false hback]
    exact Bool.false_ne_true
  rw [scanString, if_neg hplain]
  · cases scanString rest <;> rfl
  · exact hquote
  · exact fun _ _ _ _ _ hc _ => hback hc
  · exact fun _ _ hc _ => hback hc

/-- A letter behind a backslash is read as what it stands for. -/
theorem scanString_letter {c plain : Char} (rest : List Char) (h : unescape? c = some plain) :
    scanString ('\\' :: c :: rest) =
      (scanString rest).map fun r => (.char plain :: r.1, r.2) := by
  rw [scanString, h]
  · cases scanString rest <;> rfl
  · rintro _ _ _ _ _ rfl
    cases h

/-- Four hexadecimal digits are read as one unit. -/
theorem scanString_unit {a b c d : Char} {n : Nat} (rest : List Char)
    (h : fourHexValue? a b c d = some n) :
    scanString ('\\' :: 'u' :: a :: b :: c :: d :: rest) =
      (scanString rest).map fun r => (.unit n :: r.1, r.2) := by
  rw [scanString, h]
  cases scanString rest <;> rfl

/-- **A character is read back from how it stands in a string.** -/
theorem scanString_escape (c : Char) : ∃ piece, Denotes piece c ∧ ∀ rest,
    scanString (escape c ++ rest) = (scanString rest).map fun r => (piece :: r.1, r.2) := by
  unfold escape
  split
  -- seven characters have a letter of their own
  case h_8 hquote hback _ _ _ _ _ =>
    split
    · next hcontrol =>
      obtain ⟨hhex, hvalue⟩ := fourHex_control c.toNat hcontrol
      refine ⟨.unit c.toNat, ?_, fun rest => ?_⟩
      · have hunit := denotes_unit (Nat.lt_trans hcontrol (by decide))
        rwa [Char.ofNat_toNat] at hunit
      · rw [hhex]
        exact scanString_unit rest hvalue
    · next hcontrol =>
      exact ⟨.char c, denotes_char c, fun rest => scanString_char rest hquote hback hcontrol⟩
  all_goals exact ⟨.char _, denotes_char _, fun rest => scanString_letter rest rfl⟩

/-- **A text is read back from its string.** -/
theorem scanString_flatMap (cs rest : List Char) : ∃ pieces,
    scanString (cs.flatMap escape ++ '"' :: rest) = some (pieces, rest) ∧
      joinPieces pieces = some cs := by
  induction cs with
  | nil => exact ⟨[], by rw [List.flatMap_nil, List.nil_append, scanString], rfl⟩
  | cons c cs ih =>
    obtain ⟨pieces, hscan, hjoin⟩ := ih
    -- the piece of the first character denotes it whatever the others are
    obtain ⟨piece, hdenotes, hpiece⟩ := scanString_escape c
    refine ⟨piece :: pieces, ?_, ?_⟩
    · rw [List.flatMap_cons, List.append_assoc, hpiece, hscan]
      rfl
    · rw [hdenotes, hjoin]
      rfl

/-- A string is read as one token. -/
theorem tokens_stringChars (s : String) (rest : List Char) :
    tokens (stringChars s ++ rest) = (tokens rest).map (.text (some s) :: ·) := by
  obtain ⟨pieces, hscan, hjoin⟩ := scanString_flatMap s.toList rest
  have happ : stringChars s ++ rest = '"' :: (s.toList.flatMap escape ++ '"' :: rest) := by
    simp [stringChars]
  have hspace : ¬ isSpace '"' = true := by decide
  rw [happ, tokens, if_neg hspace]
  -- the string is closed, so its pieces are there
  split
  · next hnone =>
    rw [hscan] at hnone
    cases hnone
  · next pieces' after hsome =>
    rw [hscan] at hsome
    cases hsome
    rw [hjoin, Option.map_some, String.ofList_toList]

/-! ### Printed values -/

/-- What may stand behind a number without belonging to it. -/
def Breaks : List Char → Prop
  | [] => True
  | c :: _ => Decimal.isDigit c = false ∧ c ≠ '.' ∧ c ≠ 'e' ∧ c ≠ 'E'

/-- In front of a text, the characters are read as the tokens. -/
def Spells (cs : List Char) (ts : List Token) (rest : List Char) : Prop :=
  tokens (cs ++ rest) = (tokens rest).map (ts ++ ·)

/-- The text of a number is read as the numeral. -/
def Number.WrittenAs (n : Number) (m : Numeral) : Prop :=
  ∀ rest, Breaks rest → Spells n.chars [.number m] rest

mutual

/-- Every number inside has the property. -/
def EachNumber (P : Number → Prop) : Json → Prop
  | .number n => P n
  | .array items => EachNumberOfItems P items
  | .object members => EachNumberOfMembers P members
  | _ => True

/-- Every number inside the items has the property. -/
def EachNumberOfItems (P : Number → Prop) : List Json → Prop
  | [] => True
  | item :: rest => EachNumber P item ∧ EachNumberOfItems P rest

/-- Every number inside the members' values has the property. -/
def EachNumberOfMembers (P : Number → Prop) : List (String × Json) → Prop
  | [] => True
  | (_, value) :: rest => EachNumber P value ∧ EachNumberOfMembers P rest

end

mutual

/-- The document of a value, with the given numerals for its numbers. -/
def document (num : Number → Numeral) : Json → Document
  | .null => .null
  | .bool b => .bool b
  | .number n => .number (num n)
  | .text s => .text (some s)
  | .array items => .array (itemDocuments num items)
  | .object members => .object (memberDocuments num members)

/-- The documents of items. -/
def itemDocuments (num : Number → Numeral) : List Json → List Document
  | [] => []
  | item :: rest => document num item :: itemDocuments num rest

/-- The documents of members. -/
def memberDocuments (num : Number → Numeral) :
    List (String × Json) → List (Option String × Document)
  | [] => []
  | (key, value) :: rest => (some key, document num value) :: memberDocuments num rest

end

section Lists

variable {P : Number → Prop} {num : Number → Numeral}

/-- What holds of each number holds of those in each item. -/
theorem eachNumberOfItems_iff {items : List Json} :
    EachNumberOfItems P items ↔ ∀ item ∈ items, EachNumber P item := by
  induction items with
  | nil => exact ⟨fun _ => nofun, fun _ => trivial⟩
  | cons item items ih => rw [EachNumberOfItems, ih, List.forall_mem_cons]

/-- What holds of each number holds of those in each member. -/
theorem eachNumberOfMembers_iff {members : List (String × Json)} :
    EachNumberOfMembers P members ↔ ∀ m ∈ members, EachNumber P m.2 := by
  induction members with
  | nil => exact ⟨fun _ => nofun, fun _ => trivial⟩
  | cons m members ih => rw [EachNumberOfMembers, ih, List.forall_mem_cons]

theorem itemDocuments_eq (items : List Json) :
    itemDocuments num items = items.map (document num) := by
  induction items with
  | nil => rfl
  | cons item items ih => rw [itemDocuments, ih, List.map_cons]

theorem memberDocuments_eq (members : List (String × Json)) :
    memberDocuments num members = members.map fun m => (some m.1, document num m.2) := by
  induction members with
  | nil => rfl
  | cons m members ih => rw [memberDocuments, ih, List.map_cons]

end Lists

/-- Texts that spell tokens do so one behind the other. -/
theorem Spells.append {cs ds rest : List Char} {ts us : List Token}
    (hcs : Spells cs ts (ds ++ rest)) (hds : Spells ds us rest) :
    Spells (cs ++ ds) (ts ++ us) rest := by
  unfold Spells at hcs hds ⊢
  rw [List.append_assoc, hcs, hds, Option.map_map]
  refine congrArg (Option.map · _) (funext fun vs => ?_)
  exact (List.append_assoc ts us vs).symm

/-- No text spells no token. -/
theorem Spells.nil (rest : List Char) : Spells [] [] rest := by
  show tokens rest = (tokens rest).map id
  rw [Option.map_id]
  rfl

/-- What is behind tokens may be passed over. -/
theorem Spells.skip {cs ds rest : List Char} {ts : List Token} (hcs : Spells cs ts (ds ++ rest))
    (hds : Spells ds [] rest) : Spells (cs ++ ds) ts rest := by
  have h := hcs.append hds
  rwa [List.append_nil] at h

/-- White space spells no token. -/
theorem spells_space {c : Char} (h : isSpace c = true) (rest : List Char) : Spells [c] [] rest := by
  have hskip : tokens (c :: rest) = tokens rest := by
    rw [tokens.eq_def]
    exact if_pos h
  show tokens (c :: rest) = _
  rw [hskip]
  exact Spells.nil rest

/-- Blanks are no tokens. -/
theorem spells_newLine (level : Nat) (rest : List Char) : Spells (newLine level) [] rest := by
  have hblanks : ∀ n rest, Spells (List.replicate n ' ') [] rest := by
    intro n
    induction n with
    | zero => exact Spells.nil
    | succ n ih => exact fun rest => (spells_space (c := ' ') rfl _).append (ih rest)
  exact (spells_space (c := '\n') rfl _).append (hblanks _ rest)

section Fixed

variable (rest : List Char)

theorem spells_openArray : Spells ['['] [.openArray] rest := by
  show tokens ('[' :: rest) = _
  rw [tokens]
  rfl

theorem spells_closeArray : Spells [']'] [.closeArray] rest := by
  show tokens (']' :: rest) = _
  rw [tokens]
  rfl

theorem spells_openObject : Spells ['\x7b'] [.openObject] rest := by
  show tokens ('\x7b' :: rest) = _
  rw [tokens]
  rfl

theorem spells_closeObject : Spells ['\x7d'] [.closeObject] rest := by
  show tokens ('\x7d' :: rest) = _
  rw [tokens]
  rfl

theorem spells_colon : Spells [':'] [.colon] rest := by
  show tokens (':' :: rest) = _
  rw [tokens]
  rfl

theorem spells_comma : Spells [','] [.comma] rest := by
  show tokens (',' :: rest) = _
  rw [tokens]
  rfl

theorem spells_null : Spells ['n', 'u', 'l', 'l'] [.null] rest := by
  show tokens ('n' :: 'u' :: 'l' :: 'l' :: rest) = _
  rw [tokens]
  rfl

theorem spells_true : Spells ['t', 'r', 'u', 'e'] [.bool true] rest := by
  show tokens ('t' :: 'r' :: 'u' :: 'e' :: rest) = _
  rw [tokens]
  rfl

theorem spells_false : Spells ['f', 'a', 'l', 's', 'e'] [.bool false] rest := by
  show tokens ('f' :: 'a' :: 'l' :: 's' :: 'e' :: rest) = _
  rw [tokens]
  rfl

/-- A string spells its token. -/
theorem spells_stringChars (s : String) : Spells (stringChars s) [.text (some s)] rest :=
  tokens_stringChars s rest

end Fixed

/-- What is behind a value is no part of a number. -/
theorem breaks_newLine (level : Nat) (rest : List Char) : Breaks (newLine level ++ rest) := by
  refine ⟨?_, ?_, ?_, ?_⟩ <;> decide

/-- Where the items end there is no number that would go on. -/
theorem breaks_prettyItems (level level' : Nat) (items : List Json) (rest : List Char) :
    Breaks (prettyItems level items ++ (newLine level' ++ rest)) := by
  -- a comma or a new line follows
  cases items with
  | nil => exact breaks_newLine level' rest
  | cons item items => refine ⟨?_, ?_, ?_, ?_⟩ <;> decide

/-- Where the members end there is no number that would go on. -/
theorem breaks_prettyMembers (level level' : Nat) (members : List (String × Json))
    (rest : List Char) : Breaks (prettyMembers level members ++ (newLine level' ++ rest)) := by
  cases members with
  | nil => exact breaks_newLine level' rest
  | cons member members => refine ⟨?_, ?_, ?_, ?_⟩ <;> decide

section Pretty

variable (num : Number → Numeral)

mutual

/-- **A value is written as the tokens of its document.** -/
theorem spells_prettyChars : ∀ (j : Json) (level : Nat) (rest : List Char),
    j.EachNumber (fun n => n.WrittenAs (num n)) → Breaks rest →
      Spells (prettyChars level j) (j.document num).spelling rest
  | .null, level, rest, _, _ => spells_null rest
  | .bool true, level, rest, _, _ => spells_true rest
  | .bool false, level, rest, _, _ => spells_false rest
  | .number n, level, rest, h, hrest => h rest hrest
  | .text s, level, rest, _, _ => spells_stringChars rest s
  | .array [], level, rest, _, _ => (spells_openArray _).append (spells_closeArray rest)
  | .array (item :: items), level, rest, ⟨h, hs⟩, _ => by
    have hopen := fun r => (spells_openArray _).skip (spells_newLine (level + 1) r)
    have hfirst := fun r => spells_prettyChars item (level + 1) r h
    have hothers := fun r => spells_prettyItems items (level + 1) level r hs
    -- what follows each part is found from the back, where the rest is given
    rw [prettyChars]
    exact ((((hopen _).append (hfirst _ (breaks_prettyItems _ _ _ _))).append (hothers _)).skip
      (spells_newLine level _)).append (spells_closeArray rest)
  | .object [], level, rest, _, _ => (spells_openObject _).append (spells_closeObject rest)
  | .object ((key, value) :: members), level, rest, ⟨h, hs⟩, _ => by
    have hopen := fun r => (spells_openObject _).skip (spells_newLine (level + 1) r)
    have hkey := fun r => spells_stringChars r key
    have hcolon := fun r => (spells_colon _).skip (spells_space (c := ' ') rfl r)
    have hfirst := fun r => spells_prettyChars value (level + 1) r h
    have hothers := fun r => spells_prettyMembers members (level + 1) level r hs
    rw [prettyChars]
    exact (((((hopen _).append (hkey _)).append ((hcolon _).append
      (hfirst _ (breaks_prettyMembers _ _ _ _)))).append (hothers _)).skip
      (spells_newLine level _)).append (spells_closeObject rest)

theorem spells_prettyItems : ∀ (items : List Json) (level level' : Nat) (rest : List Char),
    EachNumberOfItems (fun n => n.WrittenAs (num n)) items →
      Spells (prettyItems level items) (Document.itemsSpelling (itemDocuments num items))
        (newLine level' ++ rest)
  | [], level, level', rest, _ => Spells.nil _
  | item :: items, level, level', rest, ⟨h, hs⟩ => by
    have hcomma := fun r => (spells_comma _).skip (spells_newLine level r)
    have hnext := fun r => spells_prettyChars item level r h
    have hothers := spells_prettyItems items level level' rest hs
    rw [prettyItems]
    exact ((hcomma _).append (hnext _ (breaks_prettyItems _ _ _ _))).append hothers

theorem spells_prettyMembers : ∀ (members : List (String × Json)) (level level' : Nat)
    (rest : List Char), EachNumberOfMembers (fun n => n.WrittenAs (num n)) members →
      Spells (prettyMembers level members) (Document.membersSpelling (memberDocuments num members))
        (newLine level' ++ rest)
  | [], level, level', rest, _ => Spells.nil _
  | (key, value) :: members, level, level', rest, ⟨h, hs⟩ => by
    have hcomma := fun r => (spells_comma _).skip (spells_newLine level r)
    have hkey := fun r => spells_stringChars r key
    have hcolon := fun r => (spells_colon _).skip (spells_space (c := ' ') rfl r)
    have hnext := fun r => spells_prettyChars value level r h
    have hothers := spells_prettyMembers members level level' rest hs
    rw [prettyMembers]
    exact (((hcomma _).append (hkey _)).append ((hcolon _).append
      (hnext _ (breaks_prettyMembers _ _ _ _)))).append hothers

end

/-- **A value is read back from its text as its document.** -/
theorem parse?_toPretty {j : Json} (h : j.EachNumber fun n => n.WrittenAs (num n)) :
    Document.parse? j.toPretty = some (j.document num) := by
  have hspell := spells_prettyChars num j 0 [] h trivial
  refine Document.parse?_of_tokens ?_
  rw [toPretty, String.toList_ofList]
  rw [Spells, List.append_nil, tokens, Option.map_some, List.append_nil] at hspell
  exact hspell

end Pretty

end Flowgraph.Json
