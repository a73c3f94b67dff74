import Flowgraph.Proofs.Expression.Recognition

/-!
# How high a tree may get

The guard of the parser counts the levels that are open, and closes those of a sign or a bracket
again when their operand ends. A chain of operators puts the operand that it begins with one node
deeper with every operator, and by then the levels of that operand have been given back. So a tree
may be higher than the greatest number of levels: at every level of brackets two chains may be
added, and the height grows with the square of that number.

* `Nests.height_le` — the height that a number of levels allows.
* `exists_tall_sum` — that height is reached with every number of levels but zero.
* `exists_parse_iff` — which tokens are parsed: at none of their leaves too many levels are open.
* `guard_bounds_height` — which texts have trees no higher than the greatest number of levels, and
  how high any tree may get.
-/

namespace Flowgraph.Expression

/-- The greatest number of operators on the way from the root of a tree to a leaf. -/
def Expr.height : Expr → Nat
  | .number _ => 0
  | .path _ => 0
  | .negate e => e.height + 1
  | .binary _ left right => max left.height right.height + 1

theorem Nests.ofOperand {c : Chain} {ts : List Token} {a : Expr} {k d : Nat}
    (h : Nests c.operand ts a k d) : Nests c.whole ts a 0 d := by
  cases c with
  | terms => exact .ofProduct h
  | factors => exact .ofNegation h

theorem Nests.chain {c : Chain} {ts us : List Token} {a b : Expr} {t : Token} {op : BinaryOp}
    {k d k' d' : Nat} (ha : Nests c.whole ts a k d) (ht : c.op? t = some op)
    (hb : Nests c.operand us b k' d') :
    Nests c.whole (ts ++ t :: us) (.binary op a b) (k + 1) (max d (k + 1 + d')) := by
  cases c with
  | terms => exact .sum ha ht hb
  | factors => exact .product ha ht hb

/-- The greatest height of an operand with so many levels. -/
def peak : Nat → Nat
  | 0 => 0
  | d + 1 => d * (d + 1) + 1

theorem peak_add_two (d : Nat) : peak (d + 2) = peak (d + 1) + (d + 1) + (d + 1) := by
  rw [peak, peak]
  ring

/-- A bracket may hold two chains more than an operand with one level less. -/
theorem peak_add_le (d : Nat) : peak d + d + d ≤ peak (d + 1) := by
  cases d with
  | zero => exact Nat.zero_le _
  | succ d => exact (peak_add_two d).ge

/-- A sign puts an operand one node deeper. -/
theorem peak_succ_le (d : Nat) : peak d + 1 ≤ peak (d + 1) := by
  cases d with
  | zero => exact Nat.le_refl _
  | succ d =>
    rw [peak_add_two]
    omega

theorem peak_mono {d d' : Nat} (h : d ≤ d') : peak d ≤ peak d' := by
  induction h with
  | refl => exact Nat.le_refl _
  | step _ ih => exact ih.trans ((Nat.le_succ _).trans (peak_succ_le _))

/-- The height that the derivations of a nonterminal reach with so many levels, of which so many are
open at the end. -/
def Nonterminal.ceiling : Nonterminal → Nat → Nat → Nat
  | .sum, k, d => peak d + d + k
  | .product, k, d => peak d + k
  | .negation, _, d => peak d
  | .primary, _, d => peak d

/-- **The height that a number of levels allows.** -/
theorem Nests.height_le {n : Nonterminal} {ts : List Token} {tree : Expr} {k d : Nat}
    (h : Nests n ts tree k d) : tree.height ≤ n.ceiling k d := by
  induction h with
  | @ofProduct ts a k d h ih =>
    -- a chain of factors has no more operators than levels
    have hk := h.le_length.1
    show a.height ≤ peak d + d + 0
    exact ih.trans (Nat.add_le_add_left hk _)
  | @sum ts us a b t op k d k' d' _ _ hb iha ihb =>
    have hk' := hb.le_length.1
    have hpeak : peak d ≤ peak (max d (k + 1 + d')) := peak_mono (Nat.le_max_left _ _)
    have hpeak' : peak d' ≤ peak (max d (k + 1 + d')) := peak_mono (by omega)
    have iha : a.height ≤ peak d + d + k := iha
    have ihb : b.height ≤ peak d' + k' := ihb
    show max a.height b.height + 1 ≤ peak (max d (k + 1 + d')) + max d (k + 1 + d') + (k + 1)
    omega
  | ofNegation _ ih => exact ih
  | @product ts us a b t op k d k' d' _ _ _ iha ihb =>
    have hpeak : peak d ≤ peak (max d (k + 1 + d')) := peak_mono (Nat.le_max_left _ _)
    have hpeak' : peak d' ≤ peak (max d (k + 1 + d')) := peak_mono (by omega)
    have iha : a.height ≤ peak d + k := iha
    have ihb : b.height ≤ peak d' := ihb
    show max a.height b.height + 1 ≤ peak (max d (k + 1 + d')) + (k + 1)
    omega
  | ofPrimary _ ih => exact ih
  | @negation ts a k d _ ih => exact (Nat.succ_le_succ ih).trans (peak_succ_le d)
  | number x => exact Nat.le_refl _
  | path p => exact Nat.le_refl _
  | @brackets ts a k d h ih =>
    -- both chains inside are over, and the bracket holds one level
    have hk := h.le_length.1
    exact (ih.trans (Nat.add_le_add_left hk _)).trans (peak_add_le d)

/-- A sum with so many levels. -/
theorem Nests.height_le_of_sum {ts : List Token} {tree : Expr} {k d : Nat}
    (h : Nests .sum ts tree k d) : tree.height ≤ d * d + d + 1 := by
  have hle := h.height_le.trans (Nat.add_le_add_left h.le_length.1 _)
  refine hle.trans ?_
  cases d with
  | zero => exact Nat.zero_le _
  | succ d =>
    rw [peak]
    exact Nat.le_of_eq (by ring)

/-! ### Spelling tokens out -/

/-- How a token is written. Numbers are not needed here. -/
def Token.spelling : Token → List Char
  | .number _ => []
  | .path p => '\x7b' :: '\x7b' :: (p.toList ++ ['\x7d', '\x7d'])
  | .plus => ['+']
  | .minus => ['-']
  | .star => ['*']
  | .slash => ['/']
  | .openParen => ['(']
  | .closeParen => [')']

/-- Whether a token is read back from how it is written, whatever follows. -/
def Token.Plain : Token → Prop
  | .number _ => False
  | .path p => pathOf? p.toList = some p ∧ '\x7d' ∉ p.toList
  | _ => True

theorem cutAtClose_append {body : List Char} (h : '\x7d' ∉ body) (rest : List Char) :
    cutAtClose (body ++ '\x7d' :: '\x7d' :: rest) = some (body, rest) := by
  induction body with
  | nil => rw [List.nil_append, cutAtClose]
  | cons c body ih =>
    obtain ⟨hc, hbody⟩ := not_or.mp (mt List.mem_cons.mpr h)
    rw [List.cons_append, cutAtClose, ih hbody]
    · rfl
    · -- the body holds no closing brace, so the cut is not here
      intro _ heq
      exact absurd heq.symm hc

/-- A single character is read as its token. -/
theorem scanFrom_ofChar {c : Char} {t : Token} (hspace : isSpace c = false)
    (ht : Token.ofChar? c = some t) (pos : Nat) (rest : List Char) :
    Lexeme.scanFrom pos (c :: rest) = (Lexeme.scanFrom (pos + 1) rest).map (⟨t, pos⟩ :: ·) := by
  rw [Lexeme.scanFrom, hspace, ht]
  · rfl
  · rintro _ rfl
    cases ht

/-- Two braces open a placeholder, and a single one would be no token. -/
theorem scanFrom_braces (pos : Nat) (inner : List Char) :
    Lexeme.scanFrom pos ('\x7b' :: '\x7b' :: inner) =
      match cutAtClose inner with
      | none => .error (pos, .unterminated)
      | some (body, after) =>
        match pathOf? body with
        | none => .error (pos, .badVariable)
        | some path =>
          (Lexeme.scanFrom (pos + Text.byteLength body + 4) after).map
            (⟨.path path, pos⟩ :: ·) := by
  have hspace : isSpace '\x7b' = false := by decide
  have hchar : Token.ofChar? '\x7b' = none := rfl
  have hnumeric : isNumeric '\x7b' = false := by decide
  -- a brace is neither blank nor a token nor part of a number
  rw [Lexeme.scanFrom]
  simp only [hspace, hchar, hnumeric, Bool.false_eq_true, if_false]
  split
  · next heq => simp only [heq]
  · next body after heq => cases hp : pathOf? body <;> simp only [heq, hp]

theorem scanFrom_path {p : String} (hp : (Token.path p).Plain) (pos : Nat) (rest : List Char) :
    Lexeme.scanFrom pos ((Token.path p).spelling ++ rest) =
      (Lexeme.scanFrom (pos + Text.byteLength p.toList + 4) rest).map (⟨.path p, pos⟩ :: ·) := by
  have hcut : cutAtClose (p.toList ++ ['\x7d', '\x7d'] ++ rest) = some (p.toList, rest) := by
    rw [List.append_assoc]
    exact cutAtClose_append hp.2 rest
  show Lexeme.scanFrom pos ('\x7b' :: '\x7b' :: (p.toList ++ ['\x7d', '\x7d'] ++ rest)) = _
  rw [scanFrom_braces, hcut]
  dsimp only
  rw [hp.1]

/-- **What is written token by token is read token by token.** -/
theorem scanFrom_spelling {ts : List Token} (h : ∀ t ∈ ts, t.Plain) (pos : Nat) :
    ∃ ls, Lexeme.scanFrom pos (ts.flatMap Token.spelling) = .ok ls ∧ ls.map Lexeme.token = ts := by
  induction ts generalizing pos with
  | nil => exact ⟨[], by rw [List.flatMap_nil, Lexeme.scanFrom], rfl⟩
  | cons t ts ih =>
    have ht := h t List.mem_cons_self
    have ih := fun pos => ih (fun t ht => h t (List.mem_cons_of_mem _ ht)) pos
    rw [List.flatMap_cons]
    cases t with
    | number x => exact ht.elim
    | path p =>
      obtain ⟨ls, hls, hmap⟩ := ih (pos + Text.byteLength p.toList + 4)
      rw [scanFrom_path ht, hls]
      exact ⟨⟨.path p, pos⟩ :: ls, rfl, congrArg _ hmap⟩
    -- each of these is one character long
    | plus | minus | star | slash | openParen | closeParen =>
      obtain ⟨ls, hls, hmap⟩ := ih (pos + 1)
      rw [Token.spelling, List.cons_append, List.nil_append, scanFrom_ofChar rfl rfl, hls]
      exact ⟨⟨_, pos⟩ :: ls, rfl, congrArg _ hmap⟩

/-! ### Tall trees -/

/-- A derivation of tokens that can be written, with a tree of the given height. -/
def Tall (n : Nonterminal) (k d h : Nat) : Prop :=
  ∃ ts tree, (∀ t ∈ ts, t.Plain) ∧ Nests n ts tree k d ∧ tree.height = h

theorem plain_path : (Token.path "a").Plain := by
  refine ⟨by cbv, by decide⟩

/-- A variable is an operand without levels. -/
theorem tall_variable : Tall .negation 0 0 0 := by
  refine ⟨_, _, fun t ht => ?_, .ofPrimary (.path "a"), rfl⟩
  rw [List.mem_singleton.mp ht]
  exact plain_path

theorem plain_append {ts : List Token} (h : ∀ t ∈ ts, t.Plain) {t : Token} (ht : t.Plain) :
    ∀ t' ∈ ts ++ [t, .path "a"], t'.Plain := by
  intro t' ht'
  rcases List.mem_append.mp ht' with ht' | ht'
  · exact h t' ht'
  · rcases List.mem_cons.mp ht' with rfl | ht'
    · exact ht
    · rw [List.mem_singleton.mp ht']
      exact plain_path

/-- A chain puts an operand deeper by the number of its operators, for which levels may be there
already. -/
theorem tall_chain {c : Chain} {d h j k : Nat} (ha : Tall c.operand j d h) (hk : k ≤ d) :
    Tall c.whole k d (h + k) := by
  obtain ⟨t, op, hop, ht⟩ : ∃ t op, c.op? t = some op ∧ t.Plain := by
    cases c with
    | terms => exact ⟨.plus, .add, rfl, trivial⟩
    | factors => exact ⟨.star, .multiply, rfl, trivial⟩
  have hpath : Nests c.operand [.path "a"] (.path "a") 0 0 := by
    cases c with
    | terms => exact .ofNegation (.ofPrimary (.path "a"))
    | factors => exact .ofPrimary (.path "a")
  induction k with
  | zero =>
    obtain ⟨ts, a, hts, hn, rfl⟩ := ha
    exact ⟨ts, a, hts, hn.ofOperand, rfl⟩
  | succ k ih =>
    obtain ⟨ts, a, hts, hn, hh⟩ := ih (Nat.le_of_succ_le hk)
    -- one more operator puts the operand one level deeper into the tree
    have hn' := hn.chain hop hpath
    rw [Nat.max_eq_left hk] at hn'
    refine ⟨_, _, plain_append hts ht, hn', ?_⟩
    rw [Expr.height, Expr.height, Nat.max_zero, hh]
    rfl

/-- A sum of products has a chain of each kind. -/
theorem tall_sum {d h : Nat} (ha : Tall .negation 0 d h) : Tall .sum d d (h + d + d) :=
  have hproduct : Tall .product d d (h + d) := tall_chain (c := .factors) ha (Nat.le_refl _)
  tall_chain (c := .terms) hproduct (Nat.le_refl _)

/-- The height of operands is reached: two full chains in brackets take one level more. -/
theorem tall_negation (d : Nat) : Tall .negation 0 d (peak d) := by
  -- each level puts brackets around the operand before, with a full chain of both kinds behind it
  induction d with
  | zero => exact tall_variable
  | succ d ih =>
    cases d with
    | zero =>
      -- brackets around a variable would leave no node, so the first level is a sign
      obtain ⟨ts, a, hts, hn, hh⟩ := tall_variable
      refine ⟨.minus :: ts, .negate a, ?_, .negation hn, by rw [Expr.height, hh]; rfl⟩
      exact List.forall_mem_cons.mpr ⟨trivial, hts⟩
    | succ d =>
      obtain ⟨ts, a, hts, hn, hh⟩ := tall_sum ih
      refine ⟨_, a, ?_, .ofPrimary (.brackets hn), hh.trans (peak_add_two d).symm⟩
      intro t ht
      rcases List.mem_cons.mp ht with rfl | ht
      · trivial
      · rcases List.mem_append.mp ht with ht | ht
        · exact hts t ht
        · rw [List.mem_singleton.mp ht]
          trivial

/-- **The height that a number of levels allows is reached.** -/
theorem exists_tall_sum (d : Nat) :
    Tall .sum (d + 1) (d + 1) ((d + 1) * (d + 1) + (d + 1) + 1) := by
  have h := tall_sum (tall_negation (d + 1))
  have heq : peak (d + 1) + (d + 1) + (d + 1) = (d + 1) * (d + 1) + (d + 1) + 1 := by
    rw [peak]
    ring
  exact heq ▸ h

/-! ### The guard -/

theorem nests_of_parse {stop : Nat} {ls : List Lexeme} {tree : Expr}
    (h : parse stop ls = .ok tree) :
    ∃ k d, Nests .sum (ls.map Lexeme.token) tree k d ∧ d ≤ maxDepth := by
  obtain ⟨k, d, hn⟩ := derives_iff_nests.mp (derives_of_parse h)
  rcases parse_of_nests hn stop with ⟨hle, -⟩ | ⟨-, pos, hp⟩
  · exact ⟨k, d, hn, hle⟩
  · rw [hp] at h
    cases h

/-- Tokens that can be written, and that need no more levels than there may be, are those of a text
that is parsed. -/
theorem exists_text {ts : List Token} {tree : Expr} {k d : Nat} (hts : ∀ t ∈ ts, t.Plain)
    (hn : Nests .sum ts tree k d) (hpos : 0 < d) (hd : d ≤ maxDepth) :
    ∃ (text : String) (ls : List Lexeme), Lexeme.scan text.toList = .ok ls ∧
      parse text.utf8ByteSize ls = .ok tree ∧ ls.map Lexeme.token = ts := by
  obtain ⟨ls, hls, rfl⟩ := scanFrom_spelling hts 0
  refine ⟨String.ofList ((ls.map Lexeme.token).flatMap Token.spelling), ls, ?_, ?_, rfl⟩
  · -- what derives is not empty, so the scan is that of its tokens
    rw [String.toList_ofList, Lexeme.scan, hls]
    cases ls with
    | nil => exact absurd hn.le_length.2 (Nat.not_le.mpr hpos)
    | cons l ls => rfl
  · rcases parse_of_nests hn _ with ⟨-, hp⟩ | ⟨hlt, -⟩
    · exact hp
    · exact absurd hlt (Nat.not_lt.mpr hd)

/-- The greatest height of a tree that is parsed. -/
theorem isGreatest_height :
    IsGreatest {h | ∃ (text : String) (ls : List Lexeme) (tree : Expr),
      Lexeme.scan text.toList = .ok ls ∧ parse text.utf8ByteSize ls = .ok tree ∧ tree.height = h}
      (maxDepth * maxDepth + maxDepth + 1) := by
  constructor
  · obtain ⟨ts, tree, hts, hn, hh⟩ := exists_tall_sum 255
    obtain ⟨text, ls, hs, hp, -⟩ := exists_text hts hn (Nat.succ_pos _) (Nat.le_refl _)
    exact ⟨text, ls, tree, hs, hp, hh⟩
  · -- the square of the levels bounds every tree, and no text has more levels than there may be
    rintro h ⟨text, ls, tree, -, hp, rfl⟩
    obtain ⟨k, d, hn, hle⟩ := nests_of_parse hp
    refine hn.height_le_of_sum.trans ?_
    have hsq : d * d ≤ maxDepth * maxDepth := Nat.mul_le_mul hle hle
    omega

/-! ### What is over an operand -/

/-- The numbers and variables that a nonterminal derives. The first number says how many levels are
open when one is read, and the second how many operators are over it. A sign counts for both. Of a
chain the guard counts the operators up to an operand, and the tree those from the operand on. -/
inductive Leaf : Nonterminal → List Token → Nat → Nat → Prop
  | ofOperand {c : Chain} {ts : List Token} {o v : Nat} (h : Leaf c.operand ts o v) :
      Leaf c.whole ts o v
  /-- Behind the leaf the chain goes on. -/
  | before {c : Chain} {ts us : List Token} {b : Expr} {t : Token} {op : BinaryOp} {o v : Nat}
      (h : Leaf c.whole ts o v) (ht : c.op? t = some op) (hb : Derives c.operand us b) :
      Leaf c.whole (ts ++ t :: us) o (v + 1)
  /-- The leaf belongs to the last operand, behind a chain of `k` operators and one more. -/
  | last {c : Chain} {ts us : List Token} {a : Expr} {t : Token} {op : BinaryOp} {k d o v : Nat}
      (ha : Nests c.whole ts a k d) (ht : c.op? t = some op) (h : Leaf c.operand us o v) :
      Leaf c.whole (ts ++ t :: us) (k + 1 + o) (v + 1)
  | ofPrimary {ts : List Token} {o v : Nat} (h : Leaf .primary ts o v) : Leaf .negation ts o v
  | negation {ts : List Token} {o v : Nat} (h : Leaf .negation ts o v) :
      Leaf .negation (.minus :: ts) (o + 1) (v + 1)
  | number (x : Float) : Leaf .primary [.number x] 0 0
  | path (p : String) : Leaf .primary [.path p] 0 0
  | brackets {ts : List Token} {o v : Nat} (h : Leaf .sum ts o v) :
      Leaf .primary (.openParen :: (ts ++ [.closeParen])) (o + 1) v

/-- What is derived with a leaf has as many levels, and as high a tree, as the leaf says. -/
theorem Leaf.exists_nests {n : Nonterminal} {ts : List Token} {o v : Nat} (h : Leaf n ts o v) :
    ∃ tree k d, Nests n ts tree k d ∧ o ≤ d ∧ v ≤ tree.height := by
  induction h with
  | ofOperand _ ih =>
    obtain ⟨a, k, d, hn, ho, hv⟩ := ih
    exact ⟨_, _, _, hn.ofOperand, ho, hv⟩
  -- a leaf within an operator lies one level of the tree deeper
  | before _ ht hb ih =>
    obtain ⟨a, k, d, hn, ho, hv⟩ := ih
    obtain ⟨k', d', hb⟩ := derives_iff_nests.mp hb
    refine ⟨_, _, _, hn.chain ht hb, Nat.le_trans ho (Nat.le_max_left _ _), ?_⟩
    exact Nat.succ_le_succ (Nat.le_trans hv (Nat.le_max_left _ _))
  | last ha ht _ ih =>
    obtain ⟨b, k', d', hn, ho, hv⟩ := ih
    refine ⟨_, _, _, ha.chain ht hn, ?_, ?_⟩
    · exact Nat.le_trans (Nat.add_le_add_left ho _) (Nat.le_max_right _ _)
    · exact Nat.succ_le_succ (Nat.le_trans hv (Nat.le_max_right _ _))
  | ofPrimary _ ih =>
    obtain ⟨a, k, d, hn, ho, hv⟩ := ih
    exact ⟨_, _, _, .ofPrimary hn, ho, hv⟩
  | negation _ ih =>
    obtain ⟨a, k, d, hn, ho, hv⟩ := ih
    exact ⟨_, _, _, .negation hn, Nat.succ_le_succ ho, Nat.succ_le_succ hv⟩
  | number x => exact ⟨_, _, _, .number x, Nat.le_refl _, Nat.le_refl _⟩
  | path p => exact ⟨_, _, _, .path p, Nat.le_refl _, Nat.le_refl _⟩
  | brackets _ ih =>
    obtain ⟨a, k, d, hn, ho, hv⟩ := ih
    exact ⟨_, _, _, .brackets hn, Nat.succ_le_succ ho, hv⟩

section Chain

variable {c : Chain} {ts us : List Token} {a b : Expr} {t : Token} {op : BinaryOp} {k d k' d' : Nat}
  (ha : Nests c.whole ts a k d) (ht : c.op? t = some op) (hb : Nests c.operand us b k' d')
include ha ht hb

/-- In a chain the most levels are open either before the last operator or behind it. -/
theorem exists_leaf_of_max (hfirst : ∃ v, Leaf c.whole ts d v)
    (hlast : ∃ v, Leaf c.operand us d' v) :
    ∃ v, Leaf c.whole (ts ++ t :: us) (max d (k + 1 + d')) v := by
  rcases Nat.le_total (k + 1 + d') d with hle | hle
  · obtain ⟨v, h⟩ := hfirst
    rw [Nat.max_eq_left hle]
    exact ⟨v + 1, .before h ht (derives_iff_nests.mpr ⟨_, _, hb⟩)⟩
  · obtain ⟨v, h⟩ := hlast
    rw [Nat.max_eq_right hle]
    exact ⟨v + 1, .last ha ht h⟩

/-- The deepest leaf of an operation is that of its higher operand. -/
theorem exists_leaf_of_binary (hfirst : ∃ o, Leaf c.whole ts o a.height)
    (hlast : ∃ o, Leaf c.operand us o b.height) :
    ∃ o, Leaf c.whole (ts ++ t :: us) o (Expr.binary op a b).height := by
  rw [Expr.height]
  rcases Nat.le_total b.height a.height with hle | hle
  · obtain ⟨o, h⟩ := hfirst
    rw [Nat.max_eq_left hle]
    exact ⟨o, .before h ht (derives_iff_nests.mpr ⟨_, _, hb⟩)⟩
  · obtain ⟨o, h⟩ := hlast
    rw [Nat.max_eq_right hle]
    exact ⟨_, .last ha ht h⟩

end Chain

/-- The greatest number of levels is open when some leaf is read. -/
theorem Nests.exists_leaf_of_levels {n : Nonterminal} {ts : List Token} {tree : Expr} {k d : Nat}
    (h : Nests n ts tree k d) : ∃ v, Leaf n ts d v := by
  induction h with
  | ofProduct _ ih => obtain ⟨v, h⟩ := ih; exact ⟨v, .ofOperand (c := .terms) h⟩
  | sum ha ht hb iha ihb => exact exists_leaf_of_max (c := .terms) ha ht hb iha ihb
  | ofNegation _ ih => obtain ⟨v, h⟩ := ih; exact ⟨v, .ofOperand (c := .factors) h⟩
  | product ha ht hb iha ihb => exact exists_leaf_of_max (c := .factors) ha ht hb iha ihb
  | ofPrimary _ ih => obtain ⟨v, h⟩ := ih; exact ⟨v, .ofPrimary h⟩
  | negation _ ih => obtain ⟨v, h⟩ := ih; exact ⟨v + 1, .negation h⟩
  | number x => exact ⟨0, .number x⟩
  | path p => exact ⟨0, .path p⟩
  | brackets _ ih => obtain ⟨v, h⟩ := ih; exact ⟨v, .brackets h⟩

/-- Some leaf is as deep as the tree is high. -/
theorem Nests.exists_leaf_of_height {n : Nonterminal} {ts : List Token} {tree : Expr} {k d : Nat}
    (h : Nests n ts tree k d) : ∃ o, Leaf n ts o tree.height := by
  induction h with
  | ofProduct _ ih => obtain ⟨o, h⟩ := ih; exact ⟨o, .ofOperand (c := .terms) h⟩
  | sum ha ht hb iha ihb => exact exists_leaf_of_binary (c := .terms) ha ht hb iha ihb
  | ofNegation _ ih => obtain ⟨o, h⟩ := ih; exact ⟨o, .ofOperand (c := .factors) h⟩
  | product ha ht hb iha ihb => exact exists_leaf_of_binary (c := .factors) ha ht hb iha ihb
  | ofPrimary _ ih => obtain ⟨o, h⟩ := ih; exact ⟨o, .ofPrimary h⟩
  | negation _ ih => obtain ⟨o, h⟩ := ih; exact ⟨o + 1, .negation h⟩
  | number x => exact ⟨0, .number x⟩
  | path p => exact ⟨0, .path p⟩
  | brackets _ ih => obtain ⟨o, h⟩ := ih; exact ⟨o + 1, .brackets h⟩

/-- **The guard bounds what is in front of an operand.** Tokens are parsed exactly if they derive
and at none of their leaves more levels are open than may be. -/
theorem exists_parse_iff (stop : Nat) (ls : List Lexeme) :
    (∃ tree, parse stop ls = .ok tree) ↔ (∃ tree, Derives .sum (ls.map Lexeme.token) tree) ∧
      ∀ o v, Leaf .sum (ls.map Lexeme.token) o v → o ≤ maxDepth := by
  constructor
  · -- a leaf too deep is where the room would have run out
    rintro ⟨tree, h⟩
    refine ⟨⟨tree, derives_of_parse h⟩, fun o v hleaf => ?_⟩
    obtain ⟨tree', k, d, hn, ho, -⟩ := hleaf.exists_nests
    rcases parse_of_nests hn stop with ⟨hle, -⟩ | ⟨-, pos, hp⟩
    · exact ho.trans hle
    · rw [hp] at h
      cases h
  · rintro ⟨⟨tree, hd⟩, hall⟩
    obtain ⟨k, d, hn⟩ := derives_iff_nests.mp hd
    obtain ⟨v, hleaf⟩ := hn.exists_leaf_of_levels
    rcases parse_of_nests hn stop with ⟨-, hp⟩ | ⟨hlt, -⟩
    · exact ⟨tree, hp⟩
    · exact absurd (hall d v hleaf) (Nat.not_le.mpr hlt)

/-- What is parsed has its leaves no deeper than its tree is high, and one that deep. -/
theorem height_le_iff_of_parse {stop h : Nat} {ls : List Lexeme} {tree : Expr}
    (hp : parse stop ls = .ok tree) :
    tree.height ≤ h ↔ ∀ o v, Leaf .sum (ls.map Lexeme.token) o v → v ≤ h := by
  constructor
  · intro hle o v hleaf
    obtain ⟨tree', k, d, hn, -, hv⟩ := hleaf.exists_nests
    -- both trees are the one of the tokens
    obtain rfl := (derives_of_parse hp).unique (derives_iff_nests.mpr ⟨k, d, hn⟩)
    exact hv.trans hle
  · intro hall
    obtain ⟨k, d, hn, -⟩ := nests_of_parse hp
    obtain ⟨o, hleaf⟩ := hn.exists_leaf_of_height
    exact hall o _ hleaf

/-- **When the guard bounds the tree.** The trees of a text are no higher than the greatest number
of levels exactly if the text opens too many of them, or no leaf has more operators over it. In any
case the height is bounded by the square of the levels, to which they and one are added. -/
theorem guard_bounds_height (text : String) :
    ((∀ ls tree, Lexeme.scan text.toList = .ok ls → parse text.utf8ByteSize ls = .ok tree →
        tree.height ≤ maxDepth) ↔
      ∀ ls, Lexeme.scan text.toList = .ok ls →
        (∃ o v, Leaf .sum (ls.map Lexeme.token) o v ∧ maxDepth < o) ∨
          ∀ o v, Leaf .sum (ls.map Lexeme.token) o v → v ≤ maxDepth) ∧
    ∀ ls tree, Lexeme.scan text.toList = .ok ls → parse text.utf8ByteSize ls = .ok tree →
      tree.height ≤ maxDepth * maxDepth + maxDepth + 1 := by
  refine ⟨⟨fun h ls hs => ?_, fun h ls tree hs hp => ?_⟩, fun ls tree hs hp => ?_⟩
  · -- a text that opens no level too many is parsed if it has a leaf at all
    by_cases hall : ∀ o v, Leaf .sum (ls.map Lexeme.token) o v → o ≤ maxDepth
    · refine .inr fun o v hleaf => ?_
      obtain ⟨tree, k, d, hn, -⟩ := hleaf.exists_nests
      have hd : Derives .sum (ls.map Lexeme.token) tree := derives_iff_nests.mpr ⟨k, d, hn⟩
      obtain ⟨tree', hp⟩ := (exists_parse_iff _ ls).mpr ⟨⟨tree, hd⟩, hall⟩
      exact (height_le_iff_of_parse hp).mp (h ls tree' hs hp) o v hleaf
    · push Not at hall
      exact .inl hall
  · rw [height_le_iff_of_parse hp]
    rcases h ls hs with ⟨o, v, hleaf, hlt⟩ | hv
    · have hle := ((exists_parse_iff _ ls).mp ⟨tree, hp⟩).2 o v hleaf
      exact absurd hle (Nat.not_le.mpr hlt)
    · exact hv
  · exact isGreatest_height.2 ⟨text, ls, tree, hs, hp, rfl⟩

/-- Some text has a tree that is higher than the greatest number of levels. -/
theorem exists_height_gt :
    ∃ (text : String) (ls : List Lexeme) (tree : Expr), Lexeme.scan text.toList = .ok ls ∧
      parse text.utf8ByteSize ls = .ok tree ∧ maxDepth < tree.height := by
  obtain ⟨text, ls, tree, hs, hp, hh⟩ := isGreatest_height.1
  refine ⟨text, ls, tree, hs, hp, ?_⟩
  rw [hh]
  decide

end Flowgraph.Expression
