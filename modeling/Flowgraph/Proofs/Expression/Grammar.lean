import Flowgraph.Expression.Syntax

/-!
# The grammar of expressions

`Derives` is the grammar that the parser is meant to recognise. Its repetitions are written as left
recursion, so that a derivation has one tree and both levels of binary operators associate to the
left.

`Nests` is the same grammar with the levels counted that reading a derivation opens: a sign and a
bracket hold one open until their operand ends, and a binary operator until its chain ends. This is
what the parser's guard is about, and it is neither the depth of the brackets nor the height of the
tree.

* `derives_iff_nests` — every derivation has a number of levels.
* `Nests.le_length` — a derivation has no more levels than tokens.
-/

namespace Flowgraph.Expression

/-- The nonterminals of the grammar. -/
inductive Nonterminal where
  | sum
  | product
  | negation
  | primary

/-- The lists of tokens that a nonterminal derives, with their trees. A sum and a product end in
their last operator, and what is before it is a sum or a product again. -/
inductive Derives : Nonterminal → List Token → Expr → Prop
  | ofProduct {ts : List Token} {a : Expr} (h : Derives .product ts a) : Derives .sum ts a
  | sum {ts us : List Token} {a b : Expr} {t : Token} {op : BinaryOp} (ha : Derives .sum ts a)
      (ht : BinaryOp.ofSumToken? t = some op) (hb : Derives .product us b) :
      Derives .sum (ts ++ t :: us) (.binary op a b)
  | ofNegation {ts : List Token} {a : Expr} (h : Derives .negation ts a) : Derives .product ts a
  | product {ts us : List Token} {a b : Expr} {t : Token} {op : BinaryOp}
      (ha : Derives .product ts a) (ht : BinaryOp.ofProductToken? t = some op)
      (hb : Derives .negation us b) :
      Derives .product (ts ++ t :: us) (.binary op a b)
  | ofPrimary {ts : List Token} {a : Expr} (h : Derives .primary ts a) : Derives .negation ts a
  | negation {ts : List Token} {a : Expr} (h : Derives .negation ts a) :
      Derives .negation (.minus :: ts) (.negate a)
  | number (x : Float) : Derives .primary [.number x] (.number x)
  | path (p : String) : Derives .primary [.path p] (.path p)
  | brackets {ts : List Token} {a : Expr} (h : Derives .sum ts a) :
      Derives .primary (.openParen :: (ts ++ [.closeParen])) a

/-- Derivations with their levels. The first number says how many are open when the last token has
been read, which is one for each operator of the chain; the second is the greatest number that is
open at once. -/
inductive Nests : Nonterminal → List Token → Expr → Nat → Nat → Prop
  | ofProduct {ts : List Token} {a : Expr} {k d : Nat} (h : Nests .product ts a k d) :
      Nests .sum ts a 0 d
  | sum {ts us : List Token} {a b : Expr} {t : Token} {op : BinaryOp} {k d k' d' : Nat}
      (ha : Nests .sum ts a k d) (ht : BinaryOp.ofSumToken? t = some op)
      (hb : Nests .product us b k' d') :
      Nests .sum (ts ++ t :: us) (.binary op a b) (k + 1) (max d (k + 1 + d'))
  | ofNegation {ts : List Token} {a : Expr} {k d : Nat} (h : Nests .negation ts a k d) :
      Nests .product ts a 0 d
  | product {ts us : List Token} {a b : Expr} {t : Token} {op : BinaryOp} {k d k' d' : Nat}
      (ha : Nests .product ts a k d) (ht : BinaryOp.ofProductToken? t = some op)
      (hb : Nests .negation us b k' d') :
      Nests .product (ts ++ t :: us) (.binary op a b) (k + 1) (max d (k + 1 + d'))
  | ofPrimary {ts : List Token} {a : Expr} {k d : Nat} (h : Nests .primary ts a k d) :
      Nests .negation ts a 0 d
  | negation {ts : List Token} {a : Expr} {k d : Nat} (h : Nests .negation ts a k d) :
      Nests .negation (.minus :: ts) (.negate a) 0 (d + 1)
  | number (x : Float) : Nests .primary [.number x] (.number x) 0 0
  | path (p : String) : Nests .primary [.path p] (.path p) 0 0
  | brackets {ts : List Token} {a : Expr} {k d : Nat} (h : Nests .sum ts a k d) :
      Nests .primary (.openParen :: (ts ++ [.closeParen])) a 0 (d + 1)

/-- **Every derivation has a number of levels.** -/
theorem derives_iff_nests {n : Nonterminal} {ts : List Token} {tree : Expr} :
    Derives n ts tree ↔ ∃ k d, Nests n ts tree k d := by
  constructor
  · -- the levels are found along the derivation, and forgotten again in the other direction
    intro h
    induction h with
    | ofProduct _ ih => obtain ⟨k, d, h⟩ := ih; exact ⟨_, _, .ofProduct h⟩
    | sum _ ht _ iha ihb =>
      obtain ⟨k, d, ha⟩ := iha
      obtain ⟨k', d', hb⟩ := ihb
      exact ⟨_, _, .sum ha ht hb⟩
    | ofNegation _ ih => obtain ⟨k, d, h⟩ := ih; exact ⟨_, _, .ofNegation h⟩
    | product _ ht _ iha ihb =>
      obtain ⟨k, d, ha⟩ := iha
      obtain ⟨k', d', hb⟩ := ihb
      exact ⟨_, _, .product ha ht hb⟩
    | ofPrimary _ ih => obtain ⟨k, d, h⟩ := ih; exact ⟨_, _, .ofPrimary h⟩
    | negation _ ih => obtain ⟨k, d, h⟩ := ih; exact ⟨_, _, .negation h⟩
    | number x => exact ⟨_, _, .number x⟩
    | path p => exact ⟨_, _, .path p⟩
    | brackets _ ih => obtain ⟨k, d, h⟩ := ih; exact ⟨_, _, .brackets h⟩
  · rintro ⟨k, d, h⟩
    induction h with
    | ofProduct _ ih => exact .ofProduct ih
    | sum _ ht _ iha ihb => exact .sum iha ht ihb
    | ofNegation _ ih => exact .ofNegation ih
    | product _ ht _ iha ihb => exact .product iha ht ihb
    | ofPrimary _ ih => exact .ofPrimary ih
    | negation _ ih => exact .negation ih
    | number x => exact .number x
    | path p => exact .path p
    | brackets _ ih => exact .brackets ih

/-- **A derivation has no more levels than tokens.** -/
theorem Nests.le_length {n : Nonterminal} {ts : List Token} {tree : Expr} {k d : Nat}
    (h : Nests n ts tree k d) : k ≤ d ∧ d ≤ ts.length := by
  -- only a sign, brackets and a second operand take tokens of their own
  induction h with
  | ofProduct _ ih => exact ⟨Nat.zero_le _, ih.2⟩
  | sum _ _ _ iha ihb =>
    rw [List.length_append, List.length_cons]
    omega
  | ofNegation _ ih => exact ⟨Nat.zero_le _, ih.2⟩
  | product _ _ _ iha ihb =>
    rw [List.length_append, List.length_cons]
    omega
  | ofPrimary _ ih => exact ⟨Nat.zero_le _, ih.2⟩
  | negation _ ih => exact ⟨Nat.zero_le _, Nat.succ_le_succ ih.2⟩
  | number x => exact ⟨Nat.le_refl _, Nat.zero_le _⟩
  | path p => exact ⟨Nat.le_refl _, Nat.zero_le _⟩
  | brackets _ ih =>
    rw [List.length_cons, List.length_append]
    omega

end Flowgraph.Expression
