import Mathlib
import Flowgraph.Expression.Evaluate
import Flowgraph.Proofs.Expression.Grammar

/-!
# The parser recognises its grammar

* `sound` — what the parser reads derives.
* `complete` — what derives is read, with the tree of the derivation and no token more, exactly if
  the levels suffice.
* `Derives.unique` — a list of tokens has one tree at most.
* `reads_grammar` — what becomes of a text, which depends on the text alone: it is parsed to its
  tree, or it is too deep, or it is no expression.
-/

namespace Flowgraph.Expression

/-- The function that reads what a nonterminal derives. -/
def Nonterminal.read (n : Nonterminal) (stop room : Nat) (ls : List Lexeme) :
    Located (Expr × List Lexeme) :=
  match n with
  | .sum => Expression.sum stop room ls
  | .product => Expression.product stop room ls
  | .negation => Expression.negation stop room ls
  | .primary => Expression.primary stop room ls

/-- How the reading of a nonterminal goes on behind a tree of it. -/
def Nonterminal.goOn (n : Nonterminal) (stop room : Nat) (left : Expr) (ls : List Lexeme) :
    Located (Expr × List Lexeme) :=
  match n with
  | .sum => moreTerms stop room left ls
  | .product => moreFactors stop room left ls
  | .negation | .primary => .ok (left, ls)

/-! ### Chains -/

/-- The chains of binary operators: a sum is a chain of terms, and a product one of factors. -/
inductive Chain where
  | terms
  | factors

namespace Chain

/-- What a chain is read as. -/
def whole : Chain → Nonterminal
  | .terms => .sum
  | .factors => .product

/-- What the operators of a chain join. -/
def operand : Chain → Nonterminal
  | .terms => .product
  | .factors => .negation

/-- The operators of a chain. -/
def op? : Chain → Token → Option BinaryOp
  | .terms => BinaryOp.ofSumToken?
  | .factors => BinaryOp.ofProductToken?

variable (c : Chain) (stop room : Nat) (left : Expr) (rest : List Lexeme)

/-- A chain begins with an operand. -/
theorem read_whole (ls : List Lexeme) : c.whole.read stop room ls =
    (c.operand.read stop room ls).bind fun r => c.whole.goOn stop room r.1 r.2 := by
  cases c with
  | terms =>
    show sum stop room ls = (product stop room ls).bind _
    rw [sum]
    cases product stop room ls <;> rfl
  | factors =>
    show product stop room ls = (negation stop room ls).bind _
    rw [product]
    cases negation stop room ls <;> rfl

variable {c} {l : Lexeme} {op : BinaryOp}

/-- A chain ends in front of what is none of its operators. -/
theorem goOn_of_none (h : c.op? l.token = none) :
    c.whole.goOn stop room left (l :: rest) = .ok (left, l :: rest) := by
  cases c with
  | terms =>
    have h : BinaryOp.ofSumToken? l.token = none := h
    show moreTerms stop room left (l :: rest) = _
    rw [moreTerms, h]
  | factors =>
    have h : BinaryOp.ofProductToken? l.token = none := h
    show moreFactors stop room left (l :: rest) = _
    rw [moreFactors, h]

theorem goOn_zero (h : c.op? l.token = some op) :
    c.whole.goOn stop 0 left (l :: rest) = .error (position stop rest, .tooDeep) := by
  cases c with
  | terms =>
    have h : BinaryOp.ofSumToken? l.token = some op := h
    show moreTerms stop 0 left (l :: rest) = _
    rw [moreTerms, h]
  | factors =>
    have h : BinaryOp.ofProductToken? l.token = some op := h
    show moreFactors stop 0 left (l :: rest) = _
    rw [moreFactors, h]

/-- An operator takes a level, which is not given back before the chain ends. -/
theorem goOn_succ (h : c.op? l.token = some op) : c.whole.goOn stop (room + 1) left (l :: rest) =
    (c.operand.read stop room rest).bind fun r =>
      c.whole.goOn stop room (.binary op left r.1) r.2 := by
  -- sums and products go on in the same way
  cases c with
  | terms =>
    have h : BinaryOp.ofSumToken? l.token = some op := h
    show moreTerms stop (room + 1) left (l :: rest) = (product stop room rest).bind _
    rw [moreTerms, h]
    dsimp only
    cases product stop room rest <;> rfl
  | factors =>
    have h : BinaryOp.ofProductToken? l.token = some op := h
    show moreFactors stop (room + 1) left (l :: rest) = (negation stop room rest).bind _
    rw [moreFactors, h]
    dsimp only
    cases negation stop room rest <;> rfl

end Chain

/-- At the end of the tokens nothing more is read. -/
theorem goOn_nil (n : Nonterminal) (stop room : Nat) (tree : Expr) :
    n.goOn stop room tree [] = .ok (tree, []) := by
  cases n with
  | sum => rw [Nonterminal.goOn, moreTerms]
  | product => rw [Nonterminal.goOn, moreFactors]
  | negation | primary => rfl

theorem Derives.ofOperand {c : Chain} {ts : List Token} {a : Expr} (h : Derives c.operand ts a) :
    Derives c.whole ts a := by
  cases c with
  | terms => exact .ofProduct h
  | factors => exact .ofNegation h

theorem Derives.chain {c : Chain} {ts us : List Token} {a b : Expr} {t : Token} {op : BinaryOp}
    (ha : Derives c.whole ts a) (ht : c.op? t = some op) (hb : Derives c.operand us b) :
    Derives c.whole (ts ++ t :: us) (.binary op a b) := by
  cases c with
  | terms => exact .sum ha ht hb
  | factors => exact .product ha ht hb

/-! ### Soundness -/

/-- The front of a list of tokens derives a tree, and the rest is left. -/
def Reads (n : Nonterminal) (ls : List Lexeme) (tree : Expr) (rest : List Lexeme) : Prop :=
  ∃ used, ls = used ++ rest ∧ Derives n (used.map Lexeme.token) tree

/-- With so many levels, whatever is read derives, also behind tokens that have been read. -/
structure SoundAt (stop room : Nat) : Prop where
  read : ∀ n ls tree rest, n.read stop room ls = .ok (tree, rest) → Reads n ls tree rest
  goOn : ∀ n left ls tree rest, n.goOn stop room left ls = .ok (tree, rest) →
    ∀ used, Derives n (used.map Lexeme.token) left → Reads n (used ++ ls) tree rest

section Sound

variable {stop room : Nat} (below : ∀ r, room = r + 1 → SoundAt stop r)
include below

theorem primary_sound {ls rest : List Lexeme} {tree : Expr}
    (h : primary stop room ls = .ok (tree, rest)) : Reads .primary ls tree rest := by
  unfold primary at h
  split at h
  · cases h
  · cases h
    exact ⟨[_], rfl, .number _⟩
  · cases h
    exact ⟨[_], rfl, .path _⟩
  · next start ls' =>
    split at h
    · cases h
    · next r =>
      split at h
      · cases h
      · next a start' rest' hs =>
        cases h
        -- the inside is read with one level less
        obtain ⟨used, rfl, hd⟩ := (below r rfl).read .sum _ _ _ hs
        refine ⟨⟨.openParen, start⟩ :: (used ++ [⟨.closeParen, start'⟩]), by simp, ?_⟩
        rw [List.map_cons, List.map_append]
        exact .brackets hd
      · cases h
  · cases h

theorem negation_sound {ls rest : List Lexeme} {tree : Expr}
    (h : negation stop room ls = .ok (tree, rest)) : Reads .negation ls tree rest := by
  unfold negation at h
  split at h
  · next start ls' =>
    split at h
    · cases h
    · next r =>
      split at h
      · cases h
      · next a rest' hn =>
        cases h
        -- below the sign there is one level of room less
        obtain ⟨used, rfl, hd⟩ := (below r rfl).read .negation _ _ _ hn
        exact ⟨⟨.minus, start⟩ :: used, rfl, .negation hd⟩
  · obtain ⟨used, hls, hd⟩ := primary_sound below h
    exact ⟨used, hls, .ofPrimary hd⟩

/-- A chain that has been read up to here goes on to derive. -/
theorem goOn_sound {c : Chain} {ls rest used : List Lexeme} {left tree : Expr}
    (h : c.whole.goOn stop room left ls = .ok (tree, rest))
    (hleft : Derives c.whole (used.map Lexeme.token) left) :
    Reads c.whole (used ++ ls) tree rest := by
  cases ls with
  | nil =>
    rw [goOn_nil] at h
    cases h
    exact ⟨used, rfl, hleft⟩
  | cons l ls =>
    cases hop : c.op? l.token with
    | none =>
      rw [Chain.goOn_of_none _ _ _ _ hop] at h
      cases h
      exact ⟨used, rfl, hleft⟩
    | some op =>
      cases room with
      | zero =>
        rw [Chain.goOn_zero _ _ _ hop] at h
        cases h
      | succ r =>
        rw [Chain.goOn_succ _ _ _ _ hop] at h
        cases hn : c.operand.read stop r ls with
        | error err =>
          rw [hn] at h
          cases h
        | ok right =>
          obtain ⟨right, rest'⟩ := right
          rw [hn] at h
          obtain ⟨used', rfl, hright⟩ := (below r rfl).read c.operand _ _ _ hn
          -- what has been read so far is the left operand of what comes next
          have hd : Derives c.whole ((used ++ l :: used').map Lexeme.token)
              (.binary op left right) := by
            rw [List.map_append, List.map_cons]
            exact hleft.chain hop hright
          have hgo := (below r rfl).goOn c.whole _ _ _ _ h _ hd
          rwa [List.append_assoc, List.cons_append] at hgo

theorem whole_sound {c : Chain}
    (hoperand : ∀ {ls rest tree}, c.operand.read stop room ls = .ok (tree, rest) →
      Reads c.operand ls tree rest)
    {ls rest : List Lexeme} {tree : Expr} (h : c.whole.read stop room ls = .ok (tree, rest)) :
    Reads c.whole ls tree rest := by
  rw [Chain.read_whole] at h
  cases hn : c.operand.read stop room ls with
  | error err =>
    rw [hn] at h
    cases h
  | ok left =>
    rw [hn] at h
    -- the first operand, and then what goes on behind it
    obtain ⟨used, rfl, hd⟩ := hoperand hn
    exact goOn_sound below h hd.ofOperand

theorem soundAt_of_below : SoundAt stop room where
  read n ls tree rest h := by
    have hproduct : ∀ {ls rest tree}, product stop room ls = .ok (tree, rest) →
        Reads .product ls tree rest :=
      fun h => whole_sound (c := .factors) below (negation_sound below) h
    cases n with
    | sum => exact whole_sound (c := .terms) below hproduct h
    | product => exact hproduct h
    | negation => exact negation_sound below h
    | primary => exact primary_sound below h
  goOn n left ls tree rest h used hleft := by
    cases n with
    | sum => exact goOn_sound (c := .terms) below h hleft
    | product => exact goOn_sound (c := .factors) below h hleft
    | negation | primary =>
      cases h
      exact ⟨used, rfl, hleft⟩

end Sound

/-- **What is read derives**, with any number of levels. -/
theorem sound (stop room : Nat) : SoundAt stop room := by
  -- every function goes on with one level less, or with a function that is defined before it
  induction room with
  | zero => exact soundAt_of_below nofun
  | succ room ih => exact soundAt_of_below fun r hr => Nat.succ.inj hr ▸ ih

/-! ### Completeness -/

/-- Whether a tree of a nonterminal may end in front of the tokens. A sum does not end in front of
an operator that binds its last product more tightly. -/
def Nonterminal.Ends : Nonterminal → List Lexeme → Prop
  | .sum, l :: _ => BinaryOp.ofProductToken? l.token = none
  | _, _ => True

/-- Reading a nonterminal in front of other tokens runs out of levels if there are fewer of them
than `d`, and otherwise it comes to the tree, with `k` levels open. -/
def ReadsTo (n : Nonterminal) (ts : List Token) (tree : Expr) (k d : Nat) : Prop :=
  ∀ stop room ls rest, ls.map Lexeme.token = ts → n.Ends rest →
    (room < d ∧ ∃ pos, n.read stop room (ls ++ rest) = .error (pos, .tooDeep)) ∨
      (d ≤ room ∧ n.read stop room (ls ++ rest) = n.goOn stop (room - k) tree rest)

/-- Behind the last operand of a chain nothing is read that belongs to the operand. -/
theorem goOn_operand {c : Chain} {rest : List Lexeme} (h : c.whole.Ends rest) (stop room : Nat)
    (left : Expr) : c.operand.goOn stop room left rest = .ok (left, rest) := by
  cases c with
  | terms =>
    cases rest with
    | nil => exact goOn_nil ..
    | cons l rest => exact Chain.goOn_of_none (c := .factors) _ _ _ _ h
  | factors => rfl

theorem ends_operand (c : Chain) (rest : List Lexeme) : c.operand.Ends rest := by
  cases c <;> trivial

/-- What has been read of a chain ends in front of an operator of the chain. -/
theorem ends_of_op {c : Chain} {l : Lexeme} {op : BinaryOp} (h : c.op? l.token = some op)
    (rest : List Lexeme) : c.whole.Ends (l :: rest) := by
  cases c with
  | terms =>
    have h : BinaryOp.ofSumToken? l.token = some op := h
    show BinaryOp.ofProductToken? l.token = none
    -- no token is an operator of both kinds of chains
    cases ht : l.token <;> rw [ht] at h <;> first | rfl | cases h
  | factors => trivial

theorem readsTo_operand {c : Chain} {ts : List Token} {a : Expr} {k d : Nat}
    (h : ReadsTo c.operand ts a k d) : ReadsTo c.whole ts a 0 d := by
  intro stop room ls rest hls hends
  rw [Chain.read_whole]
  rcases h stop room ls rest hls (ends_operand c rest) with ⟨hlt, pos, hdeep⟩ | ⟨hle, hread⟩
  · refine .inl ⟨hlt, pos, ?_⟩
    rw [hdeep]
    rfl
  · refine .inr ⟨hle, ?_⟩
    rw [hread, goOn_operand hends]
    rfl

theorem readsTo_chain {c : Chain} {ts us : List Token} {a b : Expr} {t : Token} {op : BinaryOp}
    {k d k' d' : Nat} (hk : k ≤ d) (ha : ReadsTo c.whole ts a k d) (ht : c.op? t = some op)
    (hb : ReadsTo c.operand us b k' d') :
    ReadsTo c.whole (ts ++ t :: us) (.binary op a b) (k + 1) (max d (k + 1 + d')) := by
  intro stop room ls rest hls hends
  obtain ⟨ls₁, ls₂', rfl, hls₁, hls₂'⟩ := List.map_eq_append_iff.mp hls
  obtain ⟨l, ls₂, rfl, rfl, hls₂⟩ := List.map_eq_cons_iff.mp hls₂'
  rw [List.append_assoc, List.cons_append]
  rcases ha stop room ls₁ (l :: (ls₂ ++ rest)) hls₁ (ends_of_op ht _) with
    ⟨hlt, hdeep⟩ | ⟨hle, hread⟩
  · exact .inl ⟨by omega, hdeep⟩
  -- the operands before left `room - k` levels, of which the next operator takes one
  rw [hread, ← Nat.sub_sub]
  cases hroom : room - k with
  | zero => exact .inl ⟨by omega, _, Chain.goOn_zero _ _ _ ht⟩
  | succ r =>
    rw [Chain.goOn_succ _ _ _ _ ht]
    rcases hb stop r ls₂ rest hls₂ (ends_operand c rest) with ⟨hlt, pos, hdeep⟩ | ⟨hle', hread'⟩
    · refine .inl ⟨by omega, pos, ?_⟩
      rw [hdeep]
      rfl
    · refine .inr ⟨by omega, ?_⟩
      rw [hread', goOn_operand hends]
      rfl

/-- A primary begins with no sign. -/
theorem negation_of_primary {ls : List Lexeme} {a : Expr}
    (h : Derives .primary (ls.map Lexeme.token) a) (stop room : Nat) (rest : List Lexeme) :
    negation stop room (ls ++ rest) = primary stop room (ls ++ rest) := by
  -- the derivation says what the first token is
  generalize hts : ls.map Lexeme.token = ts at h
  cases ls with
  | nil => subst hts; cases h
  | cons l ls =>
    obtain ⟨t, start⟩ := l
    have hne : t ≠ .minus := by
      rintro rfl
      subst hts
      cases h
    rw [List.cons_append, negation]
    rintro start' rest' heq
    cases heq
    exact hne rfl

theorem readsTo_negation_of_primary {ts : List Token} {a : Expr} {k d : Nat}
    (hd : Derives .primary ts a) (h : ReadsTo .primary ts a k d) : ReadsTo .negation ts a 0 d := by
  intro stop room ls rest hls _
  subst hls
  show (_ ∧ ∃ pos, negation stop room (ls ++ rest) = _) ∨
    (_ ∧ negation stop room (ls ++ rest) = .ok (a, rest))
  rw [negation_of_primary hd]
  exact h stop room ls rest rfl trivial

theorem negation_minus_zero (stop start : Nat) (rest : List Lexeme) :
    negation stop 0 (⟨.minus, start⟩ :: rest) = .error (position stop rest, .tooDeep) := by
  rw [negation.eq_def]

theorem negation_minus_succ (stop room start : Nat) (rest : List Lexeme) :
    negation stop (room + 1) (⟨.minus, start⟩ :: rest) =
      match negation stop room rest with
      | .error e => .error e
      | .ok (e, rest) => .ok (.negate e, rest) :=
  negation.eq_def stop (room + 1) (⟨.minus, start⟩ :: rest)

theorem primary_open_zero (stop start : Nat) (rest : List Lexeme) :
    primary stop 0 (⟨.openParen, start⟩ :: rest) = .error (position stop rest, .tooDeep) := by
  rw [primary.eq_def]

theorem primary_open_succ (stop room start : Nat) (rest : List Lexeme) :
    primary stop (room + 1) (⟨.openParen, start⟩ :: rest) =
      match sum stop room rest with
      | .error e => .error e
      | .ok (e, ⟨.closeParen, _⟩ :: rest) => .ok (e, rest)
      | .ok (_, rest) => .error (position stop rest, .expectedClose) :=
  primary.eq_def stop (room + 1) (⟨.openParen, start⟩ :: rest)

theorem readsTo_negation {ts : List Token} {a : Expr} {k d : Nat} (h : ReadsTo .negation ts a k d) :
    ReadsTo .negation (.minus :: ts) (.negate a) 0 (d + 1) := by
  intro stop room ls rest hls _
  obtain ⟨⟨t, start⟩, ls', rfl, rfl, hls'⟩ := List.map_eq_cons_iff.mp hls
  show (_ ∧ ∃ pos, negation stop room (⟨.minus, start⟩ :: (ls' ++ rest)) = _) ∨
    (_ ∧ negation stop room (⟨.minus, start⟩ :: (ls' ++ rest)) = .ok (.negate a, rest))
  -- a minus sign takes one level of the room
  cases room with
  | zero => exact .inl ⟨Nat.succ_pos _, _, negation_minus_zero ..⟩
  | succ r =>
    rw [negation_minus_succ]
    rcases h stop r ls' rest hls' trivial with ⟨hlt, pos, hdeep⟩ | ⟨hle, hread⟩
    · have hdeep : negation stop r (ls' ++ rest) = .error (pos, .tooDeep) := hdeep
      refine .inl ⟨by omega, pos, ?_⟩
      simp only [hdeep]
    · have hread : negation stop r (ls' ++ rest) = .ok (a, rest) := hread
      refine .inr ⟨by omega, ?_⟩
      simp only [hread]

/-- An operand of one token. -/
theorem readsTo_primary_of_token {t : Token} {a : Expr}
    (h : ∀ stop room start rest, primary stop room (⟨t, start⟩ :: rest) = .ok (a, rest)) :
    ReadsTo .primary [t] a 0 0 := by
  intro stop room ls rest hls _
  obtain ⟨⟨t, start⟩, ls', rfl, rfl, hls'⟩ := List.map_eq_cons_iff.mp hls
  obtain rfl := List.map_eq_nil_iff.mp hls'
  exact .inr ⟨Nat.zero_le _, h stop room start rest⟩

theorem readsTo_brackets {ts : List Token} {a : Expr} {k d : Nat} (h : ReadsTo .sum ts a k d) :
    ReadsTo .primary (.openParen :: (ts ++ [.closeParen])) a 0 (d + 1) := by
  intro stop room ls rest hls _
  obtain ⟨⟨t, start⟩, ls', rfl, rfl, hls'⟩ := List.map_eq_cons_iff.mp hls
  obtain ⟨ls₁, ls₂, rfl, hls₁, hls₂⟩ := List.map_eq_append_iff.mp hls'
  obtain ⟨⟨t, start'⟩, ls₃, rfl, rfl, hls₃⟩ := List.map_eq_cons_iff.mp hls₂
  obtain rfl := List.map_eq_nil_iff.mp hls₃
  have happ : ⟨.openParen, start⟩ :: (ls₁ ++ [⟨.closeParen, start'⟩]) ++ rest =
      (⟨.openParen, start⟩ :: (ls₁ ++ (⟨.closeParen, start'⟩ :: rest)) : List Lexeme) := by simp
  rw [happ]
  show (_ ∧ ∃ pos, primary stop room (⟨.openParen, start⟩ :: _) = _) ∨
    (_ ∧ primary stop room (⟨.openParen, start⟩ :: _) = .ok (a, rest))
  cases room with
  | zero => exact .inl ⟨Nat.succ_pos _, _, primary_open_zero ..⟩
  | succ r =>
    rw [primary_open_succ]
    -- the closing bracket ends the sum, whatever is behind it
    have hends : Nonterminal.sum.Ends (⟨.closeParen, start'⟩ :: rest) := rfl
    rcases h stop r ls₁ (⟨.closeParen, start'⟩ :: rest) hls₁ hends with
      ⟨hlt, pos, hdeep⟩ | ⟨hle, hread⟩
    · have hdeep : sum stop r (ls₁ ++ ⟨.closeParen, start'⟩ :: rest) = .error (pos, .tooDeep) :=
        hdeep
      refine .inl ⟨by omega, pos, ?_⟩
      simp only [hdeep]
    · have hread : sum stop r (ls₁ ++ ⟨.closeParen, start'⟩ :: rest) =
          moreTerms stop (r - k) a (⟨.closeParen, start'⟩ :: rest) := hread
      have hstop : moreTerms stop (r - k) a (⟨.closeParen, start'⟩ :: rest) =
          .ok (a, ⟨.closeParen, start'⟩ :: rest) := by rw [moreTerms]; rfl
      rw [hstop] at hread
      refine .inr ⟨by omega, ?_⟩
      simp only [hread]

/-- **What derives is read**, with the tree of the derivation, exactly if its levels suffice. -/
theorem complete {n : Nonterminal} {ts : List Token} {tree : Expr} {k d : Nat}
    (h : Nests n ts tree k d) : ReadsTo n ts tree k d := by
  induction h with
  | ofProduct _ ih => exact readsTo_operand (c := .terms) ih
  | sum ha ht _ iha ihb => exact readsTo_chain (c := .terms) ha.le_length.1 iha ht ihb
  | ofNegation _ ih => exact readsTo_operand (c := .factors) ih
  | product ha ht _ iha ihb => exact readsTo_chain (c := .factors) ha.le_length.1 iha ht ihb
  | ofPrimary h ih => exact readsTo_negation_of_primary (derives_iff_nests.mpr ⟨_, _, h⟩) ih
  | negation _ ih => exact readsTo_negation ih
  | number x => exact readsTo_primary_of_token fun _ _ _ _ => by rw [primary]
  | path p => exact readsTo_primary_of_token fun _ _ _ _ => by rw [primary]
  | brackets _ ih => exact readsTo_brackets ih

/-- **A list of tokens has one tree at most.** -/
theorem Derives.unique {n : Nonterminal} {ts : List Token} {a b : Expr} (ha : Derives n ts a)
    (hb : Derives n ts b) : a = b := by
  -- with as many levels as tokens the parser comes to both trees
  have hread : ∀ {tree : Expr}, Derives n ts tree →
      n.read 0 ts.length (ts.map (⟨·, 0⟩)) = .ok (tree, []) := by
    intro tree h
    have hmap : (ts.map fun t => (⟨t, 0⟩ : Lexeme)).map Lexeme.token = ts := by
      rw [List.map_map]
      exact List.map_id ts
    have hends : n.Ends [] := by cases n <;> trivial
    obtain ⟨k, d, hn⟩ := derives_iff_nests.mp h
    rcases complete hn 0 ts.length _ [] hmap hends with ⟨hlt, -⟩ | ⟨-, hread⟩
    · exact absurd hn.le_length.2 (Nat.not_le.mpr hlt)
    · rwa [goOn_nil, List.append_nil] at hread
  have heq := (hread ha).symm.trans (hread hb)
  cases heq
  rfl

/-! ### Texts -/

/-- A tree of a list of tokens that is its only one. -/
def TreeOf (ts : List Token) (tree : Expr) : Prop :=
  Derives .sum ts tree ∧ ∀ tree', Derives .sum ts tree' → tree' = tree

theorem Derives.treeOf {ts : List Token} {tree : Expr} (h : Derives .sum ts tree) :
    TreeOf ts tree :=
  ⟨h, fun _ h' => h'.unique h⟩

/-- What is parsed has derived, with all its tokens. -/
theorem derives_of_parse {stop : Nat} {ls : List Lexeme} {tree : Expr}
    (h : parse stop ls = .ok tree) : Derives .sum (ls.map Lexeme.token) tree := by
  unfold parse at h
  split at h
  · cases h
  · next hs =>
    cases h
    obtain ⟨used, hls, hd⟩ := (sound stop maxDepth).read .sum _ _ _ hs
    rw [List.append_nil] at hls
    rwa [hls]
  · cases h

/-- **What derives is parsed, exactly if it has no more than the greatest number of levels.** -/
theorem parse_of_nests {ls : List Lexeme} {tree : Expr} {k d : Nat}
    (h : Nests .sum (ls.map Lexeme.token) tree k d) (stop : Nat) :
    (d ≤ maxDepth ∧ parse stop ls = .ok tree) ∨
      (maxDepth < d ∧ ∃ pos, parse stop ls = .error (pos, .tooDeep)) := by
  -- all the depth that there is, and nothing behind the expression
  rcases complete h stop maxDepth ls [] rfl trivial with ⟨hlt, pos, hdeep⟩ | ⟨hle, hread⟩
  · rw [List.append_nil] at hdeep
    have hdeep : sum stop maxDepth ls = .error (pos, .tooDeep) := hdeep
    refine .inr ⟨hlt, pos, ?_⟩
    rw [parse, hdeep]
  · rw [goOn_nil, List.append_nil] at hread
    have hread : sum stop maxDepth ls = .ok (tree, []) := hread
    refine .inl ⟨hle, ?_⟩
    rw [parse, hread]

/-- Tokens that open no level are parsed. -/
theorem parse_of_nests_zero {ls : List Lexeme} {tree : Expr} {k : Nat}
    (h : Nests .sum (ls.map Lexeme.token) tree k 0) (stop : Nat) : parse stop ls = .ok tree := by
  rcases parse_of_nests h stop with ⟨-, hp⟩ | ⟨hlt, -⟩
  · exact hp
  · exact absurd hlt (Nat.not_lt_zero _)

/-- A variable that stands alone is parsed. -/
theorem parse_path (stop start : Nat) (p : String) :
    parse stop [⟨.path p, start⟩] = .ok (.path p) := by
  have hn : Nests .sum ([⟨.path p, start⟩].map Lexeme.token) (.path p) 0 0 :=
    .ofProduct (.ofNegation (.ofPrimary (.path p)))
  exact parse_of_nests_zero hn stop

/-- A number that stands alone is parsed. -/
theorem parse_number (stop start : Nat) (x : Float) :
    parse stop [⟨.number x, start⟩] = .ok (.number x) := by
  have hn : Nests .sum ([⟨.number x, start⟩].map Lexeme.token) (.number x) 0 0 :=
    .ofProduct (.ofNegation (.ofPrimary (.number x)))
  exact parse_of_nests_zero hn stop

/-- A text that is a number has that for its value, whatever the variables are. -/
theorem evaluateNumber_of_number {text : String} {x : Float} {start : Nat}
    (h : Lexeme.scan text.toList = .ok [⟨.number x, start⟩]) (vars : Variables) :
    evaluateNumber text vars = .ok x := by
  have hvalue : evaluate .number text vars = .ok (.number x) := by
    rw [evaluate, h]
    dsimp only
    rw [parse_number]
    rfl
  rw [evaluateNumber, hvalue]

/-- Whether a reading says that a text is no expression. -/
def IsParseError : Except ExpressionError Value → Prop
  | .error (.parse _ _ _) => True
  | _ => False

theorem not_parseError_coerce (kind : ValueKind) (v : Value) : ¬ IsParseError (coerce kind v) := by
  cases kind with
  | any | text => exact id
  | number | boolean =>
    unfold coerce
    dsimp only
    split <;> exact id

theorem not_parseError_eval (vars : Variables) (e : Expr) {err : ExpressionError}
    (h : e.eval vars = .error err) : ¬ IsParseError (.error err) := by
  induction e generalizing err with
  | number x => cases h
  | path p =>
    rw [Expr.eval, operand] at h
    split at h
    · cases h; exact id
    · split at h <;> cases h
      exact id
  | negate e ih =>
    rw [Expr.eval] at h
    split at h
    · next heq => cases h; exact ih heq
    · cases h
  | binary op left right ihl ihr =>
    rw [Expr.eval] at h
    split at h
    · next heq => cases h; exact ihl heq
    · split at h
      · next heq => cases h; exact ihr heq
      · -- of the operators only the division fails
        cases op <;> rw [BinaryOp.apply] at h
        case divide => split at h <;> cases h; exact id
        all_goals cases h

/-- What becomes of a text with these tokens, whatever the variables and the kind are. -/
inductive Verdict (text : String) (ls : List Lexeme) : Prop
  /-- The tokens derive with so many levels, and the text is parsed to their tree. -/
  | parsed {tree : Expr} {k d : Nat} (ht : TreeOf (ls.map Lexeme.token) tree)
      (hn : Nests .sum (ls.map Lexeme.token) tree k d) (hd : d ≤ maxDepth)
      (hp : parse text.utf8ByteSize ls = .ok tree)
      (he : ∀ kind vars, ¬ IsParseError (evaluate kind text vars))
  /-- The tokens derive, but with more levels than may be open. -/
  | tooDeep {tree : Expr} {k d pos : Nat} (ht : TreeOf (ls.map Lexeme.token) tree)
      (hn : Nests .sum (ls.map Lexeme.token) tree k d) (hd : maxDepth < d)
      (hp : parse text.utf8ByteSize ls = .error (pos, .tooDeep))
      (he : ∀ kind vars, evaluate kind text vars = .error (.parse text pos .tooDeep))
  /-- The tokens do not derive. -/
  | noExpression {pos : Nat} {fault : Fault}
      (hd : ∀ tree, ¬ Derives .sum (ls.map Lexeme.token) tree)
      (he : ∀ kind vars, evaluate kind text vars = .error (.parse text pos fault))

section Text

variable {text : String} {ls : List Lexeme} (hs : Lexeme.scan text.toList = .ok ls)
include hs

theorem evaluate_of_fault {pos : Nat} {fault : Fault}
    (h : parse text.utf8ByteSize ls = .error (pos, fault)) (kind : ValueKind) (vars : Variables) :
    evaluate kind text vars = .error (.parse text pos fault) := by
  unfold evaluate
  rw [hs]
  split
  · next heq => cases heq
  · -- a variable that stands alone is not parsed, but it would be without a fault
    next path start heq =>
    cases heq
    rw [parse_path] at h
    cases h
  · next ts _ heq =>
    cases heq
    rw [h]

theorem not_parseError_of_tree {tree : Expr} (h : parse text.utf8ByteSize ls = .ok tree)
    (kind : ValueKind) (vars : Variables) : ¬ IsParseError (evaluate kind text vars) := by
  unfold evaluate
  rw [hs]
  -- a variable that stands alone is looked up, and else the tree is evaluated
  split
  · next heq => cases heq
  · split
    · exact id
    · exact not_parseError_coerce kind _
  · next ts _ heq =>
    cases heq
    rw [h]
    dsimp only
    split
    · next heq => exact not_parseError_eval vars tree heq
    · exact not_parseError_coerce kind _

/-- **The parser recognises its grammar.** A text that can be derived has one tree, and it is parsed
to that tree or is too deep; a text that cannot is no expression. -/
theorem reads_grammar : Verdict text ls := by
  by_cases hd : ∃ tree, Derives .sum (ls.map Lexeme.token) tree
  · -- its levels decide whether it is too deep
    obtain ⟨tree, hd⟩ := hd
    obtain ⟨k, d, hn⟩ := derives_iff_nests.mp hd
    rcases parse_of_nests hn text.utf8ByteSize with ⟨hle, hp⟩ | ⟨hlt, pos, hp⟩
    · exact .parsed hd.treeOf hn hle hp (not_parseError_of_tree hs hp)
    · exact .tooDeep hd.treeOf hn hlt hp (evaluate_of_fault hs hp)
  · have hd : ∀ tree, ¬ Derives .sum (ls.map Lexeme.token) tree := fun tree h => hd ⟨tree, h⟩
    cases hp : parse text.utf8ByteSize ls with
    -- what is parsed derives, so there is a fault
    | ok tree => exact absurd (derives_of_parse hp) (hd tree)
    | error e => exact .noExpression hd (evaluate_of_fault hs hp)

end Text

/-- Subtractions associate to the left, and a sign binds more tightly than they do. -/
theorem reads_subtractions :
    ∃ ls, Lexeme.scan "{{a}} - -{{b}} - {{c}}".toList = .ok ls ∧
      parse "{{a}} - -{{b}} - {{c}}".utf8ByteSize ls =
        .ok (.binary .subtract (.binary .subtract (.path "a") (.negate (.path "b"))) (.path "c")) ∧
      Verdict "{{a}} - -{{b}} - {{c}}" ls := by
  have hs : Lexeme.scan "{{a}} - -{{b}} - {{c}}".toList =
      .ok [⟨.path "a", 0⟩, ⟨.minus, 6⟩, ⟨.minus, 8⟩, ⟨.path "b", 9⟩, ⟨.minus, 15⟩,
        ⟨.path "c", 17⟩] := by cbv
  exact ⟨_, hs, by cbv, reads_grammar hs⟩

end Flowgraph.Expression
