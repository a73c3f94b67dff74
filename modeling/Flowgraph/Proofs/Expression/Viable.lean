import Flowgraph.Proofs.Expression.Recognition

/-!
# Where the parser finds a fault

A list of tokens that a sentence of the grammar begins with is viable (`Begins`). The parser reads
from the left and never looks further than one token ahead, so it stops as soon as what it has seen
is no longer viable: at the first token with which no sentence goes on.

To see that none does, the grammar is followed by a counter (`Stand`), which knows how many brackets
are open and whether an operand is due. It gets through every sentence (`Derives.after`), and it is
stuck where the parser stops.

* `outcome` — what the parser reads, or where it stops.
* `parse_error` — a fault of the parser is at the first token that is not viable.
-/

namespace Flowgraph.Expression

/-- A list of tokens goes on to one that a nonterminal derives. -/
def Begins (n : Nonterminal) (ts : List Token) : Prop := ∃ us tree, Derives n (ts ++ us) tree

theorem Derives.begins {n : Nonterminal} {ts : List Token} {tree : Expr} (h : Derives n ts tree) :
    Begins n ts :=
  ⟨[], tree, by rwa [List.append_nil]⟩

/-! ### Following the grammar -/

/-- Where a reader of tokens stands, inside of so many brackets. -/
inductive Stand where
  /-- In front of an operand. -/
  | before (depth : Nat)
  /-- Behind an operand. -/
  | behind (depth : Nat)

namespace Stand

/-- Goes on over a token, if it may stand here. -/
def next : Stand → Token → Option Stand
  | before k, .number _ => some (behind k)
  | before k, .path _ => some (behind k)
  | before k, .minus => some (before k)
  | before k, .openParen => some (before (k + 1))
  | behind k, .plus => some (before k)
  | behind k, .minus => some (before k)
  | behind k, .star => some (before k)
  | behind k, .slash => some (before k)
  | behind (k + 1), .closeParen => some (behind k)
  | _, _ => none

/-- Goes on over a list of tokens. -/
def after (s : Stand) (ts : List Token) : Option Stand := ts.foldlM next s

theorem after_cons (s : Stand) (t : Token) (ts : List Token) :
    s.after (t :: ts) = (s.next t).bind fun s' => s'.after ts := List.foldlM_cons

theorem after_append (s : Stand) (ts us : List Token) :
    s.after (ts ++ us) = (s.after ts).bind fun s' => s'.after us := List.foldlM_append

theorem next_of_op {c : Chain} {t : Token} {op : BinaryOp} (h : c.op? t = some op) (k : Nat) :
    (behind k).next t = some (before k) := by
  cases c with
  | terms =>
    have h : BinaryOp.ofSumToken? t = some op := h
    cases t <;> first | rfl | cases h
  | factors =>
    have h : BinaryOp.ofProductToken? t = some op := h
    cases t <;> first | rfl | cases h

/-- Behind an operand only the operators and a closing bracket may stand. -/
theorem next_behind_of_none {t : Token} (hsum : BinaryOp.ofSumToken? t = none)
    (hproduct : BinaryOp.ofProductToken? t = none) (hclose : t ≠ .closeParen) (k : Nat) :
    (behind k).next t = none := by
  cases t with
  | number _ | path _ | openParen => rfl
  | plus | minus => cases hsum
  | star | slash => cases hproduct
  | closeParen => exact absurd rfl hclose

/-- An operator takes a reader to the next operand. -/
theorem after_chain {c : Chain} {ts us : List Token} {t : Token} {op : BinaryOp} {k : Nat}
    (hts : (before k).after ts = some (behind k)) (ht : c.op? t = some op) :
    (before k).after (ts ++ t :: us) = (before k).after us := by
  rw [after_append, hts, Option.bind_some, after_cons, next_of_op ht, Option.bind_some]

end Stand

/-- **A reader gets through what derives.** -/
theorem Derives.after {n : Nonterminal} {ts : List Token} {tree : Expr} (h : Derives n ts tree)
    (k : Nat) : (Stand.before k).after ts = some (.behind k) := by
  induction h generalizing k with
  | ofProduct _ ih => exact ih k
  | sum _ ht _ iha ihb => exact (Stand.after_chain (c := .terms) (iha k) ht).trans (ihb k)
  | ofNegation _ ih => exact ih k
  | product _ ht _ iha ihb => exact (Stand.after_chain (c := .factors) (iha k) ht).trans (ihb k)
  | ofPrimary _ ih => exact ih k
  | negation _ ih => exact ih k
  | number x => rfl
  | path p => rfl
  -- inside the brackets one more is open
  | brackets _ ih =>
    rw [Stand.after_cons]
    show (Stand.before (k + 1)).after _ = _
    rw [Stand.after_append, ih (k + 1)]
    rfl

/-- Where a reader is stuck, no sentence goes on. -/
theorem not_begins_of_stuck {n : Nonterminal} {ts : List Token} {t : Token} {s : Stand} {k : Nat}
    (hts : (Stand.before k).after ts = some s) (ht : s.next t = none) :
    ¬ Begins n (ts ++ [t]) := by
  rintro ⟨us, tree, hd⟩
  -- what begins with these tokens would have to come past the last one
  have hafter := hd.after k
  rw [List.append_assoc, Stand.after_append, hts, Option.bind_some, List.singleton_append,
    Stand.after_cons, ht] at hafter
  cases hafter

/-! ### Stopping -/

/-- Behind the tokens that have been used, a nonterminal may go on, but not with the rest. -/
structure Halt (n : Nonterminal) (used rest : List Lexeme) : Prop where
  begins : Begins n (used.map Lexeme.token)
  blocked : ∀ k, ∃ s, (Stand.before k).after (used.map Lexeme.token) = some s ∧
    ∀ l ls, rest = l :: ls → s.next l.token = none

namespace Halt

variable {used rest : List Lexeme}

/-- In front of an operand. -/
theorem operand (h : ∀ k l ls, rest = l :: ls → (Stand.before k).next l.token = none) :
    Halt .primary [] rest where
  begins := ⟨[.path "a"], _, .path "a"⟩
  blocked k := ⟨.before k, rfl, h k⟩

theorem ofOperand {c : Chain} (h : Halt c.operand used rest) : Halt c.whole used rest where
  begins := by
    obtain ⟨us, tree, hd⟩ := h.begins
    exact ⟨us, tree, hd.ofOperand⟩
  blocked := h.blocked

theorem ofPrimary (h : Halt .primary used rest) : Halt .negation used rest where
  begins := by
    obtain ⟨us, tree, hd⟩ := h.begins
    exact ⟨us, tree, .ofPrimary hd⟩
  blocked := h.blocked

theorem negation (start : Nat) (h : Halt .negation used rest) :
    Halt .negation (⟨.minus, start⟩ :: used) rest where
  begins := by
    obtain ⟨us, tree, hd⟩ := h.begins
    exact ⟨us, _, .negation hd⟩
  blocked := h.blocked

theorem chain {c : Chain} {used' : List Lexeme} {left : Expr} {l : Lexeme} {op : BinaryOp}
    (hleft : Derives c.whole (used.map Lexeme.token) left) (hop : c.op? l.token = some op)
    (h : Halt c.operand used' rest) : Halt c.whole (used ++ l :: used') rest where
  begins := by
    obtain ⟨us, tree, hd⟩ := h.begins
    refine ⟨us, .binary op left tree, ?_⟩
    rw [List.map_append, List.map_cons, List.append_assoc, List.cons_append]
    exact hleft.chain hop hd
  blocked k := by
    rw [List.map_append, List.map_cons, Stand.after_chain (hleft.after k) hop]
    exact h.blocked k

/-- Inside of brackets. -/
theorem inside (start : Nat) (h : Halt .sum used rest) :
    Halt .primary (⟨.openParen, start⟩ :: used) rest where
  begins := by
    obtain ⟨us, tree, hd⟩ := h.begins
    -- the bracket is closed behind what completes the inside
    refine ⟨us ++ [.closeParen], tree, ?_⟩
    rw [List.map_cons, List.cons_append, ← List.append_assoc]
    exact .brackets hd
  blocked k := h.blocked (k + 1)

/-- In front of a closing bracket. -/
theorem close (start : Nat) {tree : Expr} (hd : Derives .sum (used.map Lexeme.token) tree)
    (h : ∀ k l ls, rest = l :: ls → (Stand.behind k).next l.token = none) :
    Halt .primary (⟨.openParen, start⟩ :: used) rest where
  begins := ⟨[.closeParen], tree, .brackets hd⟩
  blocked k := ⟨.behind (k + 1), hd.after (k + 1), h (k + 1)⟩

end Halt

/-- What may be left behind a tree of a nonterminal that has been read. -/
def Nonterminal.Leaves : Nonterminal → List Lexeme → Prop
  | .sum, l :: _ => BinaryOp.ofSumToken? l.token = none ∧ BinaryOp.ofProductToken? l.token = none
  | .product, l :: _ => BinaryOp.ofProductToken? l.token = none
  | _, _ => True

/-- A chain leaves what its last operand left, if no operator of it is in front. -/
theorem leaves_whole {c : Chain} {l : Lexeme} {rest : List Lexeme}
    (hleaves : c.operand.Leaves (l :: rest)) (hop : c.op? l.token = none) :
    c.whole.Leaves (l :: rest) := by
  cases c with
  | terms => exact ⟨hop, hleaves⟩
  | factors => exact hop

theorem leaves_nil (n : Nonterminal) : n.Leaves [] := by cases n <;> exact trivial

/-- What the reading of a nonterminal comes to. -/
inductive Outcome (n : Nonterminal) (stop : Nat) (ls : List Lexeme) :
    Located (Expr × List Lexeme) → Prop
  | reads {tree : Expr} {rest : List Lexeme} (h : Reads n ls tree rest) (hrest : n.Leaves rest) :
      Outcome n stop ls (.ok (tree, rest))
  | tooDeep (pos : Nat) : Outcome n stop ls (.error (pos, .tooDeep))
  | halts (used rest : List Lexeme) (fault : Fault) (hls : ls = used ++ rest)
      (h : Halt n used rest) : Outcome n stop ls (.error (position stop rest, fault))

/-- With so many levels, the reading comes to one of these outcomes, also behind tokens that have
been read. -/
structure OutcomeAt (stop room : Nat) : Prop where
  read : ∀ n ls, n ≠ .primary → Outcome n stop ls (n.read stop room ls)
  goOn : ∀ (c : Chain) left ls used, Derives c.whole (used.map Lexeme.token) left →
    c.operand.Leaves ls → Outcome c.whole stop (used ++ ls) (c.whole.goOn stop room left ls)

section Outcome

variable {stop room : Nat} (below : ∀ r, room = r + 1 → OutcomeAt stop r)
include below

theorem brackets_outcome (start : Nat) (ls : List Lexeme) :
    Outcome .primary stop (⟨.openParen, start⟩ :: ls)
      (primary stop room (⟨.openParen, start⟩ :: ls)) := by
  cases room with
  | zero =>
    rw [primary_open_zero]
    exact .tooDeep _
  | succ r =>
    rw [primary_open_succ]
    have hsum : Outcome .sum stop ls (sum stop r ls) := (below r rfl).read .sum ls nofun
    generalize sum stop r ls = result at hsum
    cases hsum with
    | tooDeep pos => exact .tooDeep pos
    | halts used rest fault hls h =>
      subst hls
      exact .halts (⟨.openParen, start⟩ :: used) rest fault rfl (h.inside start)
    | @reads tree rest h hrest =>
      obtain ⟨used, rfl, hd⟩ := h
      -- behind the inner expression stand nothing, a closing bracket or something else
      split
      · next heq => cases heq
      · next start' rest' heq =>
        cases heq
        refine .reads
          ⟨⟨.openParen, start⟩ :: (used ++ [⟨.closeParen, start'⟩]), by simp, ?_⟩ trivial
        rw [List.map_cons, List.map_append]
        exact .brackets hd
      · next hne heq =>
        cases heq
        refine .halts (⟨.openParen, start⟩ :: used) rest _ rfl (.close start hd ?_)
        rintro k ⟨t, start'⟩ ls rfl
        exact Stand.next_behind_of_none hrest.1 hrest.2 (fun h => hne start' ls (h ▸ rfl)) k

/-- An operand begins with no sign. -/
theorem primary_outcome {ls : List Lexeme} (hne : ∀ start rest, ls ≠ ⟨.minus, start⟩ :: rest) :
    Outcome .primary stop ls (primary stop room ls) := by
  cases ls with
  | nil =>
    rw [primary]
    refine .halts [] [] _ rfl (.operand fun k l ls heq => ?_)
    cases heq
  | cons l rest =>
    obtain ⟨t, start⟩ := l
    -- a token that no expression begins with halts the reader where it stands
    have hhalt (h : ∀ k, (Stand.before k).next t = none) :
        Outcome .primary stop (⟨t, start⟩ :: rest) (.error (start, .unexpectedToken t)) := by
      refine .halts [] (⟨t, start⟩ :: rest) _ rfl (.operand fun k l ls heq => ?_)
      cases heq
      exact h k
    cases t with
    | number x =>
      rw [primary]
      exact .reads ⟨[_], rfl, .number x⟩ trivial
    | path p =>
      rw [primary]
      exact .reads ⟨[_], rfl, .path p⟩ trivial
    | openParen => exact brackets_outcome below start rest
    | minus => exact absurd rfl (hne start rest)
    | plus | star | slash | closeParen =>
      rw [primary]
      · exact hhalt fun _ => rfl
      all_goals simp

theorem negation_outcome (ls : List Lexeme) :
    Outcome .negation stop ls (negation stop room ls) := by
  -- a sign leads to an operand with less room, anything else is an operand itself
  by_cases hminus : ∃ start rest, ls = ⟨.minus, start⟩ :: rest
  · obtain ⟨start, rest, rfl⟩ := hminus
    cases room with
    | zero =>
      rw [negation_minus_zero]
      exact .tooDeep _
    | succ r =>
      rw [negation_minus_succ]
      have hn : Outcome .negation stop rest (negation stop r rest) :=
        (below r rfl).read .negation rest nofun
      generalize negation stop r rest = result at hn
      cases hn with
      | tooDeep pos => exact .tooDeep pos
      | halts used rest' fault hls h =>
        subst hls
        exact .halts (⟨.minus, start⟩ :: used) rest' fault rfl (h.negation start)
      | reads h hrest =>
        obtain ⟨used, rfl, hd⟩ := h
        exact .reads ⟨⟨.minus, start⟩ :: used, rfl, .negation hd⟩ trivial
  · have hne : ∀ start rest, ls ≠ ⟨.minus, start⟩ :: rest :=
      fun start rest h => hminus ⟨start, rest, h⟩
    have hp : Outcome .primary stop ls (primary stop room ls) := primary_outcome below hne
    rw [negation]
    · generalize primary stop room ls = result at hp
      cases hp with
      | tooDeep pos => exact .tooDeep pos
      | halts used rest fault hls h => exact .halts used rest fault hls h.ofPrimary
      | reads h hrest =>
        obtain ⟨used, hls, hd⟩ := h
        exact .reads ⟨used, hls, .ofPrimary hd⟩ trivial
    · exact hne

/-- A chain that has been read up to here goes on to an outcome. -/
theorem goOn_outcome {c : Chain} {left : Expr} {ls used : List Lexeme}
    (hleft : Derives c.whole (used.map Lexeme.token) left) (hleaves : c.operand.Leaves ls) :
    Outcome c.whole stop (used ++ ls) (c.whole.goOn stop room left ls) := by
  cases ls with
  | nil =>
    rw [goOn_nil]
    exact .reads ⟨used, rfl, hleft⟩ (leaves_nil _)
  | cons l ls =>
    cases hop : c.op? l.token with
    | none =>
      rw [Chain.goOn_of_none _ _ _ _ hop]
      exact .reads ⟨used, rfl, hleft⟩ (leaves_whole hleaves hop)
    | some op =>
      cases room with
      | zero =>
        rw [Chain.goOn_zero _ _ _ hop]
        exact .tooDeep _
      | succ r =>
        rw [Chain.goOn_succ _ _ _ _ hop]
        have hn : Outcome c.operand stop ls (c.operand.read stop r ls) :=
          (below r rfl).read c.operand ls (by cases c <;> nofun)
        generalize c.operand.read stop r ls = result at hn
        cases hn with
        | tooDeep pos => exact .tooDeep pos
        | halts used' rest fault hls h =>
          subst hls
          exact .halts (used ++ l :: used') rest fault (by simp) (h.chain hleft hop)
        | @reads right rest h hrest =>
          obtain ⟨used', rfl, hright⟩ := h
          -- what has been read so far is the left operand of what comes next
          have hd : Derives c.whole ((used ++ l :: used').map Lexeme.token)
              (.binary op left right) := by
            rw [List.map_append, List.map_cons]
            exact hleft.chain hop hright
          have hgo := (below r rfl).goOn c _ _ _ hd hrest
          rwa [List.append_assoc, List.cons_append] at hgo

theorem whole_outcome {c : Chain} {ls : List Lexeme}
    (hoperand : Outcome c.operand stop ls (c.operand.read stop room ls)) :
    Outcome c.whole stop ls (c.whole.read stop room ls) := by
  rw [Chain.read_whole]
  generalize c.operand.read stop room ls = result at hoperand
  cases hoperand with
  | tooDeep pos => exact .tooDeep pos
  -- where the first operand halts the whole does
  | halts used rest fault hls h => exact .halts used rest fault hls h.ofOperand
  | reads h hrest =>
    obtain ⟨used, rfl, hd⟩ := h
    exact goOn_outcome below hd.ofOperand hrest

theorem outcomeAt_of_below : OutcomeAt stop room where
  read n ls hn := by
    have hproduct : Outcome .product stop ls (product stop room ls) :=
      whole_outcome (c := .factors) below (negation_outcome below ls)
    cases n with
    | sum => exact whole_outcome (c := .terms) below hproduct
    | product => exact hproduct
    | negation => exact negation_outcome below ls
    -- what a primary comes to is stated apart
    | primary => exact absurd rfl hn
  goOn c left ls used hleft hleaves := goOn_outcome below hleft hleaves

end Outcome

/-- **The parser stops at what is not viable**, with any number of levels. -/
theorem outcome (stop room : Nat) : OutcomeAt stop room := by
  induction room with
  | zero => exact outcomeAt_of_below nofun
  | succ room ih => exact outcomeAt_of_below fun r hr => Nat.succ.inj hr ▸ ih

/-- **A fault of the parser is at the first token that is not viable.** The tokens before it go on
to a sentence, but not together with it; and if they are all the tokens, they are none. -/
theorem parse_error {stop pos : Nat} {ls : List Lexeme} {fault : Fault}
    (h : parse stop ls = .error (pos, fault)) (hf : fault ≠ .tooDeep) :
    ∃ used rest, ls = used ++ rest ∧ pos = position stop rest ∧
      Begins .sum (used.map Lexeme.token) ∧
      (∀ l ls', rest = l :: ls' → ¬ Begins .sum (used.map Lexeme.token ++ [l.token])) ∧
      ∀ tree, ¬ Derives .sum (ls.map Lexeme.token) tree := by
  have hnot : ∀ tree, ¬ Derives .sum (ls.map Lexeme.token) tree := by
    intro tree hd
    obtain ⟨k, d, hn⟩ := derives_iff_nests.mp hd
    rcases parse_of_nests hn stop with ⟨-, hp⟩ | ⟨-, pos', hp⟩
    · rw [hp] at h
      cases h
    · rw [hp] at h
      cases h
      exact hf rfl
  have hhalt : ∀ {used rest}, Halt .sum used rest →
      ∀ l ls', rest = l :: ls' → ¬ Begins .sum (used.map Lexeme.token ++ [l.token]) := by
    intro used rest h l ls' heq
    obtain ⟨s, hs, hnext⟩ := h.blocked 0
    exact not_begins_of_stuck hs (hnext l ls' heq)
  have hsum : Outcome .sum stop ls (sum stop maxDepth ls) :=
    (outcome stop maxDepth).read .sum ls nofun
  rw [parse] at h
  generalize sum stop maxDepth ls = result at hsum h
  cases hsum with
  | tooDeep pos =>
    cases h
    exact absurd rfl hf
  | halts used rest fault hls hh =>
    cases h
    exact ⟨used, rest, hls, rfl, hh.begins, hhalt hh, hnot⟩
  | @reads tree rest hr hrest =>
    obtain ⟨used, rfl, hd⟩ := hr
    cases rest with
    | nil => cases h
    | cons l rest =>
      cases h
      refine ⟨used, l :: rest, rfl, rfl, hd.begins, ?_, hnot⟩
      intro _ _ heq
      cases heq
      -- behind the whole sum no bracket is open that could be closed
      refine not_begins_of_stuck (hd.after 0) ?_
      by_cases hclose : l.token = .closeParen
      · rw [hclose]
        rfl
      · exact Stand.next_behind_of_none hrest.1 hrest.2 hclose 0

end Flowgraph.Expression
