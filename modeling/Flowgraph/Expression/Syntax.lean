import Flowgraph.Expression.Token

/-!
# Expression trees

The grammar, with both levels of binary operators associating to the left:

    sum     := product (('+' | '-') product)*
    product := negation (('*' | '/') negation)*
    negation := '-' negation | primary
    primary := NUMBER | VARIABLE | '(' sum ')'

`parse` reads a sum that takes all tokens. While it reads, every operator and every bracket opens a
level: a bracket and a sign until their operand ends, a binary operator until the chain of its
operators ends. At most `maxDepth` levels may be open, which bounds the recursion.
-/

namespace Flowgraph.Expression

/-- What may stand between two operands. -/
inductive BinaryOp where
  | add
  | subtract
  | multiply
  | divide
deriving DecidableEq

/-- The tree of an expression. -/
inductive Expr where
  | number (x : Float)
  | path (path : String)
  | negate (e : Expr)
  | binary (op : BinaryOp) (left right : Expr)

/-- The operators that join the products of a sum. -/
def BinaryOp.ofSumToken? : Token → Option BinaryOp
  | .plus => some .add
  | .minus => some .subtract
  | _ => none

/-- The operators that join the factors of a product. -/
def BinaryOp.ofProductToken? : Token → Option BinaryOp
  | .star => some .multiply
  | .slash => some .divide
  | _ => none

/-- Where the next token starts, or where the text ends. -/
def position (stop : Nat) : List Lexeme → Nat
  | [] => stop
  | l :: _ => l.start

/-! ### Reading

Every function takes the position at which the text ends, the number of levels that may still be
opened, and the tokens; it returns what it read and the tokens behind it. -/

mutual

/-- A sum: products with signs between them, grouped to the left. -/
def sum (stop room : Nat) (ts : List Lexeme) : Located (Expr × List Lexeme) :=
  match product stop room ts with
  | .error e => .error e
  | .ok (left, rest) => moreTerms stop room left rest
termination_by (room, 4)

/-- Reads the operators of a sum and the products behind them. -/
def moreTerms (stop room : Nat) (left : Expr) (ts : List Lexeme) : Located (Expr × List Lexeme) :=
  match ts with
  | [] => .ok (left, [])
  | l :: rest =>
    match BinaryOp.ofSumToken? l.token with
    | none => .ok (left, l :: rest)
    | some op =>
      match room with
      | 0 => .error (position stop rest, .tooDeep)
      | room + 1 =>
        match product stop room rest with
        | .error e => .error e
        -- the level stays open: every further operator of the chain takes one more
        | .ok (right, rest) => moreTerms stop room (.binary op left right) rest
termination_by (room, 0)

/-- A product: operands with signs between them, grouped to the left. -/
def product (stop room : Nat) (ts : List Lexeme) : Located (Expr × List Lexeme) :=
  match negation stop room ts with
  | .error e => .error e
  | .ok (left, rest) => moreFactors stop room left rest
termination_by (room, 3)

/-- What follows the first operand of a product. -/
def moreFactors (stop room : Nat) (left : Expr) (ts : List Lexeme) : Located (Expr × List Lexeme) :=
  match ts with
  | [] => .ok (left, [])
  | l :: rest =>
    match BinaryOp.ofProductToken? l.token with
    | none => .ok (left, l :: rest)
    | some op =>
      match room with
      | 0 => .error (position stop rest, .tooDeep)
      | room + 1 =>
        match negation stop room rest with
        | .error e => .error e
        | .ok (right, rest) => moreFactors stop room (.binary op left right) rest
termination_by (room, 0)

/-- Reads a factor: signs, then an operand. -/
def negation (stop room : Nat) (ts : List Lexeme) : Located (Expr × List Lexeme) :=
  match ts with
  | ⟨.minus, _⟩ :: rest =>
    match room with
    | 0 => .error (position stop rest, .tooDeep)
    | room + 1 =>
      match negation stop room rest with
      | .error e => .error e
      | .ok (e, rest) => .ok (.negate e, rest)
  | ts => primary stop room ts
termination_by (room, 2)

/-- Reads an operand: a number, a variable, or a sum in brackets. -/
def primary (stop room : Nat) (ts : List Lexeme) : Located (Expr × List Lexeme) :=
  match ts with
  | [] => .error (stop, .unexpectedEnd)
  | ⟨.number x, _⟩ :: rest => .ok (.number x, rest)
  | ⟨.path path, _⟩ :: rest => .ok (.path path, rest)
  | ⟨.openParen, _⟩ :: rest =>
    match room with
    | 0 => .error (position stop rest, .tooDeep)
    | room + 1 =>
      match sum stop room rest with
      | .error e => .error e
      -- a bracket leaves no node in the tree
      | .ok (e, ⟨.closeParen, _⟩ :: rest) => .ok (e, rest)
      | .ok (_, rest) => .error (position stop rest, .expectedClose)
  | ⟨token, start⟩ :: _ => .error (start, .unexpectedToken token)
termination_by (room, 1)

end

/-- The tree of a list of tokens, all of which have to belong to it. -/
def parse (stop : Nat) (ts : List Lexeme) : Located Expr :=
  match sum stop maxDepth ts with
  | .error e => .error e
  | .ok (e, []) => .ok e
  | .ok (_, l :: _) => .error (l.start, .unexpectedToken l.token)

end Flowgraph.Expression
