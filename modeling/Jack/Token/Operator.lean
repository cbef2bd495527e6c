import Jack.Token.Symbol

/-! # Operators

The symbols that combine values. The minus sign is both a binary and a unary
operator; which of the two it is depends on where it stands.
-/

namespace Jack

/-- An operator between two terms. -/
inductive BinaryOp where
  | add | subtract | multiply | divide | and | or | less | greater | equal
  deriving Repr, DecidableEq

/-- An operator before a term. -/
inductive UnaryOp where
  | negate | not
  deriving Repr, DecidableEq

namespace BinaryOp

/-- How a binary operator is written. -/
def symbol : BinaryOp → Symbol
  | .add => .plus
  | .subtract => .minus
  | .multiply => .star
  | .divide => .slash
  | .and => .ampersand
  | .or => .bar
  | .less => .less
  | .greater => .greater
  | .equal => .equals

/-- The binary operator a symbol stands for. -/
def ofSymbol? : Symbol → Option BinaryOp
  | .plus => some .add
  | .minus => some .subtract
  | .star => some .multiply
  | .slash => some .divide
  | .ampersand => some .and
  | .bar => some .or
  | .less => some .less
  | .greater => some .greater
  | .equals => some .equal
  | _ => none

theorem ofSymbol?_eq_some_iff {s : Symbol} {op : BinaryOp} :
    ofSymbol? s = some op ↔ s = op.symbol := by
  cases s <;> cases op <;> decide

end BinaryOp

namespace UnaryOp

/-- How a unary operator is written. -/
def symbol : UnaryOp → Symbol
  | .negate => .minus
  | .not => .tilde

/-- The unary operator a symbol stands for. -/
def ofSymbol? : Symbol → Option UnaryOp
  | .minus => some .negate
  | .tilde => some .not
  | _ => none

theorem ofSymbol?_eq_some_iff {s : Symbol} {op : UnaryOp} :
    ofSymbol? s = some op ↔ s = op.symbol := by
  cases s <;> cases op <;> decide

end UnaryOp

end Jack
