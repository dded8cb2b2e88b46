import ExprMachine.Opcode
import ExprMachine.Token.Basic

/-! The operators of expressions: how tightly each binds, which mark spells it, and the opcodes that
carry it out on operands already on the stack. -/
namespace ExprMachine

inductive UnaryOp where
  | negate
  | not
  deriving DecidableEq, Repr

namespace UnaryOp

def ofMark? : Mark → Option UnaryOp
  | .minus => some negate
  | .bang => some not
  | _ => none

def opcode : UnaryOp → Opcode
  | negate => .negate
  | not => .not

end UnaryOp

inductive BinaryOp where
  | add | subtract | multiply | divide
  | equal | notEqual | greater | greaterEqual | less | lessEqual
  deriving DecidableEq, Repr

namespace BinaryOp

def ofMark? : Mark → Option BinaryOp
  | .plus => some add
  | .minus => some subtract
  | .star => some multiply
  | .slash => some divide
  | .equalEqual => some equal
  | .bangEqual => some notEqual
  | .greater => some greater
  | .greaterEqual => some greaterEqual
  | .less => some less
  | .lessEqual => some lessEqual
  | _ => none

def strength : BinaryOp → Nat
  | equal | notEqual => 1
  | greater | greaterEqual | less | lessEqual => 2
  | add | subtract => 3
  | multiply | divide => 4

def opcodes : BinaryOp → List Opcode
  -- Three comparisons are the negation of another one.
  | add => [.add]
  | subtract => [.subtract]
  | multiply => [.multiply]
  | divide => [.divide]
  | equal => [.equal]
  | notEqual => [.equal, .not]
  | greater => [.greater]
  | greaterEqual => [.less, .not]
  | less => [.less]
  | lessEqual => [.greater, .not]

end BinaryOp
end ExprMachine
