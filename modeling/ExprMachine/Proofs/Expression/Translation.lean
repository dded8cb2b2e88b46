import ExprMachine.Chunk.Compilation
import ExprMachine.Proofs.Expression.Grammar

/-! The post-order translation of a tree: operands first, then the opcodes of their operator, which
carry the line of the last token before them. Parentheses leave nothing but their line. -/
namespace ExprMachine

namespace Token

def isPooled (t : Token) : Bool :=
  match t.kind with
  | .number | .string => true
  | _ => false

def literal (t : Token) : Value :=
  match t.kind with
  | .number => .number ((Number.ofLiteral? t.lexeme).getD .infinity)
  | .string => .string ((t.lexeme.drop 1).dropLast)
  | .keyword .true => .bool true
  | .keyword .false => .bool false
  | _ => .nil

def instruction (t : Token) (pooled : Nat) : Instruction :=
  match t.kind with
  | .keyword .true => .plain .true
  | .keyword .false => .plain .false
  | .keyword .nil => .plain .nil
  | _ => .constant pooled

theorem pooledInstruction {t : Token} (inPool : t.isPooled = true) (pooled : Nat) :
    t.instruction pooled = .constant pooled := by
  unfold isPooled at inPool
  unfold instruction
  split at inPool <;> simp_all

def words : List (Opcode × Value) := [(.true, .bool true), (.false, .bool false), (.nil, .nil)]

theorem wordInstruction {t : Token} (kind : Grammar.isLiteral t.kind = true)
    (unpooled : ¬ t.isPooled = true) :
    ∃ word ∈ words, t.literal = word.2 ∧ ∀ pooled, t.instruction pooled = .plain word.1 := by
  unfold Grammar.isLiteral at kind
  unfold isPooled at unpooled
  unfold literal instruction
  split at kind
  · next number => simp [number] at unpooled
  · next string => simp [string] at unpooled
  · next word => exact ⟨(.true, .bool true), by decide, by simp [word]⟩
  · next word => exact ⟨(.false, .bool false), by decide, by simp [word]⟩
  · next word => exact ⟨(.nil, .nil), by decide, by simp [word]⟩
  · contradiction

end Token

namespace Mark

def operation : Mark → List Opcode
  | plus => [.add]
  | minus => [.subtract]
  | star => [.multiply]
  | slash => [.divide]
  | equalEqual => [.equal]
  | bangEqual => [.equal, .not]
  | greater => [.greater]
  | greaterEqual => [.less, .not]
  | less => [.less]
  | lessEqual => [.greater, .not]
  | _ => []

def signOperation : Mark → List Opcode
  | minus => [.negate]
  | bang => [.not]
  | _ => []

theorem binaryOperator {m op} (spelled : BinaryOp.ofMark? m = some op) (s : Grammar.Stratum) :
    op.opcodes = m.operation ∧ (m ∈ s.marks ↔ op.strength = s.strength) := by
  cases m <;> simp only [BinaryOp.ofMark?, Option.some.injEq, reduceCtorEq] at spelled <;>
    subst spelled <;> cases s <;> decide

theorem binarySpelled {m : Mark} {s : Grammar.Stratum} (inside : m ∈ s.marks) :
    ∃ op, BinaryOp.ofMark? m = some op := by
  cases s <;> simp only [Grammar.Stratum.marks, List.mem_cons, List.not_mem_nil, or_false] at inside <;>
    rcases inside with rfl | rfl | rfl | rfl <;> exact ⟨_, rfl⟩

theorem unaryOperator {m op} (spelled : UnaryOp.ofMark? m = some op) :
    [op.opcode] = m.signOperation ∧ m ∈ Grammar.signs := by
  cases m <;> simp only [UnaryOp.ofMark?, Option.some.injEq, reduceCtorEq] at spelled <;>
    subst spelled <;> decide

theorem unarySpelled {m : Mark} (sign : m ∈ Grammar.signs) : ∃ op, UnaryOp.ofMark? m = some op := by
  simp only [Grammar.signs, List.mem_cons, List.not_mem_nil, or_false] at sign
  rcases sign with rfl | rfl <;> exact ⟨_, rfl⟩

end Mark

namespace Expr

def lastLine : Expr → Nat
  | literal t => t.line
  | group _ closing => closing.line
  | unary _ operand => operand.lastLine
  | binary _ _ right => right.lastLine

def values : Expr → List Value
  | literal t => if t.isPooled then [t.literal] else []
  | group inside _ => inside.values
  | unary _ operand => operand.values
  | binary left _ right => left.values ++ right.values

def code (pooled : Nat) : Expr → List Instruction
  | literal t => [t.instruction pooled]
  | group inside _ => inside.code pooled
  | unary m operand => operand.code pooled ++ m.signOperation.map Instruction.plain
  | binary left m right =>
    left.code pooled ++ right.code (pooled + left.values.length) ++ m.operation.map Instruction.plain

def lines : Expr → List Int
  | literal t => [t.line]
  | group inside _ => inside.lines
  | unary m operand => operand.lines ++ m.signOperation.map fun _ => (operand.lastLine : Int)
  | binary left m right =>
    left.lines ++ right.lines ++ m.operation.map fun _ => (right.lastLine : Int)

def chunk (e : Expr) (endLine : Nat) : Chunk :=
  ⟨Chunk.currentVersion, (e.code 0 ++ [Instruction.plain .return]).toArray,
    (e.lines ++ [(endLine : Int)]).toArray, e.values.toArray⟩

theorem linesLength (e : Expr) (pooled : Nat) : e.lines.length = (e.code pooled).length := by
  induction e generalizing pooled with
  | literal t => rfl
  | group inside closing ih => exact ih pooled
  | unary m operand ih => simp [lines, code, ih pooled]
  | binary left m right ihl ihr =>
    simp [lines, code, ihl pooled, ihr (pooled + left.values.length)]

end Expr

namespace Chunk

def extend (c : Chunk) (e : Expr) : Chunk :=
  ⟨c.version, c.code ++ e.code c.constants.size, c.lines ++ e.lines, c.constants ++ e.values⟩

theorem pushAll (ops : List Opcode) (c : Chunk) (line : Int) :
    ops.foldl (fun c op => c.push (.plain op) line) c =
      ⟨c.version, c.code ++ ops.map Instruction.plain, c.lines ++ ops.map fun _ => line,
        c.constants⟩ := by
  induction ops generalizing c with
  | nil => simp
  | cons op rest ih =>
    rw [List.foldl_cons, ih]
    simp [push]

theorem extendPooled {t : Token} (pooled : t.isPooled = true) (c : Chunk) :
    c.extend (.literal t) = c.pushConstant t.literal t.line := by
  simp [extend, pushConstant, addConstant, push, Expr.code, Expr.lines, Expr.values, pooled,
    Token.pooledInstruction pooled]

theorem extendUnary (c : Chunk) (m : Mark) (e : Expr) :
    c.extend (.unary m e) =
      m.signOperation.foldl (fun c op => c.push (.plain op) e.lastLine) (c.extend e) := by
  rw [pushAll]
  simp [extend, Expr.code, Expr.lines, Expr.values, ← Array.toList_inj]

theorem extendBinary (c : Chunk) (left : Expr) (m : Mark) (right : Expr) :
    c.extend (.binary left m right) =
      m.operation.foldl (fun c op => c.push (.plain op) right.lastLine)
        ((c.extend left).extend right) := by
  have size : (c.constants ++ left.values).size = c.constants.size + left.values.length := by
    simp [← Array.length_toList]
  rw [pushAll]
  simp [extend, size, Expr.code, Expr.lines, Expr.values, ← Array.toList_inj]

theorem extendEmpty (e : Expr) (endLine : Nat) :
    (Chunk.empty.extend e).push (.plain .return) endLine = e.chunk endLine := by
  simp [extend, push, empty, Expr.chunk]

end Chunk
end ExprMachine
