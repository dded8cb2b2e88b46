import ExprMachine.Proofs.Expression.Translation
import ExprMachine.Proofs.Machine.Safety

/-! The chunk of every tree of the grammar passes the check: its instructions refer to constants
that are there, and the code of a subtree leaves exactly one value more than it found. -/
namespace ExprMachine

namespace Instruction

theorem plainFits {op : Opcode} (other : op ≠ .constant) (constants : Nat) :
    Fits constants (plain op) op :=
  ⟨plainOpcode op, fun constant => absurd constant other⟩

theorem constantFits {index constants : Nat} (inside : index < constants) :
    Fits constants (constant index) .constant :=
  ⟨constantOpcode index, fun _ => ⟨Int.natCast_nonneg index, Int.ofNat_lt.mpr inside⟩⟩

end Instruction

namespace Expr

open Chunk (firstUnderflow?)
open Grammar (Derives)

def Formed : Expr → Prop
  | literal t => Grammar.isLiteral t.kind = true
  | group inside _ => inside.Formed
  | unary m operand => m ∈ Grammar.signs ∧ operand.Formed
  | binary left m right => (∃ s : Grammar.Stratum, m ∈ s.marks) ∧ left.Formed ∧ right.Formed

theorem derivedFormed {n ts e} (d : Derives n ts e) : e.Formed :=
  Grammar.treeInduction (P := fun _ e => e.Formed) (fun kind => kind) (fun _ _ inside => inside)
    (fun _ sign operand => ⟨sign, operand⟩)
    (fun _ operator left right => ⟨⟨_, operator⟩, left, right⟩) d

theorem operationShape {ops : List Opcode} (others : ∀ op ∈ ops, op ≠ .constant) :
    ∀ i ∈ ops.map Instruction.plain, ∃ op, op ≠ .constant ∧ i = .plain op := by
  intro i member
  obtain ⟨op, inside, rfl⟩ := List.mem_map.mp member
  exact ⟨op, others op inside, rfl⟩

theorem codeShape {e : Expr} (formed : e.Formed) {pooled bound : Nat}
    (enough : pooled + e.values.length ≤ bound) :
    ∀ i ∈ e.code pooled,
      (∃ op, op ≠ .constant ∧ i = .plain op) ∨ ∃ index, index < bound ∧ i = .constant index := by
  induction e generalizing pooled with
  | literal t =>
    intro i member
    rw [List.mem_singleton.mp member]
    by_cases inPool : t.isPooled = true
    · simp only [values, inPool, ↓reduceIte, List.length_singleton] at enough
      exact .inr ⟨pooled, by omega, Token.pooledInstruction inPool pooled⟩
    · obtain ⟨word, listed, _, instruction⟩ := Token.wordInstruction formed inPool
      have other : ∀ word ∈ Token.words, word.1 ≠ .constant := by decide
      exact .inl ⟨word.1, other word listed, instruction pooled⟩
  | group inside closing ih => exact ih formed enough
  | unary m operand ih =>
    intro i member
    rcases List.mem_append.mp member with inside | sign
    · exact ih formed.2 enough i inside
    · exact .inl (operationShape (by cases m <;> decide) i sign)
  | binary left m right ihLeft ihRight =>
    simp only [values, List.length_append] at enough
    obtain ⟨_, leftFormed, rightFormed⟩ := formed
    intro i member
    rcases List.mem_append.mp member with operands | mark
    · rcases List.mem_append.mp operands with inLeft | inRight
      · exact ihLeft leftFormed (by omega) i inLeft
      · exact ihRight rightFormed (by omega) i inRight
    · exact .inl (operationShape (by cases m <;> decide) i mark)

theorem operationDepth {m : Mark} {s : Grammar.Stratum} (operator : m ∈ s.marks)
    (offset depth : Nat) (rest : List Instruction) :
    firstUnderflow? offset (depth + 2) (m.operation.map Instruction.plain ++ rest) =
      firstUnderflow? (offset + m.operation.length) (depth + 1) rest := by
  cases s <;> simp only [Grammar.Stratum.marks, List.mem_cons, List.not_mem_nil, or_false] at operator <;>
    rcases operator with rfl | rfl | rfl | rfl <;>
    exact Chunk.underflowAfter rfl rest

theorem signDepth {m : Mark} (sign : m ∈ Grammar.signs) (offset depth : Nat)
    (rest : List Instruction) :
    firstUnderflow? offset (depth + 1) (m.signOperation.map Instruction.plain ++ rest) =
      firstUnderflow? (offset + m.signOperation.length) (depth + 1) rest := by
  simp only [Grammar.signs, List.mem_cons, List.not_mem_nil, or_false] at sign
  rcases sign with rfl | rfl <;> exact Chunk.underflowAfter rfl rest

theorem codeDepth {e : Expr} (formed : e.Formed) (pooled offset depth : Nat)
    (rest : List Instruction) :
    firstUnderflow? offset depth (e.code pooled ++ rest) =
      firstUnderflow? (offset + (e.code pooled).length) (depth + 1) rest := by
  induction e generalizing pooled offset depth rest with
  | literal t =>
    rw [code]
    by_cases inPool : t.isPooled = true
    · rw [Token.pooledInstruction inPool]
      rfl
    · obtain ⟨word, listed, _, instruction⟩ := Token.wordInstruction formed inPool
      rw [instruction]
      simp only [Token.words, List.mem_cons, List.not_mem_nil, or_false] at listed
      rcases listed with rfl | rfl | rfl <;> rfl
  | group inside closing ih => exact ih formed pooled offset depth rest
  | unary m operand ih =>
    rw [code, List.append_assoc, ih formed.2, signDepth formed.1]
    simp [Nat.add_assoc]
  | binary left m right ihLeft ihRight =>
    obtain ⟨⟨s, operator⟩, leftFormed, rightFormed⟩ := formed
    rw [code, List.append_assoc, List.append_assoc, ihLeft leftFormed, ihRight rightFormed,
      operationDepth operator]
    simp [Nat.add_assoc]

theorem chunkValid {e : Expr} (formed : e.Formed) (endLine : Nat) : (e.chunk endLine).IsValid := by
  refine Chunk.validIff.mpr ⟨?_, ?_, ?_⟩
  · simp [chunk, linesLength e 0]
  · intro i member
    rcases List.mem_append.mp member with inside | last
    · have enough : 0 + e.values.length ≤ (e.chunk endLine).constants.size := by simp [chunk]
      rcases codeShape formed enough i inside with ⟨op, other, rfl⟩ | ⟨k, within, rfl⟩
      · exact ⟨op, Instruction.plainFits other _⟩
      · exact ⟨.constant, Instruction.constantFits within⟩
    · rw [List.mem_singleton.mp last]
      exact ⟨.return, Instruction.plainFits (by decide) _⟩
  · change firstUnderflow? 0 0 (e.code 0 ++ [Instruction.plain .return]) = none
    rw [codeDepth formed]
    rfl

end Expr
end ExprMachine
