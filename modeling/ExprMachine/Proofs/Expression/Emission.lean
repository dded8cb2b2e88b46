import ExprMachine.Proofs.Expression.Extent
import ExprMachine.Proofs.Machine.Residue
import ExprMachine.Proofs.Token.Tiling

/-! The chunk of a source in detail: one return, at the end; the constants in the order in which they
are pushed; each instruction on the line of the token it was waiting for. One value is left when the
return comes, so that a run takes all it put on the stack. -/
namespace ExprMachine

open Grammar (Derives)
open Text (byte utf8)

namespace Instruction

def isConstant (i : Instruction) : Bool := i.opcode? == some .constant

theorem plainUnpooled {ops : List Opcode} (others : ∀ op ∈ ops, op ≠ .constant ∧ op ≠ .return) :
    (ops.map plain).filter isConstant = [] := by
  refine List.filter_eq_nil_iff.mpr fun i member => ?_
  obtain ⟨op, inside, rfl⟩ := List.mem_map.mp member
  simp [isConstant, plainOpcode, (others op inside).1]

theorem plainGoesOn {ops : List Opcode} (others : ∀ op ∈ ops, op ≠ .constant ∧ op ≠ .return) :
    (ops.map plain).filter isReturn = [] := by
  refine List.filter_eq_nil_iff.mpr fun i member => ?_
  obtain ⟨op, inside, rfl⟩ := List.mem_map.mp member
  simp [isReturn, plainOpcode, (others op inside).2]

end Instruction

namespace Mark

theorem operationPlain (m : Mark) : ∀ op ∈ m.operation, op ≠ .constant ∧ op ≠ .return := by
  cases m <;> decide

theorem signOperationPlain (m : Mark) :
    ∀ op ∈ m.signOperation, op ≠ .constant ∧ op ≠ .return := by
  cases m <;> decide

theorem operationStatic {m : Mark} {s : Grammar.Stratum} (operator : m ∈ s.marks) (depth : Nat) :
    (m.operation.map Instruction.plain).foldl Chunk.depthAfter (depth + 2) = depth + 1 := by
  cases s <;>
    simp only [Grammar.Stratum.marks, List.mem_cons, List.not_mem_nil, or_false] at operator <;>
    rcases operator with rfl | rfl | rfl | rfl <;> rfl

theorem signOperationStatic {m : Mark} (sign : m ∈ Grammar.signs) (depth : Nat) :
    (m.signOperation.map Instruction.plain).foldl Chunk.depthAfter (depth + 1) = depth + 1 := by
  simp only [Grammar.signs, List.mem_cons, List.not_mem_nil, or_false] at sign
  rcases sign with rfl | rfl <;> rfl

end Mark

theorem Token.literalInstruction {t : Token} (kind : Grammar.isLiteral t.kind = true)
    (pooled : Nat) :
    (t.isPooled = true ∧ t.instruction pooled = .constant pooled) ∨
      (¬ t.isPooled = true ∧ (t.instruction pooled = .plain .true ∨
        t.instruction pooled = .plain .false ∨ t.instruction pooled = .plain .nil)) := by
  by_cases inPool : t.isPooled = true
  · exact .inl ⟨inPool, pooledInstruction inPool pooled⟩
  · obtain ⟨word, listed, _, instruction⟩ := wordInstruction kind inPool
    rw [instruction]
    simp only [words, List.mem_cons, List.not_mem_nil, or_false] at listed
    rcases listed with rfl | rfl | rfl
    · exact .inr ⟨inPool, .inl rfl⟩
    · exact .inr ⟨inPool, .inr (.inl rfl)⟩
    · exact .inr ⟨inPool, .inr (.inr rfl)⟩

structure Emission where
  instruction : Instruction
  consumed : Token

namespace Emission

def line (emission : Emission) : Int := emission.consumed.line

def of (consumed : Token) (op : Opcode) : Emission := ⟨.plain op, consumed⟩

theorem ofInstructions (t : Token) (ops : List Opcode) :
    (ops.map (of t)).map instruction = ops.map Instruction.plain := by
  rw [List.map_map]
  rfl

theorem ofLines (t : Token) (ops : List Opcode) :
    (ops.map (of t)).map line = ops.map fun _ => (t.line : Int) := by
  rw [List.map_map]
  rfl

end Emission

namespace Expr

def lastToken : Expr → Token
  | literal t => t
  | group _ closing => closing
  | unary _ operand => operand.lastToken
  | binary _ _ right => right.lastToken

def emitted (pooled : Nat) : Expr → List Emission
  | literal t => [⟨t.instruction pooled, t⟩]
  | group inside _ => inside.emitted pooled
  | unary m operand => operand.emitted pooled ++ m.signOperation.map (.of operand.lastToken)
  | binary left m right =>
    left.emitted pooled ++ right.emitted (pooled + left.values.length) ++
      m.operation.map (.of right.lastToken)

theorem lastTokenLine (e : Expr) : e.lastToken.line = e.lastLine := by
  induction e with
  | literal t => rfl
  | group inside closing ih => rfl
  | unary m operand ih => exact ih
  | binary left m right ihLeft ihRight => exact ihRight

theorem emittedCode (e : Expr) (pooled : Nat) :
    (e.emitted pooled).map Emission.instruction = e.code pooled := by
  induction e generalizing pooled with
  | literal t => rfl
  | group inside closing ih => exact ih pooled
  | unary m operand ih =>
    rw [emitted, code, List.map_append, ih, Emission.ofInstructions]
  | binary left m right ihLeft ihRight =>
    rw [emitted, code, List.map_append, List.map_append, ihLeft, ihRight, Emission.ofInstructions]

theorem emittedLines (e : Expr) (pooled : Nat) :
    (e.emitted pooled).map Emission.line = e.lines := by
  induction e generalizing pooled with
  | literal t => rfl
  | group inside closing ih => exact ih pooled
  | unary m operand ih =>
    rw [emitted, lines, List.map_append, ih, Emission.ofLines, lastTokenLine]
  | binary left m right ihLeft ihRight =>
    rw [emitted, lines, List.map_append, List.map_append, ihLeft, ihRight, Emission.ofLines,
      lastTokenLine]

def Ordered (ts : List Token) : Prop := ts.Pairwise fun t u => t.line ≤ u.line

theorem orderedLast {ts : List Token} {last : Token} (ordered : Ordered ts)
    (ends : ts.getLast? = some last) : ∀ t ∈ ts, t.line ≤ last.line := by
  obtain ⟨front, rfl⟩ := List.getLast?_eq_some_iff.mp ends
  intro t member
  rcases List.mem_append.mp member with before | same
  · exact (List.pairwise_append.mp ordered).2.2 t before last (List.mem_singleton.mpr rfl)
  · rw [List.mem_singleton.mp same]

structure Follows (ts : List Token) (e : Expr) : Prop where
  last : ts.getLast? = some e.lastToken
  consumed : ∀ pooled, ∀ emission ∈ e.emitted pooled, emission.consumed ∈ ts
  ordered : Ordered ts → ∀ pooled,
    (e.emitted pooled).Pairwise fun first second => first.line ≤ second.line

theorem literalFollows (t : Token) : Follows [t] (.literal t) where
  last := rfl
  consumed _ emission member := by simp [List.mem_singleton.mp member]
  ordered _ _ := List.pairwise_singleton _ _

theorem groupFollows {opening ts e closing} (inside : Follows ts e) :
    Follows (opening :: (ts ++ [closing])) (.group e closing) where
  last := by
    rw [← List.cons_append, List.getLast?_concat]
    rfl
  consumed pooled emission member := by simp [inside.consumed pooled emission member]
  ordered order pooled := by
    have within := (List.pairwise_append.mp (List.pairwise_cons.mp order).2).1
    exact inside.ordered within pooled

theorem operatorOrdered (ops : List Opcode) (t : Token) :
    (ops.map (Emission.of t)).Pairwise fun first second => first.line ≤ second.line := by
  rw [List.pairwise_map]
  exact List.pairwise_of_forall fun _ _ => Int.le_refl _

theorem unaryFollows {t m ts e} (operand : Follows ts e) : Follows (t :: ts) (.unary m e) where
  last := by simp [List.getLast?_cons, operand.last, lastToken]
  consumed pooled emission member := by
    rcases List.mem_append.mp member with inside | sign
    · exact .tail _ (operand.consumed pooled emission inside)
    · obtain ⟨_, _, rfl⟩ := List.mem_map.mp sign
      exact .tail _ (List.mem_of_getLast? operand.last)
  ordered order pooled := by
    have within := (List.pairwise_cons.mp order).2
    refine List.pairwise_append.mpr ⟨operand.ordered within pooled, operatorOrdered _ _, ?_⟩
    intro first inside second sign
    obtain ⟨_, _, rfl⟩ := List.mem_map.mp sign
    exact Int.ofNat_le.mpr (orderedLast within operand.last _ (operand.consumed pooled first inside))

theorem binaryFollows {lefts left t m rights right} (leftFollows : Follows lefts left)
    (rightFollows : Follows rights right) :
    Follows (lefts ++ t :: rights) (.binary left m right) where
  last := by simp [List.getLast?_append, List.getLast?_cons, rightFollows.last, lastToken]
  consumed pooled emission member := by
    rcases List.mem_append.mp member with operands | operator
    · rcases List.mem_append.mp operands with inLeft | inRight
      · exact List.mem_append_left _ (leftFollows.consumed _ emission inLeft)
      · exact List.mem_append_right _ (.tail _ (rightFollows.consumed _ emission inRight))
    · obtain ⟨_, _, rfl⟩ := List.mem_map.mp operator
      exact List.mem_append_right _ (.tail _ (List.mem_of_getLast? rightFollows.last))
  ordered order pooled := by
    obtain ⟨leftOrder, others, across⟩ := List.pairwise_append.mp order
    obtain ⟨_, rightOrder⟩ := List.pairwise_cons.mp others
    have lastOf : ∀ u ∈ rights, u.line ≤ right.lastToken.line :=
      orderedLast rightOrder rightFollows.last
    have lastRight := List.mem_of_getLast? rightFollows.last
    refine List.pairwise_append.mpr ⟨List.pairwise_append.mpr ⟨leftFollows.ordered leftOrder _,
      rightFollows.ordered rightOrder _, ?_⟩, operatorOrdered _ _, ?_⟩
    · intro first inLeft second inRight
      exact Int.ofNat_le.mpr (across _ (leftFollows.consumed _ first inLeft) _
        (.tail _ (rightFollows.consumed _ second inRight)))
    · intro first operands second operator
      obtain ⟨_, _, rfl⟩ := List.mem_map.mp operator
      rcases List.mem_append.mp operands with inLeft | inRight
      · exact Int.ofNat_le.mpr (across _ (leftFollows.consumed _ first inLeft) _ (.tail _ lastRight))
      · exact Int.ofNat_le.mpr (lastOf _ (rightFollows.consumed _ first inRight))

theorem derivedFollows {n ts e} (d : Derives n ts e) : Follows ts e :=
  Grammar.treeInduction (P := Follows) (fun {t} _ => literalFollows t) (fun _ _ => groupFollows)
    (fun _ _ => unaryFollows) (fun _ _ => binaryFollows) d

/-! The constants, the depth and the return. -/

theorem codeConstants {e : Expr} (formed : e.Formed) (pooled : Nat) :
    ((e.code pooled).filter Instruction.isConstant).map Instruction.operand =
      (List.range' pooled e.values.length).map Int.ofNat := by
  induction e generalizing pooled with
  | literal t =>
    rw [code, values]
    rcases Token.literalInstruction formed pooled with ⟨inPool, same⟩ | ⟨unpooled, listed⟩
    · rw [same, if_pos inPool]
      rfl
    · rw [if_neg unpooled]
      rcases listed with same | same | same <;> rw [same] <;> rfl
  | group inside closing ih => exact ih formed pooled
  | unary m operand ih =>
    simp [code, values, Instruction.plainUnpooled m.signOperationPlain, ih formed.2]
  | binary left m right ihLeft ihRight =>
    obtain ⟨_, leftFormed, rightFormed⟩ := formed
    simp [code, values, Instruction.plainUnpooled m.operationPlain, ihLeft leftFormed,
      ihRight rightFormed, ← List.range'_append_1]

theorem codeStatic {e : Expr} (formed : e.Formed) (pooled depth : Nat) :
    (e.code pooled).foldl Chunk.depthAfter depth = depth + 1 := by
  induction e generalizing pooled depth with
  | literal t =>
    rw [code]
    rcases Token.literalInstruction formed pooled with ⟨_, same⟩ | ⟨_, same | same | same⟩ <;>
      rw [same] <;> rfl
  | group inside closing ih => exact ih formed pooled depth
  | unary m operand ih =>
    rw [code, List.foldl_append, ih formed.2, Mark.signOperationStatic formed.1]
  | binary left m right ihLeft ihRight =>
    obtain ⟨⟨s, operator⟩, leftFormed, rightFormed⟩ := formed
    rw [code, List.foldl_append, List.foldl_append, ihLeft leftFormed, ihRight rightFormed,
      Mark.operationStatic operator]

theorem codeReturns {e : Expr} (formed : e.Formed) (pooled : Nat) :
    (e.code pooled).filter Instruction.isReturn = [] := by
  induction e generalizing pooled with
  | literal t =>
    rw [code]
    rcases Token.literalInstruction formed pooled with ⟨_, same⟩ | ⟨_, same | same | same⟩ <;>
      rw [same] <;> rfl
  | group inside closing ih => exact ih formed pooled
  | unary m operand ih =>
    rw [code, List.filter_append, ih formed.2, Instruction.plainGoesOn m.signOperationPlain]
    rfl
  | binary left m right ihLeft ihRight =>
    obtain ⟨_, leftFormed, rightFormed⟩ := formed
    rw [code, List.filter_append, List.filter_append, ihLeft leftFormed, ihRight rightFormed,
      Instruction.plainGoesOn m.operationPlain]
    rfl

theorem codeOtherOperands {e : Expr} (formed : e.Formed) :
    ∀ i ∈ e.code 0, i.isConstant = false → i.operand = 0 := by
  intro i member other
  rcases codeShape formed (Nat.le_refl _) i member with ⟨op, _, rfl⟩ | ⟨index, _, rfl⟩
  · rfl
  · contradiction

theorem chunkStatic {e : Expr} (formed : e.Formed) (endLine : Nat) :
    (e.chunk endLine).staticDepth (e.code 0).length = 1 := by
  change (((e.code 0 ++ [Instruction.plain .return]).take _).foldl Chunk.depthAfter 0) = 1
  rw [List.take_left, codeStatic formed]

theorem chunkFirstReturn {e : Expr} (formed : e.Formed) (endLine : Nat) :
    (e.chunk endLine).firstReturn? = some (e.code 0).length := by
  have none : (e.code 0).findIdx? Instruction.isReturn = none :=
    List.findIdx?_eq_none_iff.mpr fun i member =>
      Bool.eq_false_iff.mpr (List.filter_eq_nil_iff.mp (codeReturns formed 0) i member)
  change (e.code 0 ++ [Instruction.plain .return]).findIdx? Instruction.isReturn = _
  rw [List.findIdx?_append, none]
  simp [List.findIdx?_cons, Instruction.isReturn, Instruction.plainOpcode]

theorem linesFollow {source : Bytes} {n e} (d : Derives n (TokenStream.ofSource source).tokens e) :
    (e.lines ++ [((TokenStream.ofSource source).eof.line : Int)]).Pairwise (· ≤ ·) := by
  obtain ⟨inside, _, before⟩ := List.pairwise_append.mp (Lexer.linesOrdered source)
  have follows := derivedFollows d
  rw [← emittedLines e 0]
  refine List.pairwise_append.mpr ⟨?_, List.pairwise_singleton _ _, ?_⟩
  · exact List.pairwise_map.mpr (follows.ordered inside 0)
  · intro line member last same
    obtain ⟨emission, emitted, rfl⟩ := List.mem_map.mp member
    rw [List.mem_singleton.mp same]
    exact Int.ofNat_le.mpr (before _ (follows.consumed 0 emission emitted) _ (.head _))

end Expr

def Value.IsLiteral : Value → Prop
  | .string s => byte '"' ∉ s
  | .number x => x.isNaN = false ∧ x.isInfinite = false ∧ x.isNegative = false
  | _ => False

namespace Compilation

theorem pooledLiteral {source t} (member : t ∈ (TokenStream.ofSource source).tokens)
    (inRange : InRange (TokenStream.ofSource source).tokens) (pooled : t.isPooled = true) :
    t.literal.IsLiteral := by
  unfold Token.isPooled at pooled
  split at pooled
  · next kind =>
    obtain ⟨x, nearest⟩ := Option.isSome_iff_exists.mp (inRange t member kind)
    have value : t.literal = .number x := by simp [Token.literal, kind, nearest]
    rw [value]
    exact ⟨Number.ofRatioNumber nearest, Number.ofRatioBounded nearest,
      (Number.ofRatioFinite nearest).2⟩
  · next kind =>
    obtain ⟨c, _, rfl⟩ := Lexer.tokenOrigin member
    obtain ⟨inside, quoted, clear⟩ := Lexer.quotedLexeme kind
    have value : c.next.1.literal = .string inside := by
      unfold Token.literal
      rw [kind, quoted]
      simp
    rw [value]
    exact clear
  · contradiction

end Compilation

namespace Machine

theorem interpretEmpties {c : Chunk} (valid : c.IsValid) {offset : Nat}
    (first : c.firstReturn? = some offset) (one : c.staticDepth offset = 1) (m : Machine) :
    ((∃ v, (m.interpret c).1 = .value v) ∨ ∃ e, (m.interpret c).1 = .failed e) ∧
      (m.interpret c).2.depth = 0 := by
  have none : c.fault? = none := valid
  obtain ⟨v, left, place, ran, found, depth⟩ | ⟨e, left, ran⟩ := executeReturns valid
  · cases Option.some.inj (found.symm.trans first)
    rw [one] at depth
    exact ⟨.inl ⟨v, by simp [interpret, none, ran]⟩, by
      simpa [interpret, none, ran, Machine.depth] using depth⟩
  · exact ⟨.inr ⟨e, by simp [interpret, none, ran]⟩, by
      simp [interpret, none, ran, fresh, depth]⟩

end Machine

namespace Compilation

theorem compiledShape {source c} (ok : compile source = .ok c) :
    c.IsValid ∧
    (c.code.toList.filter Instruction.isReturn).length = 1 ∧
    c.code.back? = some (.plain .return) ∧ c.staticDepth (c.size - 1) = 1 ∧
    (c.code.toList.filter Instruction.isConstant).map Instruction.operand =
      (List.range c.constants.size).map Int.ofNat ∧
    (∀ i ∈ c.code.toList, i.isConstant = false → i.operand = 0) ∧
    (∀ v ∈ c.constants.toList, v.IsLiteral) ∧
    c.lines.toList.Pairwise (· ≤ ·) ∧
    (∃ e, Derives Grammar.equality (TokenStream.ofSource source).tokens e ∧
      let emissions := e.emitted 0 ++ [.of (TokenStream.ofSource source).eof .return]
      c.code.toList = emissions.map Emission.instruction ∧
      c.lines.toList = emissions.map Emission.line) ∧
    ∀ m : Machine, ((∃ v, (m.interpret c).1 = .value v) ∨ ∃ e, (m.interpret c).1 = .failed e) ∧
      (m.interpret c).2.depth = 0 := by
  obtain ⟨e, d, rfl, _, inRange⟩ := compiledTree ok
  generalize ended : (TokenStream.ofSource source).eof.line = endLine
  have formed := Expr.derivedFormed d
  have valid := Expr.chunkValid formed endLine
  have code : (e.chunk endLine).code.toList = e.code 0 ++ [.plain .return] := rfl
  have lines : (e.chunk endLine).lines.toList = e.lines ++ [(endLine : Int)] := rfl
  have size : (e.chunk endLine).size - 1 = (e.code 0).length := by
    simp [Chunk.size, Expr.chunk]
  refine ⟨valid, ?_, ?_, size ▸ Expr.chunkStatic formed endLine, ?_, ?_, ?_, ?_, ⟨e, d, ?_, ?_⟩,
    Machine.interpretEmpties valid (Expr.chunkFirstReturn formed endLine)
      (Expr.chunkStatic formed endLine)⟩
  · rw [code, List.filter_append, Expr.codeReturns formed]
    rfl
  · rw [← Array.getLast?_toList, code, List.getLast?_concat]
  · rw [code, List.filter_append, List.map_append, Expr.codeConstants formed]
    simp [Expr.chunk, List.range_eq_range', Instruction.isConstant, Instruction.plainOpcode]
  · rw [code]
    intro i member other
    rcases List.mem_append.mp member with inside | last
    · exact Expr.codeOtherOperands formed i inside other
    · rw [List.mem_singleton.mp last]
      rfl
  · intro v member
    have pooled : v ∈ e.values := by simpa [Expr.chunk] using member
    rw [derivedValues d] at pooled
    obtain ⟨t, listed, rfl⟩ := List.mem_map.mp pooled
    obtain ⟨inside, literal⟩ := List.mem_filter.mp listed
    exact pooledLiteral inside inRange literal
  · rw [lines, ← ended]
    exact Expr.linesFollow d
  · rw [code, List.map_append, Expr.emittedCode]
    rfl
  · rw [lines, List.map_append, Expr.emittedLines, ← ended]
    rfl

def groupedSum : Chunk :=
  ⟨Chunk.currentVersion,
    #[.constant 0, .constant 1, .plain .add, .plain .nil, .plain .less, .plain .not, .plain .return],
    #[1, 2, 2, 3, 3, 3, 4], #[.number ⟨0x3ff0000000000000⟩, .string [97]]⟩

theorem compiledShapeGroupedSum :
    compile (utf8 "(1 +\n\"a\"\n) >= nil\n") = .ok groupedSum ∧ groupedSum.IsValid ∧
    groupedSum.staticDepth 6 = 1 ∧ groupedSum.lines.toList.Pairwise (· ≤ ·) ∧
    ∀ m : Machine, (m.interpret groupedSum).2.depth = 0 := by
  have ok : compile (utf8 "(1 +\n\"a\"\n) >= nil\n") = .ok groupedSum := by decide +kernel
  obtain ⟨valid, _, _, depth, _, _, _, ordered, _, ran⟩ := compiledShape ok
  exact ⟨ok, valid, depth, ordered, fun m => (ran m).2⟩

end Compilation
end ExprMachine
