import ExprMachine.Proofs.Expression.Acceptance
import ExprMachine.Proofs.Expression.Validity

/-! The meaning of a tree, by recursion on it: the left operand first, then the right one, then the
operator between them, and nothing after the first failure. Running compiled code gives the same
values and failures, with the line on which the last operand ends. -/
namespace ExprMachine

open Grammar (Derives)
open Text (utf8)

structure Failure where
  failure : RuntimeFailure
  op : Opcode
  line : Nat
  deriving DecidableEq, Repr

namespace Value

def numeric (line : Nat) (op : Opcode) (f : Number → Number → Value) :
    Value → Value → Except Failure Value
  | number x, number y => .ok (f x y)
  | _, _ => .error ⟨.operandsNotNumbers, op, line⟩

def sum (line : Nat) : Value → Value → Except Failure Value
  | number x, number y => .ok (.number (x.add y))
  | string s, string t => .ok (.string (s ++ t))
  | _, _ => .error ⟨.operandsNotAddable, .add, line⟩

def negated (line : Nat) : Value → Except Failure Value
  | number x => .ok (.number x.neg)
  | _ => .error ⟨.operandNotNumber, .negate, line⟩

end Value

namespace Mark

/-- The operator of a mark between two operands. A failing `>=` counts as `<`, and `<=` as `>`. -/
def apply (line : Nat) : Mark → Value → Value → Except Failure Value
  | plus => Value.sum line
  | minus => Value.numeric line .subtract fun x y => .number (x.sub y)
  | star => Value.numeric line .multiply fun x y => .number (x.mul y)
  | slash => Value.numeric line .divide fun x y => .number (x.div y)
  | less => Value.numeric line .less fun x y => .bool (x.less y)
  | greaterEqual => Value.numeric line .less fun x y => .bool (!x.less y)
  | greater => Value.numeric line .greater fun x y => .bool (y.less x)
  | lessEqual => Value.numeric line .greater fun x y => .bool (!y.less x)
  | equalEqual => fun a b => .ok (.bool (a.equal b))
  | bangEqual => fun a b => .ok (.bool (!a.equal b))
  | _ => fun _ _ => .ok .nil

def applySign (line : Nat) : Mark → Value → Except Failure Value
  | minus => Value.negated line
  | bang => fun v => .ok (.bool (!v.truthy))
  | _ => .ok

end Mark

namespace Expr

def eval : Expr → Except Failure Value
  | literal t => .ok t.literal
  | group inside _ => inside.eval
  | unary m operand => do
    let v ← operand.eval
    m.applySign operand.lastLine v
  | binary left m right => do
    let a ← left.eval
    let b ← right.eval
    m.apply right.lastLine a b

end Expr

namespace Chunk

def Placed {α : Type} (xs : Array α) (start : Nat) (part : List α) : Prop :=
  ∀ k x, part[k]? = some x → xs[start + k]? = some x

theorem placedAppend {α : Type} {xs : Array α} {start : Nat} {first second : List α}
    (placed : Placed xs start (first ++ second)) :
    Placed xs start first ∧ Placed xs (start + first.length) second := by
  refine ⟨fun k x found => ?_, fun k x found => ?_⟩
  · have inside := (List.getElem?_eq_some_iff.mp found).1
    exact placed k x (by rw [List.getElem?_append_left inside, found])
  · have later := placed (first.length + k) x (by
      rw [List.getElem?_append_right (Nat.le_add_right _ _), Nat.add_sub_cancel_left, found])
    rwa [← Nat.add_assoc] at later

theorem placedHead {α : Type} {xs : Array α} {start : Nat} {x : α} {rest : List α}
    (placed : Placed xs start (x :: rest)) : xs[start]? = some x := placed 0 x rfl

theorem placedWhole {α : Type} (part rest : List α) : Placed (part ++ rest).toArray 0 part := by
  intro k x found
  have inside := (List.getElem?_eq_some_iff.mp found).1
  rw [Nat.zero_add, List.getElem?_toArray, List.getElem?_append_left inside, found]

end Chunk

inductive Step.Gives (op : Opcode) (line : Nat) (stack : List Value) :
    Step → Except Failure Value → Prop where
  | next {v} : Gives op line stack (.next (v :: stack)) (.ok v)
  | failed {failure} : Gives op line stack (.failed failure) (.error ⟨failure, op, line⟩)

namespace Machine

open Chunk (Placed placedAppend placedHead)

def errorOf (f : Failure) (offset : Nat) : RuntimeError := ⟨f.failure, f.line, offset, f.op.byte⟩

/-- Code that replaces the values `taken` on top of the stack by the given result, whatever is below
them and whatever code follows. -/
def Runs (c : Chunk) (offset : Nat) (code : List Instruction) (taken : List Value) :
    Except Failure Value → Prop
  | .ok v => ∀ rest stack, execute c offset (code ++ rest) (taken ++ stack) =
      execute c (offset + code.length) rest (v :: stack)
  | .error f => ∀ rest stack, ∃ place stack',
      execute c offset (code ++ rest) (taken ++ stack) = (.failed (errorOf f place), stack')

theorem runsThen {c offset first second taken v r} (before : Runs c offset first [] (.ok v))
    (after : Runs c (offset + first.length) second (v :: taken) r) :
    Runs c offset (first ++ second) taken r := by
  cases r with
  | ok w =>
    intro rest stack
    rw [List.append_assoc, List.length_append, ← Nat.add_assoc, ← after rest stack]
    exact before (second ++ rest) (taken ++ stack)
  | error f =>
    intro rest stack
    obtain ⟨place, stack', fails⟩ := after rest stack
    refine ⟨place, stack', ?_⟩
    rw [List.append_assoc, ← fails]
    exact before (second ++ rest) (taken ++ stack)

theorem runsFailing {c offset first taken f} (before : Runs c offset first [] (.error f))
    (second : List Instruction) : Runs c offset (first ++ second) taken (.error f) := by
  intro rest stack
  rw [List.append_assoc]
  exact before (second ++ rest) (taken ++ stack)

variable {c : Chunk} {offset line : Nat}

theorem runsStep {op taken r} (placed : c.lines[offset]? = some (line : Int))
    (stepped : ∀ stack, (step c offset (.plain op) (taken ++ stack)).Gives op line stack r) :
    Runs c offset [.plain op] taken r := by
  cases r with
  | ok v =>
    intro rest stack
    have next := stepped stack
    rw [List.singleton_append, execute]
    cases result : step c offset (.plain op) (taken ++ stack) <;> rw [result] at next <;>
      cases next
    rfl
  | error f =>
    intro rest stack
    have failed := stepped stack
    refine ⟨offset, taken ++ stack, ?_⟩
    rw [List.singleton_append, execute]
    cases result : step c offset (.plain op) (taken ++ stack) <;> rw [result] at failed <;>
      cases failed
    simp [errorAt, errorOf, Instruction.plain, Array.getD_eq_getD_getElem?, placed]

theorem numericRuns {op f} (placed : c.lines[offset]? = some (line : Int))
    (stepped : ∀ stack, step c offset (.plain op) stack = onNumbers offset f stack) (a b : Value) :
    Runs c offset [.plain op] [b, a] (Value.numeric line op f a b) := by
  refine runsStep placed fun stack => ?_
  rw [stepped]
  cases a <;> cases b <;> constructor

theorem sumRuns (placed : c.lines[offset]? = some (line : Int)) (a b : Value) :
    Runs c offset [.plain .add] [b, a] (Value.sum line a b) := by
  refine runsStep placed fun stack => ?_
  change (addition offset (b :: a :: stack)).Gives .add line stack (Value.sum line a b)
  cases a <;> cases b <;> constructor

theorem negatedRuns (placed : c.lines[offset]? = some (line : Int)) (a : Value) :
    Runs c offset [.plain .negate] [a] (Value.negated line a) := by
  refine runsStep placed fun stack => ?_
  cases a <;> constructor

theorem equalRuns (placed : c.lines[offset]? = some (line : Int)) (a b : Value) :
    Runs c offset [.plain .equal] [b, a] (.ok (.bool (a.equal b))) :=
  runsStep placed fun _ => .next

theorem notRuns {first taken v} (before : Runs c offset [first] taken (.ok v)) :
    Runs c offset [first, .plain .not] taken (.ok (.bool (!v.truthy))) := by
  intro rest stack
  have early := before (.plain .not :: rest) stack
  rw [execute] at early
  exact early

theorem notRunsFailing {first taken f} (before : Runs c offset [first] taken (.error f)) :
    Runs c offset [first, .plain .not] taken (.error f) := by
  intro rest stack
  exact before (.plain .not :: rest) stack

theorem complementRuns {first op} {a b : Value} {p : Number → Number → Bool}
    (before : Runs c offset [first] [b, a] (Value.numeric line op (fun x y => .bool (p x y)) a b)) :
    Runs c offset [first, .plain .not] [b, a]
      (Value.numeric line op (fun x y => .bool (!p x y)) a b) := by
  unfold Value.numeric at before ⊢
  split at before
  · exact notRuns before
  · exact notRunsFailing before

theorem operationRuns {m : Mark} {s : Grammar.Stratum} (operator : m ∈ s.marks)
    (placed : Placed c.lines offset (m.operation.map fun _ => (line : Int))) (a b : Value) :
    Runs c offset (m.operation.map Instruction.plain) [b, a] (m.apply line a b) := by
  cases s <;> simp only [Grammar.Stratum.marks, List.mem_cons, List.not_mem_nil, or_false] at operator
  · rcases operator with rfl | rfl
    · exact equalRuns (placedHead placed) a b
    · exact notRuns (equalRuns (placedHead placed) a b)
  · rcases operator with rfl | rfl | rfl | rfl
    · exact numericRuns (placedHead placed) (fun _ => rfl) a b
    · exact complementRuns (numericRuns (placedHead placed) (fun _ => rfl) a b)
    · exact numericRuns (placedHead placed) (fun _ => rfl) a b
    · exact complementRuns (numericRuns (placedHead placed) (fun _ => rfl) a b)
  · rcases operator with rfl | rfl
    · exact sumRuns (placedHead placed) a b
    · exact numericRuns (placedHead placed) (fun _ => rfl) a b
  · rcases operator with rfl | rfl
    · exact numericRuns (placedHead placed) (fun _ => rfl) a b
    · exact numericRuns (placedHead placed) (fun _ => rfl) a b

theorem signRuns {m : Mark} (sign : m ∈ Grammar.signs)
    (placed : Placed c.lines offset (m.signOperation.map fun _ => (line : Int))) (a : Value) :
    Runs c offset (m.signOperation.map Instruction.plain) [a] (m.applySign line a) := by
  simp only [Grammar.signs, List.mem_cons, List.not_mem_nil, or_false] at sign
  rcases sign with rfl | rfl
  · exact negatedRuns (placedHead placed) a
  · exact runsStep (placedHead placed) fun _ => .next

theorem constantStep {v : Value} {index : Nat} (found : c.constants[index]? = some v)
    (stack : List Value) : step c offset (.constant index) stack = .next (v :: stack) := by
  have looked : Chunk.lookup c.constants index = some v := found
  have constant : c.constantAt (Instruction.constant index).operand = .ok v := by
    change c.constantAt index = .ok v
    rw [Chunk.constantAt, looked]
  simp only [step, Instruction.constantOpcode, constant]

theorem literalRuns {t : Token} {pooled : Nat} (kind : Grammar.isLiteral t.kind = true)
    (placed : c.lines[offset]? = some (t.line : Int))
    (values : Placed c.constants pooled (Expr.literal t).values) :
    Runs c offset [t.instruction pooled] [] (.ok t.literal) := by
  by_cases inPool : t.isPooled = true
  · simp only [Expr.values, inPool, ↓reduceIte] at values
    intro rest stack
    rw [Token.pooledInstruction inPool, List.singleton_append, List.nil_append, execute,
      constantStep (placedHead values)]
    rfl
  · obtain ⟨word, listed, literal, instruction⟩ := Token.wordInstruction kind inPool
    rw [literal, instruction]
    simp only [Token.words, List.mem_cons, List.not_mem_nil, or_false] at listed
    rcases listed with rfl | rfl | rfl <;> exact runsStep placed fun _ => .next

theorem exprRuns {e : Expr} (formed : e.Formed) {pooled : Nat} (lines : Placed c.lines offset e.lines)
    (values : Placed c.constants pooled e.values) : Runs c offset (e.code pooled) [] e.eval := by
  induction e generalizing offset pooled with
  | literal t => exact literalRuns formed (placedHead lines) values
  | group inside closing ih => exact ih formed lines values
  | unary m operand ih =>
    obtain ⟨inside, signLines⟩ := placedAppend lines
    have first := ih formed.2 inside values
    rw [Expr.linesLength operand pooled] at signLines
    rw [Expr.eval, Expr.code]
    cases result : operand.eval with
    | error f => exact runsFailing (result ▸ first) _
    | ok v => exact runsThen (result ▸ first) (signRuns formed.1 signLines v)
  | binary left m right ihLeft ihRight =>
    obtain ⟨⟨s, operator⟩, leftFormed, rightFormed⟩ := formed
    obtain ⟨both, markLines⟩ := placedAppend lines
    obtain ⟨leftLines, rightLines⟩ := placedAppend both
    obtain ⟨leftValues, rightValues⟩ := placedAppend values
    rw [List.length_append, ← Nat.add_assoc,
      Expr.linesLength right (pooled + left.values.length)] at markLines
    rw [Expr.linesLength left pooled] at rightLines markLines
    -- the value of the left operand lies below whatever the right one pushes
    have first := ihLeft leftFormed leftLines leftValues
    have second := ihRight rightFormed rightLines rightValues
    rw [Expr.eval, Expr.code, List.append_assoc]
    cases leftResult : left.eval with
    | error f => exact runsFailing (leftResult ▸ first) _
    | ok a =>
      refine runsThen (leftResult ▸ first) ?_
      cases rightResult : right.eval with
      | error f => exact runsFailing (rightResult ▸ second) _
      | ok b => exact runsThen (rightResult ▸ second) (operationRuns operator markLines a b)

end Machine

inductive Outcome.Tells : Outcome → Except Failure Value → Prop where
  | value (v : Value) : Tells (.value v) (.ok v)
  | failed (f : Failure) (offset : Nat) :
      Tells (.failed ⟨f.failure, f.line, offset, f.op.byte⟩) (.error f)

namespace Machine

theorem executeTells {e : Expr} (formed : e.Formed) (endLine : Nat) :
    (execute (e.chunk endLine) 0 (e.code 0 ++ [Instruction.plain .return]) []).1.Tells e.eval := by
  have constants := Chunk.placedWhole e.values []
  rw [List.append_nil] at constants
  have runs : Runs (e.chunk endLine) 0 (e.code 0) [] e.eval :=
    exprRuns formed (Chunk.placedWhole e.lines [(endLine : Int)]) constants
  cases result : e.eval with
  | ok v =>
    rw [result] at runs
    have run := runs [Instruction.plain .return] []
    rw [List.append_nil] at run
    rw [run]
    exact .value v
  | error f =>
    rw [result] at runs
    obtain ⟨place, stack, run⟩ := runs [Instruction.plain .return] []
    rw [List.append_nil] at run
    rw [run]
    exact .failed f place

theorem interpretTells {source c} (ok : compile source = .ok c) :
    ∃ e, Derives Grammar.equality (TokenStream.ofSource source).tokens e ∧
      (∀ e', Derives Grammar.equality (TokenStream.ofSource source).tokens e' → e' = e) ∧
      ∀ m : Machine, (m.interpret c).1.Tells e.eval := by
  obtain ⟨e, d, rfl, _, _⟩ := Compilation.compiledTree ok
  refine ⟨e, d, fun e' d' => Grammar.derivesUnique d' d, fun m => ?_⟩
  rw [interpretOutcome (Expr.chunkValid (Expr.derivedFormed d) _)]
  exact executeTells (Expr.derivedFormed d) _

def groupedComparison : Chunk :=
  ⟨Chunk.currentVersion, #[.plain .nil, .plain .true, .plain .less, .plain .not, .plain .return],
    #[1, 2, 3, 3, 3], #[]⟩

theorem interpretTellsGroupedComparison :
    compile (utf8 "nil >= (\ntrue\n)") = .ok groupedComparison ∧
    (fresh.interpret groupedComparison).1 =
      .failed ⟨.operandsNotNumbers, 3, 2, Opcode.byte .less⟩ ∧
    ∃ e, Derives Grammar.equality (TokenStream.ofSource (utf8 "nil >= (\ntrue\n)")).tokens e ∧
      (fresh.interpret groupedComparison).1.Tells e.eval := by
  have ok : compile (utf8 "nil >= (\ntrue\n)") = .ok groupedComparison := by decide +kernel
  obtain ⟨e, d, _, tells⟩ := interpretTells ok
  exact ⟨ok, by decide, e, d, tells fresh⟩

end Machine
end ExprMachine
