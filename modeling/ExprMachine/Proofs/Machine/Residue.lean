import ExprMachine.Proofs.Machine.Safety

/-! What a run leaves on the stack. The check bounds the depth at a return from below only: whatever
lies under the value that is returned stays where it is, and a failure clears the stack. -/
namespace ExprMachine

def Instruction.isReturn (i : Instruction) : Bool := i.opcode? == some .return

def Chunk.firstReturn? (c : Chunk) : Option Nat := c.code.toList.findIdx? Instruction.isReturn

namespace Machine

variable {c : Chunk} {offset : Nat} {i : Instruction} {rest : List Instruction} {stack : List Value}

theorem onNumbersGoesOn {f : Number → Number → Value} {v : Value} {left : List Value} :
    onNumbers offset f stack ≠ .done v left := by
  unfold onNumbers
  split <;> simp

theorem additionGoesOn {v : Value} {left : List Value} : addition offset stack ≠ .done v left := by
  unfold addition
  split <;> simp

theorem stepDone {v : Value} {left : List Value} (stepped : step c offset i stack = .done v left) :
    i.isReturn = true ∧ stack = v :: left := by
  cases known : i.opcode? with
  | none => simp [step, known] at stepped
  | some op =>
    simp only [step, known] at stepped
    cases op with
    | «return» =>
      dsimp only at stepped
      split at stepped
      · cases stepped
        exact ⟨by simp [Instruction.isReturn, known], rfl⟩
      · contradiction
    | nil | true | false => contradiction
    | constant | negate | not | equal =>
      dsimp only at stepped
      split at stepped <;> contradiction
    | add => exact absurd stepped additionGoesOn
    | subtract | multiply | divide | greater | less => exact absurd stepped onNumbersGoesOn

theorem stepNext {stack' : List Value} (stepped : step c offset i stack = .next stack') :
    i.isReturn = false := by
  refine Bool.eq_false_iff.mpr fun returns => ?_
  have known : i.opcode? = some .return := by simpa [Instruction.isReturn] using returns
  simp only [step, known] at stepped
  split at stepped <;> contradiction

theorem Reached.leaves {seen : List (Nat × List Value)} {result : Outcome × List Value}
    (reached : Reached c offset rest stack) (valid : c.IsValid)
    (run : Run c offset rest stack seen result) {v : Value} (returned : result.1 = .value v) :
    ∃ k, rest.findIdx? Instruction.isReturn = some k ∧
      result.2.length + 1 = c.staticDepth (offset + k) := by
  induction run with
  | next stepped onward ih =>
    obtain ⟨k, found, depth⟩ := ih (reached.next valid stepped) returned
    refine ⟨k + 1, by simp [List.findIdx?_cons, stepNext stepped, found], ?_⟩
    rw [depth]
    congr 1
    omega
  | done stepped =>
    obtain ⟨returns, rfl⟩ := stepDone stepped
    exact ⟨0, by simp [List.findIdx?_cons, returns], reached.depth⟩
  | ended | failed | crashed => contradiction

theorem executeReturns (valid : c.IsValid) :
    (∃ v left offset, execute c 0 c.code.toList [] = (.value v, left) ∧
      c.firstReturn? = some offset ∧ left.length + 1 = c.staticDepth offset) ∨
    ∃ e left, execute c 0 c.code.toList [] = (.failed e, left) := by
  have run := runExecutes c 0 c.code.toList []
  rcases ran : execute c 0 c.code.toList [] with ⟨outcome, left⟩
  rw [ran] at run
  obtain ⟨v, rfl⟩ | ⟨e, rfl, _⟩ := ((startReached c).follows valid run).2
  · obtain ⟨offset, found, depth⟩ := (startReached c).leaves valid run rfl
    rw [Nat.zero_add] at depth
    exact .inl ⟨v, left, offset, rfl, found, depth⟩
  · exact .inr ⟨e, left, rfl⟩

theorem interpretLeaves {c : Chunk} (valid : c.IsValid) (m : Machine) :
    (∃ v offset, (m.interpret c).1 = .value v ∧ c.firstReturn? = some offset ∧
      (m.interpret c).2.depth + 1 = c.staticDepth offset) ∨
    ∃ e, (m.interpret c).1 = .failed e ∧ (m.interpret c).2.depth = 0 := by
  have none : c.fault? = none := valid
  obtain ⟨v, left, offset, ran, found, depth⟩ | ⟨e, left, ran⟩ := executeReturns valid
  · exact .inl ⟨v, offset, by simp [interpret, none, ran], found, by simpa [interpret, none, ran]⟩
  · exact .inr ⟨e, by simp [interpret, none, ran], by simp [interpret, none, ran, fresh, depth]⟩

def doubled : Chunk :=
  ⟨Chunk.currentVersion, #[.plain .nil, .plain .nil, .plain .return], #[1, 1, 1], #[]⟩

theorem interpretLeavesDoubled :
    doubled.IsValid ∧ doubled.firstReturn? = some 2 ∧ doubled.staticDepth 2 = 2 ∧
      ∀ m : Machine, (m.interpret doubled).1 = .value .nil ∧ (m.interpret doubled).2.depth = 1 := by
  have valid : doubled.IsValid := by decide
  have found : doubled.firstReturn? = some 2 := by decide
  refine ⟨valid, found, by decide, fun m => ?_⟩
  have result : (m.interpret doubled).1 = .value .nil := rfl
  rcases interpretLeaves valid m with ⟨v, offset, _, first, depth⟩ | ⟨e, failed, _⟩
  · cases Option.some.inj (found.symm.trans first)
    exact ⟨result, Nat.succ.inj depth⟩
  · rw [result] at failed
    contradiction

theorem stackNotAlwaysEmptied :
    ¬ ∀ (m : Machine) (c : Chunk), c.IsValid → (m.interpret c).2.depth = 0 := by
  intro emptied
  have left := emptied fresh doubled (by decide)
  exact absurd left (by decide)

end Machine
end ExprMachine
