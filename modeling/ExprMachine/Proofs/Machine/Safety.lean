import ExprMachine.Machine

/-! A chunk that passes the check never breaks the machine down. What an opcode takes and leaves
according to the table is what a step takes and leaves, so the stack of a run has at every
instruction the depth that was counted for it. -/
namespace ExprMachine

namespace Instruction

structure Fits (constants : Nat) (i : Instruction) (op : Opcode) : Prop where
  known : i.opcode? = some op
  index : op = .constant → 0 ≤ i.operand ∧ i.operand < constants

theorem Fits.traffic {constants i op} (fits : Fits constants i op) :
    Opcode.traffic i.code = (op.pops, op.pushes) := by
  have known : Opcode.ofByte? i.code = some op := fits.known
  rw [Opcode.traffic, known]

theorem plainOpcode (op : Opcode) : (plain op).opcode? = some op := Opcode.ofByte?_byte op

theorem constantOpcode (index : Nat) : (constant index).opcode? = some .constant := rfl

end Instruction

namespace Chunk

theorem instructionFaultFree {constants offset i} :
    instructionFault? constants offset i = none ↔ ∃ op, Instruction.Fits constants i op := by
  constructor
  · intro free
    unfold instructionFault? at free
    split at free
    · contradiction
    · next known =>
      split at free
      · next inside => exact ⟨.constant, known, fun _ => inside⟩
      · contradiction
    · next op other known => exact ⟨op, known, fun constant => absurd constant other⟩
  · rintro ⟨op, known, index⟩
    unfold instructionFault?
    rw [known]
    cases op <;> simp_all

theorem firstFaultFree {constants offset code} :
    firstFault? constants offset code = none ↔
      ∀ i ∈ code, ∃ op, Instruction.Fits constants i op := by
  induction code generalizing offset with
  | nil => simp [firstFault?]
  | cons i rest ih =>
    rw [List.forall_mem_cons, ← @ih (offset + 1), ← @instructionFaultFree constants offset i,
      firstFault?]
    cases instructionFault? constants offset i <;> simp

theorem underflowFree {offset depth i rest} :
    firstUnderflow? offset depth (i :: rest) = none ↔
      (Opcode.traffic i.code).1 ≤ depth ∧
        firstUnderflow? (offset + 1) (depthAfter depth i) rest = none := by
  rw [firstUnderflow?]
  split
  · next few => simp [Nat.not_le.mpr few]
  · next enough => simp [Nat.not_lt.mp enough]

theorem underflowAfter {first} {offset depth : Nat}
    (free : firstUnderflow? offset depth first = none) (rest : List Instruction) :
    firstUnderflow? offset depth (first ++ rest) =
      firstUnderflow? (offset + first.length) (first.foldl depthAfter depth) rest := by
  induction first generalizing offset depth with
  | nil => rfl
  | cons i others ih =>
    obtain ⟨enough, later⟩ := underflowFree.mp free
    rw [List.cons_append, firstUnderflow?, if_neg (Nat.not_lt.mpr enough), ih later,
      List.foldl_cons, List.length_cons]
    congr 1
    omega

theorem underflowFreeFirst {first rest} {offset depth : Nat}
    (free : firstUnderflow? offset depth (first ++ rest) = none) :
    firstUnderflow? offset depth first = none := by
  induction first generalizing offset depth with
  | nil => rfl
  | cons i others ih =>
    obtain ⟨enough, later⟩ := underflowFree.mp free
    exact underflowFree.mpr ⟨enough, ih later⟩

theorem validIff {c : Chunk} :
    c.IsValid ↔ c.code.size = c.lines.size ∧
      (∀ i ∈ c.code.toList, ∃ op, Instruction.Fits c.constants.size i op) ∧
      firstUnderflow? 0 0 c.code.toList = none := by
  rw [IsValid, fault?, ← @firstFaultFree _ 0]
  split
  · next different => simp [different]
  · next same =>
    cases firstFault? c.constants.size 0 c.code.toList <;> simp [Decidable.not_not.mp same]

theorem lookupFound {α : Type} {xs : Array α} {n : Nat} (inside : n < xs.size) :
    ∃ x, lookup xs n = some x := ⟨xs[n], Array.getElem?_eq_getElem inside⟩

theorem lookupInside {α : Type} {xs : Array α} {n : Int} (inside : 0 ≤ n ∧ n < xs.size) :
    ∃ x, lookup xs n = some x := by
  obtain ⟨k, rfl⟩ := Int.eq_ofNat_of_zero_le inside.1
  exact lookupFound (by omega)

theorem constantInside {c : Chunk} {n : Int} (inside : 0 ≤ n ∧ n < c.constants.size) :
    ∃ v, c.constantAt n = .ok v := by
  obtain ⟨v, found⟩ := lookupInside inside
  exact ⟨v, by rw [constantAt, found]⟩

theorem instructionInside {c : Chunk} {n : Nat} {i : Instruction}
    (found : c.code.toList[n]? = some i) : c.instructionAt n = .ok i := by
  have looked : lookup c.code n = some i := by simpa [lookup] using found
  rw [instructionAt, looked]

theorem lineInside {c : Chunk} {n : Nat} (inside : n < c.lines.size) :
    c.lineAt n = .ok (c.lines.getD n 0) := by
  have looked : lookup c.lines n = some (c.lines.getD n 0) := by simp [lookup, inside]
  rw [lineAt, looked]

end Chunk

namespace Chunk

theorem checkReaches {c : Chunk} (valid : c.IsValid) {offset : Nat}
    (inside : offset ≤ c.code.size) (rest : List Instruction) :
    firstUnderflow? 0 0 (c.code.toList.take offset ++ rest) =
      firstUnderflow? offset (c.staticDepth offset) rest := by
  have free := (validIff.mp valid).2.2
  rw [← List.take_append_drop offset c.code.toList] at free
  have after := underflowAfter (underflowFreeFirst free) rest
  rwa [List.length_take, Array.length_toList, Nat.min_eq_left inside, Nat.zero_add] at after

theorem fitsAt {c : Chunk} {offset i} (valid : c.IsValid)
    (found : c.code.toList[offset]? = some i) :
    ∃ op, Instruction.Fits c.constants.size i op ∧ op.pops ≤ c.staticDepth offset := by
  obtain ⟨_, fits, free⟩ := validIff.mp valid
  obtain ⟨op, fit⟩ := fits i (List.mem_of_getElem? found)
  obtain ⟨inside, same⟩ := List.getElem?_eq_some_iff.mp found
  have reached := checkReaches valid (Nat.le_of_lt (by simpa using inside))
    (c.code.toList.drop offset)
  rw [List.take_append_drop, free, List.drop_eq_getElem_cons inside, same] at reached
  have enough := (underflowFree.mp reached.symm).1
  rw [fit.traffic] at enough
  exact ⟨op, fit, enough⟩

theorem nextDepth {c : Chunk} {offset i} (found : c.code.toList[offset]? = some i) :
    c.staticDepth (offset + 1) = depthAfter (c.staticDepth offset) i := by
  rw [staticDepth, List.take_add_one, found, List.foldl_append]
  rfl

end Chunk

def RuntimeError.LiesIn (e : RuntimeError) (c : Chunk) : Prop :=
  c.lineAt e.offset = .ok e.line ∧ ∃ i, c.instructionAt e.offset = .ok i ∧ i.code = e.code

inductive Step.Keeps (depth : Nat) : Step → Prop where
  | next {stack} (length : stack.length = depth) : Keeps depth (.next stack)
  | done {v stack} (length : stack.length = depth) : Keeps depth (.done v stack)
  | failed {failure} : Keeps depth (.failed failure)

namespace Machine

open Chunk (depthAfter firstUnderflow?)
open Instruction (Fits)

theorem oneValue {stack : List Value} (enough : 1 ≤ stack.length) :
    ∃ v rest, stack = v :: rest := by
  match stack with
  | v :: rest => exact ⟨v, rest, rfl⟩

theorem twoValues {stack : List Value} (enough : 2 ≤ stack.length) :
    ∃ b a rest, stack = b :: a :: rest := by
  match stack with
  | [_] => simp at enough
  | b :: a :: rest => exact ⟨b, a, rest, rfl⟩

theorem onNumbersKeeps (offset : Nat) (f : Number → Number → Value) (a b : Value)
    (rest : List Value) : (onNumbers offset f (b :: a :: rest)).Keeps (rest.length + 1) := by
  unfold onNumbers
  split
  · next shape =>
    cases shape
    exact .next rfl
  · contradiction
  · next alone => cases alone
  · exact .failed

theorem additionKeeps (offset : Nat) (a b : Value) (rest : List Value) :
    (addition offset (b :: a :: rest)).Keeps (rest.length + 1) := by
  unfold addition
  split
  · next shape =>
    cases shape
    exact .next rfl
  · next shape =>
    cases shape
    exact .next rfl
  · exact .failed
  · next none => exact absurd rfl (none b a rest)

theorem stepKeeps {c : Chunk} {i op} {stack : List Value} (fits : Fits c.constants.size i op)
    (enough : op.pops ≤ stack.length) (offset : Nat) :
    (step c offset i stack).Keeps (depthAfter stack.length i) := by
  have depth : depthAfter stack.length i = stack.length - op.pops + op.pushes := by
    rw [depthAfter, fits.traffic]
  unfold step
  rw [depth, fits.known]
  cases op with
  | constant =>
    obtain ⟨v, found⟩ := Chunk.constantInside (fits.index rfl)
    simp only [found]
    exact .next rfl
  | nil => exact .next rfl
  | true => exact .next rfl
  | false => exact .next rfl
  | negate =>
    obtain ⟨v, rest, rfl⟩ := oneValue enough
    cases v with
    | number x => exact .next rfl
    | _ => exact .failed
  | not =>
    obtain ⟨v, rest, rfl⟩ := oneValue enough
    exact .next rfl
  | «return» =>
    obtain ⟨v, rest, rfl⟩ := oneValue enough
    exact .done rfl
  | equal =>
    obtain ⟨b, a, rest, rfl⟩ := twoValues enough
    exact .next rfl
  | add =>
    obtain ⟨b, a, rest, rfl⟩ := twoValues enough
    exact additionKeeps offset a b rest
  | subtract | multiply | divide | greater | less =>
    obtain ⟨b, a, rest, rfl⟩ := twoValues enough
    exact onNumbersKeeps offset _ a b rest

theorem errorLiesIn {c : Chunk} {offset i} (sizes : c.code.size = c.lines.size)
    (found : c.code.toList[offset]? = some i) (failure : RuntimeFailure) :
    (errorAt c failure offset i).LiesIn c := by
  have inside : offset < c.lines.size := by
    have := (List.getElem?_eq_some_iff.mp found).1
    simpa [sizes] using this
  exact ⟨Chunk.lineInside inside, i, Chunk.instructionInside found, rfl⟩

theorem endErrorLiesIn {c : Chunk} (sizes : c.code.size = c.lines.size) :
    (endError c).LiesIn c ∨ c.code = #[] ∧ endError c = ⟨.noReturn, 0, -1, 0⟩ := by
  unfold endError
  split
  · next i last =>
    left
    refine errorLiesIn sizes ?_ _
    rw [Array.back?_eq_getElem?] at last
    simpa using last
  · next empty => exact .inr ⟨Array.back?_eq_none_iff.mp empty, rfl⟩

/-- How a run goes on from an offset: the instructions that are carried out, each with the stack it
finds, and the outcome with the stack that is left. -/
inductive Run (c : Chunk) : (offset : Nat) → List Instruction → List Value →
    List (Nat × List Value) → Outcome × List Value → Prop where
  | ended {offset stack} : Run c offset [] stack [] (.failed (endError c), stack)
  | next {offset i rest stack stack' seen result} (stepped : step c offset i stack = .next stack')
      (onward : Run c (offset + 1) rest stack' seen result) :
      Run c offset (i :: rest) stack ((offset, stack) :: seen) result
  | done {offset i rest stack v left} (stepped : step c offset i stack = .done v left) :
      Run c offset (i :: rest) stack [(offset, stack)] (.value v, left)
  | failed {offset i rest stack failure} (stepped : step c offset i stack = .failed failure) :
      Run c offset (i :: rest) stack [(offset, stack)]
        (.failed (errorAt c failure offset i), stack)
  | crashed {offset i rest stack crash} (stepped : step c offset i stack = .crashed crash) :
      Run c offset (i :: rest) stack [(offset, stack)] (.crashed crash, stack)

theorem runExecutes (c : Chunk) (offset : Nat) (rest : List Instruction) (stack : List Value) :
    Run c offset rest stack (visits c offset rest stack) (execute c offset rest stack) := by
  induction rest generalizing offset stack with
  | nil => exact .ended
  | cons i rest ih =>
    rw [visits, execute]
    cases stepped : step c offset i stack with
    | next stack' => exact .next stepped (ih _ _)
    | done v left => exact .done stepped
    | failed failure => exact .failed stepped
    | crashed crash => exact .crashed stepped

structure Reached (c : Chunk) (offset : Nat) (rest : List Instruction) (stack : List Value) :
    Prop where
  left : c.code.toList.drop offset = rest
  depth : stack.length = c.staticDepth offset

namespace Reached

variable {c : Chunk} {offset : Nat} {i : Instruction} {rest : List Instruction} {stack : List Value}

theorem found (reached : Reached c offset (i :: rest) stack) :
    c.code.toList[offset]? = some i := by
  have head := congrArg (fun code => code[0]?) reached.left
  simpa using head

theorem keeps (reached : Reached c offset (i :: rest) stack) (valid : c.IsValid) :
    (step c offset i stack).Keeps (c.staticDepth (offset + 1)) := by
  obtain ⟨op, fits, enough⟩ := Chunk.fitsAt valid reached.found
  rw [Chunk.nextDepth reached.found, ← reached.depth]
  exact stepKeeps fits (reached.depth ▸ enough) offset

theorem next {stack'} (reached : Reached c offset (i :: rest) stack) (valid : c.IsValid)
    (stepped : step c offset i stack = .next stack') : Reached c (offset + 1) rest stack' := by
  refine ⟨?_, ?_⟩
  · rw [← List.drop_drop, reached.left]
    rfl
  · cases stepped ▸ reached.keeps valid with
    | next length => exact length

theorem follows {seen : List (Nat × List Value)} {result : Outcome × List Value}
    (reached : Reached c offset rest stack) (valid : c.IsValid)
    (run : Run c offset rest stack seen result) :
    (∀ visit ∈ seen, ∃ i others, Reached c visit.1 (i :: others) visit.2) ∧
      ((∃ v, result.1 = .value v) ∨
        ∃ e, result.1 = .failed e ∧ (e.LiesIn c ∨ c.code = #[] ∧ e = ⟨.noReturn, 0, -1, 0⟩)) := by
  have sizes := (Chunk.validIff.mp valid).1
  induction run with
  | ended => exact ⟨by simp, .inr ⟨_, rfl, endErrorLiesIn sizes⟩⟩
  | next stepped onward ih =>
    obtain ⟨seen, ends⟩ := ih (reached.next valid stepped)
    exact ⟨List.forall_mem_cons.mpr ⟨⟨_, _, reached⟩, seen⟩, ends⟩
  | done stepped => exact ⟨by simpa using ⟨_, _, reached⟩, .inl ⟨_, rfl⟩⟩
  | failed stepped =>
    exact ⟨by simpa using ⟨_, _, reached⟩, .inr ⟨_, rfl, .inl (errorLiesIn sizes reached.found _)⟩⟩
  | crashed stepped => cases stepped ▸ reached.keeps valid

theorem executeEnds (reached : Reached c offset rest stack) (valid : c.IsValid) :
    (∃ v, (execute c offset rest stack).1 = .value v) ∨
      ∃ e, (execute c offset rest stack).1 = .failed e ∧
        (e.LiesIn c ∨ c.code = #[] ∧ e = ⟨.noReturn, 0, -1, 0⟩) :=
  (reached.follows valid (runExecutes c offset rest stack)).2

end Reached

theorem startReached (c : Chunk) : Reached c 0 c.code.toList [] := ⟨rfl, rfl⟩

theorem interpretOutcome {c : Chunk} (valid : c.IsValid) (m : Machine) :
    (m.interpret c).1 = (execute c 0 c.code.toList []).1 := by
  have none : c.fault? = none := valid
  rw [interpret, none]
  rcases execute c 0 c.code.toList [] with ⟨outcome, stack⟩
  cases outcome <;> rfl

end Machine
end ExprMachine
