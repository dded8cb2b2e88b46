import ExprMachine.Machine
import ExprMachine.Proofs.Text.Valid

/-! A chunk whose strings are encoded texts yields nothing else: a step puts only such strings on the
stack, and what is shown of a value, an instruction or a failure is an encoded text. -/
namespace ExprMachine

open Text (isValid utf8 emptyValid appendValid)

@[simp] theorem Kind.nameValid (k : Kind) : isValid k.name = true := by
  cases k <;> simp [name]

namespace Value

def Encoded (v : Value) : Prop := isValid v.asString = true

theorem Encoded.text {v : Value} (encoded : v.Encoded) : isValid v.text = true := by
  cases v with
  | string s => exact encoded
  | bool b => cases b <;> exact Text.literalValid _
  | number x => exact Text.visibleValid x.textVisible
  | _ => simp [Value.text]

end Value

namespace Opcode

@[simp] theorem mnemonicValid (op : Opcode) : isValid op.mnemonic := by
  cases op <;> exact Text.literalValid _

@[simp] theorem nameOfByteValid (b : UInt8) : isValid (nameOfByte b) := by
  unfold nameOfByte
  split <;> simp

end Opcode

/-! Failures. -/

@[simp] theorem ChunkFault.messageValid (fault : ChunkFault) : isValid fault.message = true := by
  cases fault <;> simp [message]

@[simp] theorem OutOfRange.messageValid (place : OutOfRange) : isValid place.message = true := by
  cases place <;> simp [message, message.describe]

@[simp] theorem Crash.messageValid (c : Crash) : isValid c.message = true := by
  cases c <;> simp [message]

@[simp] theorem RuntimeError.messageValid (e : RuntimeError) : isValid e.message = true := by
  have failure : isValid e.failure.message = true := by
    cases e.failure <;> exact Text.literalValid _
  simp [message, failure]

/-! Listings. -/

namespace Chunk

def Encoded (c : Chunk) : Prop := ∀ v ∈ c.constants.toList, v.Encoded

variable {c : Chunk}

theorem Encoded.lookup (encoded : c.Encoded) {index : Int} {v : Value}
    (found : Chunk.lookup c.constants index = some v) : v.Encoded :=
  encoded v (Array.mem_toList_iff.mpr (lookupMem found))

theorem Encoded.constantText (encoded : c.Encoded) (index : Int) :
    isValid (c.constantText index) = true := by
  unfold Chunk.constantText
  split
  · next found => exact (encoded.lookup found).text
  · exact Text.literalValid _

theorem Encoded.instructionText (encoded : c.Encoded) (i : Instruction) :
    isValid (c.instructionText i) = true := by
  unfold Chunk.instructionText
  split
  · simp [encoded.constantText]
  · exact Opcode.mnemonicValid _
  · simp

theorem Encoded.listingLine (encoded : c.Encoded) (offset : Nat) (i : Instruction) (line : Int) :
    isValid (c.listingLine offset i line) = true := by
  have zero : Text.byte '0' < 128 := by decide
  unfold Chunk.listingLine
  split <;> simp [zero, encoded.instructionText]

theorem Encoded.listing (encoded : c.Encoded) {label : Bytes} (valid : isValid label = true) :
    isValid (c.listing label) = true := by
  refine appendValid (by simp [valid]) (Text.flatMapValid fun entry _ => ?_)
  exact encoded.listingLine _ _ _

end Chunk

/-! Runs. -/

def Step.Encoded : Step → Prop
  | next stack => ∀ v ∈ stack, v.Encoded
  | done v _ => v.Encoded
  | _ => True

def Outcome.Encoded : Outcome → Prop
  | value v => v.Encoded
  | _ => True

namespace Machine

variable {c : Chunk} {stack : List Value}

theorem plainEncoded {v : Value} (plain : v.asString = []) : v.Encoded := by
  rw [Value.Encoded, plain]
  exact emptyValid

theorem resultEncoded {v first second : Value} (plain : v.asString = [])
    (held : ∀ x ∈ second :: first :: stack, x.Encoded) : (Step.next (v :: stack)).Encoded := by
  obtain ⟨_, _, others⟩ : second.Encoded ∧ first.Encoded ∧ ∀ x ∈ stack, x.Encoded := by
    simpa using held
  exact List.forall_mem_cons.mpr ⟨plainEncoded plain, others⟩

theorem onNumbersEncoded (offset : Nat) {f : Number → Number → Value}
    (plain : ∀ a b, (f a b).asString = []) (held : ∀ v ∈ stack, v.Encoded) :
    (onNumbers offset f stack).Encoded := by
  unfold onNumbers
  split
  · exact resultEncoded (plain _ _) held
  all_goals trivial

theorem additionEncoded (offset : Nat) (held : ∀ v ∈ stack, v.Encoded) :
    (addition offset stack).Encoded := by
  unfold addition
  split
  · exact resultEncoded rfl held
  · obtain ⟨second, below⟩ := List.forall_mem_cons.mp held
    obtain ⟨first, others⟩ := List.forall_mem_cons.mp below
    exact List.forall_mem_cons.mpr ⟨appendValid first second, others⟩
  · trivial
  · trivial

theorem stepEncoded (encoded : c.Encoded) (held : ∀ v ∈ stack, v.Encoded) (offset : Nat)
    (i : Instruction) : (step c offset i stack).Encoded := by
  cases known : i.opcode? with
  | none => simp only [step, known, Step.Encoded]
  | some op =>
    simp only [step, known]
    cases op with
    | constant =>
      dsimp only
      split
      · next v found =>
        have listed : Chunk.lookup c.constants i.operand = some v := by
          unfold Chunk.constantAt at found
          split at found
          · next same => exact same.trans (congrArg some (Except.ok.inj found))
          · contradiction
        exact List.forall_mem_cons.mpr ⟨encoded.lookup listed, held⟩
      · trivial
    | nil | true | false => exact List.forall_mem_cons.mpr ⟨plainEncoded rfl, held⟩
    | add => exact additionEncoded offset held
    | subtract | multiply | divide | greater | less =>
      exact onNumbersEncoded offset (fun _ _ => rfl) held
    | negate | not =>
      dsimp only
      split
      · exact List.forall_mem_cons.mpr ⟨plainEncoded rfl, (List.forall_mem_cons.mp held).2⟩
      all_goals trivial
    | equal =>
      dsimp only
      split
      · exact resultEncoded rfl held
      · trivial
    | «return» =>
      dsimp only
      split
      · exact (List.forall_mem_cons.mp held).1
      · trivial

theorem executeEncoded (encoded : c.Encoded) (code : List Instruction) (offset : Nat)
    (held : ∀ v ∈ stack, v.Encoded) : (execute c offset code stack).1.Encoded := by
  induction code generalizing offset stack with
  | nil => trivial
  | cons i rest ih =>
    have after := stepEncoded encoded held offset i
    rw [execute]
    cases stepped : step c offset i stack with
    | next onward =>
      rw [stepped] at after
      exact ih _ after
    | done v left =>
      rw [stepped] at after
      exact after
    | failed failure => trivial
    | crashed crash => trivial

theorem interpretEncoded (encoded : c.Encoded) (m : Machine) : (m.interpret c).1.Encoded := by
  have ran := executeEncoded encoded c.code.toList 0 (List.forall_mem_nil _)
  unfold interpret
  split
  · trivial
  · generalize execute c 0 c.code.toList [] = result at ran ⊢
    rcases result with ⟨v | e | crash, left⟩
    · exact ran
    · trivial
    · trivial

end Machine
end ExprMachine
