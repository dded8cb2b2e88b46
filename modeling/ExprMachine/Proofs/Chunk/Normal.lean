import ExprMachine.Proofs.Cbor.Bounds
import ExprMachine.Proofs.Chunk.Reload
import Mathlib.Control.Monad.Basic

/-! A chunk that has been read, from whatever encoding, can be written and read again. The bytes that
it is written as are the canonical ones, which a second reading and writing leaves as they are. -/
namespace ExprMachine

open Cbor (Item FitsWord maxElements)

namespace Wire

variable {size : Nat} {item : Item}

theorem instructionFits {i : Instruction} (read : readInstruction item = some i) :
    FitsWord i.operand := by
  obtain ⟨fields, _, read⟩ := Option.bind_eq_some_iff.mp read
  obtain ⟨code, _, read⟩ := Option.bind_eq_some_iff.mp read
  obtain ⟨operand, signed, read⟩ := Option.bind_eq_some_iff.mp read
  cases Option.some.inj read
  exact Cbor.signedFits signed

theorem valueBounded {r : RawValue} (bounded : item.Bounded size) (read : readValue item = some r) :
    Text.isValid r.string = true ∧ r.string.length ≤ size := by
  obtain ⟨fields, record, read⟩ := Option.bind_eq_some_iff.mp read
  obtain ⟨kind, _, read⟩ := Option.bind_eq_some_iff.mp read
  obtain ⟨number, _, read⟩ := Option.bind_eq_some_iff.mp read
  obtain ⟨bool, _, read⟩ := Option.bind_eq_some_iff.mp read
  obtain ⟨string, text, read⟩ := Option.bind_eq_some_iff.mp read
  cases Option.some.inj read
  exact Cbor.textBounded (Cbor.fieldBounded bounded record 4) text

structure RawChunk.Bounded (size : Nat) (raw : RawChunk) : Prop where
  code : raw.code.length ≤ maxElements
  lines : raw.lines.length ≤ maxElements
  constants : raw.constants.length ≤ maxElements
  operands : ∀ i ∈ raw.code, FitsWord i.operand
  lineNumbers : ∀ n ∈ raw.lines, FitsWord n
  strings : ∀ r ∈ raw.constants, Text.isValid r.string = true ∧ r.string.length ≤ size

theorem chunkBounded {raw : RawChunk} (bounded : item.Bounded size)
    (read : readChunk item = some raw) : raw.Bounded size := by
  obtain ⟨fields, record, read⟩ := Option.bind_eq_some_iff.mp read
  obtain ⟨magic, _, read⟩ := Option.bind_eq_some_iff.mp read
  obtain ⟨version, _, read⟩ := Option.bind_eq_some_iff.mp read
  obtain ⟨code, coded, read⟩ := Option.bind_eq_some_iff.mp read
  obtain ⟨lines, lined, read⟩ := Option.bind_eq_some_iff.mp read
  obtain ⟨constants, pooled, read⟩ := Option.bind_eq_some_iff.mp read
  cases Option.some.inj read
  have inside := Cbor.fieldBounded bounded record
  obtain ⟨codeFew, instructions⟩ := Cbor.listBounded (inside 3) coded
  obtain ⟨linesFew, numbers⟩ := Cbor.listBounded (inside 4) lined
  obtain ⟨constantsFew, values⟩ := Cbor.listBounded (inside 5) pooled
  refine ⟨codeFew, linesFew, constantsFew, fun i member => ?_, fun n member => ?_,
    fun r member => ?_⟩
  · obtain ⟨_, _, element⟩ := instructions i member
    exact instructionFits element
  · obtain ⟨_, _, element⟩ := numbers n member
    exact Cbor.signedFits element
  · obtain ⟨_, within, element⟩ := values r member
    exact valueBounded within element

theorem valuesFrom {done out : List Value} {raws : List RawValue}
    (read : values done raws = .ok out) :
    ∃ vs, out = done.reverse ++ vs ∧ raws.map RawValue.value? = vs.map some := by
  induction raws generalizing done with
  | nil => exact ⟨[], by rw [List.append_nil]; exact (Except.ok.inj read).symm, rfl⟩
  | cons r rest ih =>
    rw [values] at read
    split at read
    · next v found =>
      obtain ⟨vs, rfl, mapped⟩ := ih read
      exact ⟨v :: vs, by simp, by rw [List.map_cons, List.map_cons, found, mapped]⟩
    · contradiction

theorem rawDefined {r : RawValue} {v : Value} (found : r.value? = some v) :
    v.IsDefined ∧ (v.asString = [] ∨ v.asString = r.string) := by
  unfold RawValue.value? at found
  split at found
  all_goals cases found
  · exact ⟨(by decide : Kind.nil.tag ≤ 3), .inl rfl⟩
  · exact ⟨(by decide : Kind.bool.tag ≤ 3), .inl rfl⟩
  · exact ⟨(by decide : Kind.number.tag ≤ 3), .inl rfl⟩
  · exact ⟨(by decide : Kind.string.tag ≤ 3), .inr rfl⟩

end Wire

theorem writeNumberNormalized (x : Number) : writeNumber x.normalized = writeNumber x := by
  unfold Number.normalized
  split
  · next nan =>
    have canonical : writeNumber Number.canonicalNaN = [0xf9, 0x7e, 0x00] := by decide
    rw [canonical, writeNumber, if_pos nan]
  · rfl

theorem Value.encodeNormalized (v : Value) : v.normalized.encode = v.encode := by
  cases v with
  | number x =>
    simp only [encode, normalized, asNumber, writeNumberNormalized]
    rfl
  | _ => rfl

namespace Chunk

theorem encodeNormalized (c : Chunk) : c.normalized.encode = c.encode := by
  have constants : c.normalized.constants.toList.map Value.encode =
      c.constants.toList.map Value.encode := by
    rw [normalized, Array.toList_map, List.map_map]
    exact List.map_congr_left fun v _ => v.encodeNormalized
  have none : c.normalized.constants.isEmpty = c.constants.isEmpty := by
    simp only [normalized, Array.isEmpty, Array.size_map]
  rw [encode, constants, none]
  rfl

theorem decodedReloads {data : Bytes} {c : Chunk} (ok : decode data = .ok c) :
    c.Loadable ∧ c.Short ∧ ∀ v ∈ c.constants.toList, v.asString.length ≤ data.length := by
  obtain ⟨item, raw, constants, parsed, read, _, _, values, rfl, valid⟩ := decoded.mp ok
  have bounded := Wire.chunkBounded (Cbor.parseBounded parsed) read
  obtain ⟨_, rfl, mapped⟩ := Wire.valuesFrom values
  obtain ⟨length, each⟩ := Cbor.mappedFrom mapped
  have constant : ∀ v ∈ constants, v.IsDefined ∧ Text.isValid v.asString = true ∧
      v.asString.length ≤ data.length := by
    intro v member
    obtain ⟨r, listed, found⟩ := each v member
    obtain ⟨defined, empty | same⟩ := Wire.rawDefined found
    · exact ⟨defined, empty ▸ ⟨Text.emptyValid, Nat.zero_le _⟩⟩
    · exact ⟨defined, same ▸ bounded.strings r listed⟩
  refine ⟨⟨⟨bounded.operands, bounded.lineNumbers, fun v member => (constant v member).2.1⟩, rfl,
    fun v member => (constant v member).1, valid⟩, ⟨bounded.code, bounded.lines,
      Nat.le_trans (Nat.le_of_eq length) bounded.constants⟩, fun v member => (constant v member).2.2⟩

theorem reencodingNormalises {data : Bytes} {c : Chunk} (addressable : data.length < 2 ^ 63)
    (ok : decode data = .ok c) :
    ∃ c', decode c.encode = .ok c' ∧ c'.version = c.version ∧ c'.code = c.code ∧
      c'.lines = c.lines ∧ c'.constants = c.constants.map Value.normalized ∧
      c'.encode = c.encode := by
  obtain ⟨loadable, short, strings⟩ := decodedReloads ok
  have made : c.MadeOfWords := ⟨loadable.current, loadable.operands, loadable.lines,
    fun v member => Nat.lt_of_le_of_lt (strings v member) addressable⟩
  exact ⟨c.normalized, (decodeExact (made.storable short.sizes) short).mpr ⟨loadable, rfl⟩,
    rfl, rfl, rfl, rfl, c.encodeNormalized⟩

/-- An open record with its fields in disorder, two of them named by texts: a NaN that also carries a
text, a number written as an integer, a return with an operand, lines of which one is null, and a
tagged version that is given again. -/
def strayed : Bytes :=
  [0xbf, 0x05, 0x82, 0xa3, 0x04, 0x61, 0x78, 0x01, 0x02, 0x02, 0xfb, 0x7f, 0xf0, 0x00, 0x00, 0x00,
    0x00, 0x00, 0x01, 0xa2, 0x01, 0x02, 0x02, 0x18, 0x05, 0x19, 0x00, 0x03, 0x82, 0xa1, 0x01, 0xf6,
    0xa2, 0x61, 0x32, 0x07, 0x18, 0x01, 0x18, 0xf0, 0x04, 0x9f, 0x39, 0x00, 0x00, 0xf6, 0xff, 0x61,
    0x31, 0x7f, 0x62, 0x4c, 0x58, 0x62, 0x42, 0x43, 0xff, 0x02, 0xc9, 0x01, 0x02, 0x09, 0xff]

def straightened : Chunk :=
  ⟨currentVersion, #[⟨0x00, 0⟩, ⟨0xf0, 7⟩], #[-1, 0],
    #[.number ⟨0x7ff0000000000001⟩, .number ⟨0x4014000000000000⟩]⟩

theorem reencodingNormalisesStrayed :
    strayed.length < 2 ^ 63 ∧ decode strayed = .ok straightened ∧
      straightened.encode ≠ strayed ∧ ∃ c', decode straightened.encode = .ok c' ∧
        c'.code = straightened.code ∧ c'.lines = straightened.lines ∧
        c'.constants = #[.number Number.canonicalNaN, .number ⟨0x4014000000000000⟩] ∧
        c'.encode = straightened.encode := by
  have addressable : strayed.length < 2 ^ 63 := by decide
  have ok : decode strayed = .ok straightened := by decide +kernel
  have other : straightened.encode ≠ strayed := by decide +kernel
  obtain ⟨c', again, _, code, lines, constants, bytes⟩ := reencodingNormalises addressable ok
  exact ⟨addressable, ok, other, c', again, code, lines, constants.trans (by decide +kernel), bytes⟩

end Chunk
end ExprMachine
