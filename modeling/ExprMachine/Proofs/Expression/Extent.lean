import ExprMachine.Proofs.Chunk.RoundTrip
import ExprMachine.Proofs.Expression.Acceptance
import ExprMachine.Proofs.Expression.Validity

/-! How large compiled chunks get: no more than a source of that length accounts for. They can
therefore be stored, and since a literal is never a NaN, what is stored is what is read back. -/
namespace ExprMachine

open Grammar (Derives)
open Text (newlines)

namespace Number

theorem finiteBits {bits : Nat} (small : bits < 0x7ff0000000000000) :
    exponentField ⟨bits.toUInt64⟩ < 2047 ∧ isNegative ⟨bits.toUInt64⟩ = false := by
  have held : bits.toUInt64.toNat = bits := by
    rw [Nat.toUInt64_eq, UInt64.toNat_ofNat']
    omega
  constructor
  · simp only [exponentField, magnitude, held, signUnit, exponentUnit]
    omega
  · simp only [isNegative, held, signUnit, decide_eq_false_iff_not]
    omega

theorem ofRatioFinite {num den x} (nearest : ofRatio? num den = some x) :
    x.exponentField < 2047 ∧ x.isNegative = false := by
  simp only [ofRatio?] at nearest
  split at nearest
  · cases Option.some.inj nearest
    decide
  split at nearest
  · next small =>
    cases Option.some.inj nearest
    exact finiteBits small
  · contradiction

theorem ofRatioNumber {num den x} (nearest : ofRatio? num den = some x) : x.isNaN = false := by
  simp [isNaN, Nat.ne_of_lt (ofRatioFinite nearest).1]

theorem ofRatioBounded {num den x} (nearest : ofRatio? num den = some x) :
    x.isInfinite = false := by
  simp [isInfinite, Nat.ne_of_lt (ofRatioFinite nearest).1]

end Number

namespace Mark

theorem operationShort (m : Mark) : m.operation.length ≤ 2 := by
  cases m <;> decide

theorem signOperationShort (m : Mark) : m.signOperation.length ≤ 1 := by
  cases m <;> decide

end Mark

namespace Expr

theorem codeLength {n ts e} (d : Derives n ts e) (pooled : Nat) :
    (e.code pooled).length ≤ 2 * ts.length := by
  refine Grammar.treeInduction (P := fun ts e => ∀ pooled, (code pooled e).length ≤ 2 * ts.length)
    (fun _ _ => ?_) (fun _ _ ih pooled => ?_) (fun {_ m _ _} _ _ ih pooled => ?_)
    (fun {_ l _ m _ _ _} _ _ left right pooled => ?_) d pooled
  · simp [code]
  · have inside := ih pooled
    simp only [code, List.length_cons, List.length_append]
    omega
  · have operand := ih pooled
    have sign := m.signOperationShort
    simp only [code, List.length_cons, List.length_append, List.length_map]
    omega
  · have first := left pooled
    have second := right (pooled + l.values.length)
    have mark := m.operationShort
    simp only [code, List.length_cons, List.length_append, List.length_map]
    omega

theorem valuesLength (e : Expr) (pooled : Nat) : e.values.length ≤ (e.code pooled).length := by
  induction e generalizing pooled with
  | literal t =>
    unfold values
    split <;> simp [code]
  | group inside closing ih => exact ih pooled
  | unary m operand ih =>
    have inside := ih pooled
    simp only [values, code, List.length_append]
    omega
  | binary left m right ihLeft ihRight =>
    have first := ihLeft pooled
    have second := ihRight (pooled + left.values.length)
    simp only [values, code, List.length_append]
    omega

theorem linesOrigin {n ts e} (d : Derives n ts e) :
    (∃ t ∈ ts, e.lastLine = t.line) ∧ ∀ line ∈ e.lines, ∃ t ∈ ts, line = (t.line : Int) := by
  refine Grammar.treeInduction (P := fun ts e => (∃ t ∈ ts, e.lastLine = t.line) ∧
      ∀ line ∈ e.lines, ∃ t ∈ ts, line = (t.line : Int))
    (fun _ => ?_) (fun {_ _ _ closing} _ _ ih => ?_) (fun _ _ ih => ?_)
    (fun _ _ left right => ?_) d
  · simp [lastLine, lines]
  · refine ⟨⟨closing, by simp, rfl⟩, fun line member => ?_⟩
    obtain ⟨t, inside, same⟩ := ih.2 line member
    exact ⟨t, by simp [inside], same⟩
  · obtain ⟨⟨last, listed, ends⟩, others⟩ := ih
    refine ⟨⟨last, by simp [listed], ends⟩, fun line member => ?_⟩
    rcases List.mem_append.mp member with inside | sign
    · obtain ⟨t, within, same⟩ := others line inside
      exact ⟨t, by simp [within], same⟩
    · obtain ⟨_, _, rfl⟩ := List.mem_map.mp sign
      exact ⟨last, by simp [listed], by rw [ends]⟩
  · obtain ⟨⟨last, listed, ends⟩, others⟩ := right
    refine ⟨⟨last, by simp [listed], ends⟩, fun line member => ?_⟩
    rcases List.mem_append.mp member with operands | mark
    · rcases List.mem_append.mp operands with inLeft | inRight
      · obtain ⟨t, within, same⟩ := left.2 line inLeft
        exact ⟨t, by simp [within], same⟩
      · obtain ⟨t, within, same⟩ := others line inRight
        exact ⟨t, by simp [within], same⟩
    · obtain ⟨_, _, rfl⟩ := List.mem_map.mp mark
      exact ⟨last, by simp [listed], by rw [ends]⟩

theorem codeOperands {e : Expr} (formed : e.Formed) :
    ∀ i ∈ e.code 0, 0 ≤ i.operand ∧ i.operand ≤ e.values.length := by
  intro i member
  rcases codeShape formed (Nat.le_of_eq (Nat.zero_add _)) i member with ⟨op, _, rfl⟩ | ⟨k, within, rfl⟩
  · exact ⟨Int.le_refl 0, Int.natCast_nonneg _⟩
  · exact ⟨Int.natCast_nonneg k, Int.ofNat_le.mpr (Nat.le_of_lt within)⟩

end Expr

namespace Token

theorem literalLength (t : Token) : t.literal.asString.length ≤ t.lexeme.length := by
  unfold literal
  split
  · exact Nat.zero_le _
  · simp only [Value.asString, List.length_dropLast, List.length_drop]
    omega
  · exact Nat.zero_le _
  · exact Nat.zero_le _
  · exact Nat.zero_le _

theorem denotedNormal {t : Token} {v : Value} (denotes : t.Denotes v) : v.normalized = v := by
  cases denotes with
  | number kind nearest => simp [Value.normalized, Number.normalized, Number.ofRatioNumber nearest]
  | string kind quoted => rfl

theorem denotedDefined {t : Token} {v : Value} (denotes : t.Denotes v) : v.IsDefined := by
  have defined : (2 : UInt8) ≤ 3 ∧ (3 : UInt8) ≤ 3 := by decide
  cases denotes with
  | number kind nearest => exact defined.1
  | string kind quoted => exact defined.2

end Token

namespace Compilation

variable {source : Bytes} {c : Chunk}

theorem compiledValid (ok : compile source = .ok c) : c.IsValid := by
  obtain ⟨e, d, rfl, _⟩ := compiledTree ok
  exact Expr.chunkValid (Expr.derivedFormed d) _

theorem compiledNormal (ok : compile source = .ok c) : c.normalized = c := by
  obtain ⟨e, d, rfl, _, inRange⟩ := compiledTree ok
  have kept : e.values.map Value.normalized = e.values := by
    rw [derivedValues d, List.map_map]
    refine List.map_congr_left fun t member => ?_
    obtain ⟨inside, pooled⟩ := List.mem_filter.mp member
    exact Token.denotedNormal (pooledDenotes inside inRange pooled)
  simp [Chunk.normalized, Expr.chunk, kept]

theorem compiledKinds (ok : compile source = .ok c) : ∀ v ∈ c.constants.toList, v.IsDefined := by
  obtain ⟨e, d, rfl, _, inRange⟩ := compiledTree ok
  intro v member
  have pooled : v ∈ e.values := by simpa [Expr.chunk] using member
  rw [derivedValues d] at pooled
  obtain ⟨t, listed, rfl⟩ := List.mem_map.mp pooled
  obtain ⟨inside, literal⟩ := List.mem_filter.mp listed
  exact Token.denotedDefined (pooledDenotes inside inRange literal)

theorem compiledWords (ok : compile source = .ok c) (short : source.length < 2 ^ 63) :
    c.MadeOfWords := by
  obtain ⟨e, d, rfl, clean, _⟩ := compiledTree ok
  have count : (TokenStream.ofSource source).tokens.length ≤ source.length :=
    Lexer.tokenCount (Lexer.Cursor.start source)
  have lineBound : newlines source < source.length := by
    obtain ⟨⟨t, listed, _⟩, _⟩ := Expr.linesOrigin d
    exact Lexer.newlinesFewer listed
  have poolSize : e.values.length ≤ (TokenStream.ofSource source).tokens.length := by
    rw [derivedValues d, List.length_map]
    exact List.length_filter_le _ _
  refine ⟨rfl, fun i member => ?_, fun line member => ?_, fun v member => ?_⟩
  · unfold Cbor.FitsWord
    rcases List.mem_append.mp member with inside | last
    · have operand := Expr.codeOperands (Expr.derivedFormed d) i inside
      omega
    · rw [List.mem_singleton.mp last]
      decide
  · unfold Cbor.FitsWord
    rcases List.mem_append.mp member with inside | last
    · obtain ⟨t, listed, rfl⟩ := (Expr.linesOrigin d).2 line inside
      obtain ⟨cursor, at_, rfl⟩ := Lexer.tokenOrigin listed
      have bound := Lexer.Cursor.nextLine at_
      omega
    · obtain ⟨cursor, at_, same⟩ := Lexer.eofOrigin source
      have bound := Lexer.Cursor.nextLine at_
      rw [List.mem_singleton.mp last, ← same]
      omega
  · have pooled : v ∈ e.values := by simpa [Expr.chunk] using member
    rw [derivedValues d] at pooled
    obtain ⟨t, listed, rfl⟩ := List.mem_map.mp pooled
    have inside := (List.mem_filter.mp listed).1
    obtain ⟨cursor, at_, same⟩ := Lexer.tokenOrigin inside
    have lexeme := Lexer.Cursor.nextLexeme at_ (same ▸ clean t inside)
    have length := t.literalLength
    rw [same] at lexeme
    omega

theorem compiledSizes (ok : compile source = .ok c) :
    c.lines.size = c.code.size ∧ c.constants.size ≤ c.code.size ∧
      c.code.size ≤ 2 * source.length + 1 := by
  obtain ⟨e, d, rfl, _, _⟩ := compiledTree ok
  have count : (TokenStream.ofSource source).tokens.length ≤ source.length :=
    Lexer.tokenCount (Lexer.Cursor.start source)
  have codeSize := Expr.codeLength d 0
  have lineSize := e.linesLength 0
  have poolSize := e.valuesLength 0
  simp only [Expr.chunk, List.size_toArray, List.length_append, List.length_singleton]
  omega

theorem compiledStorable (ok : compile source = .ok c) (short : source.length < 2 ^ 63) :
    c.Storable := by
  obtain ⟨lines, constants, code⟩ := compiledSizes ok
  refine (compiledWords ok short).storable ?_
  simp only [Array.length_toList]
  omega

theorem storedChunk {c' : Chunk} (ok : compile source = .ok c) (short : source.length < 2 ^ 63)
    (decoded : Chunk.decode c.encode = .ok c') : c' = c :=
  (Chunk.decodeEncode (compiledStorable ok short) decoded).trans (compiledNormal ok)

end Compilation
end ExprMachine
