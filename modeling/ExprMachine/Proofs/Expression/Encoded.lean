import ExprMachine.Proofs.Editor.Marking
import ExprMachine.Proofs.Machine.Encoded
import ExprMachine.Proofs.Token.Longest

/-! Compiling an encoded text. Every token that is not malformed begins and ends with an ASCII byte, so
that none is cut inside a character; constants and reports hold nothing but whole tokens. -/
namespace ExprMachine

open Text (isValid byte utf8 Seam validParts glyphsBefore glyphsBehind)

namespace Lexer

variable {source : Bytes} {calls : Nat}

theorem spanValid (valid : isValid source) (fine : (call source calls).kind.isError = false)
    (more : (call source calls).kind ≠ .eof) : isValid (span source (call source calls)) := by
  obtain ⟨head, last⟩ := spanEdges fine
  have some := extentPositive (callTile source calls).spelled more
  have front : Seam source (call source calls).offset := by
    rw [span, List.head?_take, if_neg (Nat.ne_of_gt some)] at head
    exact .inr head
  have back : Seam (source.drop (call source calls).offset) ((call source calls).extent source) :=
    .inl last
  exact (back.valid (front.valid valid).2).1

theorem lexemeValid (valid : isValid source) (calls : Nat) :
    isValid (call source calls).lexeme := by
  cases wrong : (call source calls).kind.isError with
  | true =>
    obtain ⟨e, kind⟩ := errorKind wrong
    rw [errorLexeme kind]
    cases e <;> exact Text.literalValid _
  | false =>
    by_cases ended : (call source calls).kind = .eof
    · rw [callEnd ended]
      exact Text.emptyValid
    · rw [← callText ended wrong]
      exact spanValid valid wrong ended

end Lexer

theorem quotedValid {inside : Bytes} (valid : isValid (byte '"' :: (inside ++ [byte '"']))) :
    isValid inside := by
  have quote : byte '"' < 128 := by decide
  have opened : ∀ b ∈ [byte '"'].getLast?, b < 128 := fun b last => Option.some.inj last ▸ quote
  have closed : ∀ b ∈ [byte '"'].head?, b < 128 := fun b first => Option.some.inj first ▸ quote
  have behind := (validParts (glyphsBehind opened _) valid).2
  exact (validParts (glyphsBefore closed) behind).1

namespace Compilation

variable {source : Bytes}

theorem literalEncoded {t : Token} (valid : isValid source)
    (member : t ∈ (TokenStream.ofSource source).tokens) : t.literal.Encoded := by
  obtain ⟨i, found⟩ := List.mem_iff_getElem?.mp (List.mem_append_left [_] member)
  cases callFound found
  unfold Token.literal
  split
  · exact Machine.plainEncoded rfl
  · next kind =>
    obtain ⟨inside, quoted, _⟩ := Lexer.quotedLexeme kind
    have cut : (Lexer.call source i).lexeme.tail.dropLast = inside := by
      rw [Lexer.call, quoted, List.tail_cons, List.dropLast_concat]
    rw [List.drop_one, cut]
    exact quotedValid (quoted ▸ Lexer.lexemeValid valid i)
  all_goals exact Machine.plainEncoded rfl

theorem compiledEncoded {c : Chunk} (valid : isValid source) (ok : compile source = .ok c) :
    c.Encoded := by
  obtain ⟨e, d, rfl, _⟩ := compiledTree ok
  intro v member
  have pooled : v ∈ e.values := by simpa [Expr.chunk] using member
  rw [derivedValues d] at pooled
  obtain ⟨t, listed, rfl⟩ := List.mem_map.mp pooled
  exact literalEncoded valid (List.mem_filter.mp listed).1

theorem reportValid {d : Diagnostic} (valid : isValid source) (failed : compile source = .error d) :
    isValid d.text := by
  obtain ⟨calls, about, _⟩ := reportedCall failed
  have lexeme := about ▸ Lexer.lexemeValid valid calls
  have message : isValid d.message := by
    rcases d with ⟨t, (_ | _) | _ | _ | _ | _⟩ <;> exact Text.literalValid _
  have place : isValid d.place := by
    unfold Diagnostic.place
    split
    · exact Text.literalValid _
    · exact Text.emptyValid
    · simp [lexeme]
  simp [Diagnostic.text, message, place]

end Compilation
end ExprMachine
