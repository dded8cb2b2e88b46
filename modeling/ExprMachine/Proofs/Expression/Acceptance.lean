import ExprMachine.Proofs.Expression.Recognition
import ExprMachine.Proofs.Number.Overflow
import ExprMachine.Proofs.Token.Origin

/-! Which sources compile, and to what: those whose tokens are well formed, whose numbers are in
range and which derive from the grammar; the code is that of the one tree they have, and the pool
holds the numbers and strings in source order. -/
namespace ExprMachine

open Text (byte utf8)
open Grammar (Derives)

inductive Token.Denotes : Token → Value → Prop where
  | number {t x} (kind : t.kind = .number) (nearest : Number.ofLiteral? t.lexeme = some x) :
      Denotes t (.number x)
  | string {t s} (kind : t.kind = .string) (quoted : t.lexeme = byte '"' :: (s ++ [byte '"'])) :
      Denotes t (.string s)

namespace Compilation

theorem inRangeIff (ts : List Token) :
    InRange ts ↔ ∀ t ∈ ts, t.kind = .number → ¬ Number.Overflows t.lexeme := by
  simp only [InRange, ← Number.ofLiteralOverflow, Option.isSome_iff_ne_none, ne_eq]

theorem markUnpooled {t : Token} {m} (kind : t.kind = .mark m) : t.isPooled = false := by
  simp [Token.isPooled, kind]

theorem derivedValues {n ts e} (d : Derives n ts e) :
    e.values = (ts.filter Token.isPooled).map Token.literal := by
  refine Grammar.treeInduction
    (P := fun ts e => e.values = (ts.filter Token.isPooled).map Token.literal)
    (fun {t} kind => ?_) (fun opens closes ih => ?_) (fun kind sign ih => ?_)
    (fun kind operator left right => ?_) d
  · by_cases pooled : t.isPooled = true <;> simp [Expr.values, pooled]
  · simp [Expr.values, markUnpooled opens, markUnpooled closes, ih]
  · simp [Expr.values, markUnpooled kind, ih]
  · simp [Expr.values, markUnpooled kind, left, right]

theorem pooledDenotes {source t} (member : t ∈ (TokenStream.ofSource source).tokens)
    (inRange : InRange (TokenStream.ofSource source).tokens) (pooled : t.isPooled = true) :
    t.Denotes t.literal := by
  unfold Token.isPooled at pooled
  split at pooled
  · next kind =>
    obtain ⟨x, nearest⟩ := Option.isSome_iff_exists.mp (inRange t member kind)
    have value : t.literal = .number x := by simp [Token.literal, kind, nearest]
    exact value ▸ .number kind nearest
  · next kind =>
    obtain ⟨c, _, rfl⟩ := Lexer.tokenOrigin member
    obtain ⟨inside, quoted, _⟩ := Lexer.quotedLexeme kind
    have value : c.next.1.literal = .string inside := by
      unfold Token.literal
      rw [kind, quoted]
      simp
    exact value ▸ .string kind quoted
  · contradiction

theorem compiledTree {source c} (ok : compile source = .ok c) :
    ∃ e, Derives Grammar.equality (TokenStream.ofSource source).tokens e ∧
      c = e.chunk (TokenStream.ofSource source).eof.line ∧
      Clean (TokenStream.ofSource source).tokens ∧ InRange (TokenStream.ofSource source).tokens := by
  obtain ⟨clean, inRange, e, d⟩ := compileSound ok
  have built := compileDerived d clean inRange
  have same := Except.ok.inj (ok.symm.trans built)
  exact ⟨e, d, same, clean, inRange⟩

theorem compileExact (source : Bytes) :
    let ts := (TokenStream.ofSource source).tokens
    ((∃ c, compile source = .ok c) ↔
      (∀ t ∈ ts, t.kind.isError = false) ∧
      (∀ t ∈ ts, t.kind = .number → ¬ Number.Overflows t.lexeme) ∧
      ∃ e, Derives Grammar.equality ts e) ∧
    ∀ c, compile source = .ok c →
      ∃ e, Derives Grammar.equality ts e ∧ (∀ e', Derives Grammar.equality ts e' → e' = e) ∧
        c.code.toList = e.code 0 ++ [Instruction.plain .return] ∧
        c.constants.size = (ts.filter Token.isPooled).length ∧
        ∀ (k : Nat) (t : Token), (ts.filter Token.isPooled)[k]? = some t →
          ∃ v, c.constants[k]? = some v ∧ t.Denotes v := by
  intro ts
  refine ⟨⟨?_, ?_⟩, ?_⟩
  · rintro ⟨c, ok⟩
    obtain ⟨e, d, _, clean, inRange⟩ := compiledTree ok
    exact ⟨clean, (inRangeIff ts).mp inRange, e, d⟩
  · rintro ⟨clean, inRange, e, d⟩
    exact ⟨_, compileDerived d clean ((inRangeIff ts).mpr inRange)⟩
  · intro c ok
    obtain ⟨e, d, rfl, clean, inRange⟩ := compiledTree ok
    have values := derivedValues d
    refine ⟨e, d, fun e' d' => Grammar.derivesUnique d' d, rfl, ?_, ?_⟩
    · simp [Expr.chunk, values, ts]
    · intro k t found
      have member := List.mem_filter.mp (List.mem_of_getElem? found)
      refine ⟨t.literal, ?_, pooledDenotes member.1 inRange member.2⟩
      have listed : ((ts.filter Token.isPooled).map Token.literal)[k]? = some t.literal := by
        rw [List.getElem?_map, found]
        rfl
      simpa [Expr.chunk, values] using listed

end Compilation
end ExprMachine
