import ExprMachine.Proofs.Text.Cutting
import ExprMachine.Proofs.Token.Tiling
import Mathlib.Data.List.Basic
import Mathlib.Data.List.TakeWhile

/-! Where tokens may cut a source. Every token that is not malformed starts and ends with an ASCII
byte, and what stands between tokens does not end inside a character either, so that up to the first
malformed token all places between tokens are places between characters. -/
namespace ExprMachine.Lexer

open Text (byte isDigit isWordByte newline Seam)

theorem errorKind {kind : TokenKind} (wrong : kind.isError = true) : ∃ e, kind = .error e := by
  unfold TokenKind.isError at wrong
  split at wrong
  · next e => exact ⟨e, rfl⟩
  · contradiction

/-! The bytes of a token. -/

theorem takeWhileTaken (p : UInt8 → Bool) (s : Bytes) :
    s.take (s.takeWhile p).length = s.takeWhile p :=
  (List.prefix_iff_eq_take.mp (List.takeWhile_prefix p)).symm

theorem numberBytes (s : Bytes) :
    ∀ b ∈ s.take (numberLength s), isDigit b = true ∨ b = byte '.' := by
  have digits : ∀ {t : Bytes}, ∀ b ∈ t.takeWhile isDigit, isDigit b = true ∨ b = byte '.' :=
    fun b member => .inl (List.mem_takeWhile_imp member)
  unfold numberLength
  dsimp only
  split
  · next point rest cut =>
    split
    · next places =>
      simp only [Bool.and_eq_true, beq_iff_eq] at places
      rw [Nat.add_assoc, List.take_add, takeWhileTaken, cut, Nat.add_comm 1, List.take_succ_cons,
        takeWhileTaken]
      intro b member
      rcases List.mem_append.mp member with whole | fraction
      · exact digits b whole
      rcases List.mem_cons.mp fraction with rfl | later
      · exact .inr places.1
      · exact digits b later
    · rw [takeWhileTaken]
      exact digits
  · rw [takeWhileTaken]
    exact digits

def IsPlain (b : UInt8) : Prop := b < 128 ∧ b ≠ newline

theorem markPlain (m : Mark) : ∀ b ∈ m.text, IsPlain b := by
  have all : m.text.all (fun b => b < 128 && b != newline) = true := by cases m <;> decide
  intro b member
  simpa [IsPlain] using List.all_eq_true.mp all b member

theorem betweenPlain {low high b : UInt8} (above : newline < low) (below : high < 128)
    (least : low ≤ b) (most : b ≤ high) : IsPlain b := by
  refine ⟨UInt8.lt_of_le_of_lt most below, ?_⟩
  rintro rfl
  exact absurd above (UInt8.not_lt.mpr least)

theorem digitPlain {b : UInt8} (digit : isDigit b = true) : IsPlain b := by
  simp only [isDigit, Bool.and_eq_true, decide_eq_true_eq] at digit
  exact betweenPlain (by decide) (by decide) digit.1 digit.2

theorem wordPlain {b : UInt8} (word : isWordByte b = true) : IsPlain b := by
  simp only [isWordByte, Text.isLetter, Text.isLower, Text.isUpper, Bool.or_eq_true,
    Bool.and_eq_true, decide_eq_true_eq, beq_iff_eq] at word
  rcases word with ((lower | upper) | rfl) | digit
  · exact betweenPlain (by decide) (by decide) lower.1 lower.2
  · exact betweenPlain (by decide) (by decide) upper.1 upper.2
  · exact ⟨by decide, by decide⟩
  · exact digitPlain digit

theorem leadingPlain {s : Bytes} (fine : (leadingToken s).1.isError = false)
    (other : (leadingToken s).1 ≠ .string) :
    ∀ b ∈ s.take (leadingToken s).2, IsPlain b := by
  cases s with
  | nil => simp
  | cons first rest =>
    revert fine other
    rw [leadingToken]
    split
    · intro _ _
      rw [takeWhileTaken]
      exact fun b member => wordPlain (List.mem_takeWhile_imp member)
    split
    · intro _ _ b member
      rcases numberBytes _ b member with digit | rfl
      · exact digitPlain digit
      · exact ⟨by decide, by decide⟩
    split
    · split
      · exact fun _ other => absurd rfl other
      · intro error
        contradiction
    split
    · next m found =>
      intro _ _ b member
      rw [← List.prefix_iff_eq_take.mp (markInFront found)] at member
      exact markPlain m b member
    · intro error
      contradiction

theorem leadingEdges {s : Bytes} (fine : (leadingToken s).1.isError = false) :
    (∀ b ∈ (s.take (leadingToken s).2).head?, b < 128) ∧
      ∀ b ∈ (s.take (leadingToken s).2).getLast?, b < 128 := by
  by_cases quoted : (leadingToken s).1 = .string
  · have read : leadingToken s = (.string, (leadingToken s).2) := Prod.ext quoted rfl
    obtain ⟨inside, rest, text, _, size⟩ := leadingString read
    have span : s.take (leadingToken s).2 = byte '"' :: (inside ++ [byte '"']) := by
      rw [size, text, List.take_succ_cons, List.append_cons, List.take_left' (by simp)]
    rw [span, ← List.cons_append, List.getLast?_concat]
    exact ⟨fun b first => Option.some.inj first ▸ by decide,
      fun b last => Option.some.inj last ▸ by decide⟩
  · have plain := leadingPlain fine quoted
    exact ⟨fun b first => (plain b (List.mem_of_mem_head? first)).1,
      fun b last => (plain b (List.mem_of_getLast? last)).1⟩

theorem gapEdge {gap rest : Bytes} (blank : Blank gap rest) :
    (∀ b ∈ gap.getLast?, b < 128) ∨ ∀ b ∈ rest.head?, b < 128 := by
  have spaces : [byte ' ', byte '\t', byte '\r', newline].all (· < 128) = true := by decide
  induction blank with
  | none => exact .inl (by simp)
  | @space b gap rest white further ih =>
    cases gap with
    | nil => exact .inl fun x last =>
        Option.some.inj last ▸ of_decide_eq_true (List.all_eq_true.mp spaces b white)
    | cons first gap => rwa [List.getLast?_cons_cons]
  | @comment inside gap rest line ends further ih =>
    cases gap with
    -- a comment that ends the gap has a line feed behind it, or nothing
    | nil => exact .inr fun b first => ends b first ▸ by decide
    | cons first gap =>
      rw [← List.cons_append, ← List.cons_append, List.getLast?_append]
      simpa using ih

theorem blankStops (inComment : Bool) (s : Bytes) :
    ∀ b ∈ (s.drop (blankLength inComment s)).head?, isSpace b = false := by
  induction s generalizing inComment with
  | nil => simp
  | cons b rest ih =>
    rw [blankLength]
    split
    · exact ih _
    split
    · exact ih _
    next dark =>
    split
    · exact ih _
    · exact fun x first => Option.some.inj first ▸ Bool.eq_false_iff.mpr dark

/-! The tokens of a source. -/

theorem Cursor.nextLeads {source : Bytes} {c : Cursor} (place : Cursor.At source c) :
    leadingToken (source.drop c.next.1.offset) = (c.next.1.kind, c.next.1.extent source) := by
  rw [(Cursor.extentRead place).1]
  change leadingToken (source.drop c.skipBlank.offset) = leadingToken c.skipBlank.rest
  rw [(Cursor.skipAt place).rest]

theorem callLeads (source : Bytes) (calls : Nat) :
    leadingToken (source.drop (call source calls).offset) =
      ((call source calls).kind, (call source calls).extent source) :=
  Cursor.nextLeads (Cursor.afterAt (Cursor.startAt source) calls)

def span (source : Bytes) (t : Token) : Bytes := (source.drop t.offset).take (t.extent source)

theorem spanEdges {source : Bytes} {calls : Nat} (fine : (call source calls).kind.isError = false) :
    (∀ b ∈ (span source (call source calls)).head?, b < 128) ∧
      ∀ b ∈ (span source (call source calls)).getLast?, b < 128 := by
  have edges := @leadingEdges (source.drop (call source calls).offset)
  rw [callLeads] at edges
  exact edges fine

theorem callStops (source : Bytes) (calls : Nat) :
    ∀ b ∈ (source.drop (call source calls).offset).head?, isSpace b = false := by
  have before := Cursor.skipAt (Cursor.afterAt (Cursor.startAt source) calls)
  change ∀ b ∈ (source.drop (Cursor.skipBlank _).offset).head?, _
  rw [← before.rest]
  exact blankStops false _

theorem spanClear {source : Bytes} {calls : Nat} (closed : (call source calls).kind ≠ .string)
    (unclosed : (call source calls).kind ≠ .error .unterminatedString) :
    newline ∉ span source (call source calls) := by
  intro member
  cases wrong : (call source calls).kind.isError with
  | false =>
    have plain := @leadingPlain (source.drop (call source calls).offset)
    rw [callLeads] at plain
    exact (plain wrong closed _ member).2 rfl
  | true =>
    have strange : (call source calls).kind = .error .unexpectedCharacter := by
      obtain ⟨e, kind⟩ := errorKind wrong
      cases e with
      | unexpectedCharacter => exact kind
      | unterminatedString => exact absurd kind unclosed
    have one : (call source calls).extent source = 1 := by rw [Token.extent, strange]
    have first := callStops source calls
    rw [span, one] at member
    cases rest : source.drop (call source calls).offset with
    | nil => simp [rest] at member
    | cons b others =>
      rw [rest] at member first
      cases List.mem_singleton.mp member
      exact absurd (first _ rfl) (by decide)

theorem stopSpan (source : Bytes) (t : Token) :
    source.take (t.stop source) = source.take t.offset ++ span source t := by
  rw [Token.stop, List.take_add, span]

theorem seamOnward {source : Bytes} {start : Nat} {t : Token} (before : Seam source start)
    (tile : Tile source start t) : Seam source t.offset := by
  have ordered := tile.ordered
  have inside : t.offset ≤ source.length := Nat.le_trans (Nat.le_add_right _ _) tile.inside
  have blank := tile.gap
  cases skipped : (source.take t.offset).drop start with
  | nil =>
    -- the token starts where the one before it stopped
    rw [List.drop_eq_nil_iff, List.length_take_of_le inside] at skipped
    rwa [Nat.le_antisymm skipped ordered]
  | cons first gap =>
    rw [skipped] at blank
    rcases gapEdge blank with behind | ahead
    · have cut := List.take_append_drop start (source.take t.offset)
      rw [skipped] at cut
      refine .inl ?_
      rwa [← cut, List.getLast?_append_of_ne_nil _ (List.cons_ne_nil _ _)]
    · exact .inr ahead

theorem stopSeam {source : Bytes} {calls : Nat} (fine : (call source calls).kind.isError = false) :
    Seam source ((call source calls).stop source) := by
  by_cases ended : (call source calls).kind = .eof
  · refine .inr ?_
    rw [callEnd ended]
    simp [Token.stop]
  · have tile := callTile source calls
    have some : span source (call source calls) ≠ [] := by
      have positive := extentPositive tile.spelled ended
      have inside := tile.inside
      rw [Token.stop] at inside
      rw [span, ← List.length_pos_iff, List.length_take, List.length_drop]
      omega
    refine .inl ?_
    rw [stopSpan, List.getLast?_append_of_ne_nil _ some]
    exact (spanEdges fine).2

theorem offsetSeam {source : Bytes} {calls : Nat}
    (fine : ∀ i < calls, (call source i).kind.isError = false) :
    Seam source (call source calls).offset := by
  -- the token itself may be malformed, since only the one before it counts
  refine seamOnward ?_ (callTile source calls)
  cases calls with
  | zero => exact .inl (by simp [taken])
  | succ calls => exact stopSeam (fine calls (Nat.lt_succ_self calls))

end ExprMachine.Lexer
