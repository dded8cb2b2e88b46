import ExprMachine.Proofs.Token.Origin
import Mathlib.Logic.Function.Iterate
import Mathlib.Order.Monotone.Basic

/-! The tokens of a source tile it. Each token stands for a stretch of the source, its line is the one
the stretch ends on, and between two stretches there is nothing but white space and comments. -/
namespace ExprMachine

open Text (byte isLetter isDigit isWordByte newline newlines)

namespace Token

/-- How many bytes of the source a token stands for. The text of an error token is its message, so
that its length does not count. -/
def extent (source : Bytes) (t : Token) : Nat :=
  match t.kind with
  | .error .unexpectedCharacter => 1
  | .error .unterminatedString => source.length - t.offset
  | _ => t.lexeme.length

def stop (source : Bytes) (t : Token) : Nat := t.offset + t.extent source

def Spells (source : Bytes) (t : Token) : Prop :=
  match t.kind with
  | .eof => t.offset = source.length ∧ t.lexeme = []
  | .error .unexpectedCharacter =>
    t.lexeme = LexicalError.unexpectedCharacter.message ∧ t.offset < source.length
  | .error .unterminatedString => t.lexeme = LexicalError.unterminatedString.message ∧
    ∃ inside, source.drop t.offset = byte '"' :: inside ∧ byte '"' ∉ inside
  | _ => t.lexeme ≠ [] ∧ t.lexeme = (source.drop t.offset).take t.lexeme.length

end Token

namespace Lexer

inductive Blank : Bytes → Bytes → Prop where
  | none {rest} : Blank [] rest
  | space {b gap rest} (white : b ∈ [byte ' ', byte '\t', byte '\r', newline])
      (further : Blank gap rest) : Blank (b :: gap) rest
  | comment {inside gap rest} (line : newline ∉ inside)
      (ends : ∀ b ∈ (gap ++ rest).head?, b = newline) (further : Blank gap rest) :
      Blank (byte '/' :: byte '/' :: (inside ++ gap)) rest

structure Tile (source : Bytes) (start : Nat) (t : Token) : Prop where
  ordered : start ≤ t.offset
  inside : t.stop source ≤ source.length
  gap : Blank ((source.take t.offset).drop start) (source.drop t.offset)
  spelled : t.Spells source
  line : t.line = 1 + newlines (source.take (t.stop source))

/-! What is skipped in front of a token. -/

theorem spaceListed {b : UInt8} (white : isSpace b = true) :
    b ∈ [byte ' ', byte '\t', byte '\r', newline] := by
  simp only [isSpace, Bool.or_eq_true, beq_iff_eq] at white
  rcases white with ((rfl | rfl) | rfl) | rfl <;> decide

theorem blankLengthBound (inComment : Bool) (s : Bytes) :
    blankLength inComment s ≤ s.length := by
  induction s generalizing inComment with
  | nil => exact Nat.zero_le _
  | cons b rest ih =>
    rw [blankLength]
    repeat' split
    all_goals first | exact Nat.succ_le_succ (ih _) | exact Nat.zero_le _

theorem blankSkipped (s : Bytes) :
    Blank (s.take (blankLength false s)) (s.drop (blankLength false s)) ∧
      ∃ inside gap, s.take (blankLength true s) = inside ++ gap ∧ newline ∉ inside ∧
        (∀ b ∈ (gap ++ s.drop (blankLength true s)).head?, b = newline) ∧
        Blank gap (s.drop (blankLength true s)) := by
  induction s with
  | nil => exact ⟨.none, [], [], rfl, by simp, by simp, .none⟩
  | cons b rest ih =>
    obtain ⟨outside, inside, gap, cut, line, ends, further⟩ := ih
    constructor
    · rw [blankLength]
      simp only [Bool.false_eq_true, ↓reduceIte]
      split
      · next white => exact .space (spaceListed white) outside
      split
      · next slashes =>
        simp only [Bool.and_eq_true, beq_iff_eq] at slashes
        obtain ⟨rfl, second⟩ := slashes
        -- the second slash is the first byte inside
        have head : (inside ++ (gap ++ rest.drop (blankLength true rest))).head? =
            some (byte '/') := by
          rw [← List.append_assoc, ← cut, List.take_append_drop, second]
        cases inside with
        | nil => exact absurd (ends (byte '/') head) (by decide)
        | cons first inside =>
          have same : first = byte '/' := Option.some.inj head
          rw [List.take_succ_cons, List.drop_succ_cons, cut, same]
          exact .comment (fun member => line (.tail _ member)) ends further
      · exact .none
    · rw [blankLength]
      simp only [↓reduceIte]
      by_cases last : b = newline
      · subst last
        exact ⟨[], newline :: rest.take (blankLength false rest), rfl, by simp,
          fun x first => (Option.some.inj first).symm, .space (by decide) outside⟩
      · have goesOn : (b != newline) = true := bne_iff_ne.mpr last
        rw [goesOn, List.take_succ_cons, List.drop_succ_cons, cut]
        exact ⟨b :: inside, gap, rfl, List.not_mem_cons_of_ne_of_not_mem (Ne.symm last) line, ends,
          further⟩

/-! What a token takes. -/

theorem numberLengthBound (s : Bytes) : numberLength s ≤ s.length := by
  have whole : (s.takeWhile isDigit).length ≤ s.length := (List.takeWhile_prefix _).length_le
  unfold numberLength
  dsimp only
  split
  · next point rest cut =>
    have places : (rest.takeWhile isDigit).length ≤ rest.length :=
      (List.takeWhile_prefix _).length_le
    have size := congrArg List.length cut
    rw [List.length_drop, List.length_cons] at size
    split <;> omega
  · exact whole

theorem markInFront {s : Bytes} {m : Mark} (found : leadingMark? s = some m) : m.text <+: s := by
  unfold leadingMark? at found
  split at found
  · next long =>
    cases Option.some.inj found
    exact List.isPrefixOf_iff_prefix.mp (@List.find?_some _ _ m _ long)
  · exact List.isPrefixOf_iff_prefix.mp (@List.find?_some _ _ m _ found)

def Leading (s : Bytes) (size : Nat) : TokenKind → Prop
  | .eof => s = [] ∧ size = 0
  | .error .unexpectedCharacter => 0 < s.length ∧ size = 1
  | .error .unterminatedString =>
    (∃ inside, s = byte '"' :: inside ∧ byte '"' ∉ inside) ∧ size = s.length
  | _ => 0 < size ∧ size ≤ s.length

theorem leadingRead (s : Bytes) : Leading s (leadingToken s).2 (leadingToken s).1 := by
  cases s with
  | nil => exact ⟨rfl, rfl⟩
  | cons b rest =>
    have positive := leadingToken_length_pos b rest
    rw [leadingToken] at positive ⊢
    split
    · next letter =>
      rw [if_pos letter] at positive
      have bound : ((b :: rest).takeWhile isWordByte).length ≤ (b :: rest).length :=
        (List.takeWhile_prefix _).length_le
      dsimp only [wordKind]
      split <;> exact ⟨positive, bound⟩
    next notLetter =>
    rw [if_neg notLetter] at positive
    split
    · next digit =>
      rw [if_pos digit] at positive
      exact ⟨positive, numberLengthBound _⟩
    next notDigit =>
    rw [if_neg notDigit] at positive
    split
    · next quote =>
      rw [beq_iff_eq] at quote
      subst quote
      split
      · next size closed =>
        unfold stringLength? at closed
        dsimp only at closed
        split at closed
        · next short =>
          cases Option.some.inj closed
          refine ⟨Nat.succ_pos _, ?_⟩
          dsimp only
          rw [List.length_cons]
          omega
        · contradiction
      · next unclosed =>
        refine ⟨⟨rest, rfl, fun member => ?_⟩, rfl⟩
        unfold stringLength? at unclosed
        dsimp only at unclosed
        split at unclosed
        · contradiction
        · next long =>
          have whole := (List.takeWhile_prefix (l := rest) (· != byte '"')).eq_of_length_le
            (Nat.not_lt.mp long)
          have all := List.all_takeWhile (p := (· != byte '"')) (l := rest)
          rw [whole] at all
          simpa using List.all_eq_true.mp all _ member
    · split
      · next m found => exact ⟨mark_length_pos m, (markInFront found).length_le⟩
      · exact ⟨Nat.succ_pos _, rfl⟩

/-! The places that calls for the next token pass through. -/

namespace Cursor

structure At (source : Bytes) (c : Cursor) : Prop where
  inside : c.offset ≤ source.length
  rest : c.rest = source.drop c.offset
  line : c.line = 1 + newlines (source.take c.offset)

variable {source : Bytes} {c : Cursor}

theorem startAt (source : Bytes) : At source (start source) := ⟨Nat.zero_le _, rfl, rfl⟩

theorem advanceAt (place : At source c) {n : Nat} (enough : n ≤ c.rest.length) :
    At source (c.advance n) := by
  have size := congrArg List.length place.rest
  have inside := place.inside
  rw [List.length_drop] at size
  refine ⟨?_, ?_, ?_⟩
  · simp only [advance]
    omega
  · simp only [advance]
    rw [place.rest, List.drop_drop]
  · simp only [advance, newlines]
    rw [place.line, place.rest, List.take_add, List.count_append, newlines, Nat.add_assoc]

structure Stepped (source : Bytes) (c : Cursor) : Prop where
  tile : Tile source c.offset c.next.1
  after : At source c.next.2
  offset : c.next.2.offset = c.next.1.stop source

theorem skipAt (place : At source c) : At source c.skipBlank :=
  advanceAt place (blankLengthBound false c.rest)

theorem skipGap (place : At source c) :
    Blank ((source.take c.skipBlank.offset).drop c.offset) (source.drop c.skipBlank.offset) := by
  have gap := (blankSkipped c.rest).1
  rw [place.rest, List.drop_drop] at gap
  have cut : (source.take c.skipBlank.offset).drop c.offset =
      (source.drop c.offset).take (blankLength false (source.drop c.offset)) := by
    simp only [skipBlank, advance]
    rw [List.drop_take, Nat.add_sub_cancel_left, place.rest]
  rw [cut]
  simpa only [skipBlank, advance, place.rest] using gap

theorem extentRead (place : At source c) :
    c.next.1.extent source = (leadingToken c.skipBlank.rest).2 ∧ c.next.1.Spells source ∧
      (leadingToken c.skipBlank.rest).2 ≤ c.skipBlank.rest.length := by
  have rest := (skipAt place).rest
  have inside := (skipAt place).inside
  have size := congrArg List.length rest
  rw [List.length_drop] at size
  have leading := leadingRead c.skipBlank.rest
  simp only [next]
  generalize c.skipBlank = before at *
  generalize leadingToken before.rest = read at *
  obtain ⟨kind, n⟩ := read
  have taken : n ≤ before.rest.length → (before.rest.take n).length = n :=
    List.length_take_of_le
  cases kind with
  | eof =>
    obtain ⟨empty, rfl⟩ := leading
    rw [empty, List.length_nil] at size
    exact ⟨by simp [Token.extent], ⟨by dsimp only; omega, by simp⟩, Nat.zero_le _⟩
  | error e =>
    cases e with
    | unexpectedCharacter =>
      obtain ⟨some, rfl⟩ := leading
      exact ⟨rfl, ⟨rfl, by dsimp only; omega⟩, some⟩
    | unterminatedString =>
      obtain ⟨⟨within, opened, unclosed⟩, rfl⟩ := leading
      exact ⟨size.symm, ⟨rfl, within, rest ▸ opened, unclosed⟩, Nat.le_refl _⟩
  | mark | identifier | string | number | keyword =>
    obtain ⟨positive, bound⟩ := leading
    have length := taken bound
    refine ⟨length, ⟨fun empty => ?_, ?_⟩, bound⟩
    · dsimp only at empty
      rw [empty] at length
      exact absurd length.symm (Nat.ne_of_gt positive)
    · dsimp only
      rw [length, rest]

theorem stepped (place : At source c) : Stepped source c := by
  obtain ⟨extent, spelled, bound⟩ := extentRead place
  have before := skipAt place
  have after : At source c.next.2 := advanceAt before bound
  have offset : c.next.2.offset = c.next.1.stop source := by
    rw [Token.stop, extent]
    rfl
  refine ⟨⟨Nat.le_add_right _ _, ?_, skipGap place, spelled, ?_⟩, after, offset⟩
  · rw [← offset]
    exact after.inside
  · rw [← offset, ← after.line]
    rfl

def after (c : Cursor) (calls : Nat) : Cursor := (fun c => c.next.2)^[calls] c

theorem afterSucc (c : Cursor) (calls : Nat) : c.after (calls + 1) = (c.after calls).next.2 :=
  Function.iterate_succ_apply' _ _ _

theorem afterAt (place : At source c) (calls : Nat) : At source (c.after calls) := by
  induction calls with
  | zero => exact place
  | succ calls ih => exact afterSucc c calls ▸ (stepped ih).after

theorem endStays (ended : c.next.1.kind = .eof) : c.next.2.next = c.next := by
  have leading := leadingRead c.skipBlank.rest
  simp only [next] at ended
  rw [ended] at leading
  have after : c.next.2 = c.skipBlank := by
    simp only [next]
    rw [leading.2]
    simp [advance, newlines]
  have skipped : c.skipBlank.skipBlank = c.skipBlank := by
    rw [skipBlank, leading.1]
    simp [blankLength, advance, newlines]
  rw [after]
  simp only [next, skipped]

theorem endRepeats (ended : c.next.1.kind = .eof) (calls : Nat) :
    (c.after calls).next.1 = c.next.1 := by
  have same : (c.after calls).next = c.next := by
    induction calls with
    | zero => rfl
    | succ calls ih => rw [afterSucc, ih, endStays ended]
  rw [same]

end Cursor

def call (source : Bytes) (calls : Nat) : Token := ((Cursor.start source).after calls).next.1

def taken (source : Bytes) : Nat → Nat
  | 0 => 0
  | calls + 1 => (call source calls).stop source

theorem takenOffset (source : Bytes) (calls : Nat) :
    taken source calls = ((Cursor.start source).after calls).offset := by
  cases calls with
  | zero => rfl
  | succ calls =>
    rw [Cursor.afterSucc]
    exact (Cursor.stepped (Cursor.afterAt (Cursor.startAt source) calls)).offset.symm

theorem callTile (source : Bytes) (calls : Nat) :
    Tile source (taken source calls) (call source calls) := by
  rw [takenOffset]
  exact (Cursor.stepped (Cursor.afterAt (Cursor.startAt source) calls)).tile

theorem streamRead (c : Cursor) :
    (∀ t ∈ (TokenStream.readFrom c).tokens, t.kind ≠ .eof) ∧
      (TokenStream.readFrom c).eof.kind = .eof ∧
      (TokenStream.readFrom c).toList =
        (List.range ((TokenStream.readFrom c).tokens.length + 1)).map fun calls =>
          (c.after calls).next.1 := by
  induction hn : c.rest.length using Nat.strongRecOn generalizing c with
  | ind n ih =>
    rw [TokenStream.readFrom]
    split
    · next ended => exact ⟨by simp, ended, rfl⟩
    · next more =>
      obtain ⟨others, ended, listed⟩ := ih _ (hn ▸ c.next_rest_lt more) c.next.2 rfl
      refine ⟨List.forall_mem_cons.mpr ⟨more, others⟩, ended, ?_⟩
      rw [List.length_cons, List.range_succ_eq_map, List.map_cons, List.map_map]
      exact congrArg (c.next.1 :: ·) listed

theorem extentPositive {source : Bytes} {t : Token} (spelled : t.Spells source)
    (more : t.kind ≠ .eof) : 0 < t.extent source := by
  unfold Token.Spells at spelled
  unfold Token.extent
  split at spelled
  · next ended => exact absurd ended more
  · next kind => simp [kind]
  · next kind =>
    obtain ⟨_, inside, opened, _⟩ := spelled
    have size := congrArg List.length opened
    rw [List.length_drop, List.length_cons] at size
    simp only [kind]
    omega
  · next other₁ other₂ other₃ =>
    split
    · next kind => exact absurd kind other₂
    · next kind => exact absurd kind other₃
    · exact List.length_pos_iff.mpr spelled.1

/-! The calls up to the first end token return the tokens of the source, all later ones that token. -/

theorem callsListed (source : Bytes) :
    (TokenStream.ofSource source).toList =
      (List.range ((TokenStream.ofSource source).tokens.length + 1)).map (call source) :=
  (streamRead (Cursor.start source)).2.2

theorem callRead {source : Bytes} {calls : Nat}
    (bound : calls ≤ (TokenStream.ofSource source).tokens.length) :
    (TokenStream.ofSource source).toList[calls]? = some (call source calls) := by
  simp [callsListed, Nat.lt_succ_of_le bound]

theorem callMore {source : Bytes} {calls : Nat}
    (before : calls < (TokenStream.ofSource source).tokens.length) :
    (call source calls).kind ≠ .eof := by
  have here := callRead (Nat.le_of_lt before)
  rw [TokenStream.toList, List.getElem?_append_left before] at here
  exact (streamRead (Cursor.start source)).1 _ (List.mem_of_getElem? here)

theorem callLast (source : Bytes) :
    call source (TokenStream.ofSource source).tokens.length = (TokenStream.ofSource source).eof := by
  have here := @callRead source _ (Nat.le_refl _)
  rw [TokenStream.toList, List.getElem?_concat_length] at here
  exact (Option.some.inj here).symm

theorem callRepeats {source : Bytes} {calls : Nat} (ended : (call source calls).kind = .eof)
    (further : Nat) : call source (calls + further) = call source calls := by
  have shifted : (Cursor.start source).after (calls + further) =
      ((Cursor.start source).after calls).after further := by
    rw [Nat.add_comm]
    exact Function.iterate_add_apply _ _ _ _
  simp only [call, shifted]
  exact Cursor.endRepeats ended further

theorem callEnd {source : Bytes} {calls : Nat} (ended : (call source calls).kind = .eof) :
    call source calls = ⟨.eof, [], source.length, 1 + newlines source⟩ := by
  have tile := callTile source calls
  have spelled := tile.spelled
  have line := tile.line
  generalize call source calls = t at *
  obtain ⟨kind, lexeme, offset, lineOf⟩ := t
  cases ended
  obtain ⟨rfl, rfl⟩ := spelled
  simpa [Token.stop, Token.extent] using line

theorem takenMonotone (source : Bytes) : Monotone (taken source) :=
  monotone_nat_of_le_succ fun calls =>
    Nat.le_trans (callTile source calls).ordered (Nat.le_add_right _ _)

theorem linesOrdered (source : Bytes) :
    (TokenStream.ofSource source).toList.Pairwise fun t u => t.line ≤ u.line := by
  rw [callsListed, List.pairwise_map]
  refine List.pairwise_lt_range.imp fun {i j} before => ?_
  rw [(callTile source i).line, (callTile source j).line]
  have stops : taken source (i + 1) ≤ taken source (j + 1) :=
    takenMonotone source (Nat.succ_le_succ (Nat.le_of_lt before))
  exact Nat.add_le_add_left ((List.take_sublist_take_left stops).count_le _) 1

theorem tokensTile (source : Bytes) :
    ∃ n ≤ source.length,
      (∀ calls < n, (call source calls).kind ≠ .eof ∧
        (call source calls).offset < (call source (calls + 1)).offset) ∧
      (∀ calls, n ≤ calls →
        call source calls = ⟨.eof, [], source.length, 1 + newlines source⟩) ∧
      (∀ calls, Tile source (taken source calls) (call source calls)) ∧
      (TokenStream.ofSource source).toList = (List.range (n + 1)).map (call source) := by
  refine ⟨(TokenStream.ofSource source).tokens.length, tokenCount (Cursor.start source),
    fun calls before => ⟨callMore before, ?_⟩, fun calls late => ?_, callTile source,
    callsListed source⟩
  · have later := (callTile source (calls + 1)).ordered
    have positive := extentPositive (callTile source calls).spelled (callMore before)
    simp only [taken, Token.stop] at later
    omega
  · have last : (call source (TokenStream.ofSource source).tokens.length).kind = .eof :=
      callLast source ▸ (streamRead (Cursor.start source)).2.1
    obtain ⟨further, rfl⟩ := Nat.exists_eq_add_of_le late
    rw [callRepeats last, callEnd last]

end Lexer
end ExprMachine
