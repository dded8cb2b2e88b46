import ExprMachine.Proofs.Token.Longest

/-! Tokens written one after another with single spaces between them are read back as they are: no
token takes in the space behind it, since only strings hold white space, and they have ended by then. -/
namespace ExprMachine

open Text (byte join isDigit isLetter isWordByte)

def Token.spelling (t : Token) : TokenKind × Bytes := (t.kind, t.lexeme)

namespace TokenStream

def spelling (ts : TokenStream) : List (TokenKind × Bytes) := ts.toList.map Token.spelling

def spaced (ts : TokenStream) : Bytes := join [byte ' '] (ts.tokens.map Token.lexeme)

end TokenStream

namespace Lexer

def White (s : Bytes) : Prop := ∀ b ∈ s, isSpace b = true

variable {s rest : Bytes} {kind : TokenKind}

theorem spaceApart {b : UInt8} (white : isSpace b = true) :
    isDigit b = false ∧ isWordByte b = false ∧ b ≠ byte '.' ∧ b ≠ byte '/' ∧ b ≠ byte '"' := by
  have listed := spaceListed white
  simp only [List.mem_cons, List.not_mem_nil, or_false] at listed
  rcases listed with rfl | rfl | rfl | rfl <;> decide

theorem digitsDark {digits : Bytes} (some : Digits digits) {b : UInt8} (white : isSpace b = true) :
    b ∉ digits := by
  intro member
  have other := (spaceApart white).1
  rw [some.2 b member] at other
  contradiction

theorem wordDark {first : UInt8} {tail : Bytes} (letter : isLetter first = true)
    (word : ∀ b ∈ tail, isWordByte b = true) {b : UInt8} (white : isSpace b = true) :
    b ∉ first :: tail := by
  have all : ∀ x ∈ first :: tail, isWordByte x = true :=
    List.forall_mem_cons.mpr ⟨by rw [isWordByte, letter, Bool.true_or], word⟩
  intro member
  have other := (spaceApart white).2.1
  rw [all b member] at other
  contradiction

theorem spaceQuoted (spelled : Matches s kind) {b : UInt8} (member : b ∈ s)
    (white : isSpace b = true) : kind = .string := by
  cases spelled with
  | mark m =>
    have dark : m.text.all (fun x => !isSpace x) = true := by cases m <;> decide
    have other := List.all_eq_true.mp dark b member
    simp [white] at other
  | whole some => exact absurd member (digitsDark some white)
  | fraction some further =>
    rcases List.mem_append.mp member with inWhole | behind
    · exact absurd inWhole (digitsDark some white)
    rcases List.mem_cons.mp behind with point | inFraction
    · exact absurd point (spaceApart white).2.2.1
    · exact absurd inFraction (digitsDark further white)
  | identifier letter word free => exact absurd member (wordDark letter word white)
  | keyword k =>
    obtain ⟨first, tail, text, letter, word⟩ := keywordWord k
    exact absurd (text ▸ member) (wordDark letter word white)
  | string closed => rfl

theorem stringIff (spelled : Matches s kind) : kind = .string ↔ s.head? = some (byte '"') := by
  constructor
  · rintro rfl
    cases spelled
    rfl
  · intro quoted
    obtain ⟨tail, rfl⟩ := List.head?_eq_some_iff.mp quoted
    have fine := (matchesFine spelled).2.1
    rw [← matchesLeading spelled, leadingQuote] at fine ⊢
    split at fine
    · rfl
    · contradiction

theorem slashAlone {tail : Bytes} (spelled : Matches (byte '/' :: tail) kind) : tail = [] := by
  have leading : leadingToken (byte '/' :: tail) = (.mark .slash, 1) := rfl
  have covered := (leadingCovers (List.prefix_refl _) spelled).1
  rw [leading, List.length_cons] at covered
  exact List.length_eq_zero_iff.mp (by omega)

theorem spaceStops (spelled : Matches s kind) (plain : kind ≠ .string)
    (white : ∀ b ∈ rest.head?, isSpace b = true) : (leadingToken (s ++ rest)).2 ≤ s.length := by
  have some := (matchesFine spelled).1
  cases rest with
  | nil =>
    rw [List.append_nil]
    exact leadingBound s
  | cons b rest =>
    by_contra longer
    obtain ⟨more, size⟩ := Nat.exists_eq_add_of_lt (Nat.not_le.mp longer)
    have fine := (leadingCovers (List.prefix_append s (b :: rest)) spelled).2
    have found := leadingSpells (List.append_ne_nil_of_left_ne_nil some _) fine
    rw [size, Nat.add_assoc, List.take_length_add_append, List.take_succ_cons] at found
    have quoted := spaceQuoted found (List.mem_append_right _ (.head _)) (white b rfl)
    have head := (stringIff found).mp quoted
    rw [List.head?_append_of_ne_nil _ some] at head
    exact plain ((stringIff spelled).mpr head)

theorem spaceEnds (spelled : Matches s kind) (white : ∀ b ∈ rest.head?, isSpace b = true) :
    leadingToken (s ++ rest) = (kind, s.length) := by
  by_cases quoted : kind = .string
  · rw [quoted] at spelled ⊢
    cases spelled with
    | @string inside closed =>
      rw [List.cons_append, List.append_assoc, List.singleton_append, leadingClosed closed,
        List.length_cons, List.length_append, List.length_singleton]
  · obtain ⟨covered, fine⟩ := leadingCovers (List.prefix_append s rest) spelled
    have size := Nat.le_antisymm (spaceStops spelled quoted white) covered
    have found := leadingSpells
      (List.append_ne_nil_of_left_ne_nil (matchesFine spelled).1 rest) fine
    rw [size, List.take_left] at found
    exact Prod.ext (matchesKind found spelled) size

/-! What is skipped between tokens. -/

theorem whiteSkipped {gap : Bytes} (white : White gap) (s : Bytes) :
    blankLength false (gap ++ s) = gap.length + blankLength false s := by
  induction gap with
  | nil => exact (Nat.zero_add _).symm
  | cons b gap ih =>
    obtain ⟨here, later⟩ := List.forall_mem_cons.mp white
    rw [List.cons_append, blankLength, ih later, List.length_cons]
    simp only [here, Bool.false_eq_true, ↓reduceIte]
    omega

theorem spelledDark (spelled : Matches s kind) (white : ∀ b ∈ rest.head?, isSpace b = true) :
    blankLength false (s ++ rest) = 0 := by
  obtain ⟨first, tail, rfl⟩ := List.exists_cons_of_ne_nil (matchesFine spelled).1
  have dark : isSpace first = false := by
    refine Bool.eq_false_iff.mpr fun space => ?_
    have quoted := (stringIff spelled).mp (spaceQuoted spelled (.head _) space)
    exact (spaceApart space).2.2.2.2 (Option.some.inj quoted)
  have noComment : (first == byte '/' && (tail ++ rest).head? == some (byte '/')) = false := by
    refine Bool.eq_false_iff.mpr fun slashes => ?_
    rw [Bool.and_eq_true, beq_iff_eq, beq_iff_eq] at slashes
    obtain ⟨rfl, second⟩ := slashes
    rw [slashAlone spelled, List.nil_append] at second
    exact (spaceApart (white _ second)).2.2.2.1 rfl
  rw [List.cons_append, blankLength]
  simp only [dark, noComment, Bool.false_eq_true, ↓reduceIte]

theorem whiteBefore {gap : Bytes} {c : Cursor} (white : White gap)
    (dark : blankLength false rest = 0) (here : c.rest = gap ++ rest) : c.skipBlank.rest = rest := by
  simp only [Cursor.skipBlank, Cursor.advance, here, whiteSkipped white, dark, Nat.add_zero,
    List.drop_left]

theorem nextSpelled {c : Cursor} (before : c.skipBlank.rest = s ++ rest)
    (read : leadingToken (s ++ rest) = (kind, s.length)) (fine : kind.isError = false) :
    c.next.1.spelling = (kind, s) ∧ c.next.2.rest = rest := by
  simp only [Cursor.next, before, read, Token.spelling, Cursor.advance, List.drop_left,
    List.take_left, and_true]
  split
  · contradiction
  · rfl

/-! Reading tokens that stand apart. -/

theorem joinSpaced (part : Bytes) (parts : List Bytes) :
    ∃ gap, (gap = [] ∧ parts = [] ∨ gap = [byte ' ']) ∧
      join [byte ' '] (part :: parts) = part ++ (gap ++ join [byte ' '] parts) := by
  cases parts with
  | nil => exact ⟨[], .inl ⟨rfl, rfl⟩, by simp [join]⟩
  | cons next parts => exact ⟨[byte ' '], .inr rfl, by simp [join]⟩

theorem spacedRead {parts : List (TokenKind × Bytes)} (spelled : ∀ p ∈ parts, Matches p.2 p.1)
    {gap tail : Bytes} (before : White gap) (after : White tail) {c : Cursor}
    (here : c.rest = gap ++ (join [byte ' '] (parts.map Prod.snd) ++ tail)) :
    (TokenStream.readFrom c).spelling = parts ++ [(.eof, [])] := by
  induction parts generalizing gap c with
  | nil =>
    have white : White (gap ++ tail) := List.forall_mem_append.mpr ⟨before, after⟩
    have ended : c.skipBlank.rest = [] := whiteBefore white rfl (by rw [here]; simp [join])
    obtain ⟨spelling, _⟩ := @nextSpelled [] [] .eof c ended rfl rfl
    have kind : c.next.1.kind = .eof := congrArg Prod.fst spelling
    rw [TokenStream.readFrom, dif_pos kind]
    exact congrArg ([·]) spelling
  | cons p parts ih =>
    obtain ⟨first, others⟩ := List.forall_mem_cons.mp spelled
    obtain ⟨space, apart, joined⟩ := joinSpaced p.2 (parts.map Prod.snd)
    have onward : White space := by
      rcases apart with ⟨rfl, _⟩ | rfl
      · exact List.forall_mem_nil _
      · exact List.forall_mem_singleton.mpr rfl
    have white : ∀ b ∈ (space ++ (join [byte ' '] (parts.map Prod.snd) ++ tail)).head?,
        isSpace b = true := by
      rcases apart with ⟨rfl, none⟩ | rfl
      · rw [none]
        exact fun b head => after b (List.mem_of_mem_head? head)
      · exact fun b head => Option.some.inj head ▸ rfl
    rw [List.map_cons, joined, List.append_assoc, List.append_assoc] at here
    have reached := whiteBefore before (spelledDark first white) here
    obtain ⟨_, fine, more⟩ := matchesFine first
    obtain ⟨spelling, rest⟩ := nextSpelled reached (spaceEnds first white) fine
    have kind : c.next.1.kind = p.1 := congrArg Prod.fst spelling
    rw [TokenStream.readFrom, dif_neg (kind ▸ more)]
    change c.next.1.spelling :: (TokenStream.readFrom c.next.2).spelling = _
    rw [spelling, ih others onward rest]
    rfl

theorem tokenMatches {source : Bytes} {t : Token}
    (member : t ∈ (TokenStream.ofSource source).tokens) (fine : t.kind.isError = false) :
    Matches t.lexeme t.kind := by
  obtain ⟨i, within, rfl⟩ := List.getElem_of_mem member
  have here := callRead (Nat.le_of_lt within)
  rw [TokenStream.toList, List.getElem?_append_left within, List.getElem?_eq_getElem within] at here
  have same := Option.some.inj here
  rw [same] at fine ⊢
  exact callMatches (callMore within) fine

theorem spacedSpelling {source : Bytes}
    (fine : ∀ t ∈ (TokenStream.ofSource source).tokens, t.kind.isError = false) {tail : Bytes}
    (after : White tail) :
    (TokenStream.ofSource ((TokenStream.ofSource source).spaced ++ tail)).spelling =
      (TokenStream.ofSource source).spelling := by
  have spelled : ∀ p ∈ (TokenStream.ofSource source).tokens.map Token.spelling, Matches p.2 p.1 := by
    intro p member
    obtain ⟨t, inside, rfl⟩ := List.mem_map.mp member
    exact tokenMatches inside (fine t inside)
  have last : (TokenStream.ofSource source).eof.spelling = (.eof, []) := by
    have ended : (call source (TokenStream.ofSource source).tokens.length).kind = .eof :=
      callLast source ▸ (streamRead (Cursor.start source)).2.1
    rw [← callLast, callEnd ended]
    rfl
  have read := @spacedRead _ spelled [] tail (List.forall_mem_nil _) after
    (Cursor.start ((TokenStream.ofSource source).spaced ++ tail))
  rw [List.map_map] at read
  rw [TokenStream.ofSource, read rfl]
  rw [TokenStream.spelling, TokenStream.toList, List.map_append, List.map_singleton, last]

end Lexer
end ExprMachine
