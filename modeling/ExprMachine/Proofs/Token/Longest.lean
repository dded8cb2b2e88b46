import ExprMachine.Proofs.Token.Boundary

/-! The token at a place is the longest text there that spells a token, once white space and comments
have been passed over. Where no text does, the token is malformed. -/
namespace ExprMachine.Lexer

open Text (byte utf8 isDigit isLetter isWordByte)

def Digits (s : Bytes) : Prop := s ≠ [] ∧ ∀ b ∈ s, isDigit b = true

inductive Matches : Bytes → TokenKind → Prop where
  | mark (m : Mark) : Matches m.text (.mark m)
  | whole {digits} (some : Digits digits) : Matches digits .number
  | fraction {digits places} (some : Digits digits) (further : Digits places) :
      Matches (digits ++ byte '.' :: places) .number
  | identifier {first tail} (letter : isLetter first = true)
      (word : ∀ b ∈ tail, isWordByte b = true) (free : ∀ k : Keyword, k.text ≠ first :: tail) :
      Matches (first :: tail) .identifier
  | keyword (k : Keyword) : Matches k.text (.keyword k)
  | string {inside} (closed : byte '"' ∉ inside) :
      Matches (byte '"' :: (inside ++ [byte '"'])) .string

structure Longest (rest s : Bytes) (kind : TokenKind) : Prop where
  front : s <+: rest
  spelled : Matches s kind
  longest : ∀ other kind', other <+: rest → Matches other kind' → other.length ≤ s.length

def Unspelled (rest : Bytes) : Prop := ∀ s kind, s <+: rest → ¬ Matches s kind

def Unblank (rest : Bytes) : Prop := ∀ gap after, rest = gap ++ after → Blank gap after → gap = []

/-! What the first byte decides. -/

theorem digitNoLetter {b : UInt8} (digit : isDigit b = true) : isLetter b = false := by
  simp only [isDigit, Bool.and_eq_true, decide_eq_true_eq, UInt8.le_iff_toNat_le] at digit
  simp only [isLetter, Text.isLower, Text.isUpper, Bool.or_eq_false_iff, Bool.and_eq_false_iff,
    decide_eq_false_iff_not, beq_eq_false_iff_ne, ne_eq, ← UInt8.toNat_inj, UInt8.le_iff_toNat_le]
  simp only [UInt8.reduceToNat] at digit ⊢
  omega

theorem leadingWord {b : UInt8} (letter : isLetter b = true) (rest : Bytes) :
    leadingToken (b :: rest) =
      (wordKind (b :: rest.takeWhile isWordByte), (b :: rest.takeWhile isWordByte).length) := by
  have word : (b :: rest).takeWhile isWordByte = b :: rest.takeWhile isWordByte :=
    List.takeWhile_cons_of_pos (by rw [isWordByte, letter, Bool.true_or])
  rw [leadingToken, if_pos letter, word]

theorem leadingNumber {b : UInt8} (digit : isDigit b = true) (rest : Bytes) :
    leadingToken (b :: rest) = (.number, numberLength (b :: rest)) := by
  simp only [leadingToken, digitNoLetter digit, digit, Bool.false_eq_true, ↓reduceIte]

theorem leadingQuote (after : Bytes) :
    leadingToken (byte '"' :: after) =
      match stringLength? after with
      | some n => (.string, n)
      | none => (.error .unterminatedString, after.length + 1) := by
  have other : isLetter (byte '"') = false ∧ isDigit (byte '"') = false := by decide
  cases closed : stringLength? after <;>
    simp only [leadingToken, other.1, other.2, Bool.false_eq_true, ↓reduceIte, beq_self_eq_true, closed]

theorem leadingClosed {inside : Bytes} (closed : byte '"' ∉ inside) (after : Bytes) :
    leadingToken (byte '"' :: (inside ++ byte '"' :: after)) = (.string, inside.length + 2) := by
  have all : ∀ b ∈ inside, (b != byte '"') = true := by
    intro b member
    rw [bne_iff_ne]
    rintro rfl
    exact closed member
  have upTo : (inside ++ byte '"' :: after).takeWhile (· != byte '"') = inside := by
    rw [List.takeWhile_append_of_pos all, List.takeWhile_cons_of_neg (by simp), List.append_nil]
  have found : stringLength? (inside ++ byte '"' :: after) = some (inside.length + 2) := by
    simp [stringLength?, upTo]
  rw [leadingQuote, found]

theorem markFirst (m : Mark) :
    ∃ b tail, m.text = b :: tail ∧ isLetter b = false ∧ isDigit b = false ∧ b ≠ byte '"' := by
  cases m <;> exact ⟨_, _, rfl, by decide, by decide, by decide⟩

theorem leadingMark {m : Mark} {rest : Bytes} (front : m.text <+: rest) :
    leadingToken rest =
      match leadingMark? rest with
      | some m => (.mark m, m.text.length)
      | none => (.error .unexpectedCharacter, 1) := by
  obtain ⟨after, rfl⟩ := front
  obtain ⟨b, tail, text, letter, digit, quote⟩ := markFirst m
  rw [text, List.cons_append]
  cases found : leadingMark? (b :: (tail ++ after)) <;>
    simp only [leadingToken, letter, digit, beq_false_of_ne quote, Bool.false_eq_true, ↓reduceIte, found]

theorem leadingBound (s : Bytes) : (leadingToken s).2 ≤ s.length := by
  have leading := leadingRead s
  generalize leadingToken s = read at leading
  obtain ⟨kind, size⟩ := read
  cases kind with
  | eof => exact leading.2 ▸ Nat.zero_le _
  | error e =>
    cases e with
    | unexpectedCharacter => exact leading.2 ▸ leading.1
    | unterminatedString => exact Nat.le_of_eq leading.2
  | mark | identifier | string | number | keyword => exact leading.2

/-! A text that spells a token is no longer than the token found. -/

theorem longestMark {m : Mark} {rest : Bytes} (front : m.text <+: rest) :
    ∃ m', leadingMark? rest = some m' ∧ m.text.length ≤ m'.text.length := by
  have listed : m ∈ Mark.all := by cases m <;> decide
  have short : m.text.length = 1 ∨ m.text.length = 2 := by cases m <;> decide
  have inFront : m.text.isPrefixOf rest = true := List.isPrefixOf_iff_prefix.mpr front
  unfold leadingMark?
  cases long : (Mark.all.filter fun m => m.text.length == 2).find? (·.text.isPrefixOf rest) with
  | some m' =>
    have two : m'.text.length = 2 := by
      simpa using (List.mem_filter.mp (List.mem_of_find?_eq_some long)).2
    exact ⟨m', rfl, by omega⟩
  | none =>
    have one : m.text.length = 1 := by
      refine short.resolve_right fun two => ?_
      exact List.find?_eq_none.mp long m (List.mem_filter.mpr ⟨listed, by simp [two]⟩) inFront
    have some : (Mark.all.find? (·.text.isPrefixOf rest)).isSome :=
      List.find?_isSome.mpr ⟨m, listed, inFront⟩
    obtain ⟨m', found⟩ := Option.isSome_iff_exists.mp some
    exact ⟨m', found, one ▸ mark_length_pos m'⟩

theorem longestDigits {digits rest : Bytes} (some : Digits digits) (front : digits <+: rest) :
    digits.length ≤ numberLength rest := by
  have whole : digits.length ≤ (rest.takeWhile isDigit).length := by
    obtain ⟨after, rfl⟩ := front
    rw [List.takeWhile_append_of_pos some.2, List.length_append]
    exact Nat.le_add_right _ _
  unfold numberLength
  dsimp only
  split
  · split <;> omega
  · exact whole

theorem longestFraction {digits places rest : Bytes} (some : Digits digits)
    (further : Digits places) (front : digits ++ byte '.' :: places <+: rest) :
    (digits ++ byte '.' :: places).length ≤ numberLength rest := by
  obtain ⟨after, rfl⟩ := front
  have whole : (digits ++ byte '.' :: places ++ after).takeWhile isDigit = digits := by
    rw [List.append_assoc, List.takeWhile_append_of_pos some.2, List.cons_append,
      List.takeWhile_cons_of_neg (by decide), List.append_nil]
  have fraction : places.length ≤ ((places ++ after).takeWhile isDigit).length := by
    rw [List.takeWhile_append_of_pos further.2, List.length_append]
    exact Nat.le_add_right _ _
  have positive : 0 < places.length := List.length_pos_iff.mpr further.1
  have behind : (digits ++ byte '.' :: places ++ after).drop digits.length =
      byte '.' :: (places ++ after) := by
    rw [List.append_assoc, List.drop_left, List.cons_append]
  have point : (byte '.' == byte '.' &&
      decide (0 < ((places ++ after).takeWhile isDigit).length)) = true := by
    simp only [beq_self_eq_true, Bool.true_and, decide_eq_true_eq]
    omega
  simp only [numberLength, whole, behind, point, ↓reduceIte, List.length_append, List.length_cons]
  omega

theorem keywordWord (k : Keyword) :
    ∃ first tail, k.text = first :: tail ∧ isLetter first = true ∧
      ∀ b ∈ tail, isWordByte b = true := by
  cases k <;> exact ⟨_, _, rfl, by decide, List.all_eq_true.mp (by decide)⟩

theorem longestWord {first : UInt8} {tail rest : Bytes} (letter : isLetter first = true)
    (word : ∀ b ∈ tail, isWordByte b = true) (front : first :: tail <+: rest) :
    (first :: tail).length ≤ (leadingToken rest).2 ∧ (leadingToken rest).1.isError = false := by
  obtain ⟨after, rfl⟩ := front
  rw [List.cons_append, leadingWord letter, List.takeWhile_append_of_pos word]
  refine ⟨?_, ?_⟩
  · simp only [List.length_cons, List.length_append]
    omega
  · unfold wordKind
    split <;> rfl

theorem leadingCovers {rest s : Bytes} {kind : TokenKind} (front : s <+: rest)
    (spelled : Matches s kind) :
    s.length ≤ (leadingToken rest).2 ∧ (leadingToken rest).1.isError = false := by
  have digits : ∀ {t}, Digits t → t <+: rest → leadingToken rest = (.number, numberLength rest) := by
    rintro t ⟨some, all⟩ ⟨after, rfl⟩
    obtain ⟨b, others, rfl⟩ := List.exists_cons_of_ne_nil some
    exact leadingNumber (all b (.head _)) _
  cases spelled with
  | mark m =>
    obtain ⟨m', found, longer⟩ := longestMark front
    rw [leadingMark front, found]
    exact ⟨longer, rfl⟩
  | whole some =>
    rw [digits some front]
    exact ⟨longestDigits some front, rfl⟩
  | fraction some further =>
    rw [digits some ((List.prefix_append _ _).trans front)]
    exact ⟨longestFraction some further front, rfl⟩
  | identifier letter word free => exact longestWord letter word front
  | keyword k =>
    obtain ⟨first, tail, text, letter, word⟩ := keywordWord k
    rw [text] at front ⊢
    exact longestWord letter word front
  | @string inside closed =>
    obtain ⟨after, rfl⟩ := front
    rw [List.cons_append, List.append_assoc, List.singleton_append, leadingClosed closed]
    exact ⟨by simp, rfl⟩

/-! The token found is spelled by the text it takes. -/

theorem wordMatches {first : UInt8} {tail : Bytes} (letter : isLetter first = true)
    (word : ∀ b ∈ tail, isWordByte b = true) : Matches (first :: tail) (wordKind (first :: tail)) := by
  unfold wordKind Keyword.ofText?
  split
  · next k found =>
    have text := List.find?_some found
    rw [beq_iff_eq] at text
    exact text ▸ .keyword k
  · next absent =>
    refine .identifier letter word fun k same => ?_
    have listed : k ∈ Keyword.all := by cases k <;> decide
    exact List.find?_eq_none.mp absent k listed (beq_iff_eq.mpr same)

theorem numberMatches {b : UInt8} (digit : isDigit b = true) (rest : Bytes) :
    Matches ((b :: rest).take (numberLength (b :: rest))) .number := by
  have whole : Digits ((b :: rest).takeWhile isDigit) :=
    ⟨by simp [digit], fun x member => List.mem_takeWhile_imp member⟩
  unfold numberLength
  dsimp only
  split
  · next point after cut =>
    split
    · next places =>
      simp only [Bool.and_eq_true, beq_iff_eq, decide_eq_true_eq] at places
      rw [Nat.add_assoc, List.take_add, takeWhileTaken, cut, Nat.add_comm 1, List.take_succ_cons,
        takeWhileTaken, places.1]
      exact .fraction whole
        ⟨List.length_pos_iff.mp places.2, fun x member => List.mem_takeWhile_imp member⟩
    · rw [takeWhileTaken]
      exact .whole whole
  · rw [takeWhileTaken]
    exact .whole whole

theorem leadingSpells {rest : Bytes} (some : rest ≠ [])
    (fine : (leadingToken rest).1.isError = false) :
    Matches (rest.take (leadingToken rest).2) (leadingToken rest).1 := by
  obtain ⟨b, after, rfl⟩ := List.exists_cons_of_ne_nil some
  by_cases letter : isLetter b = true
  · rw [leadingWord letter, List.length_cons, List.take_succ_cons, takeWhileTaken]
    exact wordMatches letter fun x member => List.mem_takeWhile_imp member
  by_cases digit : isDigit b = true
  · rw [leadingNumber digit]
    exact numberMatches digit after
  by_cases quote : b = byte '"'
  · subst quote
    have kind : (leadingToken (byte '"' :: after)).1 = .string := by
      revert fine
      rw [leadingQuote]
      split
      · exact fun _ => rfl
      · intro error
        contradiction
    have read : leadingToken (byte '"' :: after) =
        (.string, (leadingToken (byte '"' :: after)).2) := Prod.ext kind rfl
    obtain ⟨inside, rest, text, closed, size⟩ := leadingString read
    rw [kind, size, text, List.take_succ_cons, List.append_cons, List.take_left' (by simp)]
    exact .string closed
  · revert fine
    simp only [leadingToken, letter, digit, beq_false_of_ne quote, Bool.false_eq_true, ↓reduceIte]
    split
    · next m found =>
      intro _
      rw [← List.prefix_iff_eq_take.mp (markInFront found)]
      exact .mark m
    · intro error
      contradiction

theorem matchesLeading {s : Bytes} {kind : TokenKind} (spelled : Matches s kind) :
    (leadingToken s).1 = kind := by
  cases spelled with
  | mark m => cases m <;> decide
  | whole some =>
    obtain ⟨b, others, rfl⟩ := List.exists_cons_of_ne_nil some.1
    rw [leadingNumber (some.2 b (.head _))]
  | @fraction digits places some further =>
    obtain ⟨b, others, rfl⟩ := List.exists_cons_of_ne_nil some.1
    rw [List.cons_append, leadingNumber (some.2 b (.head _))]
  | @identifier first tail letter word free =>
    have all : tail.takeWhile isWordByte = tail := List.takeWhile_eq_self_iff.mpr word
    have absent : Keyword.ofText? (first :: tail) = none :=
      List.find?_eq_none.mpr fun k _ same => free k (beq_iff_eq.mp same)
    simp only [leadingWord letter, all, wordKind, absent]
  | keyword k => cases k <;> decide
  | string closed => rw [leadingClosed closed]

theorem matchesKind {s : Bytes} {kind kind' : TokenKind} (one : Matches s kind)
    (other : Matches s kind') : kind = kind' :=
  (matchesLeading one).symm.trans (matchesLeading other)

theorem matchesFine {s : Bytes} {kind : TokenKind} (spelled : Matches s kind) :
    s ≠ [] ∧ kind.isError = false ∧ kind ≠ .eof := by
  have some : s ≠ [] := by
    cases spelled with
    | mark m => exact List.length_pos_iff.mp (mark_length_pos m)
    | whole some => exact some.1
    | fraction some further => simp
    | identifier letter word free => simp
    | keyword k => cases k <;> decide
    | string closed => simp
  refine ⟨some, ?_, fun ended => ?_⟩
  · rw [← matchesLeading spelled]
    exact (leadingCovers (List.prefix_refl s) spelled).2
  · have leading := leadingRead s
    rw [matchesLeading spelled, ended] at leading
    exact some leading.1

theorem longestIff {rest s : Bytes} {kind : TokenKind} :
    Longest rest s kind ↔
      (rest ≠ [] ∧ (leadingToken rest).1.isError = false) ∧ (leadingToken rest).1 = kind ∧
        rest.take (leadingToken rest).2 = s := by
  constructor
  · rintro ⟨front, spelled, longest⟩
    have some : rest ≠ [] := fun empty =>
      (matchesFine spelled).1 (List.prefix_nil.mp (empty ▸ front))
    obtain ⟨covered, fine⟩ := leadingCovers front spelled
    have found := leadingSpells some fine
    have bound := longest _ _ (List.take_prefix _ _) found
    have text : s = rest.take (leadingToken rest).2 := by
      refine (List.prefix_of_prefix_length_le front (List.take_prefix _ _) ?_).eq_of_length_le bound
      rw [List.length_take]
      exact Nat.le_min.mpr ⟨covered, front.length_le⟩
    exact ⟨⟨some, fine⟩, matchesKind found (text ▸ spelled), text.symm⟩
  · rintro ⟨⟨some, fine⟩, rfl, rfl⟩
    refine ⟨List.take_prefix _ _, leadingSpells some fine, fun other kind' front spelled => ?_⟩
    rw [List.length_take]
    exact Nat.le_min.mpr ⟨(leadingCovers front spelled).1, front.length_le⟩

theorem errorIff {rest : Bytes} (some : rest ≠ []) :
    (leadingToken rest).1.isError = true ↔ Unspelled rest := by
  constructor
  · intro error s kind front spelled
    rw [(leadingCovers front spelled).2] at error
    contradiction
  · intro unspelled
    by_contra fine
    exact unspelled _ _ (List.take_prefix _ _)
      (leadingSpells some (Bool.eq_false_iff.mpr fine))

theorem errorSpeaks {rest : Bytes} {e : LexicalError} (error : (leadingToken rest).1 = .error e) :
    rest ≠ [] ∧ (e = .unterminatedString ↔ rest.head? = some (byte '"')) := by
  have leading := leadingRead rest
  rw [error] at leading
  cases e with
  | unterminatedString =>
    obtain ⟨⟨inside, rfl, _⟩, _⟩ := leading
    exact ⟨List.cons_ne_nil _ _, iff_of_true rfl rfl⟩
  | unexpectedCharacter =>
    have some : rest ≠ [] := List.length_pos_iff.mp leading.1
    refine ⟨some, iff_of_false (by simp) fun quoted => ?_⟩
    obtain ⟨b, after, rfl⟩ := List.exists_cons_of_ne_nil some
    cases Option.some.inj quoted
    rw [leadingQuote] at error
    split at error <;> simp at error

theorem errorExact (rest : Bytes) :
    ((leadingToken rest).1 = .error .unterminatedString ↔
      rest.head? = some (byte '"') ∧ Unspelled rest) ∧
    ((leadingToken rest).1 = .error .unexpectedCharacter ↔
      rest ≠ [] ∧ rest.head? ≠ some (byte '"') ∧ Unspelled rest) := by
  have wrong : ∀ {e}, (leadingToken rest).1 = .error e → (leadingToken rest).1.isError = true :=
    fun error => error ▸ rfl
  have raised : rest ≠ [] → Unspelled rest → ∃ e, (leadingToken rest).1 = .error e ∧
      (e = .unterminatedString ↔ rest.head? = some (byte '"')) := by
    intro some unspelled
    obtain ⟨e, error⟩ := errorKind ((errorIff some).mpr unspelled)
    exact ⟨e, error, (errorSpeaks error).2⟩
  refine ⟨⟨fun error => ?_, fun ⟨quoted, unspelled⟩ => ?_⟩,
    ⟨fun error => ?_, fun ⟨more, other, unspelled⟩ => ?_⟩⟩
  · obtain ⟨some, speaks⟩ := errorSpeaks error
    exact ⟨speaks.mp rfl, (errorIff some).mp (wrong error)⟩
  · have some : rest ≠ [] := by
      rintro rfl
      contradiction
    obtain ⟨e, error, speaks⟩ := raised some unspelled
    rwa [speaks.mpr quoted] at error
  · obtain ⟨some, speaks⟩ := errorSpeaks error
    exact ⟨some, fun quoted => (nomatch speaks.mpr quoted), (errorIff some).mp (wrong error)⟩
  · obtain ⟨e, error, speaks⟩ := raised more unspelled
    cases e with
    | unterminatedString => exact absurd (speaks.mp rfl) other
    | unexpectedCharacter => exact error

/-! White space and comments end where nothing of the kind follows. -/

theorem blankAgain (inComment : Bool) (s : Bytes) :
    blankLength false (s.drop (blankLength inComment s)) = 0 := by
  induction s generalizing inComment with
  | nil => rfl
  | cons b rest ih =>
    cases inComment with
    | true => exact ih _
    | false =>
      rw [blankLength]
      simp only [Bool.false_eq_true, ↓reduceIte]
      split
      · exact ih _
      next dark =>
      split
      · exact ih _
      next apart =>
      rw [List.drop_zero, blankLength]
      simp only [dark, apart, Bool.false_eq_true, ↓reduceIte]

theorem blankCounted {gap after : Bytes} (blank : Blank gap after) (some : gap ≠ []) :
    0 < blankLength false (gap ++ after) := by
  cases blank with
  | none => contradiction
  | @space b gap _ white further =>
    have space : isSpace b = true := by
      simp only [List.mem_cons, List.not_mem_nil, or_false] at white
      rcases white with rfl | rfl | rfl | rfl <;> decide
    rw [List.cons_append, blankLength]
    simp [space]
  | @comment inside gap _ line ends further =>
    have dark : isSpace (byte '/') = false := by decide
    rw [List.cons_append, List.cons_append, blankLength]
    simp [dark]

theorem callUnblank (source : Bytes) (calls : Nat) :
    Unblank (source.drop (call source calls).offset) := by
  have before := Cursor.skipAt (Cursor.afterAt (Cursor.startAt source) calls)
  change Unblank (source.drop (Cursor.skipBlank _).offset)
  rw [← before.rest]
  intro gap after rest blank
  by_contra some
  have counted := blankCounted blank some
  rw [← rest] at counted
  exact absurd (blankAgain false _) (Nat.ne_of_gt counted)

/-! The calls for the next token. -/

section Calls

variable {source : Bytes} {calls : Nat}

theorem callEnded :
    (call source calls).kind = .eof ↔ source.drop (call source calls).offset = [] := by
  have leads := callLeads source calls
  constructor
  · intro ended
    have leading := leadingRead (source.drop (call source calls).offset)
    rw [leads, ended] at leading
    exact leading.1
  · intro empty
    rw [empty] at leads
    exact (congrArg Prod.fst leads).symm

theorem errorLexeme {e : LexicalError} (kind : (call source calls).kind = .error e) :
    (call source calls).lexeme = e.message := by
  have spelled : (call source calls).Spells source := (callTile source calls).spelled
  rw [Token.Spells, kind] at spelled
  cases e <;> exact spelled.1

theorem callText (more : (call source calls).kind ≠ .eof)
    (fine : (call source calls).kind.isError = false) :
    span source (call source calls) = (call source calls).lexeme := by
  have spelled := (callTile source calls).spelled
  unfold span
  generalize call source calls = t at *
  unfold Token.Spells at spelled
  unfold Token.extent
  split at spelled
  · contradiction
  · next kind => simp [kind, TokenKind.isError] at fine
  · next kind => simp [kind, TokenKind.isError] at fine
  · split
    · contradiction
    · contradiction
    · exact spelled.2.symm

theorem callMatches (more : (call source calls).kind ≠ .eof)
    (fine : (call source calls).kind.isError = false) :
    Matches (call source calls).lexeme (call source calls).kind := by
  have leads := callLeads source calls
  have found := @leadingSpells (source.drop (call source calls).offset)
    (fun empty => more (callEnded.mpr empty))
  rw [leads] at found
  exact callText more fine ▸ found fine

end Calls

theorem longestMatch (source : Bytes) (calls : Nat) :
    let t := call source calls
    let rest := source.drop t.offset
    Tile source (taken source calls) t ∧ Unblank rest ∧
    (t.kind = .eof ↔ rest = []) ∧
    (∀ s kind, Longest rest s kind ↔
      (t.kind ≠ .eof ∧ t.kind.isError = false) ∧ t.kind = kind ∧ t.lexeme = s) ∧
    (t.kind = .error .unterminatedString ↔
      rest.head? = some (byte '"') ∧ Unspelled rest) ∧
    (t.kind = .error .unexpectedCharacter ↔
      rest ≠ [] ∧ rest.head? ≠ some (byte '"') ∧ Unspelled rest) ∧
    (t.kind = .error .unterminatedString → t.lexeme = utf8 "Unterminated string.") ∧
    (t.kind = .error .unexpectedCharacter → t.lexeme = utf8 "Unexpected character.") := by
  intro t rest
  have leads : leadingToken rest = (t.kind, t.extent source) := callLeads source calls
  obtain ⟨unterminated, unexpected⟩ := errorExact rest
  rw [leads] at unterminated unexpected
  refine ⟨callTile source calls, callUnblank source calls, callEnded, fun s kind => ?_,
    unterminated, unexpected, errorLexeme, errorLexeme⟩
  rw [longestIff, leads, ne_eq, ← callEnded]
  refine and_congr_right fun ⟨more, fine⟩ => ?_
  rw [← callText more fine]
  rfl

end ExprMachine.Lexer
