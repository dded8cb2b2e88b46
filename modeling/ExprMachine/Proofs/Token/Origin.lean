import ExprMachine.Token.Lexer

/-! Where tokens come from: each is read at a place in the source, so no token is longer or stands on
a later line than the source allows, and there are no more tokens than bytes. -/
namespace ExprMachine.Lexer

open Text (byte isLetter isDigit newline newlines)

namespace Cursor

structure In (source : Bytes) (c : Cursor) : Prop where
  suffix : c.rest <:+ source
  lines : c.line + newlines c.rest = 1 + newlines source

theorem startIn (source : Bytes) : In source (start source) := ⟨List.suffix_refl source, rfl⟩

theorem advanceIn {source c} (inside : In source c) (n : Nat) : In source (c.advance n) := by
  refine ⟨(List.drop_suffix n c.rest).trans inside.suffix, ?_⟩
  have split : newlines c.rest = newlines (c.rest.take n) + newlines (c.rest.drop n) := by
    simp only [newlines]
    rw [← List.count_append, List.take_append_drop]
  have lines := inside.lines
  simp only [advance]
  omega

theorem nextIn {source c} (inside : In source c) : In source c.next.2 :=
  advanceIn (advanceIn inside _) _

theorem nextLine {source c} (inside : In source c) : c.next.1.line ≤ 1 + newlines source := by
  have after := (nextIn inside).lines
  change c.next.1.line + _ = _ at after
  omega

theorem newlinesLength (s : Bytes) : newlines s ≤ s.length := List.count_le_length

theorem nextLexeme {source c} (inside : In source c) (fine : c.next.1.kind.isError = false) :
    c.next.1.lexeme.length ≤ source.length := by
  have suffix := (advanceIn inside (blankLength false c.rest)).suffix.length_le
  simp only [next] at fine ⊢
  split
  · next e kind => simp [kind, TokenKind.isError] at fine
  · exact Nat.le_trans (List.length_take_le' _ _) suffix

end Cursor

theorem readInduction {P : Cursor → Prop} (step : ∀ c, P c → P c.next.2) {c : Cursor} (here : P c) :
    (∀ t ∈ (TokenStream.readFrom c).tokens, ∃ c', P c' ∧ c'.next.1 = t) ∧
      ∃ c', P c' ∧ c'.next.1 = (TokenStream.readFrom c).eof := by
  induction hn : c.rest.length using Nat.strongRecOn generalizing c with
  | ind n ih =>
    rw [TokenStream.readFrom]
    split
    · exact ⟨by simp, c, here, rfl⟩
    · next more =>
      obtain ⟨tokens, eof⟩ := ih _ (hn ▸ c.next_rest_lt more) (step c here) rfl
      refine ⟨fun t member => ?_, eof⟩
      rcases List.mem_cons.mp member with rfl | later
      · exact ⟨c, here, rfl⟩
      · exact tokens t later

theorem tokenOrigin {source t} (member : t ∈ (TokenStream.ofSource source).tokens) :
    ∃ c, Cursor.In source c ∧ c.next.1 = t :=
  (readInduction (fun _ => Cursor.nextIn) (Cursor.startIn source)).1 t member

theorem eofOrigin (source : Bytes) :
    ∃ c, Cursor.In source c ∧ c.next.1 = (TokenStream.ofSource source).eof :=
  (readInduction (fun _ => Cursor.nextIn) (Cursor.startIn source)).2

theorem tokenCount (c : Cursor) : (TokenStream.readFrom c).tokens.length ≤ c.rest.length := by
  induction hn : c.rest.length using Nat.strongRecOn generalizing c with
  | ind n ih =>
    rw [TokenStream.readFrom]
    split
    · exact Nat.zero_le n
    · next more =>
      have shorter := c.next_rest_lt more
      have tail := ih _ (hn ▸ shorter) c.next.2 rfl
      simp only [List.length_cons]
      omega

theorem blankNewlines {s : Bytes} (all : ∀ b ∈ s, newline = b) :
    blankLength false s = s.length := by
  induction s with
  | nil => rfl
  | cons b rest ih =>
    have here : newline = b := all b (.head _)
    rw [blankLength, ih fun x inside => all x (.tail _ inside), ← here]
    rfl

theorem newlinesFewer {source t} (member : t ∈ (TokenStream.ofSource source).tokens) :
    newlines source < source.length := by
  refine Nat.lt_of_le_of_ne (Cursor.newlinesLength source) fun same => ?_
  have blank := blankNewlines (List.count_eq_length.mp same)
  have ended : (Cursor.start source).next.1.kind = .eof := by
    simp [Cursor.next, Cursor.skipBlank, Cursor.advance, Cursor.start, blank, leadingToken]
  rw [TokenStream.ofSource, TokenStream.readFrom, dif_pos ended] at member
  contradiction

theorem leadingString {text n} (read : leadingToken text = (.string, n)) :
    ∃ inside rest, text = byte '"' :: (inside ++ byte '"' :: rest) ∧ byte '"' ∉ inside ∧
      n = inside.length + 2 := by
  cases text with
  | nil => simp [leadingToken] at read
  | cons b rest =>
    rw [leadingToken] at read
    split at read
    · simp only [wordKind, Prod.mk.injEq] at read
      split at read <;> simp at read
    · split at read
      · simp at read
      · split at read
        · next quote =>
          rw [beq_iff_eq] at quote
          split at read
          · next size closed =>
            simp only [Prod.mk.injEq, true_and] at read
            subst read
            simp only [stringLength?] at closed
            split at closed
            · next short =>
              refine ⟨rest.takeWhile (· != byte '"'), (rest.dropWhile (· != byte '"')).tail, ?_, ?_,
                (Option.some.inj closed).symm⟩
              · have parts := List.takeWhile_append_dropWhile (p := (· != byte '"')) (l := rest)
                cases ends : rest.dropWhile (· != byte '"') with
                | nil =>
                  rw [ends, List.append_nil] at parts
                  rw [parts] at short
                  exact absurd short (Nat.lt_irrefl _)
                | cons last tail =>
                  have stop : last = byte '"' := by
                    have head := List.head?_dropWhile_not (fun x => x != byte '"') rest
                    simpa [ends] using head
                  rw [ends, stop] at parts
                  rw [quote, List.tail_cons, parts]
              · intro member
                have all := List.all_takeWhile (p := (· != byte '"')) (l := rest)
                simpa using List.all_eq_true.mp all _ member
            · contradiction
          · simp at read
        · split at read <;> simp at read

theorem quotedLexeme {c : Cursor} (kind : c.next.1.kind = .string) :
    ∃ inside, c.next.1.lexeme = byte '"' :: (inside ++ [byte '"']) ∧ byte '"' ∉ inside := by
  have read : leadingToken c.skipBlank.rest = (.string, (leadingToken c.skipBlank.rest).2) := by
    simp only [Cursor.next] at kind
    rw [← kind]
  obtain ⟨inside, rest, text, outside, size⟩ := leadingString read
  refine ⟨inside, ?_, outside⟩
  have cut : (byte '"' :: (inside ++ byte '"' :: rest)).take (inside.length + 2) =
      byte '"' :: (inside ++ [byte '"']) := by
    rw [List.take_succ_cons, List.append_cons, List.take_left' (by simp)]
  rw [← cut, ← text, ← size]
  simp only [Cursor.next]
  rw [read]

end ExprMachine.Lexer
