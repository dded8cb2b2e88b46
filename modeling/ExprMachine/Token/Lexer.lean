import ExprMachine.Token.Basic

/-! From source text to tokens. White space and comments are skipped; then the longest token that
starts the rest is taken, and counting bytes and line feeds gives its place. -/
namespace ExprMachine

open Text (byte isDigit isLetter isWordByte newline newlines)

namespace Lexer

def isSpace (b : UInt8) : Bool := b == 32 || b == 13 || b == 9 || b == newline

/-- Number of bytes of white space and comments at the front. A comment runs from two slashes to
the end of its line; inside one, every byte is skipped. -/
def blankLength (inComment : Bool) : Bytes → Nat
  | [] => 0
  | b :: rest =>
    if inComment then blankLength (b != newline) rest + 1
    else if isSpace b then blankLength false rest + 1
    else if b == byte '/' && rest.head? == some (byte '/') then blankLength true rest + 1
    else 0

def leadingMark? (s : Bytes) : Option Mark :=
  match (Mark.all.filter fun m => m.text.length == 2).find? (·.text.isPrefixOf s) with
  | some m => some m
  | none => Mark.all.find? (·.text.isPrefixOf s)

def numberLength (s : Bytes) : Nat :=
  let whole := (s.takeWhile isDigit).length
  match s.drop whole with
  | point :: rest =>
    let places := (rest.takeWhile isDigit).length
    if point == byte '.' && 0 < places then whole + 1 + places else whole
  | [] => whole

def stringLength? (afterQuote : Bytes) : Option Nat :=
  let inside := (afterQuote.takeWhile (· != byte '"')).length
  if inside < afterQuote.length then some (inside + 2) else none

def wordKind (word : Bytes) : TokenKind :=
  match Keyword.ofText? word with
  | some k => .keyword k
  | none => .identifier

def leadingToken : Bytes → TokenKind × Nat
  | [] => (.eof, 0)
  | b :: rest =>
    if isLetter b then
      let word := (b :: rest).takeWhile isWordByte
      (wordKind word, word.length)
    else if isDigit b then (.number, numberLength (b :: rest))
    else if b == byte '"' then
      match stringLength? rest with
      | some n => (.string, n)
      | none => (.error .unterminatedString, rest.length + 1)
    else
      match leadingMark? (b :: rest) with
      | some m => (.mark m, m.text.length)
      | none => (.error .unexpectedCharacter, 1)

theorem mark_length_pos (m : Mark) : 0 < m.text.length := by cases m <;> decide

theorem leadingToken_length_pos (b : UInt8) (rest : Bytes) :
    0 < (leadingToken (b :: rest)).2 := by
  rw [leadingToken]
  split
  · next letter => simp [isWordByte, letter]
  · split
    · next digit =>
      have whole : 0 < ((b :: rest).takeWhile isDigit).length := by simp [digit]
      simp only [numberLength]
      split
      · split <;> omega
      · exact whole
    · split
      · split
        · next n closed =>
          simp only [stringLength?] at closed
          split at closed
          · cases Option.some.inj closed
            simp
          · contradiction
        · simp
      · split
        · exact mark_length_pos _
        · simp

structure Cursor where
  rest : Bytes
  offset : Nat
  line : Nat
  deriving DecidableEq, Repr

namespace Cursor

def start (source : Bytes) : Cursor := ⟨source, 0, 1⟩

def advance (c : Cursor) (n : Nat) : Cursor :=
  ⟨c.rest.drop n, c.offset + n, c.line + newlines (c.rest.take n)⟩

def skipBlank (c : Cursor) : Cursor := c.advance (blankLength false c.rest)

def next (c : Cursor) : Token × Cursor :=
  let before := c.skipBlank
  let (kind, n) := leadingToken before.rest
  let after := before.advance n
  let lexeme := match kind with
    | .error e => e.message
    | _ => before.rest.take n
  (⟨kind, lexeme, before.offset, after.line⟩, after)

theorem advance_rest_length (c : Cursor) (n : Nat) :
    (c.advance n).rest.length = c.rest.length - n := by
  simp [advance]

theorem next_rest_lt (c : Cursor) (h : c.next.1.kind ≠ .eof) :
    c.next.2.rest.length < c.rest.length := by
  have shorter : c.skipBlank.rest.length ≤ c.rest.length := by
    simp [skipBlank, advance_rest_length]
  cases text : c.skipBlank.rest with
  | nil => simp [next, text, leadingToken] at h
  | cons b rest =>
    have positive := leadingToken_length_pos b rest
    simp only [next, text, advance_rest_length]
    simp only [text, List.length_cons] at shorter ⊢
    omega

end Cursor
end Lexer

structure TokenStream where
  tokens : List Token
  eof : Token
  deriving DecidableEq, Repr

namespace TokenStream

def toList (s : TokenStream) : List Token := s.tokens ++ [s.eof]

def readFrom (c : Lexer.Cursor) : TokenStream :=
  if end_of : c.next.1.kind = .eof then ⟨[], c.next.1⟩
  else
    have : c.next.2.rest.length < c.rest.length := c.next_rest_lt end_of
    let following := readFrom c.next.2
    ⟨c.next.1 :: following.tokens, following.eof⟩
termination_by c.rest.length

def ofSource (source : Bytes) : TokenStream := readFrom (Lexer.Cursor.start source)

end TokenStream
end ExprMachine
