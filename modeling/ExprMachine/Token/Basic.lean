import ExprMachine.Text.Quoted

/-! Tokens: punctuation marks, keywords, identifiers, string and number literals, two kinds of
malformed text, and the end of the source. -/
namespace ExprMachine

open Text (utf8 intText quote)

inductive Mark where
  | leftParen | rightParen | leftBrace | rightBrace
  | comma | dot | minus | plus | semicolon | slash | star
  | bang | bangEqual | equal | equalEqual | greater | greaterEqual | less | lessEqual
  deriving DecidableEq, Repr

namespace Mark

def all : List Mark :=
  [leftParen, rightParen, leftBrace, rightBrace, comma, dot, minus, plus, semicolon, slash, star,
    bang, bangEqual, equal, equalEqual, greater, greaterEqual, less, lessEqual]

def text : Mark → Bytes
  | leftParen => utf8 "("
  | rightParen => utf8 ")"
  | leftBrace => utf8 "\x7b"
  | rightBrace => utf8 "\x7d"
  | comma => utf8 ","
  | dot => utf8 "."
  | minus => utf8 "-"
  | plus => utf8 "+"
  | semicolon => utf8 ";"
  | slash => utf8 "/"
  | star => utf8 "*"
  | bang => utf8 "!"
  | bangEqual => utf8 "!="
  | equal => utf8 "="
  | equalEqual => utf8 "=="
  | greater => utf8 ">"
  | greaterEqual => utf8 ">="
  | less => utf8 "<"
  | lessEqual => utf8 "<="

end Mark

inductive Keyword where
  | and | klass | else | false | for | fun | if | nil
  | or | print | return | super | this | true | var | while
  deriving DecidableEq, Repr

namespace Keyword

def all : List Keyword :=
  [.and, .klass, .else, .false, .for, .fun, .if, .nil, .or, .print, .return, .super, .this, .true,
    .var, .while]

def text : Keyword → Bytes
  | .and => utf8 "and"
  | .klass => utf8 "class"
  | .else => utf8 "else"
  | .false => utf8 "false"
  | .for => utf8 "for"
  | .fun => utf8 "fun"
  | .if => utf8 "if"
  | .nil => utf8 "nil"
  | .or => utf8 "or"
  | .print => utf8 "print"
  | .return => utf8 "return"
  | .super => utf8 "super"
  | .this => utf8 "this"
  | .true => utf8 "true"
  | .var => utf8 "var"
  | .while => utf8 "while"

def ofText? (word : Bytes) : Option Keyword := all.find? fun k => k.text == word

end Keyword

inductive LexicalError where
  | unexpectedCharacter
  | unterminatedString
  deriving DecidableEq, Repr

def LexicalError.message : LexicalError → Bytes
  | unexpectedCharacter => utf8 "Unexpected character."
  | unterminatedString => utf8 "Unterminated string."

inductive TokenKind where
  | mark (m : Mark)
  | identifier
  | string
  | number
  | keyword (k : Keyword)
  | error (e : LexicalError)
  | eof
  deriving DecidableEq, Repr

namespace TokenKind

def code : TokenKind → Nat
  | mark m => Mark.all.idxOf m
  | identifier => 19
  | string => 20
  | number => 21
  | keyword k => 22 + Keyword.all.idxOf k
  | error _ => 38
  | eof => 39

def name : TokenKind → Bytes
  | mark m => m.text
  | identifier => utf8 "IDENTIFIER"
  | string => utf8 "STRING"
  | number => utf8 "NUMBER"
  | keyword k => k.text
  | error _ => utf8 "ERROR"
  | eof => utf8 "EOF"

def numbered : List TokenKind :=
  Mark.all.map mark ++ [identifier, string, number] ++ Keyword.all.map keyword ++
    [error .unexpectedCharacter, eof]

def nameOfCode (code : Int) : Bytes :=
  match code with
  | .ofNat n => ((numbered[n]?).map name).getD (utf8 "Token(" ++ intText code ++ utf8 ")")
  | .negSucc _ => utf8 "Token(" ++ intText code ++ utf8 ")"

def isError : TokenKind → Bool
  | error _ => true
  | _ => false

end TokenKind

/-- A token with its text, the byte offset of its start, and the line on which it ends. The text of
an error token is its message. -/
structure Token where
  kind : TokenKind
  lexeme : Bytes
  offset : Nat
  line : Nat
  deriving DecidableEq, Repr

def describeToken (code : Int) (lexeme : Bytes) : Bytes :=
  if code = TokenKind.code .eof then utf8 "EOF"
  else if code = TokenKind.code (.error .unexpectedCharacter) then
    utf8 "ERROR(" ++ lexeme ++ utf8 ")"
  else if 20 < lexeme.length then
    TokenKind.nameOfCode code ++ utf8 "(" ++ quote (lexeme.take 20) ++ utf8 "...)"
  else TokenKind.nameOfCode code ++ utf8 "(" ++ quote lexeme ++ utf8 ")"

def Token.describe (t : Token) : Bytes := describeToken t.kind.code t.lexeme

end ExprMachine
