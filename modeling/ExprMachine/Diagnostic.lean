import ExprMachine.Token.Basic

/-! What is reported about a source that is no expression: one token, and what is wrong there. -/
namespace ExprMachine

open Text (utf8 natText)

inductive SyntaxError where
  | lexical (e : LexicalError)
  | expectedOperand
  | invalidNumber
  | expectedClosingParen
  | expectedEnd
  deriving DecidableEq, Repr

def SyntaxError.message : SyntaxError → Bytes
  | lexical e => e.message
  | expectedOperand => utf8 "Expected prefix expression"
  | invalidNumber => utf8 "Invalid number literal."
  | expectedClosingParen => utf8 "Expect ')' after expression."
  | expectedEnd => utf8 "Expect end of expression."

structure Diagnostic where
  token : Token
  error : SyntaxError
  deriving DecidableEq, Repr

namespace Diagnostic

def line (d : Diagnostic) : Nat := d.token.line

def offset (d : Diagnostic) : Nat := d.token.offset

def length (d : Diagnostic) : Nat :=
  match d.token.kind with
  | .eof | .error _ => 0
  | _ => d.token.lexeme.length

def place (d : Diagnostic) : Bytes :=
  match d.token.kind with
  | .eof => utf8 " at end"
  | .error _ => []
  | _ => utf8 " at '" ++ d.token.lexeme ++ utf8 "'"

def message (d : Diagnostic) : Bytes := d.error.message

def text (d : Diagnostic) : Bytes :=
  utf8 "[line " ++ natText d.line ++ utf8 "] Error" ++ d.place ++ utf8 ": " ++ d.message

end Diagnostic
end ExprMachine
