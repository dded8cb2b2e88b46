import ExprMachine.Prompt.History
import ExprMachine.Prompt.Line
import ExprMachine.Text.Control

/-! A conversation at the prompt: lines are answered one after another until the input ends or a
line asks to quit. -/
namespace ExprMachine.Prompt

open Text (utf8 newline)

def banner : Bytes := utf8 "Welcome to the lox prompt\n^D or :quit to exit\n\n"

structure Conversation where
  session : Session
  history : History

def Conversation.respond (c : Conversation) (line : Bytes) : Answer × Conversation :=
  let a := answerLine c.session line
  let keeps := a.continues && !(Text.trim line).isEmpty
  (a, ⟨a.session, if keeps then c.history.push line else c.history⟩)

structure Transcript where
  stdout : Bytes
  stderr : Bytes
  final : Conversation

def Conversation.converse (c : Conversation) (prompt : Bytes) : List Bytes → Transcript
  | [] => ⟨prompt ++ [newline], [], c⟩
  | line :: rest =>
    let (a, next) := c.respond line
    if a.continues then
      let later := next.converse prompt rest
      ⟨prompt ++ a.stdout ++ later.stdout, a.stderr ++ later.stderr, later.final⟩
    else ⟨prompt ++ a.stdout, a.stderr, next⟩

def isShowable (prompt : Bytes) : Bool := !Text.hasControl prompt

end ExprMachine.Prompt
