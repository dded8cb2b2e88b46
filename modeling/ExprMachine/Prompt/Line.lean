import ExprMachine.Session
import ExprMachine.Text.Blank
import ExprMachine.Text.Fold

/-! One line at the prompt: a command after a colon, or an expression whose value is shown. -/
namespace ExprMachine.Prompt

open Text (utf8 trim byte newline)

inductive Request where
  | nothing
  | quit
  | help
  | session
  | unknown (input : Bytes)
  | evaluate (source : Bytes)
  deriving DecidableEq, Repr

def Request.ofLine (line : Bytes) : Request :=
  let input := trim line
  match input with
  | [] => .nothing
  | first :: _ =>
    if first = byte ':' then
      let word := Text.lowerWord? input
      if word = some (utf8 ":quit") ∨ word = some (utf8 ":q") then .quit
      else if word = some (utf8 ":help") ∨ word = some (utf8 ":h") then .help
      else if word = some (utf8 ":session") then .session
      else .unknown input
    else .evaluate input

def helpText : Bytes :=
  utf8 "Enter an expression to evaluate it.\n  :session   Show the session ID\n  :quit      Exit\n"

structure Answer where
  continues : Bool
  stdout : Bytes
  stderr : Bytes
  session : Session

def answerEval (s : Session) (source : Bytes) : Answer :=
  let reply := s.eval source
  let written := reply.output.listing ++ reply.output.trace
  let reports := reply.output.reports
  match reply.result with
  | .error _ => ⟨true, written, reports, reply.session⟩
  | .ok (.value v) => ⟨true, written ++ v.text ++ [newline], reports, reply.session⟩
  | .ok (.failed e) => ⟨true, written, reports ++ e.message ++ [newline], reply.session⟩
  | .ok (.crashed c) => ⟨true, written, reports ++ c.message ++ [newline], reply.session⟩

def answerLine (s : Session) (line : Bytes) : Answer :=
  match Request.ofLine line with
  | .nothing => ⟨true, [], [], s⟩
  | .quit => ⟨false, [], [], s⟩
  | .help => ⟨true, helpText, [], s⟩
  | .session => ⟨true, s.id ++ [newline], [], s⟩
  | .unknown input =>
    ⟨true, utf8 "Unknown command: " ++ input ++ utf8 " (type :help for commands)\n", [], s⟩
  | .evaluate source => answerEval s source

end ExprMachine.Prompt
