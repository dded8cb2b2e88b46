import ExprMachine.CommandLine.File
import ExprMachine.Editor.Server
import ExprMachine.Prompt.Line
import ExprMachine.Proofs.Editor.Marking
import ExprMachine.Proofs.Session.Transparency
import ExprMachine.Service.Evaluation

/-! One text given to all drivers: run from a file, entered at the prompt, sent to the service and
opened in an editor. Each sorts the outcomes of a text in its own way, and all of them sort alike:
the text has a value, fails when run, or does not compile. -/
namespace ExprMachine

open Text (utf8 byte newline intText)

def meaning (text : Bytes) : Except Diagnostic Outcome :=
  (compile text).map fun c => (Machine.fresh.interpret c).1

theorem meaningCases (text : Bytes) :
    (∃ e, compile text = .error e ∧ meaning text = .error e) ∨
      ∃ c, compile text = .ok c ∧
        ((∃ v, meaning text = .ok (.value v)) ∨ ∃ e, meaning text = .ok (.failed e)) := by
  unfold meaning
  cases compiled : compile text with
  | error e => exact .inl ⟨e, rfl, rfl⟩
  | ok c =>
    have valid := Compilation.compiledValid compiled
    refine .inr ⟨c, rfl, ?_⟩
    rw [Except.map, Machine.interpretOutcome valid]
    rcases (Machine.startReached c).executeEnds valid with ⟨v, value⟩ | ⟨e, failed, _⟩
    · exact .inl ⟨v, congrArg Except.ok value⟩
    · exact .inr ⟨e, congrArg Except.ok failed⟩

def reports : Except Diagnostic Outcome → Bytes
  | .error d => d.text ++ [newline]
  | .ok _ => []

namespace Session

structure Bare (s : Session) : Prop where
  storeless : s.store = none
  quiet : s.verbosity = .quiet

variable {s : Session}

theorem Bare.compile (bare : s.Bare) (text : Bytes) : s.compile text = s.compileAfresh text := by
  unfold Session.compile
  rw [bare.storeless]

theorem Bare.eval (bare : s.Bare) (text : Bytes) :
    (s.eval text).result = meaning text ∧ (s.eval text).output = ⟨reports (meaning text), [], []⟩ := by
  obtain ⟨result, output, _⟩ := s.evalReply text
  have afresh := compileAfreshTo s text
  rw [bare.compile, afresh.result] at result output
  rw [afresh.output, afresh.verbosity, bare.quiet] at output
  refine ⟨result, output.trans ?_⟩
  unfold meaning
  cases ExprMachine.compile text with
  | error d => simp [written, traced, Output.append, Output.none, Except.map, reports]
  | ok c => rfl

theorem Bare.disassemble (bare : s.Bare) (text label : Bytes) :
    ∃ heading, (s.disassemble text label).result =
      (ExprMachine.compile text).map (·.listing heading) := by
  refine ⟨if label.isEmpty then Chunk.defaultLabel else label, ?_⟩
  simp only [Session.disassemble, bare.compile, (compileAfreshTo s text).result]

end Session

structure Drivers where
  runner : Session
  files : FileTree
  working : Location
  path : Bytes
  prompt : Session
  service : Worker
  label : Bytes
  editor : Editor.Server
  uri : Bytes

structure Entered (text : Bytes) : Prop where
  nonempty : text ≠ []
  trimmed : Text.trim text = text
  expression : text.head? ≠ some (byte ':')

namespace Drivers

structure Ready (d : Drivers) (text : Bytes) : Prop where
  runner : d.runner.Bare
  prompt : d.prompt.Bare
  service : d.service.session.Bare
  serving : d.service.isStopped = false
  editor : d.editor.worker.session.Bare
  editing : d.editor.worker.isStopped = false
  file : d.files.read d.working d.path = .ok text
  isSource : CommandLine.isChunkFile d.path = false

def ran (d : Drivers) : CommandLine.Result :=
  (CommandLine.runFile d.runner d.files d.working d.path).1

def answered (d : Drivers) (text : Bytes) : Bytes × Bytes :=
  let answer := Prompt.answerLine d.prompt text
  (answer.stdout, answer.stderr)

def evaluated (d : Drivers) (text : Bytes) : Except Service.CallError Service.EvaluateReply :=
  (Service.evaluate d.service .waiting ⟨text⟩).1

def listed (d : Drivers) (text : Bytes) : Except Service.CallError Service.DisassembleReply :=
  (Service.disassemble d.service .waiting ⟨text, d.label⟩).1

def published (d : Drivers) (text : Bytes) : List Editor.Publication :=
  (d.editor.respond (.opened d.uri text)).publications

def hovered (d : Drivers) (text : Bytes) : Except Editor.RequestError Editor.Answer :=
  ((d.editor.respond (.opened d.uri text)).server.respond (.hover d.uri)).answer

structure ShowValue (d : Drivers) (text : Bytes) (v : Value) : Prop where
  means : meaning text = .ok (.value v)
  ran : d.ran = ⟨.success, v.text ++ [newline], []⟩
  answered : d.answered text = (v.text ++ [newline], [])
  evaluated : d.evaluated text = .ok ⟨true, v.text, v.kind.name, [], [], [], d.service.session.id⟩
  hovered : d.hovered text =
    .ok (.hover (utf8 "**" ++ v.kind.name ++ utf8 "** \x60" ++ v.text ++ utf8 "\x60"))
  listed : ∃ listing, listing ≠ [] ∧ d.listed text = .ok ⟨listing, []⟩
  published : d.published text = [⟨d.uri, []⟩]

structure ShowFailure (d : Drivers) (text : Bytes) (e : RuntimeError) : Prop where
  means : meaning text = .ok (.failed e)
  ran : d.ran = ⟨.internal, [], e.message ++ [newline]⟩
  answered : d.answered text = ([], e.message ++ [newline])
  evaluated : d.evaluated text =
    .ok ⟨false, [], [], utf8 "runtime", e.message, [], d.service.session.id⟩
  hovered : d.hovered text = .ok (.hover
    (utf8 "**runtime error** (line " ++ intText e.line ++ utf8 "): " ++ e.failure.message))
  listed : ∃ listing, listing ≠ [] ∧ d.listed text = .ok ⟨listing, []⟩
  published : d.published text = [⟨d.uri, []⟩]

structure ShowReport (d : Drivers) (text : Bytes) (e : Diagnostic) : Prop where
  means : meaning text = .error e
  ran : d.ran = ⟨.badData, [], e.text ++ [newline]⟩
  answered : d.answered text = ([], e.text ++ [newline])
  evaluated : d.evaluated text =
    .ok ⟨false, [], [], utf8 "compile", utf8 "Compile error: " ++ e.text, [e.text],
      d.service.session.id⟩
  hovered : d.hovered text = .ok .nothing
  listed : d.listed text = .ok ⟨[], [e.text]⟩
  published : ∃ range, d.published text = [⟨d.uri, [⟨range, e.message⟩]⟩]

inductive Case where
  | value
  | failure
  | report
  deriving DecidableEq

def Case.of : Except Diagnostic Outcome → Case
  | .error _ => .report
  | .ok (.value _) => .value
  | .ok _ => .failure

def Agree (d : Drivers) (text : Bytes) : Case → Prop
  | .value => ∃ v, d.ShowValue text v
  | .failure => ∃ e, d.ShowFailure text e
  | .report => ∃ e, d.ShowReport text e

variable {d : Drivers} {text : Bytes}

namespace Ready

theorem ran (ready : d.Ready text) : d.ran =
    match meaning text with
    | .error e => ⟨.badData, [], e.text ++ [newline]⟩
    | .ok o => CommandLine.report .none o := by
  have eval := ready.runner.eval text
  simp only [Drivers.ran, CommandLine.runFile, ready.file, ready.isSource, Bool.false_eq_true,
    ↓reduceIte, CommandLine.runSource, eval.1, eval.2]
  cases meaning text <;> rfl

theorem answered (ready : d.Ready text) (entered : Entered text) : d.answered text =
    match meaning text with
    | .error e => ([], e.text ++ [newline])
    | .ok (.value v) => (v.text ++ [newline], [])
    | .ok (.failed e) => ([], e.message ++ [newline])
    | .ok (.crashed c) => ([], c.message ++ [newline]) := by
  have asked : Prompt.Request.ofLine text = .evaluate text := by
    unfold Prompt.Request.ofLine
    rw [entered.trimmed]
    cases text with
    | nil => exact absurd rfl entered.nonempty
    | cons first rest => exact if_neg fun colon => entered.expression (congrArg some colon)
  have eval := ready.prompt.eval text
  simp only [Drivers.answered, Prompt.answerLine, asked, Prompt.answerEval, eval.1, eval.2]
  rcases meaning text with e | (v | e | c) <;> rfl

theorem evaluated (ready : d.Ready text) (nonempty : text ≠ []) :
    d.evaluated text = .ok (.ofOutcome d.service.session.id (meaning text)) := by
  have held : Service.refusal? .waiting text = none := by
    simp [Service.refusal?, Service.Caller.absence?, nonempty]
  simp only [Drivers.evaluated, Service.evaluate, held, Worker.perform, ready.serving,
    Bool.false_eq_true, ↓reduceIte, (ready.service.eval text).1]

theorem listed (ready : d.Ready text) (nonempty : text ≠ []) : ∃ heading, d.listed text =
    match compile text with
    | .error e => .ok ⟨[], [e.text]⟩
    | .ok c => .ok ⟨c.listing heading, []⟩ := by
  have held : Service.refusal? .waiting text = none := by
    simp [Service.refusal?, Service.Caller.absence?, nonempty]
  obtain ⟨heading, listing⟩ := ready.service.disassemble text d.label
  refine ⟨heading, ?_⟩
  simp only [Drivers.listed, Service.disassemble, held, Worker.perform, ready.serving,
    Bool.false_eq_true, ↓reduceIte, listing]
  cases compile text <;> rfl

theorem hovered (ready : d.Ready text) : d.hovered text =
    match Editor.hoverText (meaning text) with
    | some markdown => .ok (.hover markdown)
    | none => .ok .nothing := by
  have eval := (ready.editor.eval text).1
  simp only [Drivers.hovered, Editor.Server.respond, Editor.Server.update, Editor.Server.hover,
    Std.HashMap.getElem?_insert_self, Worker.perform, ready.editing, Bool.false_eq_true, ↓reduceIte,
    Option.bind_some, eval]
  cases Editor.hoverText (meaning text) <;> rfl

theorem compiled (ready : d.Ready text) (nonempty : text ≠ []) {c : Chunk}
    (compiled : compile text = .ok c) :
    (∃ listing, listing ≠ [] ∧ d.listed text = .ok ⟨listing, []⟩) ∧
      d.published text = [⟨d.uri, []⟩] := by
  obtain ⟨heading, listed⟩ := ready.listed nonempty
  rw [compiled] at listed
  refine ⟨⟨_, ?_, listed⟩, ?_⟩
  · simp [Chunk.listing]
  · simp only [Drivers.published, Editor.Server.respond, Editor.Server.update, Editor.markers,
      compiled]

theorem value (ready : d.Ready text) (entered : Entered text) {c : Chunk}
    (compiled : compile text = .ok c) {v : Value} (means : meaning text = .ok (.value v)) :
    d.ShowValue text v where
  means := means
  ran := by rw [ready.ran, means]; rfl
  answered := by rw [ready.answered entered, means]
  evaluated := by rw [ready.evaluated entered.nonempty, means]; rfl
  hovered := by rw [ready.hovered, means]; rfl
  listed := (ready.compiled entered.nonempty compiled).1
  published := (ready.compiled entered.nonempty compiled).2

theorem failure (ready : d.Ready text) (entered : Entered text) {c : Chunk}
    (compiled : compile text = .ok c) {e : RuntimeError}
    (means : meaning text = .ok (.failed e)) : d.ShowFailure text e where
  means := means
  ran := by rw [ready.ran, means]; rfl
  answered := by rw [ready.answered entered, means]
  evaluated := by rw [ready.evaluated entered.nonempty, means]; rfl
  hovered := by rw [ready.hovered, means]; rfl
  listed := (ready.compiled entered.nonempty compiled).1
  published := (ready.compiled entered.nonempty compiled).2

theorem report {text : Source} (ready : d.Ready text.bytes) (entered : Entered text.bytes)
    {e : Diagnostic} (rejected : compile text.bytes = .error e)
    (means : meaning text.bytes = .error e) : d.ShowReport text.bytes e where
  means := means
  ran := by rw [ready.ran, means]
  answered := by rw [ready.answered entered, means]
  evaluated := by rw [ready.evaluated entered.nonempty, means]; rfl
  hovered := by rw [ready.hovered, means]; rfl
  listed := by
    obtain ⟨heading, listed⟩ := ready.listed entered.nonempty
    rw [listed, rejected]
  published := by
    simp only [Drivers.published, Editor.Server.respond, Editor.Server.update,
      (Editor.markerFound rejected).2]
    exact ⟨_, rfl⟩

theorem agree {text : Source} (ready : d.Ready text.bytes) (entered : Entered text.bytes) :
    d.Agree text.bytes (.of (meaning text.bytes)) := by
  rcases meaningCases text.bytes with
    ⟨e, rejected, means⟩ | ⟨c, compiled, ⟨v, means⟩ | ⟨e, means⟩⟩
  · rw [means]
    exact ⟨e, ready.report entered rejected means⟩
  · rw [means]
    exact ⟨v, ready.value entered compiled means⟩
  · rw [means]
    exact ⟨e, ready.failure entered compiled means⟩

end Ready

theorem Agree.determined {case : Case} (agreed : d.Agree text case) :
    case = .of (meaning text) := by
  cases case with
  | value =>
    obtain ⟨v, shown⟩ := agreed
    rw [shown.means]
    rfl
  | failure =>
    obtain ⟨e, shown⟩ := agreed
    rw [shown.means]
    rfl
  | report =>
    obtain ⟨e, shown⟩ := agreed
    rw [shown.means]
    rfl

theorem agreeOnce {d : Drivers} {text : Source} (entered : Entered text.bytes)
    (ready : d.Ready text.bytes) : ∃! case, d.Agree text.bytes case :=
  ⟨.of (meaning text.bytes), ready.agree entered, fun _ agreed => agreed.determined⟩

def used (text : Bytes) : Drivers where
  runner := ⟨[], .quiet, ⟨[.nil]⟩, none⟩
  files := ⟨[([utf8 "a.lox"], .file text)]⟩
  working := []
  path := utf8 "a.lox"
  prompt := ⟨[], .quiet, ⟨[.nil]⟩, none⟩
  service := ⟨⟨[], .quiet, ⟨[.nil]⟩, none⟩, false⟩
  label := []
  editor := .start ⟨⟨[], .quiet, ⟨[.nil]⟩, none⟩, false⟩
  uri := utf8 "file:///a.lox"

theorem agreeOnceNegatedText :
    Entered (utf8 "-\"é\"") ∧ (used (utf8 "-\"é\"")).Ready (utf8 "-\"é\"") ∧
      (used (utf8 "-\"é\"")).Agree (utf8 "-\"é\"") .failure := by
  have entered : Entered (utf8 "-\"é\"") :=
    ⟨by decide, by decide +kernel, by decide⟩
  have ready : (used (utf8 "-\"é\"")).Ready (utf8 "-\"é\"") :=
    ⟨⟨rfl, rfl⟩, ⟨rfl, rfl⟩, ⟨rfl, rfl⟩, rfl, ⟨rfl, rfl⟩, rfl, by decide +kernel, by decide +kernel⟩
  obtain ⟨case, agreed, _⟩ := @agreeOnce _ ⟨utf8 "-\"é\"", by decide +kernel⟩ entered ready
  have fails : Case.of (meaning (utf8 "-\"é\"")) = .failure := by decide +kernel
  exact ⟨entered, ready, fails ▸ agreed.determined ▸ agreed⟩

end Drivers
end ExprMachine
