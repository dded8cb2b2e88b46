import ExprMachine.CommandLine.Cache
import ExprMachine.CommandLine.File
import ExprMachine.CommandLine.Options
import ExprMachine.Project
import ExprMachine.Prompt.Conversation
import ExprMachine.Service.Address

/-! The whole command: from its arguments, the files and the standard input to an exit code, what is
written and the files afterwards. -/
namespace ExprMachine.CommandLine

open Text (utf8 byte newline intText)

structure Scene where
  files : FileTree
  working : Location
  home : Bytes

inductive Job where
  | languageServer
  | serve
  | prompt
  | run (path : Bytes)
  | compile (path target : Bytes)
  | refuse

def Job.choose (o : Options) (file : Option Bytes) : Job :=
  if o.languageServer then .languageServer
  else if o.serve then .serve
  else
    match file with
    | none => if o.output.isEmpty then .prompt else .refuse
    | some path => if o.output.isEmpty then .run path else .compile path o.output

def serverError (exit : Exit) (f : Service.AddressFault) : Result :=
  .stop exit (utf8 "Server error: " ++ f.message ++ [newline])

def portAddress (port : Int) : Bytes := byte ':' :: intText port

def serve (o : Options) (s : Settings) : Result :=
  -- The port of the second transport is tried first; a service that can listen serves until it
  -- is stopped.
  let address := if 0 < o.port then portAddress o.port else s.address
  let rpcFault := if 0 < o.rpcPort then Service.addressFault? (portAddress o.rpcPort) else none
  match rpcFault, Service.addressFault? address with
  | some f, _ => serverError .inputOutput f
  | none, some f => serverError .internal f
  | none, none => .silent

def readHistory (t : FileTree) (working : Location) (path : Bytes) : Prompt.History :=
  match t.read working path with
  | .ok text => .ofText text
  | .error _ => []

def writeHistory (t : FileTree) (working : Location) (path : Bytes) (h : Prompt.History) : FileTree :=
  match t.write working path h.text with
  | .ok t => t
  | .error _ => t

def converse (prompt : Bytes) (c : Prompt.Conversation) (stdin : Bytes) :
    Result × Prompt.Conversation :=
  if Prompt.isShowable prompt then
    let said := c.converse prompt ((Prompt.pieces stdin).map Prompt.Piece.content)
    (⟨.success, Prompt.banner ++ said.stdout, said.stderr⟩, said.final)
  else
    (⟨.inputOutput, Prompt.banner, utf8 "Error reading input: invalid prompt\n"⟩, c)

def verbosity (o : Options) (s : Settings) : Verbosity :=
  ⟨o.printCode || s.printCode, o.trace || s.traceExecution⟩

def lowestLogLevel : Int := -3

def openLog (t : FileTree) (working : Location) (o : Options) (s : Settings) : FileTree :=
  -- The level of the options counts unless it is zero.
  let level := if o.verbosity = 0 then s.verbosity else o.verbosity
  match s.logPath? with
  | some path => if lowestLogLevel ≤ level then t.touch working path else t
  | none => t

def keepsChunks (o : Options) (s : Settings) : Bool :=
  !o.noCache && s.cacheEnabled && o.output.isEmpty

structure Plan where
  job : Job
  options : Options
  settings : Settings
  session : Session
  scene : Scene

def Plan.ready (o : Options) (s : Settings) (file : Option Bytes) (id : Bytes) (scene : Scene) : Plan :=
  let t := openLog scene.files scene.working o s
  let (store, t) := if keepsChunks o s then openStore t scene.working s.cachePath else (none, t)
  ⟨.choose o file, o, s, .start id (verbosity o s) store, { scene with files := t }⟩

/-- Reads the arguments and settings of a command. Nothing is made or opened before both are good. -/
def Plan.make (scene : Scene) (id : Bytes) (arguments : List Bytes) : Except Result Plan :=
  match Request.ofArguments arguments with
  | .help => .error (.stop .success usage)
  | .refuse e => .error (.stop .badUsage (e.message ++ newline :: usage))
  | .proceed o files =>
    if 1 < files.length then .error (.stop .badUsage usage)
    else
      match Settings.find scene.files scene.working (Path.rooted scene.working) with
      | .error e => .error (.stop .badData (utf8 "Error: " ++ e.message ++ [newline]))
      | .ok found => .ok (.ready o (found.getD .default) files.head? id scene)

namespace Plan

def historyPath (p : Plan) : Bytes := p.settings.historyPath p.scene.home

def conversation (p : Plan) : Prompt.Conversation :=
  ⟨p.session, readHistory p.scene.files p.scene.working p.historyPath⟩

def filesAfter (p : Plan) (s : Session) : FileTree :=
  saveStore p.scene.files p.scene.working s.store

def filesAfterTalk (p : Plan) (c : Prompt.Conversation) : FileTree :=
  writeHistory (p.filesAfter c.session) p.scene.working p.historyPath c.history

def carryOut (p : Plan) (stdin : Bytes) : Result × FileTree :=
  match p.job with
  | .languageServer => (.silent, p.scene.files)
  | .serve => (CommandLine.serve p.options p.settings, p.scene.files)
  | .refuse => (.stop .badUsage (utf8 "Error: -o requires a source file\n"), p.scene.files)
  | .compile path target => compileFile p.scene.files p.scene.working path target
  | .run path =>
    let (result, session) := runFile p.session p.scene.files p.scene.working path
    (result, p.filesAfter session)
  | .prompt =>
    let (result, c) := converse p.settings.prompt p.conversation stdin
    (result, p.filesAfterTalk c)

end Plan

def run (scene : Scene) (id : Bytes) (arguments : List Bytes) (stdin : Bytes) : Result × FileTree :=
  match Plan.make scene id arguments with
  | .error result => (result, scene.files)
  | .ok plan => plan.carryOut stdin

end ExprMachine.CommandLine
