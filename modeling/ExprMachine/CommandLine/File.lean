import ExprMachine.CommandLine.Result
import ExprMachine.FileTree
import ExprMachine.Session

/-! Commands on one file: running it, and compiling it to another. A file is a source unless its
name says that it holds an encoded chunk. -/
namespace ExprMachine.CommandLine

open Text (utf8 newline quote)

def chunkExtension : Bytes := utf8 ".loxc"

def isChunkFile (path : Bytes) : Bool := Text.spells chunkExtension (Path.extension path)

def complaint (task : String) (path reason : Bytes) : Bytes :=
  utf8 task ++ quote path ++ utf8 ": " ++ reason ++ [newline]

def cannotRead (path : Bytes) (failure : FileFailure) : Result :=
  .stop .inputOutput (complaint "Could not read file " path failure.message)

def cannotLoad (path : Bytes) (e : WireError) : Result :=
  .stop .badData (complaint "Could not load " path e.message)

def cannotWrite (path : Bytes) (failure : FileFailure) : Result :=
  .stop .inputOutput (complaint "Could not write " path failure.message)

def report (output : Output) : Outcome → Result
  | .value v => ⟨.success, output.listing ++ output.trace ++ v.text ++ [newline], output.reports⟩
  | .failed e => ⟨.internal, output.listing ++ output.trace, output.reports ++ e.message ++ [newline]⟩
  | .crashed c => ⟨.internal, output.listing ++ output.trace, output.reports ++ c.message ++ [newline]⟩

def runSource (s : Session) (source : Bytes) : Result × Session :=
  let reply := s.eval source
  match reply.result with
  | .error _ => (⟨.badData, reply.output.listing, reply.output.reports⟩, reply.session)
  | .ok outcome => (report reply.output outcome, reply.session)

def runChunk (s : Session) (path data : Bytes) : Result × Session :=
  match Chunk.decode data with
  | .error e => (cannotLoad path e, s)
  | .ok c =>
    let reply := s.run c
    (report reply.output reply.result, reply.session)

def runFile (s : Session) (t : FileTree) (working : Location) (path : Bytes) : Result × Session :=
  match t.read working path with
  | .error failure => (cannotRead path failure, s)
  | .ok data => if isChunkFile path then runChunk s path data else runSource s data

def compileFile (t : FileTree) (working : Location) (path target : Bytes) : Result × FileTree :=
  match t.read working path with
  | .error failure => (cannotRead path failure, t)
  | .ok source =>
    match compile source with
    | .error d => (.stop .badData (d.text ++ [newline]), t)
    | .ok c =>
      match t.write working target c.encode with
      | .error failure => (cannotWrite target failure, t)
      | .ok t => (.silent, t)

end ExprMachine.CommandLine
