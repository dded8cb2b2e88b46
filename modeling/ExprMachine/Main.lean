import ExprMachine.CommandLine.Run

/-! The command itself. It takes a picture of the files that can matter, lets the command run on the
picture, and then writes the files that have changed. At the prompt, lines are answered as they come.
Databases are not read from the disk or written to it: chunks are kept as long as the command runs. -/
namespace ExprMachine.CommandLine

def bytesOf (s : String) : Bytes := s.toUTF8.toList

def write (stream : IO.FS.Stream) (s : Bytes) : IO Unit := do
  stream.write ⟨s.toArray⟩
  stream.flush

def nameOf? (location : Location) : Option String :=
  String.fromUTF8? ⟨(Path.rooted location).toArray⟩

def photograph (t : FileTree) (location : Location) : IO FileTree := do
  match nameOf? location, t.get? location.dropLast, t.get? location with
  | some name, some .directory, none =>
    match ← (IO.FS.readBinFile name).toBaseIO with
    | .ok content => return t.put location (.file content.toList)
    | .error (.inappropriateType ..) => return t.put location .directory
    | .error _ => return t
  | _, _, _ => return t

def photographPath (working : Location) (t : FileTree) (path : Bytes) : IO FileTree := do
  let location := Path.names (Path.absolute working path)
  ((List.range location.length).map fun n => location.take (n + 1)).foldlM photograph t

def settingsPaths (working : Location) : List Bytes :=
  (List.range (working.length + 1)).map fun n =>
    Path.below (Path.rooted (working.take n)) settingsName

def paths (scene : Scene) (arguments : List Bytes) : List Bytes :=
  match Settings.find scene.files scene.working (Path.rooted scene.working) with
  | .error _ => arguments
  | .ok found =>
    let s := found.getD .default
    arguments ++ [s.historyPath scene.home, s.cachePath] ++ s.logPath?.toList ++
      arguments.map fun a => a.drop ((a.takeWhile (· != Text.byte '=')).length + 1)

def picture (working : Location) (home : Bytes) (arguments : List Bytes) : IO Scene := do
  let t ← (settingsPaths working).foldlM (photographPath working) .empty
  let t ← (paths ⟨t, working, home⟩ arguments).foldlM (photographPath working) t
  return ⟨t, working, home⟩

def develop (before after : FileTree) : IO Unit := do
  for (location, entry) in after.entries do
    match entry, before.get? location, nameOf? location with
    | .file content, some (.file old), some name =>
      unless content = old do IO.FS.writeBinFile name ⟨content.toArray⟩
    | .file content, none, some name => IO.FS.writeBinFile name ⟨content.toArray⟩
    | _, _, _ => pure ()

def converseLive (prompt : Bytes) (start : Prompt.Conversation) : IO Prompt.Conversation := do
  let stdin ← IO.getStdin
  let stdout ← IO.getStdout
  let stderr ← IO.getStderr
  let mut c := start
  let mut pending : Bytes := []
  let mut ended := false
  repeat
    write stdout prompt
    while !ended && !pending.contains Text.newline && pending.length < Prompt.longestPiece do
      let more := (← stdin.read 1).toList
      ended := more.isEmpty
      pending := pending ++ more
    if pending.isEmpty then
      write stdout [Text.newline]
      break
    let (piece, rest) := Prompt.nextPiece pending
    pending := rest
    let (answer, next) := c.respond piece.content
    c := next
    write stdout answer.stdout
    write stderr answer.stderr
    unless answer.continues do break
  return c

def conclude (result : Result) : IO UInt32 := do
  write (← IO.getStdout) result.stdout
  write (← IO.getStderr) result.stderr
  return result.exit.code.toUInt32

def runLive (arguments : List Bytes) : IO UInt32 := do
  let working := Path.names (bytesOf (← IO.currentDir).toString)
  let home := bytesOf ((← IO.getEnv "HOME").getD "")
  let id := Session.idOf (← IO.getRandomBytes 16).toList
  let scene ← picture working home arguments
  match Plan.make scene id arguments with
  | .error result => conclude result
  | .ok plan =>
    match plan.job, Prompt.isShowable plan.settings.prompt with
    | .prompt, true =>
      write (← IO.getStdout) Prompt.banner
      let final ← converseLive plan.settings.prompt plan.conversation
      develop scene.files (plan.filesAfterTalk final)
      return Exit.success.code.toUInt32
    | _, _ =>
      let (result, files) := plan.carryOut []
      develop scene.files files
      conclude result

end ExprMachine.CommandLine

def main (arguments : List String) : IO UInt32 :=
  ExprMachine.CommandLine.runLive (arguments.map ExprMachine.CommandLine.bytesOf)
