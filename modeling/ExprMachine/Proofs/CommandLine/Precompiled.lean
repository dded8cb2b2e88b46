import ExprMachine.CommandLine.Run
import ExprMachine.Proofs.Chunk.Reload
import ExprMachine.Proofs.FileTree.Writing
import ExprMachine.Proofs.Store.Faithful

/-! Running a source directly, and compiling it to a file that is run afterwards. The two agree as
long as the file can be loaded, which not every compiled chunk allows. -/
namespace ExprMachine

open Text (utf8 newline)

structure Chunk.Portable (c : Chunk) : Prop where
  code : c.code.size ≤ Cbor.maxElements
  strings : ∀ s, .string s ∈ c.constants → ∃ text, s = utf8 text

namespace Compilation

variable {source : Bytes} {c : Chunk}

theorem compiledShort (ok : compile source = .ok c) (few : c.code.size ≤ Cbor.maxElements) :
    c.Short := by
  obtain ⟨lines, constants, _⟩ := compiledSizes ok
  exact ⟨few, by omega, by omega⟩

theorem portableLoads (ok : compile source = .ok c) (addressable : source.length < 2 ^ 63)
    (portable : c.Portable) : Chunk.decode c.encode = .ok c := by
  have short := compiledShort ok portable.code
  have loadable : c.Loadable := (compiledWords ok addressable).loadable.mpr
    ⟨fun v inside => compiledKinds ok v (by simpa using inside), portable.strings, compiledValid ok⟩
  exact (Chunk.decodeExact (compiledStorable ok addressable) short).mpr
    ⟨loadable, (compiledNormal ok).symm⟩

theorem otherRefused (ok : compile source = .ok c) (addressable : source.length < 2 ^ 63)
    (unportable : ¬ c.Portable) : Chunk.decode c.encode = .error .malformed := by
  have storable := compiledStorable ok addressable
  by_cases few : c.code.size ≤ Cbor.maxElements
  · refine Chunk.unreadableRefused storable (compiledShort ok few) fun readable => ?_
    exact unportable ⟨few, Chunk.stringsValid.mp readable.strings⟩
  · exact Chunk.longRefused (Nat.not_le.mp few) storable.sizes.1

end Compilation

namespace CommandLine

def traceOption (traced : Bool) : List Bytes := if traced then [utf8 "-trace"] else []

theorem runArguments {file : Bytes} (plain : Argument.ofBytes file = .plain) (traced : Bool) :
    Request.ofArguments (traceOption traced ++ [file]) =
      .proceed { Options.default with trace := traced } [file] := by
  have option : Argument.ofBytes (utf8 "-trace") = .option (utf8 "trace") none := by decide
  have found : Flag.find? (utf8 "trace") = some ⟨"trace",
    "Trace execution (stack and instruction per step)",
    .switch fun o b => { o with trace := b }⟩ := by rfl
  have word : readSwitch? (utf8 "true") = some true := by decide
  cases traced with
  | false => simp [traceOption, Request.ofArguments, readArguments, plain, Options.default]
  | true =>
    simp [traceOption, Request.ofArguments, readArguments, option, found, Flag.isSwitch, Flag.set,
      word, plain]

theorem compileArguments {file : Bytes} (plain : Argument.ofBytes file = .plain) (target : Bytes) :
    Request.ofArguments [utf8 "-o", target, file] =
      .proceed { Options.default with output := target } [file] := by
  have option : Argument.ofBytes (utf8 "-o") = .option (utf8 "o") none := by decide
  have found : Flag.find? (utf8 "o") = some ⟨"o",
    "Compile the source file to file instead of running it",
    .text "file" fun o s => { o with output := s }⟩ := by rfl
  simp [Request.ofArguments, readArguments, option, found, Flag.isSwitch, Flag.set, plain]

def Scene.Outside (scene : Scene) : Prop :=
  Settings.find scene.files scene.working (Path.rooted scene.working) = .ok none

theorem planOutside {scene : Scene} {file : Bytes} {arguments : List Bytes} {o : Options}
    (outside : scene.Outside) (proceeds : Request.ofArguments arguments = .proceed o [file])
    (id : Bytes) :
    Plan.make scene id arguments = .ok ⟨.choose o (some file), o, .default,
      .start id ⟨o.printCode, o.trace⟩ none, scene⟩ := by
  unfold Scene.Outside at outside
  simp [Plan.make, proceeds, outside, Plan.ready, verbosity, openLog, keepsChunks, Settings.default,
    Settings.logPath?]

def executed (traced : Bool) (c : Chunk) : Result :=
  let ran := (Session.start [] ⟨false, traced⟩ none).run c
  report ran.output ran.result

theorem sourceExecuted {source : Bytes} {c : Chunk} (ok : compile source = .ok c) (id : Bytes)
    (traced : Bool) :
    (runSource (.start id ⟨false, traced⟩ none) source).1 = executed traced c := by
  have compiled : (Session.start id ⟨false, traced⟩ none).compile source =
      ⟨.ok c, .none, .start id ⟨false, traced⟩ none⟩ := by
    simp [Session.compile, Session.compileAfresh, Session.start, Session.shown, ok]
  simp only [runSource, Session.eval, compiled]
  rfl

theorem chunkExecuted {data : Bytes} {c : Chunk} (ok : Chunk.decode data = .ok c) (id path : Bytes)
    (traced : Bool) :
    (runChunk (.start id ⟨false, traced⟩ none) path data).1 = executed traced c := by
  simp only [runChunk, ok]
  rfl

theorem chunkRefused {data : Bytes} {e : WireError} (refused : Chunk.decode data = .error e)
    (s : Session) (path : Bytes) : (runChunk s path data).1 = cannotLoad path e := by
  simp only [runChunk, refused]

theorem executedElse (traced : Bool) (c : Chunk) (path : Bytes) (e : WireError) :
    executed traced c ≠ cannotLoad path e := by
  have exits : ∀ output outcome, (report output outcome).exit ≠ .badData := by
    intro output outcome
    cases outcome <;> simp [report]
  exact fun same => exits _ _ (congrArg Result.exit same)

theorem chunkName {path : Bytes} (chunk : isChunkFile path = true) :
    ∃ front name, Path.names path = front ++ [name] ∧ Path.Proper name ∧ settingsName ≠ name := by
  have ofName : ∀ name, Path.slash ∉ name → isChunkFile name = true →
      Path.Proper name ∧ settingsName ≠ name := by
    intro name clear chunk
    refine ⟨⟨clear, ?_, ?_, ?_⟩, ?_⟩ <;>
    · rintro rfl
      exact absurd chunk (by decide +kernel)
  obtain clear | ⟨before, name, rfl, clear⟩ := Path.lastSlash path
  · obtain ⟨proper, differs⟩ := ofName path clear chunk
    have whole : Path.names path = [path] := by
      simp [Path.names, Path.splitWhole clear, proper.nonempty]
    exact ⟨[], path, whole, proper, differs⟩
  · have same := Path.extensionLast before clear
    obtain ⟨proper, differs⟩ := ofName name clear (by rwa [isChunkFile, same] at chunk)
    exact ⟨Path.names before, name, Path.namesLast before proper, proper, differs⟩

variable {scene : Scene} {source : Source} {path target : Bytes} {c : Chunk} {files : FileTree}

theorem runOutside {file : Bytes} (outside : scene.Outside) (plain : Argument.ofBytes file = .plain)
    (traced : Bool) (id stdin : Bytes) :
    (run scene id (traceOption traced ++ [file]) stdin).1 =
      (runFile (.start id ⟨false, traced⟩ none) scene.files scene.working file).1 := by
  have plan := planOutside outside (runArguments plain traced) id
  simp [run, plan, Plan.carryOut, Job.choose, Options.default]

/-- Outside of any project, `path` holds a source that compiles to `c`, and the encoded chunk can be
written to `target`, which has the extension of chunks. -/
structure Precompiles (scene : Scene) (source : Source) (path target : Bytes) (c : Chunk)
    (files : FileTree) : Prop where
  outside : scene.Outside
  sourcePlain : Argument.ofBytes path = .plain
  targetPlain : Argument.ofBytes target = .plain
  isSource : isChunkFile path = false
  isChunk : isChunkFile target = true
  reads : scene.files.read scene.working path = .ok source.bytes
  compiles : compile source.bytes = .ok c
  writes : scene.files.write scene.working target c.encode = .ok files

namespace Precompiles

theorem runSource (given : Precompiles scene source path target c files) (traced : Bool)
    (id stdin : Bytes) :
    (run scene id (traceOption traced ++ [path]) stdin).1 = executed traced c := by
  rw [runOutside given.outside given.sourcePlain]
  simp only [runFile, given.reads, given.isSource, Bool.false_eq_true, if_false]
  exact sourceExecuted given.compiles id traced

theorem runCompiler (given : Precompiles scene source path target c files) (id stdin : Bytes) :
    run scene id [utf8 "-o", target, path] stdin = (.silent, files) := by
  have plan := planOutside given.outside (compileArguments given.sourcePlain target) id
  have named : target ≠ [] := by
    rintro rfl
    exact absurd given.isChunk (by decide +kernel)
  simp [run, plan, Plan.carryOut, Job.choose, Options.default, named, compileFile, given.reads,
    given.compiles, given.writes]

theorem outsideAfter (given : Precompiles scene source path target c files) :
    Scene.Outside { scene with files := files } := by
  obtain ⟨front, name, named, proper, differs⟩ := chunkName given.isChunk
  exact Settings.outsideWritten given.writes named proper differs given.outside

theorem runCompiled (given : Precompiles scene source path target c files) (traced : Bool)
    (id stdin : Bytes) :
    (run { scene with files := files } id (traceOption traced ++ [target]) stdin).1 =
      (runChunk (.start id ⟨false, traced⟩ none) target c.encode).1 := by
  rw [runOutside given.outsideAfter given.targetPlain]
  simp only [runFile, FileTree.readWritten given.writes, given.isChunk, if_true]

end Precompiles

theorem precompiledExact (given : Precompiles scene source path target c files) :
    (∀ id stdin, run scene id [utf8 "-o", target, path] stdin = (.silent, files)) ∧
    ∀ traced id stdin id' stdin',
      let direct := (run scene id (traceOption traced ++ [path]) stdin).1
      let later := (run { scene with files := files } id' (traceOption traced ++ [target]) stdin').1
      (later = direct ↔ c.Portable) ∧ (¬ c.Portable → later = cannotLoad target .malformed) := by
  refine ⟨given.runCompiler, fun traced id stdin id' stdin' => ?_⟩
  rw [given.runSource, given.runCompiled]
  by_cases portable : c.Portable
  · have loads := Compilation.portableLoads given.compiles source.addressable portable
    rw [chunkExecuted loads]
    exact ⟨iff_of_true rfl portable, absurd portable⟩
  · have refused := Compilation.otherRefused given.compiles source.addressable portable
    rw [chunkRefused refused]
    exact ⟨iff_of_false (executedElse traced c target .malformed).symm portable, fun _ => rfl⟩

def sourceScene (source : Bytes) : Scene :=
  ⟨⟨[([utf8 "work"], .directory), ([utf8 "work", utf8 "expr.lox"], .file source)]⟩,
    [utf8 "work"], []⟩

def accented : Source := ⟨utf8 "\"é\"", by decide⟩

def accentedChunk : Chunk :=
  ⟨1, #[.constant 0, .plain .return], #[1, 1], #[.string (utf8 "é")]⟩

theorem precompiledExactAccented :
    ∃ files, Precompiles (sourceScene accented.bytes) accented (utf8 "expr.lox")
        (utf8 "expr.loxc") accentedChunk files ∧ accentedChunk.Portable ∧
      ∀ traced, (run { sourceScene accented.bytes with files := files } []
          (traceOption traced ++ [utf8 "expr.loxc"]) []).1 =
        (run (sourceScene accented.bytes) [] (traceOption traced ++ [utf8 "expr.lox"]) []).1 := by
  have outside : (sourceScene accented.bytes).Outside := by
    let scene := sourceScene accented.bytes
    have above : (Path.names (Path.absolute scene.working (Path.rooted scene.working))).reverse =
        [utf8 "work"] := by decide +kernel
    have here : Settings.isAt scene.files (Path.rooted [utf8 "work"]) = false := by decide +kernel
    have root : Settings.isAt scene.files (Path.rooted []) = false := by decide +kernel
    rw [Scene.Outside, Settings.find, above]
    simp [Settings.searchUp, scene, here, root]
  have place : (sourceScene accented.bytes).files.locateFile (sourceScene accented.bytes).working
      (utf8 "expr.loxc") = .ok [utf8 "work", utf8 "expr.loxc"] := by decide +kernel
  have portable : accentedChunk.Portable := by
    refine ⟨by decide, fun s member => ⟨"é", ?_⟩⟩
    simpa [accentedChunk] using member
  have given : Precompiles (sourceScene accented.bytes) accented (utf8 "expr.lox")
      (utf8 "expr.loxc") accentedChunk _ :=
    ⟨outside, by decide, by decide, by decide +kernel, by decide +kernel, by decide +kernel,
      by decide +kernel, by rw [FileTree.write, place]⟩
  exact ⟨_, given, portable, fun traced =>
    ((precompiledExact given).2 traced [] [] [] []).1.mpr portable⟩

theorem compiledNotAlwaysRun :
    let source : Bytes := [0x22, 0xff, 0x22]
    let scene := sourceScene source
    let compiled := run scene [] [utf8 "-o", utf8 "expr.loxc", utf8 "expr.lox"] []
    (compile source).toBool = true ∧ compiled.1 = .silent ∧
      (run scene [] [utf8 "expr.lox"] []).1 = ⟨.success, [0xff, newline], []⟩ ∧
      (run { scene with files := compiled.2 } [] [utf8 "expr.loxc"] []).1 = ⟨.badData, [],
        utf8 "Could not load \"expr.loxc\": bytecode: bad chunk encoding: <cbor>\n"⟩ := by
  decide +kernel

end CommandLine
end ExprMachine
