import ExprMachine.Text.Integer
import ExprMachine.Text.Quoted

/-! Options of the command: one or two dashes and a name, then perhaps an equals sign and a value.
Switches are on without a value; other options take the next argument if they have none. The first
argument that is no option ends them, and so does a double dash. -/
namespace ExprMachine.CommandLine

open Text (utf8 byte newline IntegerError)

structure Options where
  output : Bytes
  printCode : Bool
  trace : Bool
  noCache : Bool
  verbosity : Int
  serve : Bool
  port : Int
  rpcPort : Int
  languageServer : Bool
  deriving DecidableEq, Repr

def Options.default : Options := ⟨[], false, false, false, 0, false, 0, 0, false⟩

inductive Effect where
  | switch (set : Options → Bool → Options)
  | number (set : Options → Int → Options)
  | text (valueName : String) (set : Options → Bytes → Options)

structure Flag where
  name : String
  help : String
  effect : Effect

def flags : List Flag :=
  [⟨"d", "Print the bytecode of each compiled chunk", .switch fun o b => { o with printCode := b }⟩,
    ⟨"grpc-port", "Also serve gRPC on this port (used with -serve)",
      .number fun o n => { o with rpcPort := n }⟩,
    ⟨"lsp", "Start a language server on stdio",
      .switch fun o b => { o with languageServer := b }⟩,
    ⟨"no-cache", "Do not read or write the chunk cache",
      .switch fun o b => { o with noCache := b }⟩,
    ⟨"o", "Compile the source file to file instead of running it",
      .text "file" fun o s => { o with output := s }⟩,
    ⟨"port", "Evaluation server port (default from lox.toml, :4567)",
      .number fun o n => { o with port := n }⟩,
    ⟨"serve", "Start the evaluation server (Connect HTTP/JSON)",
      .switch fun o b => { o with serve := b }⟩,
    ⟨"trace", "Trace execution (stack and instruction per step)",
      .switch fun o b => { o with trace := b }⟩,
    ⟨"v", "Log verbosity (overrides lox.toml when non-zero)",
      .number fun o n => { o with verbosity := n }⟩]

def Flag.heading (f : Flag) : String :=
  "  -" ++ f.name ++
    match f.effect with
    | .switch _ => ""
    | .number _ => " int"
    | .text valueName _ => " " ++ valueName

def Flag.usage (f : Flag) : String :=
  f.heading ++ (if f.heading.length ≤ 4 then "\t" else "\n    \t") ++ f.help ++ "\n"

def usage : Bytes :=
  utf8 <| "Usage: lox [options] [file]\n\nWithout a file, starts an interactive prompt.\n\nOptions:\n" ++
    String.join (flags.map Flag.usage) ++
    "\nExamples:\n" ++
    "  lox                        # Start REPL\n" ++
    "  lox expr.lox               # Run a source file\n" ++
    "  lox -o expr.loxc expr.lox  # Compile to bytecode\n" ++
    "  lox expr.loxc              # Run compiled bytecode\n" ++
    "  lox -serve -port 8080      # Evaluation server on :8080\n"

inductive UsageError where
  | badForm (argument : Bytes)
  | undefined (name : Bytes)
  | noValue (name : Bytes)
  | badSwitch (name value : Bytes)
  | badNumber (name value : Bytes) (cause : IntegerError)
  deriving DecidableEq, Repr

def causeText : IntegerError → Bytes
  | .malformed => utf8 "parse error"
  | .outOfRange => utf8 "value out of range"

def UsageError.message : UsageError → Bytes
  | badForm argument => utf8 "bad flag syntax: " ++ argument
  | undefined name => utf8 "flag provided but not defined: -" ++ name
  | noValue name => utf8 "flag needs an argument: -" ++ name
  | badSwitch name value =>
    utf8 "invalid boolean value " ++ Text.quote value ++ utf8 " for -" ++ name ++ utf8 ": " ++
      causeText .malformed
  | badNumber name value cause =>
    utf8 "invalid value " ++ Text.quote value ++ utf8 " for flag -" ++ name ++ utf8 ": " ++
      causeText cause

def readSwitch? (s : Bytes) : Option Bool :=
  if ["1", "t", "T", "true", "TRUE", "True"].any (utf8 · = s) then some true
  else if ["0", "f", "F", "false", "FALSE", "False"].any (utf8 · = s) then some false
  else none

inductive Argument where
  | plain
  | endOfOptions
  | malformed
  | option (name : Bytes) (value : Option Bytes)
  deriving DecidableEq, Repr

def splitName (s : Bytes) : Bytes × Option Bytes :=
  let name := s.takeWhile (· != byte '=')
  (name, if name.length < s.length then some (s.drop (name.length + 1)) else none)

def Argument.ofName (s : Bytes) : Argument :=
  if s.isEmpty || s.head? == some (byte '-') || s.head? == some (byte '=') then .malformed
  else .option (splitName s).1 (splitName s).2

def Argument.ofBytes : Bytes → Argument
  | first :: second :: rest =>
    if first ≠ byte '-' then .plain
    else if second ≠ byte '-' then .ofName (second :: rest)
    else if rest.isEmpty then .endOfOptions
    else .ofName rest
  | _ => .plain

inductive Request where
  | help
  | refuse (e : UsageError)
  | proceed (options : Options) (files : List Bytes)
  deriving DecidableEq, Repr

def isHelp (name : Bytes) : Bool := name == utf8 "help" || name == utf8 "h"

def Flag.isSwitch (f : Flag) : Bool :=
  match f.effect with
  | .switch _ => true
  | _ => false

def Flag.set (f : Flag) (o : Options) (word : Bytes) : Except UsageError Options :=
  match f.effect with
  | .switch set =>
    match readSwitch? word with
    | none => .error (.badSwitch (utf8 f.name) word)
    | some b => .ok (set o b)
  | .number set =>
    match Text.readInteger word with
    | .error cause => .error (.badNumber (utf8 f.name) word cause)
    | .ok n => .ok (set o n)
  | .text _ set => .ok (set o word)

def Flag.find? (name : Bytes) : Option Flag := flags.find? (utf8 ·.name = name)

def readArguments (o : Options) : List Bytes → Request
  | [] => .proceed o []
  | argument :: rest =>
    match Argument.ofBytes argument with
    | .plain => .proceed o (argument :: rest)
    | .endOfOptions => .proceed o rest
    | .malformed => .refuse (.badForm argument)
    | .option name value =>
      match Flag.find? name with
      | none => if isHelp name then .help else .refuse (.undefined name)
      | some f =>
        match if f.isSwitch then some (value.getD (utf8 "true")) else value with
        | some word =>
          match f.set o word with
          | .error e => .refuse e
          | .ok o => readArguments o rest
        | none =>
          match rest with
          | [] => .refuse (.noValue name)
          | word :: rest =>
            match f.set o word with
            | .error e => .refuse e
            | .ok o => readArguments o rest

def Request.ofArguments (arguments : List Bytes) : Request := readArguments .default arguments

end ExprMachine.CommandLine
