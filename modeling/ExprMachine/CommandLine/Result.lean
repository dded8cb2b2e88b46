import ExprMachine.Text.Bytes

/-! What a command leaves behind: an exit code and what it wrote. -/
namespace ExprMachine.CommandLine

inductive Exit where
  | success
  | badUsage
  | badData
  | internal
  | inputOutput
  deriving DecidableEq, Repr

def Exit.code : Exit → Nat
  | success => 0
  | badUsage => 64
  | badData => 65
  | internal => 70
  | inputOutput => 74

structure Result where
  exit : Exit
  stdout : Bytes
  stderr : Bytes
  deriving DecidableEq, Repr

namespace Result

def stop (exit : Exit) (stderr : Bytes) : Result := ⟨exit, [], stderr⟩

def silent : Result := ⟨.success, [], []⟩

end Result
end ExprMachine.CommandLine
