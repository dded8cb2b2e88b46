import ExprMachine.Chunk.Compilation
import ExprMachine.Machine
import ExprMachine.Store

/-! A session: one machine, perhaps with a store, that compiles and runs sources one after another.
Everything a step writes is returned beside its result. -/
namespace ExprMachine

open Text (newline)

structure Output where
  reports : Bytes
  listing : Bytes
  trace : Bytes
  deriving DecidableEq, Repr

namespace Output

def none : Output := ⟨[], [], []⟩

def append (a b : Output) : Output :=
  ⟨a.reports ++ b.reports, a.listing ++ b.listing, a.trace ++ b.trace⟩

end Output

structure Verbosity where
  printCode : Bool
  trace : Bool
  deriving DecidableEq, Repr

def Verbosity.quiet : Verbosity := ⟨false, false⟩

structure Session where
  id : Bytes
  verbosity : Verbosity
  machine : Machine
  store : Option Store

structure Session.Reply (α : Type) where
  result : α
  output : Output
  session : Session

namespace Session

def idOf (random : Bytes) : Bytes :=
  -- Two of the bytes carry the marks of a random identifier of version 4.
  let marked := (random.modify 6 fun b => b % 16 + 0x40).modify 8 fun b => b % 64 + 0x80
  let group := fun first size => Text.hexOf ((marked.drop first).take size)
  Text.join [Text.byte '-'] [group 0 4, group 4 2, group 6 2, group 8 2, group 10 6]

def start (id : Bytes) (verbosity : Verbosity) (store : Option Store) : Session :=
  ⟨id, verbosity, .fresh, store⟩

def shown (s : Session) (c : Chunk) : Output :=
  if s.verbosity.printCode then { Output.none with listing := c.listing Chunk.defaultLabel }
  else .none

def compileAfresh (s : Session) (source : Bytes) : Reply (Except Diagnostic Chunk) :=
  match compile source with
  | .error d => ⟨.error d, { Output.none with reports := d.text ++ [newline] }, s⟩
  | .ok c =>
    let store := s.store.map fun store => (store.put source c).2
    ⟨.ok c, s.shown c, { s with store := store }⟩

/-- The chunk of a source, from the store if it has one. What goes wrong with the store is ignored.
A chunk from the store is listed like a new one. -/
def compile (s : Session) (source : Bytes) : Reply (Except Diagnostic Chunk) :=
  match s.store with
  | none => s.compileAfresh source
  | some store =>
    match store.get source with
    | (.ok (some c), store) => ⟨.ok c, s.shown c, { s with store := some store }⟩
    | (_, store) => compileAfresh { s with store := some store } source

def run (s : Session) (c : Chunk) : Reply Outcome :=
  let (outcome, machine) := s.machine.interpret c
  let output := if s.verbosity.trace then { Output.none with trace := Machine.trace c } else .none
  ⟨outcome, output, { s with machine := machine }⟩

def eval (s : Session) (source : Bytes) : Reply (Except Diagnostic Outcome) :=
  match s.compile source with
  | ⟨.error d, output, s⟩ => ⟨.error d, output, s⟩
  | ⟨.ok c, output, s⟩ =>
    let ran := s.run c
    ⟨.ok ran.result, output.append ran.output, ran.session⟩

def disassemble (s : Session) (source label : Bytes) : Reply (Except Diagnostic Bytes) :=
  let compiled := s.compile source
  let label := if label.isEmpty then Chunk.defaultLabel else label
  ⟨compiled.result.map (·.listing label), compiled.output, compiled.session⟩

end Session
end ExprMachine
