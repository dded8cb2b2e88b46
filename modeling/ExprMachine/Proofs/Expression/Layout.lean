import ExprMachine.Proofs.Expression.Reading
import ExprMachine.Proofs.Token.Spacing

/-! Places carry no meaning: a compilation that forgets where the tokens stand goes through the same
steps, so that two layouts of the same tokens give the same code or the same report. -/
namespace ExprMachine

open Text (byte utf8)

/-! Forgetting places. -/

def Token.unplaced (t : Token) : Token := { t with offset := 0, line := 0 }

def TokenStream.unplaced (ts : TokenStream) : TokenStream :=
  ⟨ts.tokens.map Token.unplaced, ts.eof.unplaced⟩

def Chunk.unplaced (c : Chunk) : Chunk := { c with lines := c.lines.map fun _ => 0 }

def Diagnostic.unplaced (d : Diagnostic) : Diagnostic := ⟨d.token.unplaced, d.error⟩

theorem TokenStream.unplacedToList (ts : TokenStream) :
    ts.unplaced.toList = ts.toList.map Token.unplaced := by
  rw [toList, toList, List.map_append]
  rfl

theorem TokenStream.sameUnplaced {ts us : TokenStream} (same : ts.spelling = us.spelling) :
    ts.unplaced = us.unplaced := by
  have spelled : ∀ vs : TokenStream,
      vs.unplaced.toList = vs.spelling.map fun p => ⟨p.1, p.2, 0, 0⟩ := by
    intro vs
    rw [unplacedToList, spelling, List.map_map]
    rfl
  have lists : ts.unplaced.toList = us.unplaced.toList := by rw [spelled, spelled, same]
  obtain ⟨tokens, ends⟩ := List.append_inj' lists rfl
  exact congrArg₂ TokenStream.mk tokens (List.head_eq_of_cons_eq ends)

namespace Chunk

theorem unplacedPush (c : Chunk) (i : Instruction) (line : Int) :
    (c.push i line).unplaced = c.unplaced.push i 0 := by
  simp only [push, unplaced, Array.map_push]

theorem unplacedConstant (c : Chunk) (v : Value) (line : Int) :
    (c.pushConstant v line).unplaced = c.unplaced.pushConstant v 0 :=
  unplacedPush (c.addConstant v) _ line

end Chunk

namespace Compilation

def unplacing {α β : Type} (f : α → β) : Except Diagnostic α → Except Diagnostic β
  | .ok a => .ok (f a)
  | .error d => .error d.unplaced

theorem unplacingBind {α β γ δ : Type} {f : α → β} {g : γ → δ} (x : Except Diagnostic α)
    {k : α → Except Diagnostic γ} {l : β → Except Diagnostic δ}
    (after : ∀ a, l (f a) = unplacing g (k a)) :
    (unplacing f x >>= l) = unplacing g (x >>= k) := by
  cases x with
  | error d => rfl
  | ok a => exact after a

namespace State

def unplaced (s : State) : State := ⟨s.chunk.unplaced, s.pending, 0⟩

theorem unplacedStart : start.unplaced = start := by
  simp [unplaced, start, Chunk.unplaced, Chunk.empty]

theorem unplacedEmit (s : State) (op : Opcode) : (s.emit op).unplaced = s.unplaced.emit op := by
  simp only [emit, unplaced, Chunk.unplacedPush]
  rfl

theorem unplacedConstant (s : State) (v : Value) :
    (s.emitConstant v).unplaced = s.unplaced.emitConstant v := by
  simp only [emitConstant, unplaced, Chunk.unplacedConstant]
  rfl

theorem unplacedReduce (s : State) (strength : Nat) :
    (s.reduce strength).unplaced = s.unplaced.reduce strength := by
  obtain ⟨chunk, pending, line⟩ := s
  change (reduceAll strength chunk line pending).unplaced = reduceAll strength chunk.unplaced 0 pending
  induction pending generalizing chunk with
  | nil => rfl
  | cons p rest ih =>
    have finished : p.opcodes.foldl (fun c op => c.push (.plain op) 0) chunk.unplaced =
        (p.opcodes.foldl (fun c op => c.push (.plain op) line) chunk).unplaced :=
      List.foldl_hom Chunk.unplaced fun c op => (Chunk.unplacedPush c (.plain op) line).symm
    simp only [reduceAll]
    split
    · rw [ih, ← finished]
      rfl
    · rfl

end State

def unplacedPair (p : State × Expecting) : State × Expecting := (p.1.unplaced, p.2)

theorem unplacedOperand (s : State) (t : Token) :
    readOperand s.unplaced t.unplaced = unplacing unplacedPair (readOperand s t) := by
  obtain ⟨kind, lexeme, offset, line⟩ := t
  have pushed (v : Value) := (s.atLine line).unplacedConstant v
  have emitted (op : Opcode) := (s.atLine line).unplacedEmit op
  cases kind with
  | number =>
    simp only [readOperand, Token.unplaced]
    cases Number.ofLiteral? lexeme with
    | none => rfl
    | some x => exact congrArg (fun s => Except.ok (s, Expecting.operator)) (pushed _).symm
  | string => exact congrArg (fun s => Except.ok (s, Expecting.operator)) (pushed _).symm
  | mark m => cases m <;> rfl
  | keyword k =>
    cases k <;>
      first | rfl | exact congrArg (fun s => Except.ok (s, Expecting.operator)) (emitted _).symm
  | _ => rfl

theorem unplacedOperator (s : State) (t : Token) :
    readOperator s.unplaced t.unplaced = unplacing unplacedPair (readOperator s t) := by
  obtain ⟨kind, lexeme, offset, line⟩ := t
  cases kind with
  | mark m =>
    cases m with
    | rightParen =>
      simp only [readOperator, Token.unplaced, ← s.unplacedReduce]
      obtain ⟨chunk, pending, line⟩ := s.reduce 1
      rcases pending with _ | ⟨_ | _ | _, pending⟩ <;> rfl
    | _ =>
      simp only [readOperator, Token.unplaced, BinaryOp.ofMark?, ← s.unplacedReduce]
      rfl
  | _ => rfl

theorem unplacedEnd (s : State) (expecting : Expecting) (eof : Token) :
    readEnd s.unplaced expecting eof.unplaced = unplacing Chunk.unplaced (readEnd s expecting eof) := by
  cases expecting with
  | operand => rfl
  | operator =>
    rw [readEnd, readEnd, ← s.unplacedReduce]
    change (if s.inGroup then _ else _) = _
    split
    · rfl
    · have emitted := ((s.reduce 1).atLine eof.line).unplacedEmit .return
      exact congrArg (fun s => Except.ok s.chunk) emitted.symm

theorem unplacedLexical (t : Token) : checkLexical t.unplaced = unplacing id (checkLexical t) := by
  obtain ⟨kind, lexeme, offset, line⟩ := t
  cases kind <;> rfl

theorem unplacedAhead (ts : List Token) :
    ((ts.map Token.unplaced).head?.map checkLexical).getD (.ok ()) =
      unplacing id ((ts.head?.map checkLexical).getD (.ok ())) := by
  cases ts with
  | nil => rfl
  | cons t rest => exact unplacedLexical t

theorem unplacedRun (s : State) (expecting : Expecting) (eof : Token) (ts : List Token) :
    run s.unplaced expecting eof.unplaced (ts.map Token.unplaced) =
      unplacing Chunk.unplaced (run s expecting eof ts) := by
  induction ts generalizing s expecting with
  | nil => exact unplacedEnd s expecting eof
  | cons t rest ih =>
    cases expecting with
    | operand =>
      rw [List.map_cons, run, run, unplacedAhead, unplacedOperand]
      refine unplacingBind _ fun _ => unplacingBind _ fun p => ?_
      exact ih p.1 p.2
    | operator =>
      rw [List.map_cons, run, run, unplacedAhead, unplacedOperator]
      refine unplacingBind _ fun p => unplacingBind _ fun _ => ?_
      exact ih p.1 p.2

end Compilation

theorem TokenStream.unplacedCompile (ts : TokenStream) :
    ts.unplaced.compile = Compilation.unplacing Chunk.unplaced ts.compile := by
  have fromStart := Compilation.unplacedRun .start .operand ts.eof ts.tokens
  rw [Compilation.State.unplacedStart] at fromStart
  rw [compile, compile]
  change (((ts.tokens.map Token.unplaced).head?.map _).getD _ >>= _) = _
  rw [Compilation.unplacedAhead]
  exact Compilation.unplacingBind _ fun _ => fromStart

namespace Compilation

inductive Alike : Except Diagnostic Chunk → Except Diagnostic Chunk → Prop where
  | chunks {c c' : Chunk} (version : c.version = c'.version) (code : c.code = c'.code)
      (constants : c.constants = c'.constants) : Alike (.ok c) (.ok c')
  | reports {d d' : Diagnostic} (message : d.message = d'.message) (place : d.place = d'.place)
      (length : d.length = d'.length) : Alike (.error d) (.error d')

theorem alikeUnplaced {x y : Except Diagnostic Chunk}
    (same : unplacing Chunk.unplaced x = unplacing Chunk.unplaced y) : Alike x y := by
  cases x with
  | ok c =>
    cases y with
    | ok c' =>
      have chunks : c.unplaced = c'.unplaced := Except.ok.inj same
      exact .chunks (congrArg Chunk.version chunks :) (congrArg Chunk.code chunks :)
        (congrArg Chunk.constants chunks :)
    | error d => contradiction
  | error d =>
    cases y with
    | ok c => contradiction
    | error d' =>
      have reports : d.unplaced = d'.unplaced := Except.error.inj same
      exact .reports (congrArg Diagnostic.message reports :) (congrArg Diagnostic.place reports :)
        (congrArg Diagnostic.length reports :)

theorem layoutMeaningless (source other : Bytes) :
    (Clean (TokenStream.ofSource source).tokens → ∀ tail, Lexer.White tail →
      (TokenStream.ofSource ((TokenStream.ofSource source).spaced ++ tail)).spelling =
        (TokenStream.ofSource source).spelling) ∧
    ((TokenStream.ofSource source).spelling = (TokenStream.ofSource other).spelling →
      Alike (compile source) (compile other)) := by
  refine ⟨fun clean tail white => Lexer.spacedSpelling clean white, fun same => ?_⟩
  have compiled := congrArg TokenStream.compile (TokenStream.sameUnplaced same)
  rw [TokenStream.unplacedCompile, TokenStream.unplacedCompile] at compiled
  exact alikeUnplaced compiled

def remarked : Bytes := utf8 "-(1.5//half\n+2)>=\"a\n b\""

def respaced : Bytes := utf8 "- ( 1.5 + 2 ) >= \"a\n b\""

theorem layoutMeaninglessRemarked :
    (TokenStream.ofSource remarked).spaced = respaced ∧
    (TokenStream.ofSource remarked).spelling =
      (TokenStream.ofSource (respaced ++ utf8 "\t")).spelling ∧
    Alike (compile remarked) (compile (respaced ++ utf8 "\t")) := by
  have clean : ∀ t ∈ (TokenStream.ofSource remarked).tokens, t.kind.isError = false := by
    decide +kernel
  have spaced : (TokenStream.ofSource remarked).spaced = respaced := by decide +kernel
  have white : Lexer.White (utf8 "\t") := List.all_eq_true.mp (by decide)
  obtain ⟨separate, alike⟩ := layoutMeaningless remarked (respaced ++ utf8 "\t")
  have same := separate clean (utf8 "\t") white
  rw [spaced] at same
  exact ⟨spaced, same.symm, alike same.symm⟩

end Compilation
end ExprMachine
