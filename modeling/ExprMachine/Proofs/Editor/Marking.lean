import ExprMachine.Editor.Language
import ExprMachine.Proofs.Editor.Readback
import ExprMachine.Proofs.Expression.Diagnosis
import ExprMachine.Proofs.Store.Faithful
import ExprMachine.Proofs.Token.Boundary

/-! What an editor is shown of a text that does not compile. There is one marker; it covers the
token in question up to the end of its first line, and since tokens start and stop between
characters, its columns lead back to where it starts and stops. The line reported to a terminal is the
one the token stops on. -/
namespace ExprMachine

open Text (utf8 isValid newline newlines Seam)

namespace Compilation

theorem callFound {source : Bytes} {i : Nat} {t : Token}
    (found : (TokenStream.ofSource source).toList[i]? = some t) : t = Lexer.call source i := by
  rw [Lexer.callsListed, List.getElem?_map] at found
  obtain ⟨calls, listed, rfl⟩ := Option.map_eq_some_iff.mp found
  obtain ⟨_, rfl⟩ := List.getElem?_eq_some_iff.mp listed
  rw [List.getElem_range]

theorem reportedCall {source : Bytes} {d : Diagnostic} (failed : compile source = .error d) :
    ∃ calls, d.token = Lexer.call source calls ∧
      ∀ i < calls, (Lexer.call source i).kind.isError = false := by
  have fails : ∀ c, (TokenStream.ofSource source).compile ≠ .ok c := fun c ok =>
    nomatch ok.symm.trans failed
  obtain ⟨j, first⟩ := faultExists (sourceProper source) fails
  have diagnosis := faultReported (sourceProper source) first failed
  obtain ⟨t, found, _⟩ := first.1
  have fine : ∀ i < j, (Lexer.call source i).kind.isError = false := by
    intro i before
    have bound := Nat.lt_trans before (List.getElem?_eq_some_iff.mp found).1
    have here := List.getElem?_eq_getElem bound
    rw [← callFound here]
    exact Bool.eq_false_iff.mpr fun wrong => first.2 i before ⟨_, here, .inl wrong⟩
  by_cases overtaken : Overtaken (TokenStream.ofSource source).toList j
  · obtain ⟨_, ⟨u, here, clean⟩, _⟩ := id overtaken
    refine ⟨j + 1, callFound (diagnosis.ahead overtaken), fun i before => ?_⟩
    rcases Nat.lt_succ_iff_lt_or_eq.mp before with earlier | rfl
    · exact fine i earlier
    · exact callFound here ▸ clean
  · exact ⟨j, callFound (diagnosis.here overtaken), fine⟩

end Compilation

namespace Editor

def lineStop (text : Bytes) (offset : Nat) : Nat :=
  offset + ((text.drop offset).takeWhile (· != newline)).length

theorem lineStopSeam (text : Bytes) (offset : Nat) : Seam text (lineStop text offset) := by
  have rest := @List.drop_left _ ((text.drop offset).takeWhile (· != newline))
    ((text.drop offset).dropWhile (· != newline))
  rw [List.takeWhile_append_dropWhile, List.drop_drop] at rest
  have stops := List.head?_dropWhile_not (fun b => b != newline) (text.drop offset)
  refine .inr fun b first => ?_
  rw [lineStop, rest] at first
  rw [first] at stops
  have same : b = newline := by simpa using stops
  exact same ▸ by decide

theorem rangeInside {text : Bytes} {offset length : Nat} (inside : offset + length ≤ text.length)
    (addressable : text.length < 2 ^ 63) :
    rangeOf? text offset length =
      some ⟨positionAt text offset,
        positionAt text (min (offset + length) (lineStop text offset))⟩ := by
  have small : (offset : Int) + length ≤ text.length := by exact_mod_cast inside
  -- places in a text are too small for their sum to wrap around
  have kept : Int.bmod (offset + length) 0x1_0000_0000_0000_0000 = (offset + length : Int) :=
    Int.bmod_eq_of_le_mul_two (by omega) (by omega)
  have line : ((text.drop offset).takeWhile (· != newline)).length ≤ (text.drop offset).length :=
    (List.takeWhile_prefix _).length_le
  have stop : rangeEnd text offset length =
      (min (offset + length) (lineStop text offset) : Nat) := by
    simp only [rangeEnd, kept, lineStop]
    generalize ((text.drop offset).takeWhile (· != newline)).length = width at *
    rw [List.length_drop] at *
    split <;> omega
  have within : min offset text.length = offset := Nat.min_eq_left (by omega)
  have before : ¬ (offset : Int) < 0 := by omega
  have after : ¬ ((min (offset + length) (lineStop text offset) : Nat) : Int) < 0 := by omega
  simp only [rangeOf?, positionAt?, Int.toNat_natCast, within, stop, if_neg before, if_neg after,
    Option.map_some]

theorem lineClear {text : Bytes} {start stop : Nat} (line : stop ≤ lineStop text start) :
    newline ∉ (text.drop start).take (stop - start) := by
  unfold lineStop at line
  have whole := List.takeWhile_append_dropWhile (p := (· != newline)) (l := text.drop start)
  intro member
  rw [← whole, List.take_append_of_le_length (by omega)] at member
  simpa using List.mem_takeWhile_imp (List.mem_of_mem_take member)

section Onward

variable {text : Bytes} {start stop : Nat}

theorem takeOnward (ordered : start ≤ stop) :
    text.take stop = text.take start ++ (text.drop start).take (stop - start) := by
  rw [← List.take_add, Nat.add_sub_cancel' ordered]

theorem lineOnward (ordered : start ≤ stop) (line : stop ≤ lineStop text start) :
    (positionAt text start).line = (positionAt text stop).line := by
  simp only [positionAt, takeOnward ordered, newlines, List.count_append,
    List.count_eq_zero.mpr (lineClear line), Nat.add_zero]

theorem characterOnward (short : text.length < 0x1_0000_0000) (ordered : start ≤ stop)
    (line : stop ≤ lineStop text start)
    (ascii : ∀ b ∈ ((text.drop start).take (stop - start)).head?, b < 128) :
    (positionAt text start).character ≤ (positionAt text stop).character := by
  rw [positionFits short, positionFits short, takeOnward ordered, lastLineLonger _ (lineClear line),
    Text.unitsParts (Text.glyphsBefore ascii)]
  exact Nat.le_add_right _ _

end Onward

structure Marks (text : Bytes) (p : Position) (offset : Nat) : Prop where
  boundary : isValid (text.take offset) = true
  back : offsetAt? text p = some offset

theorem seamMarks {text : Bytes} {offset : Nat} (short : text.length < 0x1_0000_0000)
    (valid : isValid text = true) (within : offset ≤ text.length) (seam : Seam text offset) :
    Marks text (positionAt text offset) offset :=
  ⟨(seam.valid valid).1, offsetRead short within (seam.valid valid).1⟩

theorem lengthExtent (source : Bytes) (d : Diagnostic) :
    d.length = 0 ∨ d.token.kind.isError = false ∧ d.length = d.token.extent source := by
  unfold Diagnostic.length Token.extent
  split
  · exact .inl rfl
  · exact .inl rfl
  · next _ other =>
    refine .inr ⟨Bool.eq_false_iff.mpr fun wrong => ?_, ?_⟩
    · obtain ⟨e, kind⟩ := Lexer.errorKind wrong
      exact other e kind
    · split
      · next kind => exact absurd kind (other _)
      · next kind => exact absurd kind (other _)
      · rfl

section Reported

variable {text : Bytes} {d : Diagnostic} {calls : Nat}

theorem reportInside (about : d.token = Lexer.call text calls) :
    d.offset + d.length ≤ text.length := by
  have inside := about ▸ (Lexer.callTile text calls).inside
  unfold Token.stop at inside
  unfold Diagnostic.offset
  rcases lengthExtent text d with none | ⟨_, whole⟩ <;> omega

theorem reportEdge (about : d.token = Lexer.call text calls) {n : Nat} (some : n ≤ d.length) :
    ∀ b ∈ ((text.drop d.offset).take n).head?, b < 128 := by
  intro b first
  rw [List.head?_take] at first
  split at first
  · contradiction
  rcases lengthExtent text d with none | ⟨fine, whole⟩
  · omega
  · rw [about] at fine
    have edge := (Lexer.spanEdges fine).1
    rw [← about, Lexer.span, ← whole, List.head?_take, if_neg (by omega)] at edge
    exact edge b first

theorem reportSeam (about : d.token = Lexer.call text calls)
    (fine : ∀ i < calls, (Lexer.call text i).kind.isError = false) :
    Seam text d.offset ∧ Seam text (d.offset + d.length) := by
  have start : Seam text d.offset := by
    rw [Diagnostic.offset, about]
    exact Lexer.offsetSeam fine
  refine ⟨start, ?_⟩
  rcases lengthExtent text d with none | ⟨clean, whole⟩
  · rwa [none]
  · rw [about] at clean
    rw [whole, Diagnostic.offset, about]
    exact Lexer.stopSeam clean

end Reported

def markStop (text : Bytes) (d : Diagnostic) : Nat :=
  min (d.offset + d.length) (lineStop text d.offset)

def markRange (text : Bytes) (d : Diagnostic) : Range :=
  ⟨positionAt text d.offset, positionAt text (markStop text d)⟩

theorem markStopBounds (text : Bytes) (d : Diagnostic) :
    d.offset ≤ markStop text d ∧ markStop text d ≤ d.offset + d.length ∧
      markStop text d ≤ lineStop text d.offset :=
  ⟨Nat.le_min.mpr ⟨Nat.le_add_right _ _, Nat.le_add_right _ _⟩, Nat.min_le_left _ _,
    Nat.min_le_right _ _⟩

theorem markStopSeam {text : Bytes} {d : Diagnostic} (stop : Seam text (d.offset + d.length)) :
    Seam text (markStop text d) := by
  unfold markStop
  rcases Nat.le_total (d.offset + d.length) (lineStop text d.offset) with whole | cut
  · rwa [Nat.min_eq_left whole]
  · rw [Nat.min_eq_right cut]
    exact lineStopSeam text d.offset

theorem markerFound {text : Source} {d : Diagnostic} (failed : compile text.bytes = .error d) :
    rangeOf? text.bytes d.offset d.length = some (markRange text.bytes d) ∧
      markers text.bytes = [⟨markRange text.bytes d, d.message⟩] := by
  obtain ⟨calls, about, _⟩ := Compilation.reportedCall failed
  have range := rangeInside (reportInside about) text.addressable
  refine ⟨range, ?_⟩
  rw [markers, failed]
  dsimp only
  rw [range]
  rfl

theorem markersExact (text : Source) :
    (markers text.bytes = [] ↔ ∃ c, compile text.bytes = .ok c) ∧
    ∀ d, compile text.bytes = .error d → ∃ range,
      rangeOf? text.bytes d.offset d.length = some range ∧
      markers text.bytes = [⟨range, d.message⟩] ∧
      range.start.line = range.stop.line ∧
      (text.bytes.length < 0x1_0000_0000 →
        range.start.character ≤ range.stop.character ∧
        (isValid text.bytes = true →
          Marks text.bytes range.start d.offset ∧
          Marks text.bytes range.stop
            (min (d.offset + d.length) (lineStop text.bytes d.offset)))) := by
  constructor
  · cases compiled : compile text.bytes with
    | ok c => simp [markers, compiled]
    | error d => simp [(markerFound compiled).2]
  intro d failed
  obtain ⟨calls, about, fine⟩ := Compilation.reportedCall failed
  obtain ⟨range, marked⟩ := markerFound failed
  have inside := reportInside about
  obtain ⟨ordered, covered, within⟩ := markStopBounds text.bytes d
  obtain ⟨start, stop⟩ := reportSeam about fine
  refine ⟨_, range, marked, lineOnward ordered within, fun short => ⟨?_, fun valid => ⟨?_, ?_⟩⟩⟩
  · exact characterOnward short ordered within
      (reportEdge about (Nat.sub_le_iff_le_add'.mpr covered))
  · exact seamMarks short valid (Nat.le_trans (Nat.le_add_right _ _) inside) start
  · exact seamMarks short valid (Nat.le_trans covered inside) (markStopSeam stop)

example : markers (utf8 "\"é\" + )\n1") =
    [⟨⟨⟨0, 6⟩, ⟨0, 7⟩⟩, utf8 "Expected prefix expression"⟩] := by decide +kernel

theorem markedLine {text : Source} {d : Diagnostic} (short : text.bytes.length < 0x1_0000_0000)
    (failed : compile text.bytes = .error d) :
    ∃ m, markers text.bytes = [m] ∧
      m.range.start.line + 1 + newlines (Lexer.span text.bytes d.token) = d.line ∧
      (m.range.start.line + 1 = d.line ↔ newline ∉ Lexer.span text.bytes d.token) ∧
      (d.token.kind ≠ .string → d.token.kind ≠ .error .unterminatedString →
        m.range.start.line + 1 = d.line) := by
  obtain ⟨calls, about, _⟩ := Compilation.reportedCall failed
  have counted : d.line = 1 + newlines (text.bytes.take (d.token.stop text.bytes)) := by
    rw [Diagnostic.line, about]
    exact (Lexer.callTile text.bytes calls).line
  have line : (markRange text.bytes d).start.line + 1 +
      newlines (Lexer.span text.bytes d.token) = d.line := by
    rw [counted, Lexer.stopSpan, newlines, newlines, List.count_append]
    simp only [markRange, positionFits short, newlines, Diagnostic.offset]
    omega
  have equal : (markRange text.bytes d).start.line + 1 = d.line ↔
      newline ∉ Lexer.span text.bytes d.token := by
    rw [← line, Nat.left_eq_add, newlines, List.count_eq_zero]
  refine ⟨_, (markerFound failed).2, line, equal, fun closed unclosed => ?_⟩
  rw [about] at closed unclosed equal
  exact equal.mpr (Lexer.spanClear closed unclosed)

theorem markedLineBroken :
    (utf8 "1 \"a\nb\"").length < 0x1_0000_0000 ∧
      compile (utf8 "1 \"a\nb\"") =
        .error ⟨⟨.string, utf8 "\"a\nb\"", 2, 2⟩, .expectedEnd⟩ ∧
      ∃ m, markers (utf8 "1 \"a\nb\"") = [m] ∧ m.range.start.line = 0 := by
  have failed : compile (utf8 "1 \"a\nb\"") =
      .error ⟨⟨.string, utf8 "\"a\nb\"", 2, 2⟩, .expectedEnd⟩ := by decide +kernel
  have short : (utf8 "1 \"a\nb\"").length < 0x1_0000_0000 := by decide +kernel
  obtain ⟨m, marked, line, _⟩ :=
    @markedLine ⟨utf8 "1 \"a\nb\"", by decide +kernel⟩ _ short failed
  have broken : newlines (Lexer.span (utf8 "1 \"a\nb\"") ⟨.string, utf8 "\"a\nb\"", 2, 2⟩) = 1 := by
    decide +kernel
  refine ⟨short, failed, m, marked, ?_⟩
  dsimp only [Diagnostic.line] at line
  omega

theorem markedLineNotAlwaysReported :
    ¬ ∀ (text : Bytes) (d : Diagnostic) (m : Marker), compile text = .error d →
      markers text = [m] → m.range.start.line + 1 = d.line := by
  intro always
  have claimed := always (utf8 "1 \"a\nb\"")
    ⟨⟨.string, utf8 "\"a\nb\"", 2, 2⟩, .expectedEnd⟩
    ⟨⟨⟨0, 2⟩, ⟨0, 4⟩⟩, utf8 "Expect end of expression."⟩ (by decide +kernel) (by decide +kernel)
  revert claimed
  decide

end Editor
end ExprMachine
