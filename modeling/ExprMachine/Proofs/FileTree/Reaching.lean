import ExprMachine.Proofs.FileTree.Writing
import ExprMachine.Proofs.Path.Rooted

/-! Where a cleaned path from the root leads: to the entry that stands under its names, if directories
lead there and neither the path nor a name in it is too long to be looked up. -/
namespace ExprMachine

open ExprMachine.Path (Downward Proper rooted)

namespace FileTree

variable {t : FileTree} {location here : Location} {names : List Bytes} {path : Bytes}

structure Reaches (t : FileTree) (location : Location) : Prop where
  entry : ∃ e, t.get? location = some e
  directories : ∀ above, above <+: location → above ≠ location → t.get? above = some .directory

structure Speakable (location : Location) : Prop where
  path : (rooted location).length ≤ longestPath
  names : ∀ name ∈ location, name.length ≤ longestName ∧ 0 ∉ name

theorem followIff (down : Downward names) {place : Location} :
    names.foldlM t.step here = .ok place ↔
      here ++ names = place ∧ (∀ name ∈ names, name.length ≤ longestName) ∧
      ∀ above, above <+: names → above ≠ names → t.get? (here ++ above) = some .directory := by
  induction names generalizing here with
  | nil => simp [pure, Except.pure]
  | cons name names ih =>
    obtain ⟨proper, others⟩ := List.forall_mem_cons.mp down
    rw [List.foldlM_cons, bindOk]
    constructor
    · rintro ⟨next, stepped, followed⟩
      obtain ⟨inside, short, rfl⟩ := (stepIff proper).mp stepped
      obtain ⟨rfl, shorts, directories⟩ := (ih others).mp followed
      refine ⟨by simp, List.forall_mem_cons.mpr ⟨short, shorts⟩, fun above onWay differs => ?_⟩
      cases above with
      | nil => simpa using inside
      | cons first above =>
        obtain ⟨rfl, further⟩ := List.cons_prefix_cons.mp onWay
        have directory := directories above further fun same => differs (congrArg _ same)
        rwa [List.append_assoc, List.singleton_append] at directory
    · rintro ⟨rfl, short, directories⟩
      obtain ⟨first, shorts⟩ := List.forall_mem_cons.mp short
      have inside := directories [] (List.nil_prefix) (by simp)
      rw [List.append_nil] at inside
      refine ⟨here ++ [name], (stepIff proper).mpr ⟨inside, first, rfl⟩, (ih others).mpr ?_⟩
      refine ⟨by simp, shorts, fun above onWay differs => ?_⟩
      have directory := directories (name :: above) (List.cons_prefix_cons.mpr ⟨rfl, onWay⟩)
        fun same => differs (List.cons.inj same).2
      rwa [List.append_assoc, List.singleton_append]

theorem zeroJoined {separator : UInt8} (other : separator ≠ 0) (names : List Bytes) :
    0 ∈ Text.join [separator] names ↔ ∃ name ∈ names, 0 ∈ name := by
  induction names with
  | nil => simp [Text.join]
  | cons name rest ih =>
    by_cases more : rest = []
    · simp [more, Text.join]
    · simp [Path.joinMore _ _ more, ih, other.symm]

theorem zeroRooted (names : List Bytes) : 0 ∉ rooted names ↔ ∀ name ∈ names, 0 ∉ name := by
  have other : Path.slash ≠ 0 := by decide
  simp [rooted, zeroJoined other, other.symm]

theorem locateRooted (down : Downward location) {place : Location} :
    t.locate here (rooted location) = .ok place ↔
      location = place ∧ Speakable location ∧
      ∀ above, above <+: location → above ≠ location → t.get? above = some .directory := by
  have start : (if Path.isAbsolute (rooted location) then [] else here) = [] := rfl
  rw [locateIff, start, Path.namesRooted down, followIff down, zeroRooted]
  simp only [List.nil_append]
  constructor
  · rintro ⟨⟨_, zeros, path⟩, same, names, directories⟩
    exact ⟨same, ⟨path, fun name member => ⟨names name member, zeros name member⟩⟩, directories⟩
  · rintro ⟨same, speakable, directories⟩
    exact ⟨⟨List.cons_ne_nil _ _, fun name member => (speakable.names name member).2,
      speakable.path⟩, same, fun name member => (speakable.names name member).1, directories⟩

theorem plainEnd (down : Downward location) (nonempty : location ≠ []) :
    endsInSlash (rooted location) = false := by
  obtain ⟨front, name, rfl⟩ : ∃ front name, location = front ++ [name] :=
    ⟨_, _, (List.dropLast_concat_getLast nonempty).symm⟩
  obtain ⟨before, whole⟩ := Path.joinLast front name
  obtain ⟨_, proper⟩ := Path.downwardConcat.mp down
  have other : name.getLast proper.nonempty ≠ Path.slash := fun same =>
    proper.clear (same ▸ List.getLast_mem proper.nonempty)
  have ending : rooted (front ++ [name]) =
      (before ++ Path.slash :: name.dropLast) ++ [name.getLast proper.nonempty] := by
    rw [rooted, whole, List.append_assoc, List.cons_append, List.dropLast_concat_getLast]
  rw [endsInSlash, ending, List.getLast?_concat]
  simpa using other

theorem holdsRooted (down : Downward location) (nonempty : location ≠ []) :
    t.holds here (rooted location) = true ↔ t.Reaches location ∧ Speakable location := by
  simp only [holdsIff, Prod.exists, entryIff, locateRooted down, plainEnd down nonempty,
    Bool.false_eq_true, false_implies, and_true]
  constructor
  · rintro ⟨_, e, ⟨rfl, speakable, directories⟩, entry⟩
    exact ⟨⟨⟨e, entry⟩, directories⟩, speakable⟩
  · rintro ⟨⟨⟨e, entry⟩, directories⟩, speakable⟩
    exact ⟨location, e, ⟨rfl, speakable, directories⟩, entry⟩

end FileTree
end ExprMachine
