import ExprMachine.Proofs.Path.Names

/-! Cleaned paths from the root. Cleaning leaves the names that lead down from the root, nothing else;
further cleaning changes nothing, the path below such a path has one name more, and the directory of
it has one name less, but for the root, which is its own directory. -/
namespace ExprMachine.Path

open Text (utf8)

def Downward (names : List Bytes) : Prop := ∀ name ∈ names, Proper name

variable {names front : List Bytes} {name path : Bytes}

theorem downwardConcat : Downward (front ++ [name]) ↔ Downward front ∧ Proper name :=
  List.forall_mem_append.trans (and_congr_right fun _ => List.forall_mem_singleton)

theorem Downward.upTo (down : Downward names) (above : front <+: names) : Downward front :=
  fun name member => down name (above.subset member)

theorem keepProper {kept : List Bytes} {part : Bytes} (down : Downward kept) (clear : slash ∉ part) :
    Downward (keep true kept part) := by
  unfold keep
  split
  · exact down
  next other =>
  obtain ⟨nonempty, notHere⟩ := not_or.mp other
  split
  · next above =>
    cases kept with
    | nil => exact down
    | cons last rest =>
      obtain ⟨proper, others⟩ := List.forall_mem_cons.mp down
      dsimp only
      rw [if_neg proper.notAbove]
      exact others
  · next notAbove => exact List.forall_mem_cons.mpr ⟨⟨clear, nonempty, notHere, notAbove⟩, down⟩

theorem keepAll (down : Downward names) (kept : List Bytes) :
    names.foldl (keep true) kept = names.reverse ++ kept := by
  induction names generalizing kept with
  | nil => rfl
  | cons name names ih =>
    obtain ⟨proper, others⟩ := List.forall_mem_cons.mp down
    have here : keep true kept name = name :: kept := by
      simp [keep, proper.nonempty, proper.notHere, proper.notAbove]
    rw [List.foldl_cons, here, ih others, List.reverse_cons, List.append_assoc,
      List.singleton_append]

theorem cleanAbsolute (absolute : isAbsolute path = true) :
    clean path = rooted ((Text.splitAt slash path).foldl (keep true) []).reverse := by
  simp [clean, absolute, rooted]

theorem cleanDownward (absolute : isAbsolute path = true) :
    ∃ names, Downward names ∧ clean path = rooted names := by
  have down : ∀ parts : List Bytes, (∀ part ∈ parts, slash ∉ part) → ∀ kept, Downward kept →
      Downward (parts.foldl (keep true) kept) := by
    intro parts clear
    induction parts with
    | nil => exact fun kept down => down
    | cons part parts ih =>
      obtain ⟨here, later⟩ := List.forall_mem_cons.mp clear
      exact fun kept down => ih later _ (keepProper down here)
  refine ⟨_, fun name member => ?_, cleanAbsolute absolute⟩
  exact down _ (splitClear slash path) [] (List.forall_mem_nil _) name (List.mem_reverse.mp member)

theorem rootedAbsolute (names : List Bytes) : isAbsolute (rooted names) = true := rfl

theorem splitRooted (down : Downward names) (nonempty : names ≠ []) :
    Text.splitAt slash (rooted names) = [] :: names := by
  have across := splitAcross slash [] (Text.join [slash] names)
  rwa [splitJoin nonempty fun name member => (down name member).clear] at across

theorem keepRooted (down : Downward names) (kept : List Bytes) :
    (Text.splitAt slash (rooted names)).foldl (keep true) kept = names.reverse ++ kept := by
  by_cases nonempty : names = []
  · subst nonempty
    rfl
  · rw [splitRooted down nonempty, List.foldl_cons]
    exact keepAll down kept

theorem namesRooted (down : Downward names) : Path.names (rooted names) = names := by
  by_cases nonempty : names = []
  · subst nonempty
    rfl
  · rw [Path.names, splitRooted down nonempty, List.filter_cons_of_neg (by simp)]
    exact List.filter_eq_self.mpr fun name member => by simpa using (down name member).nonempty

theorem cleanRooted (down : Downward names) : clean (rooted names) = rooted names := by
  rw [cleanAbsolute (rootedAbsolute names), keepRooted down, List.append_nil, List.reverse_reverse]

theorem absoluteDownward (working : List Bytes) (path : Bytes) :
    ∃ names, Downward names ∧ absolute working path = rooted names := by
  refine cleanDownward ?_
  split
  · assumption
  · rfl

theorem absoluteRooted (down : Downward names) (working : List Bytes) :
    absolute working (rooted names) = rooted names := by
  rw [absolute, if_pos (rootedAbsolute names), cleanRooted down]

theorem belowRooted (down : Downward names) (proper : Proper name) :
    below (rooted names) name = rooted (names ++ [name]) := by
  have last : Downward [name] := List.forall_mem_singleton.mpr proper
  rw [below, if_neg (by simp [rooted]), cleanAbsolute rfl, splitLast _ proper.clear,
    List.foldl_append, keepRooted down, keepAll last]
  simp

theorem directoryRoot : directory (rooted []) = rooted [] := by decide

theorem directoryRooted (down : Downward front) (proper : Proper name) :
    directory (rooted (front ++ [name])) = rooted front := by
  obtain ⟨before, whole⟩ := joinLast front name
  have parts : Text.splitAt slash before = [] :: front := by
    have cut := splitRooted (downwardConcat.mpr ⟨down, proper⟩) (by simp)
    rw [rooted, whole, splitLast before proper.clear, ← List.cons_append] at cut
    exact List.append_cancel_right cut
  have absolute : isAbsolute (before ++ [slash]) = true := by
    cases before with
    | nil => rfl
    | cons b before => exact congrArg (· == some slash) (congrArg List.head? whole).symm
  have onward : ∀ b ∈ name.reverse, (b != slash) = true := fun b member =>
    bne_iff_ne.mpr fun same => proper.clear (same ▸ List.mem_reverse.mp member)
  have kept : (rooted (front ++ [name])).reverse.dropWhile (· != slash) = slash :: before.reverse := by
    rw [rooted, whole, List.reverse_append, List.reverse_cons, List.append_assoc,
      List.dropWhile_append_of_pos onward]
    simp
  rw [directory, kept, List.reverse_cons, List.reverse_reverse, cleanAbsolute absolute,
    splitAcross slash before [], parts, List.cons_append, List.foldl_cons, List.foldl_append]
  simp only [keep, true_or, if_true, keepAll down, Text.splitAt, List.foldl_cons, List.foldl_nil,
    List.append_nil, List.reverse_reverse]

end ExprMachine.Path
