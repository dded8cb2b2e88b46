import ExprMachine.Path

/-! The last name in a path: it stays the last whatever leads to it, also when the path is cleaned,
and the extension of the path is its extension. -/
namespace ExprMachine.Path

open Text (utf8)

theorem splitNonempty (separator : UInt8) (s : Bytes) : Text.splitAt separator s ≠ [] := by
  cases s with
  | nil => simp [Text.splitAt]
  | cons b rest =>
    rw [Text.splitAt]
    repeat' split
    all_goals simp

theorem splitWhole {separator : UInt8} {s : Bytes} (clear : separator ∉ s) :
    Text.splitAt separator s = [s] := by
  induction s with
  | nil => rfl
  | cons b rest ih =>
    obtain ⟨other, later⟩ := not_or.mp (mt List.mem_cons.mpr clear)
    rw [Text.splitAt, ih later]
    simp [Ne.symm other]

theorem splitAcross (separator : UInt8) (before after : Bytes) :
    Text.splitAt separator (before ++ separator :: after) =
      Text.splitAt separator before ++ Text.splitAt separator after := by
  have whole : Text.splitAt separator (separator :: after) = [] :: Text.splitAt separator after := by
    obtain ⟨part, parts, cut⟩ := List.exists_cons_of_ne_nil (splitNonempty separator after)
    rw [Text.splitAt, cut]
    simp
  induction before with
  | nil => exact whole
  | cons b before ih =>
    obtain ⟨part, parts, cut⟩ := List.exists_cons_of_ne_nil (splitNonempty separator before)
    rw [List.cons_append, Text.splitAt, ih, cut, Text.splitAt, cut]
    simp only [List.cons_append]
    split <;> rfl

theorem splitLast {separator : UInt8} {name : Bytes} (before : Bytes) (clear : separator ∉ name) :
    Text.splitAt separator (before ++ separator :: name) =
      Text.splitAt separator before ++ [name] := by
  rw [splitAcross, splitWhole clear]

theorem splitClear (separator : UInt8) (s : Bytes) :
    ∀ part ∈ Text.splitAt separator s, separator ∉ part := by
  induction s with
  | nil => simp [Text.splitAt]
  | cons b rest ih =>
    obtain ⟨part, parts, cut⟩ := List.exists_cons_of_ne_nil (splitNonempty separator rest)
    rw [cut] at ih
    obtain ⟨here, later⟩ := List.forall_mem_cons.mp ih
    rw [Text.splitAt, cut]
    dsimp only
    split
    · exact List.forall_mem_cons.mpr ⟨List.not_mem_nil, ih⟩
    · next other =>
      exact List.forall_mem_cons.mpr ⟨List.not_mem_cons_of_ne_of_not_mem (Ne.symm other) here, later⟩

theorem joinMore (separator part : Bytes) {rest : List Bytes} (more : rest ≠ []) :
    Text.join separator (part :: rest) = part ++ separator ++ Text.join separator rest := by
  cases rest with
  | nil => contradiction
  | cons => rfl

theorem splitJoin {separator : UInt8} {parts : List Bytes} (nonempty : parts ≠ [])
    (clear : ∀ part ∈ parts, separator ∉ part) :
    Text.splitAt separator (Text.join [separator] parts) = parts := by
  induction parts with
  | nil => contradiction
  | cons part rest ih =>
    obtain ⟨here, later⟩ := List.forall_mem_cons.mp clear
    by_cases more : rest = []
    · subst more
      exact splitWhole here
    · rw [joinMore _ _ more, List.append_assoc, List.singleton_append, splitAcross,
        splitWhole here, ih more later]
      rfl

structure Proper (name : Bytes) : Prop where
  clear : slash ∉ name
  nonempty : name ≠ []
  notHere : name ≠ utf8 "."
  notAbove : name ≠ utf8 ".."

theorem namesLast {name : Bytes} (before : Bytes) (proper : Proper name) :
    names (before ++ slash :: name) = names before ++ [name] := by
  simp [names, splitLast before proper.clear, proper.nonempty]

theorem lastSlash (path : Bytes) :
    slash ∉ path ∨ ∃ before name, path = before ++ slash :: name ∧ slash ∉ name := by
  by_cases parted : slash ∈ path.reverse
  · obtain ⟨after, before, cut, clear⟩ := List.eq_append_cons_of_mem parted
    refine .inr ⟨before.reverse, after.reverse, ?_, by simpa using clear⟩
    rw [← List.reverse_reverse path, cut]
    simp
  · exact .inl (by simpa using parted)

theorem extensionLast {name : Bytes} (before : Bytes) (clear : slash ∉ name) :
    extension (before ++ slash :: name) = extension name := by
  have others : ∀ b ∈ name.reverse, (b != slash) = true := by
    intro b inside
    simp only [bne_iff_ne]
    rintro rfl
    exact clear (List.mem_reverse.mp inside)
  have whole : name.reverse.takeWhile (· != slash) = name.reverse := by
    have padded := @List.takeWhile_append_of_pos _ (· != slash) _ [] others
    simpa using padded
  have parted : (before ++ slash :: name).reverse.takeWhile (· != slash) = name.reverse := by
    simp [List.takeWhile_append_of_pos others]
  simp only [extension, parted, whole]

theorem joinLast (parts : List Bytes) (name : Bytes) :
    ∃ before, slash :: Text.join [slash] (parts ++ [name]) = before ++ slash :: name := by
  induction parts with
  | nil => exact ⟨[], rfl⟩
  | cons part parts ih =>
    obtain ⟨before, joined⟩ := ih
    have several := joinMore [slash] part (List.concat_ne_nil name parts)
    refine ⟨slash :: part ++ before, ?_⟩
    rw [List.cons_append, several, List.append_assoc, List.singleton_append, joined]
    simp

theorem belowLast (directory : List Bytes) {name : Bytes} (proper : Proper name) :
    ∃ front, names (below (rooted directory) name) = front ++ [name] := by
  have kept : ∀ so, keep true so name = name :: so := by
    intro so
    simp [keep, proper.nonempty, proper.notHere, proper.notAbove]
  have absolute : isAbsolute (rooted directory ++ slash :: name) = true := by
    simp [isAbsolute, rooted]
  obtain ⟨before, joined⟩ :=
    joinLast ((Text.splitAt slash (rooted directory)).foldl (keep true) []).reverse name
  refine ⟨names before, ?_⟩
  have cleaned : below (rooted directory) name = before ++ slash :: name := by
    rw [← joined, below, if_neg (by simp [rooted])]
    simp only [clean, absolute, splitLast (rooted directory) proper.clear, List.foldl_append,
      List.foldl_cons, List.foldl_nil, kept, List.reverse_cons, if_true]
  rw [cleaned, namesLast before proper]

end ExprMachine.Path
