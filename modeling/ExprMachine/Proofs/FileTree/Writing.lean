import ExprMachine.Project
import ExprMachine.Proofs.Path.Names

/-! What writing a file changes: it is read with its new content, all paths lead where they led, and
no project is entered unless the file has the name of settings. -/
namespace ExprMachine

open Text (utf8)

namespace FileTree

variable {t t' : FileTree} {directory location : Location} {path content : Bytes}

theorem bindOk {ε α β : Type} {x : Except ε α} {f : α → Except ε β} {r : β} :
    x >>= f = .ok r ↔ ∃ a, x = .ok a ∧ f a = .ok r := by
  cases x <;> simp [bind, Except.bind]

def SameDirectories (t t' : FileTree) : Prop :=
  ∀ here, t.get? here = some .directory ↔ t'.get? here = some .directory

theorem stepSame (same : SameDirectories t t') {here next : Location} {name : Bytes}
    (ok : t.step here name = .ok next) : t'.step here name = .ok next := by
  unfold step at ok ⊢
  split at ok
  · contradiction
  · next inside =>
    rw [(same here).mp inside]
    exact ok
  · contradiction

theorem followSame (same : SameDirectories t t') {names : List Bytes} {here last : Location}
    (ok : names.foldlM t.step here = .ok last) : names.foldlM t'.step here = .ok last := by
  induction names generalizing here with
  | nil => exact ok
  | cons name names ih =>
    rw [List.foldlM_cons] at ok ⊢
    obtain ⟨next, stepped, rest⟩ := bindOk.mp ok
    exact bindOk.mpr ⟨next, stepSame same stepped, ih rest⟩

theorem locateIff : t.locate directory path = .ok location ↔
    (path ≠ [] ∧ 0 ∉ path ∧ path.length ≤ longestPath) ∧
      (Path.names path).foldlM t.step (if Path.isAbsolute path then [] else directory) =
        .ok location := by
  have empty : path.isEmpty = true ↔ path = [] := List.isEmpty_iff
  have zero : path.contains 0 = true ↔ 0 ∈ path := List.contains_iff_mem
  unfold locate
  split
  · next none => exact iff_of_false (by simp) fun sound => sound.1.1 (empty.mp none)
  next some =>
  split
  · next stop => exact iff_of_false (by simp) fun sound => sound.1.2.1 (zero.mp stop)
  next clear =>
  split
  · next long => exact iff_of_false (by simp) fun sound => Nat.not_lt.mpr sound.1.2.2 long
  next short =>
  exact (and_iff_right ⟨mt empty.mpr some, mt zero.mpr clear, Nat.not_lt.mp short⟩).symm

theorem locateSame (same : SameDirectories t t') (ok : t.locate directory path = .ok location) :
    t'.locate directory path = .ok location := by
  obtain ⟨sound, followed⟩ := locateIff.mp ok
  exact locateIff.mpr ⟨sound, followSame same followed⟩

theorem stepIff {here next : Location} {name : Bytes} (proper : Path.Proper name) :
    t.step here name = .ok next ↔
      t.get? here = some .directory ∧ name.length ≤ longestName ∧ here ++ [name] = next := by
  unfold step
  split
  · next none => simp [none]
  · next inside =>
    rw [if_neg proper.notHere, if_neg proper.notAbove]
    split
    · next long => simp [inside, Nat.not_le.mpr long]
    · next short => simp [inside, Nat.not_lt.mp short]
  · next other _ => simp_all

theorem stepProper {here next : Location} {name : Bytes} (proper : Path.Proper name)
    (ok : t.step here name = .ok next) : next = here ++ [name] := ((stepIff proper).mp ok).2.2.symm

theorem locateLast {front : List Bytes} {name : Bytes} (proper : Path.Proper name)
    (names : Path.names path = front ++ [name]) (ok : t.locate directory path = .ok location) :
    location.getLast? = some name := by
  obtain ⟨_, followed⟩ := locateIff.mp ok
  rw [names, List.foldlM_append] at followed
  obtain ⟨here, _, entered⟩ := bindOk.mp followed
  obtain ⟨next, stepped, last⟩ := bindOk.mp entered
  rw [← Except.ok.inj last, stepProper proper stepped, List.getLast?_concat]

theorem written (ok : t.write directory path content = .ok t') :
    ∃ location, t.locate directory path = .ok location ∧ endsInSlash path = false ∧
      t.get? location ≠ some .directory ∧ t.put location (.file content) = t' := by
  unfold write at ok
  split at ok
  · contradiction
  next location found =>
  obtain ⟨here, located, checked⟩ := bindOk.mp found
  cases plain : endsInSlash path with
  | true => simp [plain, throw, throwThe, MonadExceptOf.throw, bind, Except.bind] at checked
  | false =>
    simp only [plain, Bool.false_eq_true, if_false] at checked
    split at checked
    · contradiction
    · next file =>
      cases Except.ok.inj checked
      exact ⟨_, located, rfl, file, Except.ok.inj ok⟩

theorem belowRoot (file : t.get? location ≠ some .directory) : location ≠ [] := by
  rintro rfl
  exact file rfl

theorem putSame (content : Bytes) (file : t.get? location ≠ some .directory) :
    SameDirectories t (t.put location (.file content)) := by
  intro here
  by_cases same : here = location
  · subst same
    simp [get?_put_self t _ (belowRoot file), file]
  · rw [get?_put_of_ne t _ same]

theorem stepHere {here next : Location} :
    t.step here (utf8 ".") = .ok next ↔ t.get? here = some .directory ∧ here = next := by
  unfold step
  split <;> simp_all

theorem entryIff {e : Entry} : t.locateEntry directory path = .ok (location, e) ↔
    t.locate directory path = .ok location ∧ t.get? location = some e ∧
      (endsInSlash path = true → e = .directory) := by
  simp only [locateEntry, bindOk]
  cases endsInSlash path with
  | true =>
    simp only [if_true, bindOk, stepHere]
    grind
  | false =>
    simp only [Bool.false_eq_true, if_false, pure, Except.pure, bindOk]
    grind

theorem readWritten (ok : t.write directory path content = .ok t') :
    t'.read directory path = .ok content := by
  obtain ⟨location, located, plain, file, rfl⟩ := written ok
  have entry := entryIff.mpr ⟨locateSame (putSame content file) located,
    get?_put_self t (.file content) (belowRoot file), by simp [plain]⟩
  simp [read, entry]

theorem holdsIff : t.holds directory path = true ↔
    ∃ entry, t.locateEntry directory path = .ok entry := by
  unfold holds
  cases t.locateEntry directory path <;> simp [Except.toBool]

theorem holdsBefore {front before : List Bytes} {name other : Bytes} {there : Location}
    {query : Bytes} (ok : t.write directory path content = .ok t')
    (named : Path.names path = front ++ [name]) (proper : Path.Proper name)
    (asked : Path.names query = before ++ [other]) (otherProper : Path.Proper other)
    (differs : other ≠ name) (holds : t'.holds there query = true) :
    t.holds there query = true := by
  obtain ⟨location, located, plain, file, rfl⟩ := written ok
  obtain ⟨⟨place, e⟩, entry⟩ := holdsIff.mp holds
  obtain ⟨found, present, slashed⟩ := entryIff.mp entry
  have same := putSame content file
  have elsewhere : place ≠ location := by
    rintro rfl
    have last := locateLast otherProper asked found
    rw [locateLast proper named located] at last
    exact differs (Option.some.inj last).symm
  rw [get?_put_of_ne t _ elsewhere] at present
  exact holdsIff.mpr ⟨(place, e), entryIff.mpr
    ⟨locateSame (fun here => (same here).symm) found, present, slashed⟩⟩

end FileTree

namespace Settings

theorem settingsProper : Path.Proper settingsName :=
  ⟨by decide, by decide, by decide, by decide⟩

theorem loadedIff {ε α : Type} (loaded : Except ε α) :
    some <$> loaded ≠ .ok none ∧ (∀ a, some <$> loaded = .ok (some a) ↔ loaded = .ok a) ∧
      ∀ e, some <$> loaded = .error e ↔ loaded = .error e := by
  cases loaded <;> simp [Functor.map, Except.map]

theorem searchKeeps {t t' : FileTree} (fewer : ∀ names, isAt t' (Path.rooted names) = true →
      isAt t (Path.rooted names) = true) {names : List Bytes}
    (outside : searchUp t names = .ok none) : searchUp t' names = .ok none := by
  induction names with
  | nil =>
    unfold searchUp at outside ⊢
    split at outside
    · exact absurd outside (loadedIff _).1
    · next none =>
      rw [if_neg fun found => none (fewer [] found)]
  | cons name above ih =>
    simp only [searchUp] at outside ⊢
    split at outside
    · exact absurd outside (loadedIff _).1
    · next none =>
      rw [if_neg fun found => none (fewer _ found)]
      exact ih outside

theorem outsideWritten {t t' : FileTree} {working : Location} {path content directory : Bytes}
    {front : List Bytes} {name : Bytes} (ok : t.write working path content = .ok t')
    (named : Path.names path = front ++ [name]) (proper : Path.Proper name)
    (differs : settingsName ≠ name) (outside : find t working directory = .ok none) :
    find t' working directory = .ok none := by
  refine searchKeeps (fun names found => ?_) outside
  obtain ⟨before, asked⟩ := Path.belowLast names settingsProper
  exact FileTree.holdsBefore ok named proper asked settingsProper differs found

end Settings
end ExprMachine
