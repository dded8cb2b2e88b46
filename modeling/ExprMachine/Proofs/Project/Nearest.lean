import ExprMachine.Proofs.FileTree.Reaching
import Mathlib.Data.List.Induction

/-! The settings that are found for a directory are those of the nearest directory on the way up that
has an entry for them, whatever becomes of reading that entry. The search ends, since each directory
but the root has a shorter path above it. -/
namespace ExprMachine.Settings

open FileTree (Reaches Speakable)
open ExprMachine.Path (Downward Proper rooted)
open Text (utf8)

/-- The search as it goes on from a directory to the one above it, until settings stand here or there
is no other directory above. -/
inductive Climb (t : FileTree) (working : Location) :
    Bytes → Except SettingsError (Option Settings) → Prop
  | found {directory} (here : isAt t directory = true) :
      Climb t working directory (some <$> load t working directory)
  | outside {directory} (absent : isAt t directory = false)
      (top : Path.directory directory = directory) : Climb t working directory (.ok none)
  | onward {directory r} (absent : isAt t directory = false)
      (higher : Path.directory directory ≠ directory)
      (further : Climb t working (Path.directory directory) r) : Climb t working directory r

/-- There is an entry for settings in the directory at a location. One that cannot be looked up, since
its path or a name in it is too long, counts as absent; a tree has no links and no permissions that
could hide an entry otherwise. -/
structure Stand (t : FileTree) (location : List Bytes) : Prop where
  reached : Reaches t (location ++ [settingsName])
  speakable : Speakable (location ++ [settingsName])

structure Nearest (t : FileTree) (location above : List Bytes) : Prop where
  onTheWay : above <+: location
  here : Stand t above
  nearest : ∀ other, other <+: location → Stand t other → other <+: above

variable {t : FileTree} {working : Location} {location above : List Bytes}
  {r : Except SettingsError (Option Settings)}

theorem Stand.higher {front : List Bytes} {name : Bytes} (stand : Stand t above)
    (onTheWay : above <+: front ++ [name]) (missing : ¬ Stand t (front ++ [name])) :
    above <+: front :=
  (List.prefix_concat_iff.mp onTheWay).resolve_left fun same => missing (same ▸ stand)

theorem isAtRooted (down : Downward location) :
    isAt t (rooted location) = true ↔ Stand t location := by
  rw [isAt, Path.belowRooted down settingsProper,
    FileTree.holdsRooted (Path.downwardConcat.mpr ⟨down, settingsProper⟩) (by simp)]
  exact ⟨fun ⟨reached, speakable⟩ => ⟨reached, speakable⟩, fun h => ⟨h.reached, h.speakable⟩⟩

theorem readAnywhere {path : Bytes} (absolute : Path.isAbsolute path = true) :
    t.read working path = t.read [] path := by
  simp only [FileTree.read, FileTree.locateEntry, FileTree.locate, absolute, if_true]

theorem loadAnywhere (down : Downward location) (working : Location) :
    load t working (rooted location) = load t [] (rooted location) := by
  unfold load
  rw [Path.belowRooted down settingsProper, Path.absoluteRooted down, Path.absoluteRooted down]
  dsimp only
  rw [readAnywhere (Path.rootedAbsolute _)]

theorem textDirectory {directory text : Bytes} {s : Settings} (ok : ofText? directory text = some s) :
    s.directory = directory := by
  simp only [ofText?, bind, Option.bind_eq_some_iff] at ok
  obtain ⟨_, _, _, _, made⟩ := ok
  cases Option.some.inj made
  rfl

theorem loadDirectory (down : Downward location) {s : Settings}
    (ok : load t working (rooted location) = .ok s) : s.directory = rooted location := by
  unfold load at ok
  rw [Path.absoluteRooted down] at ok
  dsimp only at ok
  split at ok
  · contradiction
  split at ok
  · next given =>
    cases ok
    exact textDirectory given
  · contradiction

theorem searchRoot (t : FileTree) : searchUp t [] =
    if isAt t (rooted []) then some <$> load t [] (rooted []) else .ok none := rfl

theorem searchBelow (t : FileTree) (front : List Bytes) (name : Bytes) :
    searchUp t (front ++ [name]).reverse =
      if isAt t (rooted (front ++ [name])) then some <$> load t [] (rooted (front ++ [name]))
      else searchUp t front.reverse := by
  rw [List.reverse_append, List.reverse_singleton, List.singleton_append, searchUp,
    List.reverse_cons, List.reverse_reverse]

theorem climbRoot : Climb t working (rooted []) r ↔ searchUp t [] = r := by
  have down : Downward [] := List.forall_mem_nil _
  rw [searchRoot, ← loadAnywhere down working]
  constructor
  · intro climbed
    cases climbed with
    | found here => rw [if_pos here]
    | outside absent _ => rw [absent]; rfl
    | onward _ higher _ => exact absurd Path.directoryRoot higher
  · rintro rfl
    split
    · next here => exact .found here
    · next absent => exact .outside (Bool.eq_false_iff.mpr absent) Path.directoryRoot

theorem climbIff (down : Downward location) :
    Climb t working (rooted location) r ↔ searchUp t location.reverse = r := by
  induction location using List.reverseRecOn generalizing r with
  | nil => exact climbRoot
  | append_singleton front name ih =>
    obtain ⟨before, proper⟩ := Path.downwardConcat.mp down
    have up := Path.directoryRooted before proper
    have higher : rooted front ≠ rooted (front ++ [name]) := fun same => by
      simpa [Path.namesRooted before, Path.namesRooted down] using congrArg Path.names same
    rw [searchBelow, ← loadAnywhere down working]
    constructor
    · intro climbed
      cases climbed with
      | found here => rw [if_pos here]
      | outside _ top => exact absurd (up.symm.trans top) higher
      | onward absent _ further =>
        rw [up] at further
        rw [absent]
        exact (ih before).mp further
    · rintro rfl
      split
      · next here => exact .found here
      · next absent =>
        refine .onward (Bool.eq_false_iff.mpr absent) (up ▸ higher) ?_
        rw [up]
        exact (ih before).mpr rfl

theorem searchNearest (down : Downward location) (nearest : Nearest t location above) :
    searchUp t location.reverse = some <$> load t [] (rooted above) := by
  induction location using List.reverseRecOn with
  | nil =>
    obtain rfl := List.prefix_nil.mp nearest.onTheWay
    exact if_pos ((isAtRooted down).mpr nearest.here)
  | append_singleton front name ih =>
    rw [searchBelow]
    by_cases here : Stand t (front ++ [name])
    · have below := nearest.nearest _ (List.prefix_refl _) here
      rw [if_pos ((isAtRooted down).mpr here),
        below.eq_of_length_le nearest.onTheWay.length_le]
    · have before := (Path.downwardConcat.mp down).1
      have onTheWay := nearest.here.higher nearest.onTheWay here
      rw [if_neg (mt (isAtRooted down).mp here)]
      exact ih before ⟨onTheWay, nearest.here, fun other higher =>
        nearest.nearest other (higher.trans (List.prefix_append _ _))⟩

theorem searchOutside (down : Downward location)
    (outside : ∀ above, above <+: location → ¬ Stand t above) :
    searchUp t location.reverse = .ok none := by
  induction location using List.reverseRecOn with
  | nil => exact if_neg (mt (isAtRooted down).mp (outside _ (List.prefix_refl _)))
  | append_singleton front name ih =>
    rw [searchBelow, if_neg (mt (isAtRooted down).mp (outside _ (List.prefix_refl _)))]
    exact ih (Path.downwardConcat.mp down).1 fun above higher =>
      outside above (higher.trans (List.prefix_append _ _))

theorem nearestExists (t : FileTree) (location : List Bytes) :
    (∃ above, Nearest t location above) ∨ ∀ above, above <+: location → ¬ Stand t above := by
  induction location using List.reverseRecOn with
  | nil =>
    by_cases here : Stand t []
    · exact .inl ⟨[], List.prefix_refl _, here, fun other higher _ => higher⟩
    · exact .inr fun above higher => List.prefix_nil.mp higher ▸ here
  | append_singleton front name ih =>
    by_cases here : Stand t (front ++ [name])
    · exact .inl ⟨_, List.prefix_refl _, here, fun other higher _ => higher⟩
    · obtain ⟨above, nearest⟩ | outside := ih
      · refine .inl ⟨above, nearest.onTheWay.trans (List.prefix_append _ _), nearest.here, ?_⟩
        exact fun other onTheWay stand =>
          nearest.nearest other (stand.higher onTheWay here) stand
      · exact .inr fun above onTheWay stand => outside above (stand.higher onTheWay here) stand

theorem findRooted {start : Bytes} (down : Downward location)
    (meant : Path.absolute working start = rooted location) :
    find t working start = searchUp t location.reverse := by
  rw [find, meant, Path.namesRooted down]

theorem findEither {start : Bytes} (down : Downward location)
    (meant : Path.absolute working start = rooted location) :
    (∃ above, Nearest t location above ∧
        find t working start = some <$> load t working (rooted above)) ∨
      (∀ above, above <+: location → ¬ Stand t above) ∧ find t working start = .ok none := by
  rw [findRooted down meant]
  obtain ⟨above, nearest⟩ | outside := nearestExists t location
  · refine .inl ⟨above, nearest, ?_⟩
    rw [searchNearest down nearest, loadAnywhere (down.upTo nearest.onTheWay) working]
  · exact .inr ⟨outside, searchOutside down outside⟩

theorem Nearest.unique {other : List Bytes} (nearest : Nearest t location above)
    (too : Nearest t location other) : above = other :=
  (too.nearest above nearest.onTheWay nearest.here).eq_of_length_le
    (nearest.nearest other too.onTheWay too.here).length_le

theorem findNearest (t : FileTree) (working : Location) (start : Bytes) :
    ∃ location, Downward location ∧ Path.absolute working start = rooted location ∧
      (∀ r, Climb t working (Path.absolute working start) r ↔ find t working start = r) ∧
      (∀ above, Nearest t location above →
        find t working start = some <$> load t working (rooted above)) ∧
      (find t working start = .ok none ↔ ∀ above, above <+: location → ¬ Stand t above) ∧
      (∀ s, find t working start = .ok (some s) →
        ∃ above, Nearest t location above ∧ load t working (rooted above) = .ok s ∧
          s.directory = rooted above) ∧
      ∀ e, find t working start = .error e →
        ∃ above, Nearest t location above ∧ load t working (rooted above) = .error e := by
  obtain ⟨location, down, meant⟩ := Path.absoluteDownward working start
  refine ⟨location, down, meant, fun r => ?_, ?_⟩
  · rw [meant, climbIff down, findRooted down meant]
  obtain ⟨above, nearest, found⟩ | ⟨outside, missed⟩ := findEither (t := t) down meant
  · obtain ⟨some, ok, error⟩ := loadedIff (load t working (rooted above))
    rw [found]
    refine ⟨fun other too => by rw [nearest.unique too], ?_, fun s given => ?_, fun e failed => ?_⟩
    · exact iff_of_false some fun outside => outside above nearest.onTheWay nearest.here
    · have given := (ok s).mp given
      exact ⟨above, nearest, given, loadDirectory (down.upTo nearest.onTheWay) given⟩
    · exact ⟨above, nearest, (error e).mp failed⟩
  · rw [missed]
    refine ⟨fun other too => absurd too.here (outside other too.onTheWay), by simpa using outside,
      fun s ok => ?_, fun e failed => ?_⟩
    · nomatch ok
    · nomatch failed

def nested : FileTree :=
  ⟨[([utf8 "p"], .directory), ([utf8 "p", settingsName], .file []),
    ([utf8 "p", utf8 "q"], .directory), ([utf8 "p", utf8 "q", settingsName], .directory)]⟩

example : find nested [utf8 "p"] (utf8 "q//./r/..") =
    .error (.unreadable (utf8 "/p/q/lox.toml") ⟨.readFile, utf8 "/p/q/lox.toml", .isDirectory⟩) := by
  decide +kernel

end ExprMachine.Settings
