import ExprMachine.Proofs.Chunk.RoundTrip
import ExprMachine.Proofs.Text.Valid

/-! What comes out of a reader is bounded by what goes in, however it was encoded: a text is valid and
no longer than the data, a list has no more elements than are admitted, and a signed integer has 64
bits. -/
namespace ExprMachine.Cbor

variable {size : Nat}

inductive Item.Bounded (size : Nat) : Item → Prop where
  | unsigned (n : Nat) : Bounded size (.unsigned n)
  | negative (n : Nat) : Bounded size (.negative n)
  | bytes (pieces : List Bytes) : Bounded size (.bytes pieces)
  | text {pieces : List Bytes} (short : pieces.flatten.length ≤ size) : Bounded size (.text pieces)
  | array {items : List Item} (few : items.length ≤ maxElements)
      (each : ∀ item ∈ items, Bounded size item) : Bounded size (.array items)
  | map {entries : List (Item × Item)} (keys : ∀ p ∈ entries, Bounded size p.1)
      (contents : ∀ p ∈ entries, Bounded size p.2) : Bounded size (.map entries)
  | tag (number : Nat) {content : Item} (inside : Bounded size content) :
      Bounded size (.tag number content)
  | simple (n : Nat) : Bounded size (.simple n)
  | bool (b : Bool) : Bounded size (.bool b)
  | null : Bounded size .null
  | float (width : FloatWidth) (pattern : Nat) : Bounded size (.float width pattern)

def Within {α : Type} (size : Nat) (P : α → Prop) (result : Option (α × Bytes)) : Prop :=
  ∀ p ∈ result, P p.1 ∧ p.2.length ≤ size

namespace Within

variable {α β : Type} {P : α → Prop} {Q : β → Prop} {result : Option (α × Bytes)}

theorem none : Within size P none := fun _ found => nomatch found

theorem some {a : α} {rest : Bytes} (holds : P a) (left : rest.length ≤ size) :
    Within size P (some (a, rest)) := by
  intro p found
  cases Option.some.inj found
  exact ⟨holds, left⟩

theorem bind {k : α × Bytes → Option (β × Bytes)} (first : Within size P result)
    (after : ∀ a rest, P a → rest.length ≤ size → Within size Q (k (a, rest))) :
    Within size Q (result.bind k) := by
  intro p found
  obtain ⟨⟨a, rest⟩, read, later⟩ := Option.bind_eq_some_iff.mp found
  obtain ⟨holds, left⟩ := first _ read
  exact after a rest holds left p later

theorem given {γ : Type} {x : Option γ} {k : γ → Option (β × Bytes)}
    (each : ∀ c, x = .some c → Within size Q (k c)) : Within size Q (x.bind k) := by
  intro p found
  obtain ⟨c, given, later⟩ := Option.bind_eq_some_iff.mp found
  exact each c given p later

theorem map {f : α → β} (first : Within size P result) (each : ∀ a, P a → Q (f a)) :
    Within size Q (result.map fun p => (f p.1, p.2)) := by
  intro p found
  obtain ⟨⟨a, rest⟩, read, rfl⟩ := Option.map_eq_some_iff.mp found
  obtain ⟨holds, left⟩ := first _ read
  exact ⟨each a holds, left⟩

theorem guard {condition : Prop} [Decidable condition]
    (allowed : condition → Within size P result) :
    Within size P (if condition then result else .none) := by
  split
  · next holds => exact allowed holds
  · exact none

end Within

theorem takeWithin {s : Bytes} (n : Nat) (left : s.length ≤ size) :
    Within size (fun piece => piece.length ≤ size) (takeExactly n s) :=
  .guard fun _ => .some (Nat.le_trans (List.length_take_le' n s) left)
    (by rw [List.length_drop]; omega)

theorem takenLengths {n : Nat} {s piece rest : Bytes} (taken : takeExactly n s = some (piece, rest)) :
    piece.length + rest.length = s.length := by
  unfold takeExactly at taken
  split at taken
  · cases Option.some.inj taken
    rw [List.length_take, List.length_drop]
    omega
  · contradiction

theorem headWithin {s : Bytes} (left : s.length ≤ size) :
    Within size (fun _ => True) (readHead s) := by
  cases s with
  | nil => exact .none
  | cons b rest =>
    have fewer : rest.length ≤ size := Nat.le_of_succ_le left
    simp only [readHead]
    split
    · exact .some trivial fewer
    split
    · exact .guard fun _ => .some trivial fewer
    · refine .given fun width _ => .bind (takeWithin width fewer) fun argument rest _ left => ?_
      split
      · exact .none
      · exact .some trivial left

theorem piecesWithin {major : Nat} (fuel : Nat) {pieces : List Bytes} {s : Bytes}
    (room : pieces.flatten.length + s.length ≤ size) :
    Within size (fun pieces => pieces.flatten.length ≤ size) (readPieces major fuel pieces s) := by
  induction fuel generalizing pieces s with
  | zero => exact .none
  | succ fuel ih =>
    rw [readPieces]
    split
    · refine .some ?_ (by rw [List.length_drop]; omega)
      rw [List.length_flatten, List.map_reverse, List.sum_reverse, ← List.length_flatten]
      omega
    · intro p found
      obtain ⟨⟨head, behind⟩, headed, found⟩ := Option.bind_eq_some_iff.mp found
      have fewer := (headWithin (Nat.le_refl s.length) _ headed).2
      dsimp only at fewer found
      split at found
      · split at found
        · obtain ⟨⟨piece, rest⟩, taken, found⟩ := Option.bind_eq_some_iff.mp found
          have lengths := takenLengths taken
          dsimp only at found
          refine ih ?_ p found
          rw [List.flatten_cons, List.length_append]
          omega
        · contradiction
      · contradiction

theorem pairsBounded {items : List Item} {entries : List (Item × Item)}
    (paired : pairUp items = some entries) (each : ∀ item ∈ items, item.Bounded size) :
    Item.Bounded size (.map entries) := by
  have both : ∀ p ∈ entries, p.1.Bounded size ∧ p.2.Bounded size := by
    fun_induction pairUp items generalizing entries with
    | case1 =>
      cases Option.some.inj paired
      exact List.forall_mem_nil _
    | case2 => contradiction
    | case3 key value rest ih =>
      obtain ⟨others, later, rfl⟩ := Option.map_eq_some_iff.mp paired
      obtain ⟨first, second, further⟩ : key.Bounded size ∧ value.Bounded size ∧
        ∀ item ∈ rest, item.Bounded size := by simpa using each
      exact List.forall_mem_cons.mpr ⟨⟨first, second⟩, ih later further⟩
  exact .map (fun p member => (both p member).1) fun p member => (both p member).2

theorem simpleBounded (info n : Nat) : (simpleItem info n).Bounded size := by
  unfold simpleItem
  repeat' split
  all_goals constructor

structure StepsWithin (size fuel : Nat) : Prop where
  item : ∀ levels {s}, s.length ≤ size → Within size (Item.Bounded size) (readItem fuel levels s)
  items : ∀ levels count {done s}, (∀ i ∈ done, i.Bounded size) → s.length ≤ size →
    Within size (fun items => items.length = done.length + count ∧ ∀ i ∈ items, i.Bounded size)
      (readItems fuel levels count done s)
  untilBreak : ∀ levels {done s}, (∀ i ∈ done, i.Bounded size) → s.length ≤ size →
    Within size (fun items => ∀ i ∈ items, i.Bounded size) (readOpen fuel levels done s)

theorem itemWithin {fuel : Nat} (ih : StepsWithin size fuel) (levels : Nat) {s : Bytes}
    (left : s.length ≤ size) : Within size (Item.Bounded size) (readItem (fuel + 1) levels s) := by
  rw [readItem]
  refine .bind (headWithin left) fun head rest _ left => ?_
  have pieces (major : Nat) := @piecesWithin size major s.length [] rest (by simpa using left)
  dsimp only
  split
  · exact .some (.unsigned _) left
  · exact .some (.negative _) left
  · exact .map (f := fun piece => Item.bytes [piece]) (takeWithin _ left) fun _ _ => .bytes _
  · exact .map (pieces 2) fun ps _ => .bytes _
  · exact .map (f := fun piece => Item.text [piece]) (takeWithin _ left) fun _ short =>
      .text (by simpa using short)
  · exact .map (pieces 3) fun ps short => .text short
  · next n _ _ =>
    refine .guard fun admitted => .map (ih.items _ n (List.forall_mem_nil _) left) ?_
    rintro items ⟨count, each⟩
    exact .array (by simpa [count] using admitted.2) each
  · refine .guard fun _ => .bind (ih.untilBreak _ (List.forall_mem_nil _) left) ?_
    exact fun items rest each left => .guard fun few => .some (.array few each) left
  · refine .guard fun _ => .bind (ih.items _ _ (List.forall_mem_nil _) left) ?_
    intro items rest each left p found
    obtain ⟨entries, paired, rfl⟩ := Option.map_eq_some_iff.mp found
    exact ⟨pairsBounded paired each.2, left⟩
  · refine .guard fun _ => .bind (ih.untilBreak _ (List.forall_mem_nil _) left) ?_
    exact fun items rest each left => .given fun entries paired =>
      .guard fun _ => .some (pairsBounded paired each) left
  · next n _ _ =>
    have inside (levels : Nat) : Within size (Item.Bounded size)
        ((readItem fuel levels rest).map fun p => (.tag n p.1, p.2)) :=
      .map (ih.item levels left) fun item bounded => .tag n bounded
    split
    · exact .guard fun _ => inside _
    · exact inside levels
  · exact .some (simpleBounded _ _) left
  · exact .none

theorem itemsWithin {fuel : Nat} (ih : StepsWithin size fuel) (levels count : Nat) {done : List Item}
    {s : Bytes} (before : ∀ i ∈ done, i.Bounded size) (left : s.length ≤ size) :
    Within size (fun items => items.length = done.length + count ∧ ∀ i ∈ items, i.Bounded size)
      (readItems (fuel + 1) levels count done s) := by
  cases count with
  | zero =>
    rw [readItems]
    exact .some ⟨List.length_reverse, fun i member => before i (List.mem_reverse.mp member)⟩ left
  | succ count =>
    rw [readItems]
    split
    · next item rest read =>
      obtain ⟨bounded, left⟩ := ih.item levels left _ read
      have onward := ih.items levels count (List.forall_mem_cons.mpr ⟨bounded, before⟩) left
      rwa [List.length_cons, Nat.add_right_comm] at onward
    · exact .none

theorem openWithin {fuel : Nat} (ih : StepsWithin size fuel) (levels : Nat) {done : List Item}
    {s : Bytes} (before : ∀ i ∈ done, i.Bounded size) (left : s.length ≤ size) :
    Within size (fun items => ∀ i ∈ items, i.Bounded size) (readOpen (fuel + 1) levels done s) := by
  rw [readOpen]
  split
  · exact .some (fun i member => before i (List.mem_reverse.mp member))
      (by rw [List.length_drop]; omega)
  split
  · next item rest read =>
    obtain ⟨bounded, left⟩ := ih.item levels left _ read
    exact ih.untilBreak levels (List.forall_mem_cons.mpr ⟨bounded, before⟩) left
  · exact .none

theorem stepsWithin (size fuel : Nat) : StepsWithin size fuel := by
  induction fuel with
  | zero =>
    have item levels s : readItem 0 levels s = none := by rw [readItem]
    have items levels count done s : readItems 0 levels count done s = none := by rw [readItems]
    have untilBreak levels done s : readOpen 0 levels done s = none := by rw [readOpen]
    exact ⟨fun _ _ _ => item _ _ ▸ .none, fun _ _ _ _ _ _ => items _ _ _ _ ▸ .none,
      fun _ _ _ _ _ => untilBreak _ _ _ ▸ .none⟩
  | succ fuel ih => exact ⟨itemWithin ih, itemsWithin ih, openWithin ih⟩

theorem parseBounded {data : Bytes} {item : Item} (parsed : parse data = some item) :
    item.Bounded data.length := by
  unfold parse at parsed
  split at parsed
  · next read =>
    rw [← Option.some.inj parsed]
    exact ((stepsWithin data.length _).item _ (Nat.le_refl _) _ read).1
  · contradiction

/-! What the typed readers make of a bounded item. -/

theorem untaggedBounded {item inside : Item} (bounded : item.Bounded size)
    (found : untagged item = some inside) : inside.Bounded size := by
  fun_induction untagged item with
  | case1 =>
    cases Option.some.inj found
    exact .unsigned _
  | case3 =>
    cases Option.some.inj found
    exact .negative _
  | case5 number content _ _ _ ih =>
    cases bounded with
    | tag _ inside => exact ih inside found
  | case7 item =>
    cases Option.some.inj found
    exact bounded
  | _ => contradiction

theorem signedFits {item : Item} {n : Int} (read : toSigned item = some n) : FitsWord n := by
  obtain ⟨inside, _, read⟩ := Option.bind_eq_some_iff.mp read
  unfold FitsWord
  split at read
  case h_5 => contradiction
  all_goals
    simp only [Option.ite_none_right_eq_some, Option.some.injEq] at read
    omega

theorem textBounded {item : Item} {s : Bytes} (bounded : item.Bounded size)
    (read : toText item = some s) : Text.isValid s = true ∧ s.length ≤ size := by
  obtain ⟨inside, found, read⟩ := Option.bind_eq_some_iff.mp read
  have bounded := untaggedBounded bounded found
  split at read
  · next pieces =>
    unfold validText at read
    split at read
    · next valid =>
      cases Option.some.inj read
      cases bounded with
      | text short => exact ⟨Text.flattenValid (List.all_eq_true.mp valid), short⟩
    · contradiction
  · cases Option.some.inj read
    exact ⟨Text.emptyValid, Nat.zero_le size⟩
  · contradiction

theorem mappedFrom {α β : Type} {f : α → Option β} {xs : List α} {ys : List β}
    (mapped : xs.map f = ys.map some) :
    ys.length = xs.length ∧ ∀ y ∈ ys, ∃ x ∈ xs, f x = some y := by
  refine ⟨by simpa using (congrArg List.length mapped).symm, fun y member => ?_⟩
  have listed : some y ∈ xs.map f := mapped ▸ List.mem_map_of_mem member
  exact List.mem_map.mp listed

theorem listBounded {α : Type} {element : Item → Option α} {item : Item} {xs : List α}
    (bounded : item.Bounded size) (read : toList element item = some xs) :
    xs.length ≤ maxElements ∧ ∀ x ∈ xs, ∃ i : Item, i.Bounded size ∧ element i = some x := by
  obtain ⟨inside, found, read⟩ := Option.bind_eq_some_iff.mp read
  have bounded := untaggedBounded bounded found
  split at read
  · obtain ⟨length, each⟩ := mappedFrom (collected.mp read)
    cases bounded with
    | array few within =>
      refine ⟨length ▸ few, fun x member => ?_⟩
      obtain ⟨i, listed, element⟩ := each x member
      exact ⟨i, within i listed, element⟩
  · cases Option.some.inj read
    exact ⟨Nat.zero_le _, List.forall_mem_nil _⟩
  · contradiction

theorem fieldBounded {item : Item} {fields : Fields} (bounded : item.Bounded size)
    (read : toFields item = some fields) (number : Nat) : (field fields number).Bounded size := by
  obtain ⟨inside, found, read⟩ := Option.bind_eq_some_iff.mp read
  have bounded := untaggedBounded bounded found
  have each : ∀ p ∈ fields, p.2.Bounded size := by
    split at read
    · cases bounded with
      | map _ contents =>
        intro p member
        obtain ⟨entry, listed, keyed⟩ := (mappedFrom (collected.mp read)).2 p member
        obtain ⟨key, _, rfl⟩ := Option.map_eq_some_iff.mp keyed
        exact contents entry listed
    · cases Option.some.inj read
      exact List.forall_mem_nil _
    · contradiction
  unfold field
  split
  · next found => exact each _ (List.mem_of_find?_eq_some found)
  · exact .null

end ExprMachine.Cbor
