import ExprMachine.Proofs.Text.Visible

/-! Reading back what is written in rows of fields: a field that is filled up with blanks on the left
ends at the next blank, and a row ends at its line feed, so a text has no two readings. -/
namespace ExprMachine.Text

def blank : UInt8 := 32

structure Solid (s : Bytes) : Prop where
  visible : Visible s
  nonempty : s ≠ []

theorem intTextSolid (n : Int) : Solid (intText n) := ⟨intTextVisible n, intTextNonempty n⟩

variable {s t rest rest' : Bytes}

theorem cutInj {mark : UInt8} (clear : mark ∉ s) (clear' : mark ∉ t)
    (same : s ++ mark :: rest = t ++ mark :: rest') : s = t ∧ rest = rest' := by
  induction s generalizing t with
  | nil =>
    cases t with
    | nil => exact ⟨rfl, (List.cons.inj same).2⟩
    | cons b t => exact absurd ((List.cons.inj same).1 ▸ List.mem_cons_self) clear'
  | cons b s ih =>
    cases t with
    | nil => exact absurd ((List.cons.inj same).1 ▸ List.mem_cons_self) clear
    | cons b' t =>
      obtain ⟨rfl, later⟩ := List.cons.inj same
      obtain ⟨rfl, more⟩ := ih (mt (List.mem_cons_of_mem b) clear)
        (mt (List.mem_cons_of_mem b) clear') later
      exact ⟨rfl, more⟩

theorem Solid.unfilled (solid : Solid s) (width : Nat) (rest : Bytes) :
    (padLeft width blank s ++ rest).dropWhile (· == blank) = s ++ rest := by
  obtain ⟨b, s, rfl⟩ := List.exists_cons_of_ne_nil solid.nonempty
  have seen : b ≠ blank := by
    rintro rfl
    exact absurd (solid.visible blank List.mem_cons_self) (by decide)
  have filled : ∀ x ∈ List.replicate (width - (b :: s).length) blank, (x == blank) = true :=
    fun x member => beq_iff_eq.mpr (List.eq_of_mem_replicate member)
  rw [padLeft, List.append_assoc, List.dropWhile_append_of_pos filled, List.cons_append,
    List.dropWhile_cons_of_neg (by simpa using seen)]

theorem fieldInj (solid : Solid s) (solid' : Solid t) {width : Nat}
    (same : padLeft width blank s ++ blank :: rest = padLeft width blank t ++ blank :: rest') :
    s = t ∧ rest = rest' := by
  have unfilled := congrArg (List.dropWhile (· == blank)) same
  rw [solid.unfilled, solid'.unfilled] at unfilled
  exact cutInj (solid.visible.absent (by decide)) (solid'.visible.absent (by decide)) unfilled

abbrev Unbroken (s : Bytes) : Prop := Only (· ≠ newline) s

theorem unbrokenIff : Unbroken s ↔ newline ∉ s :=
  ⟨fun unbroken => unbroken.absent (· rfl), fun absent _ member same => absent (same ▸ member)⟩

theorem Visible.unbroken (visible : Visible s) : Unbroken s :=
  visible.imp fun _ seen same => absurd seen (same ▸ by decide)

def ofRows (rows : List Bytes) : Bytes := rows.flatMap (· ++ [newline])

theorem ofRowsCons (row : Bytes) (rows : List Bytes) :
    ofRows (row :: rows) = row ++ newline :: ofRows rows := by
  simp [ofRows]

theorem ofRowsInj {rows rows' : List Bytes} (single : ∀ row ∈ rows, Unbroken row)
    (single' : ∀ row ∈ rows', Unbroken row) (same : ofRows rows = ofRows rows') :
    rows = rows' := by
  induction rows generalizing rows' with
  | nil =>
    cases rows' with
    | nil => rfl
    | cons row' rows' => simp [ofRows] at same
  | cons row rows ih =>
    cases rows' with
    | nil => simp [ofRows] at same
    | cons row' rows' =>
      obtain ⟨here, later⟩ := List.forall_mem_cons.mp single
      obtain ⟨here', later'⟩ := List.forall_mem_cons.mp single'
      rw [ofRowsCons, ofRowsCons] at same
      obtain ⟨rfl, more⟩ := cutInj (unbrokenIff.mp here) (unbrokenIff.mp here') same
      rw [ih later later' more]

theorem ofRowsNewlines {rows : List Bytes} (single : ∀ row ∈ rows, Unbroken row) :
    newlines (ofRows rows) = rows.length := by
  induction rows with
  | nil => rfl
  | cons row rows ih =>
    obtain ⟨here, later⟩ := List.forall_mem_cons.mp single
    have rest := ih later
    unfold newlines at rest ⊢
    rw [ofRowsCons, List.count_append, List.count_eq_zero_of_not_mem (unbrokenIff.mp here),
      List.count_cons_self, rest, List.length_cons, Nat.zero_add]

theorem ofRowsLast {rows : List Bytes} (nonempty : rows ≠ []) :
    (ofRows rows).getLast? = some newline := by
  rw [← List.dropLast_concat_getLast nonempty]
  simp [ofRows]

end ExprMachine.Text
