import ExprMachine.Proofs.Expression.Acceptance
import ExprMachine.Proofs.Expression.Reporting
import ExprMachine.Proofs.Token.Tiling
import ExprMachine.Session

/-! What is reported about a source that does not compile: the first token at fault, unless it
stands where an operand is required and malformed text follows, which is looked at before. -/
namespace ExprMachine.Compilation

open Text (utf8 newline)
open Grammar (Derives Viable AwaitsOperand OpenGroup)

/-- Token `j` is malformed, or a number out of range, or does not begin an expression together with
the tokens before it. -/
def Fault (T : List Token) (j : Nat) : Prop :=
  ∃ t, T[j]? = some t ∧
    (t.kind.isError = true ∨ (t.kind = .number ∧ Number.Overflows t.lexeme) ∨
      ¬ Viable (T.take (j + 1)))

def FirstFault (T : List Token) (j : Nat) : Prop := Fault T j ∧ ∀ i < j, ¬ Fault T i

/-- A token that is not malformed stands in the place of an operand, with malformed text behind. -/
def Overtaken (T : List Token) (j : Nat) : Prop :=
  AwaitsOperand (T.take j) ∧ (∃ t, T[j]? = some t ∧ t.kind.isError = false) ∧
    ∃ u, T[j + 1]? = some u ∧ u.kind.isError = true

inductive Complaint (before : List Token) (t : Token) : Bytes → Prop where
  | malformed (error : t.kind.isError = true) : Complaint before t t.lexeme
  | range (fine : t.kind.isError = false) (place : AwaitsOperand before) (kind : t.kind = .number)
      (large : Number.Overflows t.lexeme) : Complaint before t (utf8 "Invalid number literal.")
  | operand (fine : t.kind.isError = false) (place : AwaitsOperand before)
      (other : ¬ (t.kind = .number ∧ Number.Overflows t.lexeme)) :
      Complaint before t (utf8 "Expected prefix expression")
  | closing (fine : t.kind.isError = false) (place : ¬ AwaitsOperand before)
      (inside : OpenGroup before) : Complaint before t (utf8 "Expect ')' after expression.")
  | ending (fine : t.kind.isError = false) (place : ¬ AwaitsOperand before)
      (outside : ¬ OpenGroup before) : Complaint before t (utf8 "Expect end of expression.")

structure Diagnosis (T : List Token) (j : Nat) (d : Diagnostic) : Prop where
  first : FirstFault T j
  here : ¬ Overtaken T j → T[j]? = some d.token
  ahead : Overtaken T j → T[j + 1]? = some d.token
  complaint : Complaint (T.take j) d.token d.message

structure Proper (ts : TokenStream) : Prop where
  more : ∀ t ∈ ts.tokens, t.kind ≠ .eof
  ended : ts.eof.kind = .eof
  named : ∀ t ∈ ts.tokens, ∀ e, t.kind = .error e → t.lexeme = e.message

theorem sourceProper (source : Bytes) : Proper (TokenStream.ofSource source) where
  more := (Lexer.streamRead (Lexer.Cursor.start source)).1
  ended := (Lexer.streamRead (Lexer.Cursor.start source)).2.1
  named t member e kind := by
    obtain ⟨c, _, rfl⟩ := Lexer.tokenOrigin member
    simp only [Lexer.Cursor.next] at kind ⊢
    rw [kind]

variable {ts : TokenStream}

theorem frontTokens {j : Nat} (within : j ≤ ts.tokens.length) :
    ts.toList.take j = ts.tokens.take j := List.take_append_of_le_length within

theorem tokenFound {i : Nat} (within : i < ts.tokens.length) :
    ts.toList[i]? = some ts.tokens[i] := by
  rw [TokenStream.toList, List.getElem?_append_left within, List.getElem?_eq_getElem within]

theorem faultlessRead (proper : Proper ts) {j : Nat} (within : j ≤ ts.tokens.length)
    (before : ∀ i < j, ¬ Fault ts.toList i) : ∃ s x, Reading (ts.tokens.take j) s x := by
  refine readingExists ?_ (fun t member => proper.more t (List.mem_of_mem_take member)) ?_
  · intro t member number
    obtain ⟨i, bound, rfl⟩ := List.mem_take_iff_getElem.mp member
    have inside : i < j ∧ i < ts.tokens.length := by omega
    rw [Option.isSome_iff_ne_none, ne_eq, Number.ofLiteralOverflow]
    exact fun large => before i inside.1 ⟨_, tokenFound inside.2, .inr (.inl ⟨number, large⟩)⟩
  · cases j with
    | zero => exact soundViable (readingSound .start)
    | succ i =>
      by_contra dead
      rw [← frontTokens within] at dead
      exact before i (Nat.lt_succ_self i) ⟨_, tokenFound within, .inr (.inr dead)⟩

theorem faultExists (proper : Proper ts) (fails : ∀ c, ts.compile ≠ .ok c) :
    ∃ j, FirstFault ts.toList j := by
  have some : ∃ j, Fault ts.toList j := by
    by_contra none
    have faultless : ∀ j, ¬ Fault ts.toList j := not_exists.mp none
    have viable : Viable ts.toList := by
      by_contra dead
      refine faultless ts.tokens.length ⟨ts.eof, by simp [TokenStream.toList], .inr (.inr ?_)⟩
      rwa [List.take_of_length_le (by simp [TokenStream.toList])]
    obtain ⟨s, x, reading⟩ := faultlessRead proper (Nat.le_refl _) (fun i _ => faultless i)
    rw [List.take_length] at reading
    obtain ⟨body, e, eof, d, _, front⟩ := viable
    rcases List.prefix_concat_iff.mp front with whole | inside
    · obtain ⟨rfl, _⟩ := List.append_inj' whole rfl
      exact fails _ (compileDerived d (fun t member => (Grammar.derivedKinds d t member).2)
        (readingInRange reading))
    · have member := inside.subset (show ts.eof ∈ ts.toList by simp [TokenStream.toList])
      exact (Grammar.derivedKinds d _ member).1 proper.ended
  classical
  exact ⟨Nat.find some, Nat.find_spec some, fun i before => Nat.find_min some before⟩

/-! What is reported in each place. -/

theorem operandRefused {s t d} (refused : readOperand s t = .error d) :
    d.token = t ∧
      ((t.kind = .number ∧ Number.Overflows t.lexeme ∧ d.error = .invalidNumber) ∨
        (t.kind ≠ .number ∧ d.error = .expectedOperand)) := by
  unfold readOperand at refused
  split at refused
  case h_1 kind =>
    split at refused
    · contradiction
    · next large =>
      cases refused
      exact ⟨rfl, .inl ⟨kind, (Number.ofLiteralOverflow _).mp large, rfl⟩⟩
  case h_7 kind =>
    split at refused
    · contradiction
    · cases refused
      exact ⟨rfl, .inr ⟨by simp [kind], rfl⟩⟩
  case h_8 other _ _ _ _ _ _ =>
    cases refused
    exact ⟨rfl, .inr ⟨other, rfl⟩⟩
  all_goals contradiction

theorem operatorRefused {s t d} (refused : readOperator s t = .error d) : d = misplaced s t := by
  unfold readOperator at refused
  split at refused
  · dsimp only at refused
    split at refused
    · contradiction
    · exact (Except.error.inj refused).symm
  · split at refused
    · contradiction
    · exact (Except.error.inj refused).symm
  · exact (Except.error.inj refused).symm

theorem operandComplaint {ts s t d} (reading : Reading ts s .operand)
    (fine : t.kind.isError = false) (refused : readOperand s t = .error d) :
    d.token = t ∧ Complaint ts t d.message := by
  obtain ⟨about, ⟨kind, large, error⟩ | ⟨other, error⟩⟩ := operandRefused refused
  · rw [Diagnostic.message, error]
    exact ⟨about, .range fine ((readingAwaits reading).mpr rfl) kind large⟩
  · rw [Diagnostic.message, error]
    exact ⟨about, .operand fine ((readingAwaits reading).mpr rfl) fun number => other number.1⟩

theorem operatorComplaint {ts s t} (reading : Reading ts s .operator)
    (fine : t.kind.isError = false) : Complaint ts t (misplaced s t).message := by
  have place : ¬ AwaitsOperand ts := fun awaits => nomatch (readingAwaits reading).mp awaits
  have group := soundGroup (readingSound reading)
  by_cases inside : s.inGroup = true
  · have error : (misplaced s t).error = .expectedClosingParen := by simp [misplaced, inside]
    rw [Diagnostic.message, error]
    exact .closing fine place (group.mp inside)
  · have error : (misplaced s t).error = .expectedEnd := by simp [misplaced, inside]
    rw [Diagnostic.message, error]
    exact .ending fine place fun opened => inside (group.mpr opened)

theorem aheadRefused {j : Nat} {d} (refused : lookAhead (ts.tokens.drop j) = .error d) :
    ∃ t e, t ∈ ts.tokens ∧ ts.toList[j]? = some t ∧ t.kind = .error e ∧ d = ⟨t, .lexical e⟩ := by
  unfold lookAhead at refused
  rw [List.head?_drop] at refused
  cases found : ts.tokens[j]? with
  | none => simp [found] at refused
  | some t =>
    obtain ⟨within, rfl⟩ := List.getElem?_eq_some_iff.mp found
    simp only [found, Option.map_some, Option.getD_some, checkLexical] at refused
    split at refused
    · next e kind =>
      exact ⟨_, e, List.getElem_mem within, tokenFound within, kind,
        (Except.error.inj refused).symm⟩
    · contradiction

theorem aheadFine (proper : Proper ts) {j : Nat} (fine : lookAhead (ts.tokens.drop j) = .ok ())
    {t} (found : ts.toList[j]? = some t) : t.kind.isError = false := by
  by_cases within : j < ts.tokens.length
  · cases (tokenFound within).symm.trans found
    rw [lookAhead, List.head?_drop, List.getElem?_eq_getElem within] at fine
    simp only [Option.map_some, Option.getD_some, checkLexical] at fine
    split at fine <;> simp_all [TokenKind.isError]
  · rw [TokenStream.toList, List.getElem?_append_right (Nat.not_lt.mp within)] at found
    cases List.mem_singleton.mp (List.mem_of_getElem? found)
    rw [proper.ended]
    rfl

theorem malformedComplaint (proper : Proper ts) {t e} (member : t ∈ ts.tokens)
    (kind : t.kind = .error e) (before : List Token) : Complaint before t e.message := by
  rw [← proper.named t member e kind]
  exact .malformed (by rw [kind]; rfl)

theorem faultRefused {j : Nat} (fault : Fault ts.toList j) (within : j < ts.tokens.length) {s x}
    (reading : Reading (ts.tokens.take j) s x) (r : State × Expecting) :
    readNext s x ts.tokens[j] ≠ .ok r := by
  intro read
  obtain ⟨t, found, fault⟩ := fault
  cases (tokenFound within).symm.trans found
  have longer := Reading.next reading read
  rw [List.take_append_getElem within] at longer
  rcases fault with error | ⟨number, large⟩ | dead
  · simp [(readClean read).1] at error
  · rw [← Number.ofLiteralOverflow, ← Option.not_isSome_iff_eq_none] at large
    exact large ((readClean read).2 number)
  · rw [frontTokens within] at dead
    exact dead (soundViable (readingSound longer))

theorem reportHere {T j d t} (first : FirstFault T j) (found : T[j]? = some t)
    (kept : ¬ Overtaken T j) (about : d.token = t) (complaint : Complaint (T.take j) t d.message) :
    Diagnosis T j d :=
  ⟨first, fun _ => about ▸ found, fun overtaken => absurd overtaken kept, about ▸ complaint⟩

theorem endReported (proper : Proper ts) (first : FirstFault ts.toList ts.tokens.length) {s x d}
    (reading : Reading ts.tokens s x) (refused : readEnd s x ts.eof = .error d) :
    Diagnosis ts.toList ts.tokens.length d := by
  have fine : ts.eof.kind.isError = false := by rw [proper.ended]; rfl
  have front : ts.toList.take ts.tokens.length = ts.tokens := by
    rw [frontTokens (Nat.le_refl _), List.take_length]
  have last : ts.toList[ts.tokens.length]? = some ts.eof := List.getElem?_concat_length
  have kept : ¬ Overtaken ts.toList ts.tokens.length := by
    rintro ⟨_, _, u, beyond, _⟩
    simp [TokenStream.toList] at beyond
  cases x with
  | operand =>
    cases refused
    refine reportHere first last kept rfl (front.symm ▸ ?_)
    exact .operand fine ((readingAwaits reading).mpr rfl) (by simp [proper.ended])
  | operator =>
    unfold readEnd at refused
    dsimp only at refused
    split at refused
    · cases refused
      exact reportHere first last kept rfl (front.symm ▸ operatorComplaint reading fine)
    · contradiction

theorem tokenReported (proper : Proper ts) {j : Nat} (within : j < ts.tokens.length)
    (first : FirstFault ts.toList j) {s x d} (reading : Reading (ts.tokens.take j) s x)
    (fine : ts.tokens[j].kind.isError = false)
    (failed : run s x ts.eof (ts.tokens[j] :: ts.tokens.drop (j + 1)) = .error d) :
    Diagnosis ts.toList j d := by
  have refused := faultRefused first.1 within reading
  have front := frontTokens (Nat.le_of_lt within)
  have here := tokenFound within
  cases x with
  | operator =>
    have kept : ¬ Overtaken ts.toList j := by
      rintro ⟨awaits, _⟩
      rw [front] at awaits
      cases (readingAwaits reading).mp awaits
    cases read : readOperator s ts.tokens[j] with
    | ok r => exact absurd read (refused r)
    | error report =>
      simp only [run, read, bind, Except.bind] at failed
      cases failed
      cases operatorRefused read
      exact reportHere first here kept rfl (front.symm ▸ operatorComplaint reading fine)
  | operand =>
    have awaits : AwaitsOperand (ts.toList.take j) := front ▸ (readingAwaits reading).mpr rfl
    -- the token behind is looked at before the operand is read
    change (do lookAhead (ts.tokens.drop (j + 1)); _) = _ at failed
    cases look : lookAhead (ts.tokens.drop (j + 1)) with
    | error report =>
      rw [look] at failed
      cases failed
      obtain ⟨u, e, member, ahead, kind, rfl⟩ := aheadRefused look
      have overtaken : Overtaken ts.toList j :=
        ⟨awaits, ⟨_, here, fine⟩, u, ahead, by rw [kind]; rfl⟩
      exact ⟨first, fun kept => absurd overtaken kept, fun _ => ahead,
        malformedComplaint proper member kind _⟩
    | ok _ =>
      cases read : readOperand s ts.tokens[j] with
      | ok r => exact absurd read (refused r)
      | error report =>
        rw [look, read] at failed
        cases failed
        have kept : ¬ Overtaken ts.toList j := by
          rintro ⟨_, _, u, ahead, error⟩
          simp [aheadFine proper look ahead] at error
        obtain ⟨about, complaint⟩ := operandComplaint reading fine read
        exact reportHere first here kept about (front.symm ▸ complaint)

theorem faultReported (proper : Proper ts) {j : Nat} (first : FirstFault ts.toList j) {d}
    (failed : ts.compile = .error d) : Diagnosis ts.toList j d := by
  obtain ⟨t, found, _⟩ := first.1
  have within : j ≤ ts.tokens.length := by
    have bound := (List.getElem?_eq_some_iff.mp found).1
    simpa [TokenStream.toList, Nat.lt_succ_iff] using bound
  obtain ⟨s, x, reading⟩ := faultlessRead proper within first.2
  have compiled := readingOnward reading (ts.tokens.drop j) ts.eof
  rw [List.take_append_drop] at compiled
  change ts.compile = _ at compiled
  rw [failed] at compiled
  cases look : lookAhead (ts.tokens.drop j) with
  | error report =>
    rw [look] at compiled
    cases compiled
    obtain ⟨u, e, member, here, kind, rfl⟩ := aheadRefused look
    have kept : ¬ Overtaken ts.toList j := by
      rintro ⟨_, ⟨v, there, fine⟩, _⟩
      cases here.symm.trans there
      simp [kind, TokenKind.isError] at fine
    exact reportHere first here kept rfl (malformedComplaint proper member kind _)
  | ok _ =>
    rw [look] at compiled
    have fine := aheadFine proper look found
    rcases Nat.lt_or_eq_of_le within with inside | rfl
    · rw [List.drop_eq_getElem_cons inside] at compiled
      cases (tokenFound inside).symm.trans found
      exact tokenReported proper inside first reading fine compiled.symm
    · rw [List.take_length] at reading
      rw [List.drop_length] at compiled
      exact endReported proper first reading compiled.symm

theorem diagnosticLength (d : Diagnostic) :
    d.length = if d.token.kind = .eof ∨ d.token.kind.isError = true then 0
      else d.token.lexeme.length := by
  unfold Diagnostic.length
  split <;> simp_all [TokenKind.isError]

theorem diagnosisExact {source : Bytes} (fails : ∀ c, compile source ≠ .ok c) :
    ∃ d, compile source = .error d ∧
      (Parser.parse (TokenStream.ofSource source)).result = .error [d] ∧
      (∀ s : Session, s.compileAfresh source = ⟨.error d, ⟨d.text ++ [newline], [], []⟩, s⟩) ∧
      (∃ j, Diagnosis (TokenStream.ofSource source).toList j d) ∧
      d.offset = d.token.offset ∧ d.line = d.token.line ∧
      d.length = if d.token.kind = .eof ∨ d.token.kind.isError = true then 0
        else d.token.lexeme.length := by
  cases failed : compile source with
  | ok c => exact absurd failed (fails c)
  | error d =>
    obtain ⟨j, first⟩ := faultExists (sourceProper source) fails
    have parsed := Parser.parseExact (TokenStream.ofSource source)
    change _ = (compile source).mapError ([·]) at parsed
    rw [failed] at parsed
    refine ⟨d, rfl, parsed, fun s => ?_, ⟨j, faultReported (sourceProper source) first failed⟩, rfl,
      rfl, diagnosticLength d⟩
    simp only [Session.compileAfresh, failed]
    rfl

theorem diagnosisExactOvertaken :
    (∀ c, compile (utf8 "(* @") ≠ .ok c) ∧
    ∃ d j, Diagnosis (TokenStream.ofSource (utf8 "(* @")).toList j d ∧
      d.text = utf8 "[line 1] Error: Unexpected character." ∧ d.offset = 3 ∧ d.length = 0 := by
  have report : compile (utf8 "(* @") =
      .error ⟨⟨.error .unexpectedCharacter, utf8 "Unexpected character.", 3, 1⟩,
        .lexical .unexpectedCharacter⟩ := by decide +kernel
  have fails : ∀ c, compile (utf8 "(* @") ≠ .ok c := fun c ok => by
    rw [report] at ok
    cases ok
  obtain ⟨d, failed, _, _, ⟨j, diagnosis⟩, _⟩ := diagnosisExact fails
  cases report.symm.trans failed
  exact ⟨fails, _, j, diagnosis, by decide +kernel⟩

end ExprMachine.Compilation
