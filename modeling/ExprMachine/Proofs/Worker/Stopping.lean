import ExprMachine.Proofs.Worker.Exchange

/-! What an order to stop achieves. It lets callers give up and the loop end, but both may still choose
otherwise, so a call made after the order can be served. Only once the loop has ended is every call
refused. -/
namespace ExprMachine.Worker

open Text (utf8)

variable {α : Type} {tasks : Nat → Task α} {session : Session} {done : List Nat} {s t : Exchange α}

theorem completes {i : Nat} (sound : Sound tasks session done s) (running : s.loop = .running i) :
    ∃ t done', Run tasks s [.finish, .send] t ∧ Sound tasks session done' t ∧ t.loop = .choosing ∧
      t.queue = s.queue ∧ t.calls = s.calls ∧
      t.slots i = some (recovered (tasks i) s.session).result := by
  have finished := sound.finish running
  have free : s.slots i = none := (finished.carried i _ rfl).2
  have sent := finished.send rfl
  exact ⟨_, _, .cons (.finish running) (.cons (.send rfl free) (.nil _)), sent, rfl, rfl, rfl,
    Function.update_self ..⟩

theorem reachesChoice (sound : Sound tasks session done s) (live : s.loop ≠ .ended) :
    ∃ actions t done', Run tasks s actions t ∧ Sound tasks session done' t ∧ t.loop = .choosing ∧
      t.queue = s.queue ∧ t.calls = s.calls := by
  cases is : s.loop with
  | ended => exact absurd is live
  | choosing => exact ⟨[], s, done, .nil s, sound, is, rfl, rfl⟩
  | running i =>
    obtain ⟨t, done', run, sound', choosing, queue, calls, _⟩ := completes sound is
    exact ⟨_, t, done', run, sound', choosing, queue, calls⟩
  | sending i r =>
    have free := (sound.carried i r is).2
    exact ⟨_, _, done, .cons (.send is free) (.nil _), sound.send is, rfl, rfl, rfl⟩

theorem emptiesQueue (sound : Sound tasks session done s) (choosing : s.loop = .choosing) :
    ∃ actions t done', Run tasks s actions t ∧ Sound tasks session done' t ∧ t.loop = .choosing ∧
      t.queue = [] ∧ t.calls = s.calls := by
  generalize waiting : s.queue = queue
  induction queue generalizing s done with
  | nil => exact ⟨[], s, done, .nil s, sound, choosing, waiting, rfl⟩
  | cons i rest ih =>
    have took : Step tasks s .take (s.begun i rest) := .take choosing waiting
    obtain ⟨t, done', run, sound', choosing', queue, calls, _⟩ :=
      completes (sound.take choosing waiting) rfl
    obtain ⟨actions, last, done'', run', sound'', choosing'', empty, calls'⟩ :=
      ih sound' choosing' queue
    exact ⟨_, last, done'', (Run.cons took run).append run', sound'', choosing'', empty,
      calls'.trans calls⟩

theorem servedAlone {i : Nat} (sound : Sound tasks session done s) (choosing : s.loop = .choosing)
    (empty : s.queue = []) (idle : s.calls i = .idle) :
    ∃ t r, Run tasks s [.call i, .submit i, .take, .finish, .send, .receive i] t ∧
      t.calls i = .answered r ∧
      ((⟨s.session, false⟩ : Worker).perform (recovered (tasks i))).1 = some r := by
  have fresh : i ∉ done ++ s.loop.underway ++ s.queue := fun inside =>
    (sound.submitted i inside).1 idle
  have called : Sound tasks session done (s.turn i .submitting) :=
    sound.turn (fun inside => absurd inside fresh) (by simp) (by simp)
  have submitted := called.submit (i := i) (Function.update_self ..)
  have room : s.queue.length < capacity := by
    rw [empty]
    decide
  have first : s.queue ++ [i] = [i] := by rw [empty]; rfl
  obtain ⟨t, _, run, _, _, _, calls, arrived⟩ := completes (submitted.take choosing first) rfl
  have waiting : t.calls i = .waiting := by
    rw [calls]
    exact Function.update_self ..
  refine ⟨_, _, .cons (.call idle) (.cons (.submit (Function.update_self ..) room)
    (.cons (.take choosing first) (run.append (.cons (.receive waiting arrived) (.nil _))))),
    Function.update_self .., ?_⟩
  rw [performLive rfl]
  rfl

theorem servedWhileLive {i : Nat} (sound : Sound tasks session done s) (live : s.loop ≠ .ended)
    (idle : s.calls i = .idle) :
    ∃ actions t r, Run tasks s actions t ∧ t.calls i = .answered r := by
  obtain ⟨_, _, _, toChoice, sound₁, choosing₁, _, calls₁⟩ := reachesChoice sound live
  obtain ⟨_, _, _, toEmpty, sound₂, choosing₂, empty, calls₂⟩ := emptiesQueue sound₁ choosing₁
  have idle₂ := (congrFun (calls₂.trans calls₁) i).trans idle
  obtain ⟨t, r, serve, answered, _⟩ := servedAlone sound₂ choosing₂ empty idle₂
  exact ⟨_, t, r, toChoice.append (toEmpty.append serve), answered⟩

theorem stoppingStays {action : Action} (step : Step tasks s action t)
    (stopping : s.stopping = true) : t.stopping = true := by
  cases step <;> first | exact stopping | rfl

structure Shut (i : Nat) (s : Exchange α) : Prop where
  ended : s.loop = .ended
  unsent : s.slots i = none
  undone : .began i ∉ s.journal
  unanswered : ∀ r, s.calls i ≠ .answered r

theorem Shut.turn {i j : Nat} {c : Call α} (shut : Shut i s)
    (unanswered : j = i → ∀ r, c ≠ .answered r) :
    Shut i (s.turn j c) := by
  refine { shut with unanswered := fun r is => ?_ }
  rcases updateCases is with ⟨same, new⟩ | ⟨_, old⟩
  · exact unanswered same.symm r new
  · exact shut.unanswered r old

theorem Shut.step {i : Nat} {action : Action} (step : Step tasks s action t) (shut : Shut i s) :
    Shut i t := by
  have ended := shut.ended
  cases step with
  | call | giveUp => exact shut.turn (by simp)
  | submit => exact { shut.turn (c := .waiting) (by simp) with }
  | @receive j r _ arrived =>
    have other : j ≠ i := by
      rintro rfl
      simp [shut.unsent] at arrived
    refine { shut.turn (c := .answered r) (fun same => absurd same other) with unsent := ?_ }
    simpa [other.symm] using shut.unsent
  | take choosing | quit choosing => simp [ended] at choosing
  | finish running => simp [ended] at running
  | send sending => simp [ended] at sending
  | order | close | orderReturns => exact { shut with }

theorem Sound.notBegun {i : Nat} (sound : Sound tasks session done s) (idle : s.calls i = .idle) :
    s.slots i = none ∧ .began i ∉ s.journal := by
  have fresh : i ∉ done ++ s.loop.underway := fun inside =>
    (sound.submitted i (List.mem_append_left _ inside)).1 idle
  constructor
  · refine Option.eq_none_iff_forall_ne_some.mpr fun r arrived => ?_
    exact fresh (List.mem_append_left _ (sound.arrived i r arrived).mem)
  · rw [sound.journal]
    simpa using fresh

/-- After an order to stop a call can always be refused. That it will be, and its task never done, is
certain exactly when the loop has ended; before that the call can still be answered. -/
theorem stopFinalOnceEnded {i k : Nat} {actions : List Action}
    (run : Run tasks (.start session) actions s) (returned : s.orders k = .returned)
    (idle : s.calls i = .idle) :
    (∀ later t, Run tasks s later t → t.calls i = .submitting ∨ t.calls i = .waiting →
      ∃ t', Step tasks t (.giveUp i) t' ∧ t'.calls i = .refused) ∧
    ((∀ later t, Run tasks s later t → .began i ∉ t.journal ∧ ∀ r, t.calls i ≠ .answered r) ↔
      s.loop = .ended) := by
  obtain ⟨done, sound⟩ := runSound run
  refine ⟨fun later t run inside => ?_, fun never => ?_, fun ended later t run => ?_⟩
  · have stopping : t.stopping = true := run.keeps stoppingStays (sound.returned k returned)
    exact ⟨_, .giveUp inside stopping, Function.update_self ..⟩
  · refine Classical.byContradiction fun live => ?_
    obtain ⟨later, t, r, run, answered⟩ := servedWhileLive sound live idle
    exact (never later t run).2 r answered
  · obtain ⟨unsent, undone⟩ := sound.notBegun idle
    have shut : Shut i t := run.keeps Shut.step ⟨ended, unsent, undone, by simp [idle]⟩
    exact ⟨shut.undone, shut.unanswered⟩

theorem stopFinalOnceEndedQuiet :
    ∃ s, Run products (.start (.start [] .quiet none))
        [.order 0, .close 0, .quit, .orderReturns 0] s ∧
      s.orders 0 = .returned ∧ s.calls 1 = .idle ∧
      ∀ later t, Run products s later t → .began 1 ∉ t.journal ∧ ∀ r, t.calls 1 ≠ .answered r := by
  have run : Run products (.start (.start [] .quiet none))
      [.order 0, .close 0, .quit, .orderReturns 0] _ :=
    .cons (.order rfl) (.cons (.close rfl rfl) (.cons (.quit rfl rfl)
      (.cons (.orderReturns rfl rfl) (.nil _))))
  exact ⟨_, run, rfl, rfl, (stopFinalOnceEnded (i := 1) (k := 0) run rfl rfl).2.mpr rfl⟩

theorem stopNotFinal :
    ∃ s t, Run products (.start (.start [] .quiet none)) [.order 0, .close 0, .orderReturns 0] s ∧
      s.orders 0 = .returned ∧ s.calls 1 = .idle ∧
      Run products s [.call 1, .submit 1, .take, .finish, .send, .receive 1] t ∧
      .ended 1 ∈ t.journal ∧
      t.calls 1 = .answered (.ok (.ok (.value (.number ⟨0x4045000000000000⟩)))) := by
  have result : (recovered (products 1) (.start [] .quiet none)).result =
      .ok (.ok (.value (.number ⟨0x4045000000000000⟩))) := by decide +kernel
  have stop : Run products (.start (.start [] .quiet none)) [.order 0, .close 0, .orderReturns 0]
      (((Exchange.start _).instruct 0 .given).closed.instruct 0 .returned) :=
    .cons (.order rfl) (.cons (.close rfl rfl) (.cons (.orderReturns rfl rfl) (.nil _)))
  have serve : Run products (((Exchange.start (.start [] .quiet none)).instruct 0 .given).closed.instruct
      0 .returned) [.call 1, .submit 1, .take, .finish, .send, .receive 1] _ :=
    .cons (.call rfl) (.cons (.submit rfl (by decide)) (.cons (.take rfl rfl)
      (.cons (.finish rfl) (.cons (.send rfl rfl) (.cons (.receive rfl rfl) (.nil _))))))
  refine ⟨_, _, stop, rfl, rfl, serve, ?_, ?_⟩
  · simp
  · simpa [Exchange.start] using result

end ExprMachine.Worker
