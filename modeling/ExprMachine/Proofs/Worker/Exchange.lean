import ExprMachine.Worker
import Mathlib.Data.List.Induction
import Mathlib.Logic.Function.Basic

/-! A worker and its callers side by side. Calls wait in a queue of bounded length, the loop of the
worker takes them one at a time, and every result goes back through a slot of its own. Once the worker
is told to stop, a caller may give up and the loop may end, but neither has to. Whatever the order of
all these steps, tasks are done as the worker alone would do them one after another. -/
namespace ExprMachine.Worker

open Text (utf8)

abbrev Task (α : Type) := Session → Session.Reply (Except Bytes α)

def recovered {α : Type} (task : Task α) : Task α := fun s =>
  { task s with result := (task s).result.mapError (utf8 "internal error: " ++ ·) }

inductive Loop (α : Type) where
  | choosing
  | running (i : Nat)
  | sending (i : Nat) (result : Except Bytes α)
  | ended

def Loop.underway {α : Type} : Loop α → List Nat
  | running i => [i]
  | _ => []

inductive Call (α : Type) where
  | idle
  | submitting
  | waiting
  | answered (result : Except Bytes α)
  | refused

inductive Order where
  | idle
  | given
  | returned

inductive Event where
  | began (i : Nat)
  | ended (i : Nat)
  deriving DecidableEq

/-- Calls and orders to stop are numbered. The journal keeps when tasks began and ended. -/
structure Exchange (α : Type) where
  session : Session
  loop : Loop α
  queue : List Nat
  slots : Nat → Option (Except Bytes α)
  stopping : Bool
  calls : Nat → Call α
  orders : Nat → Order
  journal : List Event

inductive Action where
  | call (i : Nat)
  | submit (i : Nat)
  | receive (i : Nat)
  | giveUp (i : Nat)
  | take
  | finish
  | send
  | quit
  | order (k : Nat)
  | close (k : Nat)
  | orderReturns (k : Nat)

def capacity : Nat := 64

variable {α : Type}

namespace Exchange

def start (session : Session) : Exchange α :=
  ⟨session, .choosing, [], fun _ => none, false, fun _ => .idle, fun _ => .idle, []⟩

variable (s : Exchange α)

@[simp] def turn (i : Nat) (c : Call α) : Exchange α := { s with calls := Function.update s.calls i c }

@[simp] def enqueue (i : Nat) : Exchange α := { s with queue := s.queue ++ [i] }

@[simp] def fill (i : Nat) (held : Option (Except Bytes α)) : Exchange α :=
  { s with slots := Function.update s.slots i held }

@[simp] def instruct (k : Nat) (o : Order) : Exchange α :=
  { s with orders := Function.update s.orders k o }

@[simp] def closed : Exchange α := { s with stopping := true }

@[simp] def goTo (l : Loop α) : Exchange α := { s with loop := l }

@[simp] def begun (i : Nat) (rest : List Nat) : Exchange α :=
  { s with loop := .running i, queue := rest, journal := s.journal ++ [.began i] }

@[simp] def ended (i : Nat) (reply : Session.Reply (Except Bytes α)) : Exchange α :=
  { s with loop := .sending i reply.result, session := reply.session
           journal := s.journal ++ [.ended i] }

end Exchange

inductive Step (tasks : Nat → Task α) (s : Exchange α) : Action → Exchange α → Prop where
  | call {i : Nat} (idle : s.calls i = .idle) : Step tasks s (.call i) (s.turn i .submitting)
  | submit {i : Nat} (submitting : s.calls i = .submitting) (room : s.queue.length < capacity) :
      Step tasks s (.submit i) ((s.turn i .waiting).enqueue i)
  | receive {i : Nat} {r : Except Bytes α} (waiting : s.calls i = .waiting)
      (arrived : s.slots i = some r) :
      Step tasks s (.receive i) ((s.turn i (.answered r)).fill i none)
  | giveUp {i : Nat} (inside : s.calls i = .submitting ∨ s.calls i = .waiting)
      (stopping : s.stopping = true) : Step tasks s (.giveUp i) (s.turn i .refused)
  | take {i : Nat} {rest : List Nat} (choosing : s.loop = .choosing) (first : s.queue = i :: rest) :
      Step tasks s .take (s.begun i rest)
  | finish {i : Nat} (running : s.loop = .running i) :
      Step tasks s .finish (s.ended i (recovered (tasks i) s.session))
  | send {i : Nat} {r : Except Bytes α} (sending : s.loop = .sending i r)
      (free : s.slots i = none) : Step tasks s .send ((s.fill i (some r)).goTo .choosing)
  | quit (choosing : s.loop = .choosing) (stopping : s.stopping = true) :
      Step tasks s .quit (s.goTo .ended)
  | order {k : Nat} (idle : s.orders k = .idle) : Step tasks s (.order k) (s.instruct k .given)
  | close {k : Nat} (given : s.orders k = .given) (live : s.stopping = false) :
      Step tasks s (.close k) s.closed
  | orderReturns {k : Nat} (given : s.orders k = .given) (stopping : s.stopping = true) :
      Step tasks s (.orderReturns k) (s.instruct k .returned)

inductive Run (tasks : Nat → Task α) : Exchange α → List Action → Exchange α → Prop where
  | nil (s : Exchange α) : Run tasks s [] s
  | cons {s t last : Exchange α} {action : Action} {actions : List Action}
      (step : Step tasks s action t) (rest : Run tasks t actions last) :
      Run tasks s (action :: actions) last

variable {tasks : Nat → Task α} {session : Session}

theorem Run.append {s t last : Exchange α} {before after : List Action} (run : Run tasks s before t)
    (rest : Run tasks t after last) : Run tasks s (before ++ after) last := by
  induction run with
  | nil => exact rest
  | cons step _ ih => exact .cons step (ih rest)

theorem Run.keeps {P : Exchange α → Prop} {s last : Exchange α} {actions : List Action}
    (run : Run tasks s actions last)
    (kept : ∀ {s t : Exchange α} {action : Action}, Step tasks s action t → P s → P t)
    (start : P s) : P last := by
  induction run with
  | nil => exact start
  | cons step _ ih => exact ih (kept step start)

def sequel (tasks : Nat → Task α) (session : Session) (order : List Nat) : Worker :=
  order.foldl (fun w i => (w.perform (recovered (tasks i))).2) ⟨session, false⟩

theorem performLive {β : Type} {w : Worker} (live : w.isStopped = false)
    (task : Session → Session.Reply β) :
    w.perform task =
      (some (task w.session).result, { w with session := (task w.session).session }) := by
  simp [perform, live]

theorem sequelSnoc (order : List Nat) (i : Nat) : sequel tasks session (order ++ [i]) =
    ((sequel tasks session order).perform (recovered (tasks i))).2 := by
  simp [sequel]

theorem sequelLive (order : List Nat) : (sequel tasks session order).isStopped = false := by
  induction order using List.reverseRecOn with
  | nil => rfl
  | append_singleton order i ih =>
    rw [sequelSnoc, performLive ih]
    exact ih

def Served (tasks : Nat → Task α) (session : Session) (done : List Nat) (i : Nat)
    (r : Except Bytes α) : Prop :=
  ∃ before after, done = before ++ i :: after ∧
    ((sequel tasks session before).perform (recovered (tasks i))).1 = some r

theorem Served.mem {done : List Nat} {i : Nat} {r : Except Bytes α}
    (outcome : Served tasks session done i r) : i ∈ done := by
  obtain ⟨before, after, rfl, _⟩ := outcome
  simp

theorem Served.later {done : List Nat} {i : Nat} {r : Except Bytes α}
    (outcome : Served tasks session done i r) (j : Nat) :
    Served tasks session (done ++ [j]) i r := by
  obtain ⟨before, after, rfl, result⟩ := outcome
  exact ⟨before, after ++ [j], by simp, result⟩

theorem lastServed (done : List Nat) (i : Nat) : Served tasks session (done ++ [i]) i
    (recovered (tasks i) (sequel tasks session done).session).result := by
  refine ⟨done, [], rfl, ?_⟩
  rw [performLive (sequelLive done)]

structure Sound (tasks : Nat → Task α) (session : Session) (done : List Nat)
    (s : Exchange α) : Prop where
  journal : s.journal = done.flatMap (fun i => [.began i, .ended i]) ++ s.loop.underway.map .began
  distinct : (done ++ s.loop.underway ++ s.queue).Nodup
  submitted : ∀ i ∈ done ++ s.loop.underway ++ s.queue,
    s.calls i ≠ .idle ∧ s.calls i ≠ .submitting
  sequence : s.session = (sequel tasks session done).session
  arrived : ∀ i r, s.slots i = some r → Served tasks session done i r
  carried : ∀ i r, s.loop = .sending i r → Served tasks session done i r ∧ s.slots i = none
  answered : ∀ i r, s.calls i = .answered r → Served tasks session done i r
  refused : ∀ i, s.calls i = .refused → s.stopping = true
  ordered : s.stopping = true → ∃ k, s.orders k ≠ .idle
  returned : ∀ k, s.orders k = .returned → s.stopping = true

theorem startSound : Sound tasks session [] (.start session) := by
  constructor <;> simp [Exchange.start, Loop.underway, sequel]

theorem updateCases {β : Type} {f : Nat → β} {i j : Nat} {b b' : β}
    (is : Function.update f i b j = b') : j = i ∧ b = b' ∨ j ≠ i ∧ f j = b' := by
  rcases eq_or_ne j i with rfl | other
  · exact .inl ⟨rfl, by simpa using is⟩
  · exact .inr ⟨other, by simpa [other] using is⟩

namespace Sound

variable {done : List Nat} {s t : Exchange α}

theorem turn {i : Nat} {c : Call α} (sound : Sound tasks session done s)
    (submitted : i ∈ done ++ s.loop.underway ++ s.queue → c ≠ .idle ∧ c ≠ .submitting)
    (answered : ∀ r, c = .answered r → Served tasks session done i r)
    (refused : c = .refused → s.stopping = true) :
    Sound tasks session done (s.turn i c) := by
  refine { sound with submitted := fun j inside => ?_, answered := fun j r is => ?_,
                      refused := fun j is => ?_ }
  · rcases eq_or_ne j i with rfl | other
    · simpa using submitted inside
    · simpa [other] using sound.submitted j inside
  · rcases updateCases is with ⟨rfl, new⟩ | ⟨_, old⟩
    · exact answered r new
    · exact sound.answered j r old
  · rcases updateCases is with ⟨rfl, new⟩ | ⟨_, old⟩
    · exact refused new
    · exact sound.refused j old

theorem submit {i : Nat} (sound : Sound tasks session done s)
    (submitting : s.calls i = .submitting) :
    Sound tasks session done ((s.turn i .waiting).enqueue i) := by
  have fresh : i ∉ done ++ s.loop.underway ++ s.queue := fun inside =>
    (sound.submitted i inside).2 submitting
  have turned : Sound tasks session done (s.turn i .waiting) :=
    sound.turn (by simp) (by simp) (by simp)
  have last : done ++ s.loop.underway ++ (s.queue ++ [i]) =
      done ++ s.loop.underway ++ s.queue ++ [i] := by simp
  refine { turned with distinct := ?_, submitted := fun j inside => ?_ }
  · exact last ▸ List.nodup_append.mpr ⟨sound.distinct, by simp, by grind⟩
  · rcases List.mem_append.mp (last ▸ inside) with old | new
    · exact turned.submitted j old
    · rw [List.mem_singleton.mp new]
      simp

theorem take {i : Nat} {rest : List Nat} (sound : Sound tasks session done s)
    (choosing : s.loop = .choosing) (first : s.queue = i :: rest) :
    Sound tasks session done (s.begun i rest) := by
  refine { sound with journal := ?_, distinct := ?_, submitted := ?_, carried := by simp }
  · simp [sound.journal, choosing, Loop.underway]
  · simpa [choosing, first, Loop.underway] using sound.distinct
  · simpa [choosing, first, Loop.underway] using sound.submitted

theorem finish {i : Nat} (sound : Sound tasks session done s) (running : s.loop = .running i) :
    Sound tasks session (done ++ [i]) (s.ended i (recovered (tasks i) s.session)) := by
  -- only tasks that have ended leave a result, and none is done twice
  have unsent : s.slots i = none := by
    cases arrived : s.slots i with
    | none => rfl
    | some r =>
      have ended := (sound.arrived i r arrived).mem
      have distinct := sound.distinct
      simp [running, Loop.underway, List.nodup_append] at distinct
      grind
  constructor
  case journal => simp [sound.journal, running, Loop.underway]
  case distinct => simpa [running, Loop.underway] using sound.distinct
  case submitted => simpa [running, Loop.underway] using sound.submitted
  case sequence =>
    rw [sequelSnoc, performLive (sequelLive done), sound.sequence]
    rfl
  case arrived => exact fun j r arrived => (sound.arrived j r arrived).later i
  case carried =>
    rintro j r sending
    cases sending
    exact ⟨sound.sequence ▸ lastServed done i, unsent⟩
  case answered => exact fun j r answered => (sound.answered j r answered).later i
  case refused => exact sound.refused
  case ordered => exact sound.ordered
  case returned => exact sound.returned

theorem send {i : Nat} {r : Except Bytes α} (sound : Sound tasks session done s)
    (sending : s.loop = .sending i r) :
    Sound tasks session done ((s.fill i (some r)).goTo .choosing) := by
  refine { sound with journal := ?_, distinct := ?_, submitted := ?_, arrived := fun j r' arrived => ?_,
                      carried := by simp }
  · simpa [sending, Loop.underway] using sound.journal
  · simpa [sending, Loop.underway] using sound.distinct
  · simpa [sending, Loop.underway] using sound.submitted
  · rcases updateCases arrived with ⟨rfl, new⟩ | ⟨_, old⟩
    · cases Option.some.inj new
      exact (sound.carried j r sending).1
    · exact sound.arrived j r' old

theorem receive {i : Nat} {r : Except Bytes α} (sound : Sound tasks session done s)
    (arrived : s.slots i = some r) :
    Sound tasks session done ((s.turn i (.answered r)).fill i none) := by
  have outcome := sound.arrived i r arrived
  have turned : Sound tasks session done (s.turn i (.answered r)) :=
    sound.turn (by simp) (by rintro r' ⟨⟩; exact outcome) (by simp)
  refine { turned with arrived := fun j r' there => ?_, carried := fun j r' sending => ?_ }
  · rcases updateCases there with ⟨_, new⟩ | ⟨_, old⟩
    · contradiction
    · exact sound.arrived j r' old
  · obtain ⟨carried, free⟩ := sound.carried j r' sending
    refine ⟨carried, ?_⟩
    by_cases same : j = i <;> simp [same, free]

theorem order {k : Nat} {o : Order} (sound : Sound tasks session done s) (given : o ≠ .idle)
    (stopping : o = .returned → s.stopping = true) :
    Sound tasks session done (s.instruct k o) := by
  refine { sound with ordered := fun _ => ⟨k, by simpa using given⟩, returned := fun j is => ?_ }
  rcases updateCases is with ⟨_, new⟩ | ⟨_, old⟩
  · exact stopping new
  · exact sound.returned j old

theorem step {action : Action} (sound : Sound tasks session done s)
    (step : Step tasks s action t) : ∃ done', Sound tasks session done' t := by
  cases step with
  | call idle =>
    exact ⟨done, sound.turn (fun inside => absurd idle (sound.submitted _ inside).1) (by simp)
      (by simp)⟩
  | submit submitting => exact ⟨done, sound.submit submitting⟩
  | receive _ arrived => exact ⟨done, sound.receive arrived⟩
  | giveUp _ stopping => exact ⟨done, sound.turn (by simp) (by simp) fun _ => stopping⟩
  | take choosing first => exact ⟨done, sound.take choosing first⟩
  | finish running => exact ⟨_, sound.finish running⟩
  | send sending => exact ⟨done, sound.send sending⟩
  | quit choosing =>
    refine ⟨done, { sound with journal := ?_, distinct := ?_, submitted := ?_, carried := by simp }⟩
    · simpa [choosing, Loop.underway] using sound.journal
    · simpa [choosing, Loop.underway] using sound.distinct
    · simpa [choosing, Loop.underway] using sound.submitted
  | order => exact ⟨done, sound.order (by simp) (by simp)⟩
  | @close k given =>
    have ordered : s.orders k ≠ .idle := by simp [given]
    exact ⟨done, { sound with refused := fun _ _ => rfl, ordered := fun _ => ⟨k, ordered⟩
                              returned := fun _ _ => rfl }⟩
  | orderReturns _ stopping => exact ⟨done, sound.order (by simp) fun _ => stopping⟩

end Sound

theorem runSound {s : Exchange α} {actions : List Action}
    (run : Run tasks (.start session) actions s) : ∃ done, Sound tasks session done s :=
  run.keeps (P := fun s => ∃ done, Sound tasks session done s)
    (fun step ⟨_, sound⟩ => sound.step step) ⟨[], startSound⟩

structure SameBut (k : Nat) (tasks tasks' : Nat → Task α) : Prop where
  others : ∀ i, i ≠ k → tasks' i = tasks i
  effect : ∀ s, (tasks' k s).session = (tasks k s).session

structure Alike (k : Nat) (s s' : Exchange α) : Prop where
  session : s'.session = s.session
  queue : s'.queue = s.queue
  stopping : s'.stopping = s.stopping
  orders : s'.orders = s.orders
  loop : s'.loop = s.loop ∨ ∃ r r', s.loop = .sending k r ∧ s'.loop = .sending k r'
  slots : ∀ i, s'.slots i = s.slots i ∨
    i = k ∧ ∃ r r', s.slots i = some r ∧ s'.slots i = some r'
  calls : ∀ i, s'.calls i = s.calls i ∨
    i = k ∧ ∃ r r', s.calls i = .answered r ∧ s'.calls i = .answered r'

namespace Alike

variable {k : Nat} {tasks' : Nat → Task α} {s s' t : Exchange α}

theorem call {i : Nat} {c : Call α} (alike : Alike k s s') (is : s.calls i = c)
    (unanswered : ∀ r, c ≠ .answered r) : s'.calls i = c := by
  rcases alike.calls i with same | ⟨_, r, _, answered, _⟩
  · exact same.trans is
  · exact absurd (is.symm.trans answered) (unanswered r)

theorem loopIs {l : Loop α} (alike : Alike k s s') (is : s.loop = l)
    (unsent : ∀ i r, l ≠ .sending i r) : s'.loop = l := by
  rcases alike.loop with same | ⟨r, _, sending, _⟩
  · exact same.trans is
  · exact absurd (is.symm.trans sending) (unsent k r)

theorem empty {i : Nat} (alike : Alike k s s') (free : s.slots i = none) : s'.slots i = none := by
  rcases alike.slots i with same | ⟨_, r, _, full, _⟩
  · exact same.trans free
  · exact absurd (free.symm.trans full) (by simp)

theorem turn {i : Nat} {c c' : Call α} (alike : Alike k s s')
    (same : c' = c ∨ i = k ∧ ∃ r r', c = .answered r ∧ c' = .answered r') :
    Alike k (s.turn i c) (s'.turn i c') := by
  refine { alike with calls := fun j => ?_ }
  rcases eq_or_ne j i with rfl | other
  · simpa using same
  · simpa [other] using alike.calls j

theorem fill {i : Nat} {held held' : Option (Except Bytes α)} (alike : Alike k s s')
    (same : held' = held ∨ i = k ∧ ∃ r r', held = some r ∧ held' = some r') :
    Alike k (s.fill i held) (s'.fill i held') := by
  refine { alike with slots := fun j => ?_ }
  rcases eq_or_ne j i with rfl | other
  · simpa using same
  · simpa [other] using alike.slots j

theorem finish {i : Nat} (alike : Alike k s s') (same : SameBut k tasks tasks') :
    Alike k (s.ended i (recovered (tasks i) s.session))
      (s'.ended i (recovered (tasks' i) s'.session)) := by
  rw [alike.session]
  rcases eq_or_ne i k with rfl | other
  · exact { alike with session := same.effect s.session, loop := .inr ⟨_, _, rfl, rfl⟩ }
  · rw [same.others i other]
    exact { alike with session := rfl, loop := .inl rfl }

theorem step {action : Action} (alike : Alike k s s') (same : SameBut k tasks tasks')
    (step : Step tasks s action t) : ∃ t', Step tasks' s' action t' ∧ Alike k t t' := by
  cases step with
  | call idle => exact ⟨_, .call (alike.call idle (by simp)), alike.turn (.inl rfl)⟩
  | @submit i submitting room =>
    have turned := alike.turn (i := i) (c := .waiting) (.inl rfl)
    refine ⟨_, .submit (alike.call submitting (by simp)) (alike.queue ▸ room), ?_⟩
    exact { turned with queue := congrArg (· ++ [i]) alike.queue }
  | @receive i r waiting arrived =>
    have waiting' := alike.call waiting (by simp)
    -- the other run may find another result there, but only for call `k`
    obtain ⟨r', arrived', differ⟩ : ∃ r', s'.slots i = some r' ∧ (r' = r ∨ i = k) := by
      rcases alike.slots i with equal | ⟨at_k, _, r', _, arrived'⟩
      · exact ⟨r, equal.trans arrived, .inl rfl⟩
      · exact ⟨r', arrived', .inr at_k⟩
    refine ⟨_, .receive waiting' arrived', (alike.turn ?_).fill (.inl rfl)⟩
    rcases differ with rfl | at_k
    · exact .inl rfl
    · exact .inr ⟨at_k, r, r', rfl, rfl⟩
  | giveUp inside stopping =>
    refine ⟨_, .giveUp ?_ (alike.stopping.trans stopping), alike.turn (.inl rfl)⟩
    exact inside.imp (alike.call · (by simp)) (alike.call · (by simp))
  | take choosing first =>
    refine ⟨_, .take (alike.loopIs choosing (by simp)) (alike.queue.trans first), ?_⟩
    exact { alike with loop := .inl rfl, queue := rfl }
  | finish running => exact ⟨_, .finish (alike.loopIs running (by simp)), alike.finish same⟩
  | @send i r sending free =>
    rcases alike.loop with equal | ⟨r₁, r', sending₁, sending'⟩
    · have filled : Alike k (s.fill i (some r)) (s'.fill i (some r)) := alike.fill (.inl rfl)
      exact ⟨_, .send (equal.trans sending) (alike.empty free), { filled with loop := .inl rfl }⟩
    · cases sending.symm.trans sending₁
      have filled := alike.fill (i := k) (.inr ⟨rfl, r, r', rfl, rfl⟩)
      exact ⟨_, .send sending' (alike.empty free), { filled with loop := .inl rfl }⟩
  | quit choosing stopping =>
    refine ⟨_, .quit (alike.loopIs choosing (by simp)) (alike.stopping.trans stopping), ?_⟩
    exact { alike with loop := .inl rfl }
  | @order o idle =>
    refine ⟨_, .order (alike.orders ▸ idle), ?_⟩
    exact { alike with orders := by simp [alike.orders] }
  | close given live =>
    refine ⟨_, .close (alike.orders ▸ given) (alike.stopping.trans live), ?_⟩
    exact { alike with stopping := rfl }
  | @orderReturns o given stopping =>
    refine ⟨_, .orderReturns (alike.orders ▸ given) (alike.stopping.trans stopping), ?_⟩
    exact { alike with orders := by simp [alike.orders] }

theorem run {last : Exchange α} {actions : List Action} (alike : Alike k s s')
    (same : SameBut k tasks tasks') (run : Run tasks s actions last) :
    ∃ last', Run tasks' s' actions last' ∧ Alike k last last' := by
  induction run generalizing s' with
  | nil => exact ⟨s', .nil s', alike⟩
  | cons step _ ih =>
    obtain ⟨t', step', alike'⟩ := alike.step same step
    obtain ⟨last', rest', end'⟩ := ih alike'
    exact ⟨last', .cons step' rest', end'⟩

end Alike

/-- Whatever has happened: tasks were done one at a time, each at most once, in the order taken, with
the session of a worker that did just them; an answered call has the result of its own task, and the
result of any one task, a panic for instance, makes no difference to the other calls; a call was
refused only after an order to stop; and a result can always be sent. -/
theorem exchangeSafe {s : Exchange α} {actions : List Action}
    (run : Run tasks (.start session) actions s) :
    ∃ done : List Nat,
      s.journal = done.flatMap (fun i => [.began i, .ended i]) ++ s.loop.underway.map .began ∧
      (done ++ s.loop.underway).Nodup ∧
      (∀ i ∈ done ++ s.loop.underway, s.calls i ≠ .idle ∧ s.calls i ≠ .submitting) ∧
      s.session = (sequel tasks session done).session ∧
      (∀ i r, s.calls i = .answered r → Served tasks session done i r) ∧
      (∀ k tasks', SameBut k tasks tasks' → ∃ s', Run tasks' (.start session) actions s' ∧
        ∀ i, i ≠ k → s'.calls i = s.calls i) ∧
      (∀ i, s.calls i = .refused → ∃ k, s.orders k ≠ .idle) ∧
      ∀ i r, s.loop = .sending i r → ∃ t, Step tasks s .send t := by
  obtain ⟨done, sound⟩ := runSound run
  have first : (done ++ s.loop.underway).Nodup := (List.nodup_append.mp sound.distinct).1
  refine ⟨done, sound.journal, first, fun i inside => ?_, sound.sequence, sound.answered,
    fun k tasks' same => ?_, fun i refused => sound.ordered (sound.refused i refused),
    fun i r sending => ⟨_, .send sending (sound.carried i r sending).2⟩⟩
  · exact sound.submitted i (List.mem_append_left _ inside)
  · have start : Alike k (.start session) (.start session : Exchange α) := by
      constructor <;> simp
    obtain ⟨s', run', alike⟩ := start.run same run
    refine ⟨s', run', fun i other => ?_⟩
    rcases alike.calls i with equal | ⟨at_k, _⟩
    · exact equal
    · exact absurd at_k other

def evaluation (source : Bytes) : Task (Except Diagnostic Outcome) := fun s =>
  let reply := s.eval source
  let result := match reply.result with
    | .ok (.crashed c) => .error c.message
    | result => .ok result
  ⟨result, reply.output, reply.session⟩

def products : Nat → Task (Except Diagnostic Outcome)
  | 0 => fun s => ⟨.error (utf8 "boom"), .none, s⟩
  | _ => evaluation (utf8 "6 * 7")

def refusedThird : List Action :=
  [.call 0, .call 1, .submit 0, .submit 1, .take, .order 0, .finish, .close 0, .send, .take, .call 2,
    .giveUp 2, .receive 0, .finish, .send, .orderReturns 0, .receive 1, .quit]

theorem exchangeSafeRefusedThird :
    ∃ s, Run products (.start (.start [] .quiet none)) refusedThird s ∧
      s.calls 0 = .answered (.error (utf8 "internal error: boom")) ∧ s.calls 2 = .refused ∧
      ∃ done : List Nat,
        s.session = (sequel products (.start [] .quiet none) done).session ∧
        (∀ i r, s.calls i = .answered r → Served products (.start [] .quiet none) done i r) ∧
        ∃ k, s.orders k ≠ .idle := by
  have run : Run products (.start (.start [] .quiet none)) refusedThird _ :=
    .cons (.call rfl) <| .cons (.call rfl) <| .cons (.submit rfl (by decide)) <|
    .cons (.submit rfl (by decide)) <| .cons (.take rfl rfl) <| .cons (.order rfl) <|
    .cons (.finish rfl) <| .cons (.close rfl rfl) <| .cons (.send rfl rfl) <| .cons (.take rfl rfl) <|
    .cons (.call rfl) <| .cons (.giveUp (.inl rfl) rfl) <| .cons (.receive rfl rfl) <|
    .cons (.finish rfl) <| .cons (.send rfl rfl) <| .cons (.orderReturns rfl rfl) <|
    .cons (.receive rfl rfl) <| .cons (.quit rfl rfl) <| .nil _
  obtain ⟨done, _, _, _, sequence, served, _, ordered, _⟩ := exchangeSafe run
  exact ⟨_, run, rfl, rfl, done, sequence, served, ordered 2 rfl⟩

end ExprMachine.Worker
