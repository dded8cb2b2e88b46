import ExprMachine.Editor.Server

/-! What an editor ends up showing. Every publication travels on its own, so they may arrive in
another order than they were made in, and the last to arrive for a document is the one shown. -/
namespace ExprMachine.Editor

open Text (utf8)

abbrev Screen := Bytes → List Marker

def Screen.receive (shown : Screen) (p : Publication) : Screen :=
  fun uri => if uri = p.uri then p.markers else shown uri

namespace Screen

theorem receiveComm (shown : Screen) {p q : Publication} (distinct : q.uri ≠ p.uri) :
    (shown.receive p).receive q = (shown.receive q).receive p := by
  funext uri
  simp only [receive]
  grind

theorem receiveEarly (shown : Screen) {before : List Publication} {p : Publication}
    (others : ∀ q ∈ before, q.uri ≠ p.uri) :
    before.foldl receive (shown.receive p) = (before.foldl receive shown).receive p := by
  induction before generalizing shown with
  | nil => rfl
  | cons q before ih =>
    have distinct := others q (.head _)
    rw [List.foldl_cons, receiveComm shown distinct, List.foldl_cons]
    exact ih (shown.receive q) fun x mem => others x (.tail _ mem)

theorem receivedFrom (order : List Publication) (shown : Screen) (uri : Bytes) :
    (order.foldl receive shown uri = shown uri ∧ ∀ p ∈ order, p.uri ≠ uri) ∨
    ∃ p ∈ order, p.uri = uri ∧ order.foldl receive shown uri = p.markers := by
  induction order generalizing shown with
  | nil => exact .inl ⟨rfl, by simp⟩
  | cons q order ih =>
    simp only [List.foldl_cons, List.mem_cons]
    obtain ⟨kept, absent⟩ | ⟨p, mem, named, last⟩ := ih (shown.receive q)
    · by_cases named : q.uri = uri
      · refine .inr ⟨q, .inl rfl, named, ?_⟩
        rw [kept, receive, if_pos named.symm]
      · refine .inl ⟨?_, fun p mem => mem.elim (· ▸ named) (absent p)⟩
        rw [kept, receive, if_neg (Ne.symm named)]
    · exact .inr ⟨p, .inr mem, named, last⟩

end Screen

namespace Server

def due (s : Server) : Screen := fun uri => (s.documents[uri]?.map markers).getD []

def serve (s : Server) : List Request → Server × List Publication
  | [] => (s, [])
  | r :: requests =>
    let (last, later) := (s.respond r).server.serve requests
    (last, (s.respond r).publications ++ later)

theorem updateDue (s : Server) (uri text : Bytes) :
    s.due.receive ⟨uri, markers text⟩ = (s.update uri text).server.due := by
  funext other
  by_cases same : other = uri
  · simp [Screen.receive, due, update, same]
  · simp [Screen.receive, due, update, same, Std.HashMap.getElem?_insert, Ne.symm same]

theorem closedDue (s : Server) (uri : Bytes) :
    s.due.receive ⟨uri, []⟩ = { s with documents := s.documents.erase uri }.due := by
  funext other
  by_cases same : other = uri
  · simp [Screen.receive, due, same]
  · simp [Screen.receive, due, same, Std.HashMap.getElem?_erase, Ne.symm same]

theorem hoverDue (s : Server) (uri : Bytes) :
    (s.hover uri).publications = [] ∧ (s.hover uri).server.due = s.due := by
  unfold hover
  split <;> exact ⟨rfl, rfl⟩

theorem respondDue (s : Server) (r : Request) :
    (s.respond r).publications.foldl Screen.receive s.due = (s.respond r).server.due := by
  cases r with
  | opened uri text => exact s.updateDue uri text
  | changed uri text =>
    cases text with
    | none => rfl
    | some text => exact s.updateDue uri text
  | closed uri => exact s.closedDue uri
  | hover uri =>
    obtain ⟨quiet, same⟩ := s.hoverDue uri
    simp only [respond, quiet, same, List.foldl_nil]
  | _ => rfl

theorem serveDue (s : Server) (requests : List Request) :
    (s.serve requests).2.foldl Screen.receive s.due = (s.serve requests).1.due := by
  induction requests generalizing s with
  | nil => rfl
  | cons r requests ih =>
    simp only [serve, List.foldl_append, respondDue]
    exact ih _

theorem serveKeeps (s : Server) {requests : List Request} {uri : Bytes}
    (silent : ∀ p ∈ (s.serve requests).2, p.uri ≠ uri) :
    (s.serve requests).1.due uri = s.due uri := by
  rw [← serveDue]
  obtain ⟨kept, -⟩ | ⟨p, mem, named, -⟩ := Screen.receivedFrom (s.serve requests).2 s.due uri
  · exact kept
  · exact absurd named (silent p mem)

end Server

structure Traffic where
  server : Server
  inFlight : List Publication
  shown : Screen

namespace Traffic

def start (worker : Worker) : Traffic := ⟨.start worker, [], fun _ => []⟩

def handle (t : Traffic) (r : Request) : Traffic :=
  { t with server := (t.server.respond r).server
           inFlight := t.inFlight ++ (t.server.respond r).publications }

/-- Requests are carried out in turn, and at any moment a publication in flight may arrive that
`admits` lets pass those made before it. -/
inductive Run (admits : List Publication → Publication → Prop) :
    Traffic → List Request → Traffic → Prop where
  | stop (t : Traffic) : Run admits t [] t
  | handle {t last : Traffic} {r : Request} {requests : List Request}
      (rest : Run admits (t.handle r) requests last) : Run admits t (r :: requests) last
  | receive {t last : Traffic} {requests : List Request} {before after : List Publication}
      {p : Publication} (sent : t.inFlight = before ++ p :: after) (free : admits before p)
      (rest : Run admits { t with inFlight := before ++ after, shown := t.shown.receive p }
        requests last) : Run admits t requests last

def anyOrder (_ : List Publication) (_ : Publication) : Prop := True

def orderKept (before : List Publication) (p : Publication) : Prop := ∀ q ∈ before, q.uri ≠ p.uri

def Settles (admits : List Publication → Publication → Prop) (worker : Worker)
    (requests : List Request) (last : Traffic) : Prop :=
  Run admits (start worker) requests last ∧ last.inFlight = []

def Due (t : Traffic) : Prop := t.inFlight.foldl Screen.receive t.shown = t.server.due

theorem startDue (worker : Worker) : (start worker).Due := by
  funext uri
  simp [start, Server.due, Server.start]

theorem Due.handle {t : Traffic} (due : t.Due) (r : Request) : (t.handle r).Due := by
  have respond := t.server.respondDue r
  unfold Due at due ⊢
  rw [Traffic.handle, List.foldl_append, due, respond]

theorem Due.receive {t : Traffic} {before after : List Publication} {p : Publication}
    (due : t.Due) (sent : t.inFlight = before ++ p :: after) (free : orderKept before p) :
    Due { t with inFlight := before ++ after, shown := t.shown.receive p } := by
  unfold Due at due ⊢
  rw [← due, sent, List.foldl_append, List.foldl_append, Screen.receiveEarly t.shown free,
    List.foldl_cons]

theorem Run.due {t last : Traffic} {requests : List Request}
    (run : Run orderKept t requests last) (due : t.Due) : last.Due := by
  induction run with
  | stop => exact due
  | handle _ ih => exact ih (due.handle _)
  | receive sent free _ ih => exact ih (due.receive sent free)

theorem Run.server {admits : List Publication → Publication → Prop} {t last : Traffic}
    {requests : List Request} (run : Run admits t requests last) :
    last.server = (t.server.serve requests).1 := by
  induction run with
  | stop => rfl
  | handle _ ih => exact ih
  | receive _ _ _ ih => exact ih

theorem Run.received {admits : List Publication → Publication → Prop} {t last : Traffic}
    {requests : List Request} (run : Run admits t requests last) :
    ∃ order, (order ++ last.inFlight).Perm (t.inFlight ++ (t.server.serve requests).2) ∧
      last.shown = order.foldl Screen.receive t.shown := by
  induction run with
  | stop t => exact ⟨[], by simp [Server.serve], rfl⟩
  | handle _ ih =>
    obtain ⟨order, perm, shown⟩ := ih
    refine ⟨order, ?_, shown⟩
    simpa only [Server.serve, Traffic.handle, List.append_assoc] using perm
  | @receive t last requests before after p sent _ _ ih =>
    obtain ⟨order, perm, shown⟩ := ih
    refine ⟨p :: order, (perm.cons p).trans ?_, shown⟩
    rw [sent, List.append_assoc, List.append_assoc]
    exact List.perm_middle.symm

theorem Run.late {admits : List Publication → Publication → Prop} {t last : Traffic}
    {requests : List Request}
    (rest : Run admits { t with server := (t.server.serve requests).1
                                inFlight := t.inFlight ++ (t.server.serve requests).2 } [] last) :
    Run admits t requests last := by
  induction requests generalizing t with
  | nil => simpa only [Server.serve, List.append_nil] using rest
  | cons r requests ih =>
    refine .handle (ih ?_)
    simpa only [Server.serve, Traffic.handle, List.append_assoc] using rest

theorem Run.inTurn (server : Server) (inFlight : List Publication) (shown : Screen) :
    Run orderKept ⟨server, inFlight, shown⟩ []
      ⟨server, [], inFlight.foldl Screen.receive shown⟩ := by
  induction inFlight generalizing shown with
  | nil => exact .stop _
  | cons p inFlight ih =>
    have first : p :: inFlight = [] ++ p :: inFlight := rfl
    exact .receive first (by simp [orderKept]) (ih _)

theorem Run.shuffled (server : Server) {order inFlight : List Publication} (shown : Screen)
    (perm : order.Perm inFlight) :
    Run anyOrder ⟨server, inFlight, shown⟩ [] ⟨server, [], order.foldl Screen.receive shown⟩ := by
  induction order generalizing inFlight shown with
  | nil =>
    obtain rfl : [] = inFlight := perm.nil_eq
    exact .stop _
  | cons p order ih =>
    obtain ⟨before, after, rfl⟩ := List.append_of_mem (perm.mem_iff.mp (.head _))
    exact .receive rfl trivial (ih _ (perm.trans List.perm_middle).cons_inv)

theorem Settles.due {worker : Worker} {requests : List Request} {t : Traffic}
    (settles : Settles orderKept worker requests t) : t.shown = t.server.due := by
  obtain ⟨run, arrived⟩ := settles
  have due := run.due (startDue worker)
  rwa [Due, arrived] at due

theorem Settles.last {worker : Worker} {requests : List Request} {p : Publication}
    (mem : p ∈ ((Server.start worker).serve requests).2) :
    ∃ t, Settles anyOrder worker requests t ∧ t.shown p.uri = p.markers := by
  -- all others arrive before `p`
  generalize sent : ((Server.start worker).serve requests).2 = publications at mem
  have perm : (publications.erase p ++ [p]).Perm publications :=
    (List.perm_append_singleton p _).trans (List.perm_cons_erase mem).symm
  refine ⟨_, ⟨.late (.shuffled _ _ (sent ▸ perm)), rfl⟩, ?_⟩
  simp [Screen.receive]

theorem Settles.current {worker : Worker} {requests : List Request} {t : Traffic}
    (settles : Settles anyOrder worker requests t)
    (right : ∀ p ∈ ((Server.start worker).serve requests).2,
      p.markers = ((Server.start worker).serve requests).1.due p.uri) :
    t.shown = t.server.due := by
  obtain ⟨run, arrived⟩ := settles
  obtain ⟨order, perm, shown⟩ := run.received
  have arrives : ∀ {p}, p ∈ order ↔ p ∈ ((Server.start worker).serve requests).2 := by
    rw [arrived, List.append_nil] at perm
    exact perm.mem_iff
  rw [shown, run.server]
  funext uri
  obtain ⟨kept, absent⟩ | ⟨p, mem, rfl, last⟩ := Screen.receivedFrom order (start worker).shown uri
  · have due : (start worker).shown uri = (Server.start worker).due uri :=
      congrFun (startDue worker) uri
    rw [kept, due]
    exact (Server.serveKeeps _ fun p mem => absent p (arrives.mpr mem)).symm
  · exact last.trans (right p (arrives.mp mem))

theorem shownExact (worker : Worker) (requests : List Request) :
    (∃ t, Settles orderKept worker requests t) ∧
    (∀ t, Settles orderKept worker requests t → t.shown = t.server.due) ∧
    ((∀ t, Settles anyOrder worker requests t → t.shown = t.server.due) ↔
      ∀ p ∈ ((Server.start worker).serve requests).2,
        p.markers = ((Server.start worker).serve requests).1.due p.uri) := by
  refine ⟨⟨_, .late (.inTurn ..), rfl⟩, fun t settles => settles.due, fun shown p mem => ?_,
    fun right t settles => settles.current right⟩
  obtain ⟨t, settles, last⟩ := Settles.last mem
  have server : t.server = ((Server.start worker).serve requests).1 := settles.1.server
  rw [← last, shown t settles, server]

def correctedDocument : List Request :=
  [.opened (utf8 "file:///a.lox") (utf8 "1 +"), .changed (utf8 "file:///a.lox") (some (utf8 "1"))]

theorem staleMarkerShown :
    ∃ t, Settles anyOrder (.start [] none) correctedDocument t ∧
      t.server.documents[utf8 "file:///a.lox"]? = some (utf8 "1") ∧
      markers (utf8 "1") = [] ∧ t.shown (utf8 "file:///a.lox") ≠ [] := by
  have late : List.Perm
      [⟨utf8 "file:///a.lox", markers (utf8 "1")⟩, ⟨utf8 "file:///a.lox", markers (utf8 "1 +")⟩]
      ((Server.start (.start [] none)).serve correctedDocument).2 := .swap ..
  refine ⟨_, ⟨.late (.shuffled _ _ late), rfl⟩, ?_, ?_, ?_⟩
  · simp [start, correctedDocument, Server.serve, Server.respond, Server.update]
  · decide +kernel
  · simp only [List.foldl_cons, List.foldl_nil, Screen.receive, if_true]
    decide +kernel

end Traffic
end ExprMachine.Editor
