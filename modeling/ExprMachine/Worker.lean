import ExprMachine.Session

/-! A worker: the one session of a server, on which all of its work is done until it is stopped.
Once stopped it does no more work. -/
namespace ExprMachine

structure Worker where
  session : Session
  isStopped : Bool

namespace Worker

def start (id : Bytes) (store : Option Store) : Worker :=
  ⟨.start id .quiet store, false⟩

def perform (w : Worker) (task : Session → Session.Reply α) : Option α × Worker :=
  if w.isStopped then (none, w)
  else
    let reply := task w.session
    (some reply.result, { w with session := reply.session })

def stop (w : Worker) : Worker := { w with isStopped := true }

end Worker
end ExprMachine
