import GoVpn.Lib.Threads

/-!
# The accept queue

`enqueue`, `Accept` and `Close` of a `tcpListener` (`tcp_listener.go`). The backlog is
a buffered channel: `enqueue` sends to it under the listener's mutex, `Accept` and the
drain loop of `Close` receive from it without. Any number of calls run at once, each
cut into what it does under the mutex or on a channel in one step.

The connections are of any type; nothing here looks into one.
-/

namespace GoVpn.Netstack

def defaultBacklog : Nat := 16

/-- `tcpListener`. -/
structure Listener (γ : Type) where
  closed : Bool := false
  backlog : List γ := []
  /-- `closeCh` is closed. -/
  closeCh : Bool := false

namespace Listener

variable {γ : Type}

/-- The critical section of `enqueue`; `true` says that the connection is to be aborted. -/
def enqueue (l : Listener γ) (c : γ) : Listener γ × Bool :=
  if l.closed then (l, true)
  else if l.backlog.length < defaultBacklog then ({ l with backlog := l.backlog ++ [c] }, false)
  else (l, true)

/-- A receive from the backlog that does not block. -/
def receive (l : Listener γ) : Option γ × Listener γ :=
  match l.backlog with
  | [] => (none, l)
  | c :: rest => (some c, { l with backlog := rest })

end Listener

/-! ## Calls on one listener -/

/-- The steps of the three calls. -/
inductive QueueSection (γ : Type)
  /-- `enqueue` under the mutex. -/
  | enqueue (c : γ)
  /-- The call of `c.abort`, with the mutex released. -/
  | abort (c : γ)
  /-- The `select` of `Accept`. -/
  | accept
  /-- `Close` under the mutex. -/
  | close
  | removeListener
  /-- `close(l.closeCh)`. -/
  | closeCh
  /-- One turn of `Close`'s drain loop. -/
  | drain
  deriving DecidableEq

/-- A call on the listener. -/
inductive QueueCall (γ : Type)
  | enqueue (c : γ)
  | accept
  | close

/-- A listener, and what has become of the connections that were passed to it. -/
structure AcceptQueue (γ : Type) where
  listener : Listener γ := {}
  /-- The demux has the listener in its table. -/
  listening : Bool := true
  /-- Passed to `enqueue`. -/
  passed : List γ := []
  /-- Returned by `Accept`. -/
  returned : List γ := []
  aborted : List γ := []
  /-- The `Close` that performed the shutdown has returned. -/
  shutDown : Bool := false

namespace AcceptQueue

variable {γ : Type}

def start (q : AcceptQueue γ) : QueueCall γ → AcceptQueue γ × List (QueueSection γ)
  | .enqueue c => ({ q with passed := q.passed ++ [c] }, [.enqueue c])
  | .accept => (q, [.accept])
  | .close => (q, [.close])

/-- One step of a call; `takes` decides a `select` with both cases ready. -/
def exec (q : AcceptQueue γ) (sec : QueueSection γ) (takes : Bool) :
    AcceptQueue γ × List (QueueSection γ) :=
  match sec with
  | .enqueue c =>
    let r := q.listener.enqueue c
    ({ q with listener := r.1 }, if r.2 then [.abort c] else [])
  | .abort c => ({ q with aborted := q.aborted ++ [c] }, [])
  | .accept =>
    if q.listener.closeCh && !takes then (q, [])
    else
      match q.listener.receive with
      | (some c, l) => ({ q with listener := l, returned := q.returned ++ [c] }, [])
      -- with an empty backlog the call ends if the channel is closed, and waits if not
      | (none, _) => (q, if q.listener.closeCh then [] else [.accept])
  | .close =>
    if q.listener.closed then (q, [])
    else
      ({ q with listener := { q.listener with closed := true } },
        [.removeListener, .closeCh, .drain])
  | .removeListener => ({ q with listening := false }, [])
  | .closeCh => ({ q with listener := { q.listener with closeCh := true } }, [])
  | .drain =>
    match q.listener.receive with
    | (some c, l) => ({ q with listener := l }, [.abort c, .drain])
    | (none, _) => ({ q with shutDown := true }, [])

/-- Any number of calls, in any interleaving. -/
def program : Threads.Program (AcceptQueue γ) (QueueSection γ) (QueueCall γ) Bool where
  start := start
  exec := exec

/-- The listener after some moves. -/
def after (ms : List (Threads.Move (QueueCall γ) Bool)) :
    Threads.Sys (AcceptQueue γ) (QueueSection γ) :=
  Machine.run (Threads.step program) { shared := {} } ms

end AcceptQueue

end GoVpn.Netstack
