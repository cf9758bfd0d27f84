import GoVpn.Ovpn.Inbound

/-!
# Serving and shutting down

`Serve` with its read loop, the goroutines of every session, and `Server.Close` (`ovpn.go`).
`Close` marks the server closed and takes a snapshot of the session table under the lock, tears
those sessions down one by one, waits for the callbacks, and closes the socket last. The read loop
runs until then. What the sessions' goroutines do is `Session.step`, with its effect on the two
tables; what the address pool answers them is up to the environment.
-/

namespace GoVpn.Ovpn.Inbound

open GoVpn.Control (Bytes Crypto)
open GoVpn.Data (Aead)

/-! ## A session's own goroutines -/

/-- What a session does because of a datagram, which has its sections above. -/
def ofDatagram : Input → Bool
  | .softReset _ | .beginRenegotiation _ | .packet _ | .data _ _ => true
  | _ => false

variable {key256 : Bytes}

def Peer.key (p : Peer key256) : SessionKey := { addr := p.remoteAddr, sid := p.clientSessionID }

/-- A step of one of the session's goroutines; a renegotiation it starts makes a connection. -/
def Peer.step (A : Aead) (cfg : Config) (p : Peer key256) (inp : Input) : Peer key256 :=
  let s := p.toSession.step A cfg inp
  let conn := Control.Conn.new p.sessionID p.clientSessionID p.wrapper.wrapper s.pendingRenegKeyID
  { p with
    toSession := s
    made := slotsMade_step p.made A cfg inp
    channels := if s.conns.length = p.conns.length then p.channels else p.channels ++ [conn] }

def Server.removeSession (s : Server key256) (id : Nat) (key : SessionKey) : Server key256 :=
  if s.sessions.lookup key = some id then { s with sessions := s.sessions.erase key } else s

/-- What the step does to the tables, in the same locked section. -/
def Server.serve (s : Server key256) (id : Nat) (p : Peer key256) : Input → Server key256
  | .handshake _ =>
    match p.hs with
    | .publishKeys g =>
      if (p.toSession.publishKeys g).hs = .pushReply then
        { s with dataSessions := s.dataSessions.insert g.peerID id }
      else s
    | _ => s
  | .teardown =>
    match p.stopOnce with
    | .running _ .snapshot =>
      if p.primary.wrapper.isSome ∧ s.dataSessions.lookup p.peerID = some id then
        { s with dataSessions := s.dataSessions.erase p.peerID }
      else s
    | .running _ (.remove _) => s.removeSession id p.key
    | _ => s
  | _ => s

def Server.session (A : Aead) (cfg : Config) (s : Server key256) (id : Nat) (inp : Input) :
    Server key256 :=
  match s.sess[id]? with
  | none => s
  | some p => { s.serve id p inp with sess := s.sess.set id (p.step A cfg inp) }

/-! ## `Serve` and `Close` -/

/-- The server with its socket, while `Serve` runs. -/
structure Serving (key256 : Bytes) extends Counted key256 where
  closed : Bool := false
  pcClosed : Bool := false
  /-- Some call of `Close` has returned. -/
  closeReturned : Bool := false

/-- A critical section of some goroutine. -/
inductive Part (key256 : Bytes)
  | datagram (x : Section key256)
  /-- `Close`, before the next session of its snapshot. -/
  | closeSessions (sessions : List Nat)
  /-- `Close` inside the `closeWithReason` call number `caller` of session `id`. -/
  | closing (id caller : Nat) (sessions : List Nat)
  | cbWait
  | closePC

inductive Occasion
  /-- `ReadFrom` returns a datagram. -/
  | datagram (addr : String) (packet : Bytes)
  | pump (id : Nat)
  | session (id : Nat) (inp : Input)
  /-- `Close` is called; `order` is the order Go iterates over the table in. -/
  | close (order : List Nat)

/-- The sessions in the table. -/
def Server.listed (s : Server key256) : List Nat := s.sessions.entries.map Sigma.snd

namespace Serving

/-- The outcome of a datagram's section. -/
def handled (r : Serving key256) (o : Outcome key256) : Serving key256 × List (Part key256) :=
  let (c, next) := o.counted r.datagramsRejected
  ({ r with toCounted := c }, next.map .datagram)

def start (A : Aead) (cfg : Config) (r : Serving key256) :
    Occasion → Serving key256 × List (Part key256)
  | .datagram addr packet =>
    -- on a closed socket `ReadFrom` fails and the read loop is over
    if r.pcClosed then (r, []) else r.handled (r.server.handleDatagram addr packet)
  | .pump id => r.handled (r.server.start (.pump id))
  | .session id inp =>
    if ofDatagram inp then (r, []) else ({ r with server := r.server.session A cfg id inp }, [])
  | .close order =>
    let sessions := if order.isPerm r.server.listed then order else r.server.listed
    ({ r with closed := true }, [.closeSessions sessions])

def exec (K : Crypto) (A : Aead) (cfg : Config) (r : Serving key256) (x : Part key256)
    (c : Choice) : Serving key256 × List (Part key256) :=
  match x with
  | .datagram x => r.handled (r.server.exec K A cfg x c)
  | .closeSessions [] => (r, [.cbWait])
  | .closeSessions (id :: rest) =>
    match r.server.sess[id]? with
    | none => (r, [.closeSessions rest])
    | some p =>
      let p' := p.step A cfg (.close .serverClose)
      ({ r with server := { r.server with sess := r.server.sess.set id p' } },
        [.closing id p.closers.length rest])
  | .closing id caller rest =>
    let pc := (r.server.sess[id]?.bind fun p => p.closers[caller]?).map Prod.snd
    (r, [if pc = some .returned then .closeSessions rest else .closing id caller rest])
  | .cbWait => (r, [if r.server.sess.all fun p => p.callback.isNone then .closePC else .cbWait])
  | .closePC => ({ r with pcClosed := true, closeReturned := true }, [])

end Serving

/-- The server from `Serve` to the end of `Close`. -/
def serving (K : Crypto) (A : Aead) (cfg : Config) (key256 : Bytes) :
    Threads.Program (Serving key256) (Part key256) Occasion Choice where
  start := Serving.start A cfg
  exec := Serving.exec K A cfg

end GoVpn.Ovpn.Inbound
