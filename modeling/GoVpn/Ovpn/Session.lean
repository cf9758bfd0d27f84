import GoVpn.Data.DataChan

/-!
# A session: its state, its bring-up and its teardown

One `Session` and every goroutine that works on it (`session.go`, and the session's part of
`ovpn.go`). A goroutine is a program counter, and a step of it is one section under a lock, one
atomic operation, or one call whose result the environment decides. The goroutines are
`runHandshake`, `enforceHandshakeWindow`, the callers of `closeWithReason`, the body of its
`stopOnce`, the call of `OnSessionClosed`, the renegotiations with their windows, the `runReneg`
poller and the data packets being handled.

What the pool and the tables of the server answer is an argument of the step; `Server` puts the
two together. For the proofs only, `hist` records what became visible outside, and a `Conn`
remembers who called `Close` on it.
-/

namespace GoVpn.Ovpn

open GoVpn.Control (Bytes)
open GoVpn.Data

abbrev IPv4 := BitVec 32
abbrev PeerID := BitVec 32
abbrev KeyID := UInt8

def keyIDMask : KeyID := 0x07

/-- `nextKeyID`: three bits, and 0 is never used again. -/
def nextKeyID (current : KeyID) : KeyID :=
  let next := (current + 1) &&& keyIDMask
  if next = 0 then 1 else next

/-- The negotiated cipher; `other` is any name `cipherKeyLen` does not know. -/
inductive Cipher
  | aes256gcm | aes128gcm | other
  deriving DecidableEq

/-- `cipherKeyLen`; no cipher is the empty name. -/
def cipherKeyLen : Option Cipher → Nat
  | some .aes256gcm => 32
  | some .aes128gcm => 16
  | some .other | none => 0

inductive CloseReason
  | unknown | embedder | clientExitNotify | idleReap | serverClose | replaced | authFailed
  deriving DecidableEq

/-- The counters `recordHandshakeOutcome` is called with. -/
inductive Outcome
  | completed | failed | timedOut | authFailed | cipherNegotiationFailed
  deriving DecidableEq

/-- A tunnel address and a peer-id, as the pool hands them out. -/
structure Grant where
  ip : IPv4
  peerID : PeerID
  deriving DecidableEq

/-- `keySlot`; `none` is a nil pointer or the zero time. -/
structure KeySlot where
  keyID : KeyID := 0
  conn : Option Nat := none
  wrapper : Option Nat := none
  established : Option Int := none
  mustDie : Option Int := none
  deriving DecidableEq

/-- On whose behalf `Close` was called on a control connection. -/
inductive CloseCause
  | teardown | renegotiation | renegWindow | swap | sweep
  deriving DecidableEq

/-- A `ctrlconn.Conn`, as far as the session cares. -/
structure Conn where
  closedBy : List CloseCause := []
  deriving DecidableEq

/-! ## Program counters -/

/-- A caller of `closeWithReason`. -/
inductive ClosePc
  | enter | wait | closeConn | returned
  deriving DecidableEq

/-- The body of `stopOnce`. -/
inductive TeardownPc
  | storeReason
  | closeStopCh
  | snapshot
  | release (ip : Option IPv4) (peerID : PeerID) (conns : List Nat)
  | remove (conns : List Nat)
  | closeConns (conns : List Nat)
  | loadPublished
  deriving DecidableEq

/-- `stopOnce`. -/
inductive Once
  | fresh
  | running (r : CloseReason) (pc : TeardownPc)
  | done
  deriving DecidableEq

/-- `runHandshake`, with `performPushExchange` and `assignTunnelIP` inside it. -/
inductive HandshakePc
  | tls
  | keyMethod2
  | pushStart
  | pushRead
  | assign
  | allocate
  | reserve (want : Option IPv4) (again : Bool)
  | sessionByIP (want : Option IPv4)
  | lookup (want : Option IPv4) (candidates : List Nat)
  | evict (want : Option IPv4) (old : Nat)
  | evicting (want : Option IPv4) (old caller : Nat)
  | publishKeys (g : Grant)
  | releaseGrant (g : Grant)
  | pushReply
  | closeDone
  | checkClosing
  | recordCompleted
  | establish
  | publish
  | callOnSession
  | fail (o : Outcome) (r : CloseReason)
  | failDone (r : CloseReason)
  | failLate
  | close (r : CloseReason) (pc : ClosePc)
  | returned
  deriving DecidableEq

/-- `enforceHandshakeWindow`. -/
inductive WindowPc
  | waiting
  | record
  | close (pc : ClosePc)
  | returned
  deriving DecidableEq

/-- `runRenegotiation`; `begin` is the caller that started it, before the goroutine runs. -/
inductive RenegPc
  | begin
  | tls
  | readKeyMethod2
  | deriveKeys
  | verifyUserPass (keys : Bytes)
  | commit (keys : Bytes)
  | abandon (auth : Bool)
  | closeConn (auth : Bool)
  | failed
  | completed
  deriving DecidableEq

/-- `enforceRenegotiationWindow`. -/
inductive RenegWindowPc
  | notStarted | waiting | closeConn | returned
  deriving DecidableEq

/-- One accepted renegotiation. -/
structure Reneg where
  conn : Nat
  keyID : KeyID
  pc : RenegPc := .begin
  window : RenegWindowPc := .notStarted
  deriving DecidableEq

/-- The `runReneg` goroutine: `sweepLameDuck` and `checkReneg` on every tick. -/
inductive PollPc
  | notStarted
  | idle
  | closeSwept (conn : Nat)
  | check
  | start
  | ended
  deriving DecidableEq

/-- `handleDataPacket`. -/
inductive DataPc
  | openPrimary
  | tryLameDuck
  | openLameDuck
  | deliver (gen : Nat) (plaintext : Bytes)
  | ended
  deriving DecidableEq

/-- One `handleDataPacket` call: the slots as it read them, and when that was. -/
structure DataCall where
  packet : Bytes
  primary : KeySlot
  lameDuck : KeySlot
  readAt : Int
  pc : DataPc := .openPrimary
  deriving DecidableEq

/-- What became visible outside the session. -/
inductive Event
  | onSession
  | onSessionClosed (r : CloseReason)
  | closeReturned
  | counted (o : Outcome)
  | granted (g : Grant)
  | released (g : Grant)
  | demoted (gen : Nat) (mustDie : Int)
  | queued (call : DataCall) (gen : Nat) (plaintext : Bytes)
  deriving DecidableEq

structure Session where
  /-- Which session this is, where the code compares pointers. -/
  self : Nat
  clock : Int
  -- flags
  stopped : Bool := false
  doneClosed : Bool := false
  closeReason : CloseReason := .unknown
  outcomeRecorded : Bool := false
  established : Bool := false
  published : Bool := false
  -- guarded by `mu`
  cipher : Option Cipher := none
  dataKeys : Bytes := []
  assignedIP : Option IPv4 := none
  peerID : PeerID := 0
  primary : KeySlot := {}
  lameDuck : KeySlot := {}
  pendingReneg : Option Nat := none
  pendingRenegKeyID : KeyID := 0
  lastRenegAccepted : Option Int := none
  renegotiations : BitVec 32 := 0
  -- the connections and key generations ever made; the first is `sess.conn`
  conns : List Conn := [{}]
  gens : List Wrapper := []
  -- goroutines
  stopOnce : Once := .fresh
  hs : HandshakePc := .tls
  window : WindowPc := .waiting
  closers : List (CloseReason × ClosePc) := []
  callback : Option CloseReason := none
  renegs : List Reneg := []
  softResets : List KeyID := []
  poll : PollPc := .notStarted
  calls : List DataCall := []
  writes : List (Nat × Bytes) := []
  hist : List Event := []
  deriving DecidableEq

/-- What the configuration and the constants of the server decide. -/
structure Config where
  network : Bool := true
  onSession : Bool := true
  onSessionClosed : Bool := true
  renegSec : Int
  renegMinInterval : Int
  deriving DecidableEq

/-! ## What the environment answers -/

/-- How `performKeyMethod2Exchange` ends. -/
inductive KeyMethod2
  | ok | credentials | noSharedCipher | error
  deriving DecidableEq

/-- `Config.AssignIP`: not configured, failing, declining, or naming an address. -/
inductive AssignIP
  | none | error | decline | want (ip : Option IPv4)
  deriving DecidableEq

/-- The errors of `reserve`. -/
inductive ReserveErr
  | notIPv4 | outsideNetwork | reserved | inUse | poolExhausted
  deriving DecidableEq

/-- The results of the calls a step makes; each step looks at its own. -/
structure Env where
  ok : Bool := true
  keyMethod2 : KeyMethod2 := .ok
  cipher : Cipher := .aes256gcm
  keys : Bytes := []
  assignIP : AssignIP := .none
  grant : Option Grant := none
  reserved : ReserveErr ⊕ PeerID := .inl .inUse
  candidates : List Nat := []
  holds : Bool := false
  caller : Nat := 0
  returned : Bool := false
  buffered : Bool := false
  room : Bool := true
  deriving DecidableEq

namespace Session

/-- A session as `handleDatagram` creates it. -/
def new (self : Nat) (now : Int) : Session := { self := self, clock := now }

def log (s : Session) (e : Event) : Session := { s with hist := s.hist ++ [e] }

/-- `Close` on a control connection. -/
def closeConn (s : Session) (c : Nat) (cause : CloseCause) : Session :=
  { s with conns := s.conns.modify c fun k => { k with closedBy := k.closedBy ++ [cause] } }

def recordHandshakeOutcome (s : Session) (o : Outcome) : Session :=
  if s.outcomeRecorded then s else { s with outcomeRecorded := true }.log (.counted o)

/-! ## Teardown -/

/-- A step of a `closeWithReason` call: the first caller starts the body, all wait for its end. -/
def callClose (s : Session) (r : CloseReason) : ClosePc → Session × ClosePc
  | .enter =>
    match s.stopOnce with
    | .fresh => ({ s with stopOnce := .running r .storeReason }, .wait)
    | .running _ _ | .done => (s, .wait)
  | .wait =>
    match s.stopOnce with
    | .done => (s, .closeConn)
    | .fresh | .running _ _ => (s, .wait)
  | .closeConn => ((s.closeConn 0 .teardown).log .closeReturned, .returned)
  | .returned => (s, .returned)

/-- A step of the body of `stopOnce`. -/
def teardown (cfg : Config) (s : Session) : Session :=
  match s.stopOnce with
  | .fresh | .done => s
  | .running r pc =>
    match pc with
    | .storeReason => { s with closeReason := r, stopOnce := .running r .closeStopCh }
    | .closeStopCh => { s with stopped := true, stopOnce := .running r .snapshot }
    | .snapshot =>
      let conns := [s.primary.conn, s.lameDuck.conn, s.pendingReneg].filterMap id
      { s with stopOnce := .running r (.release s.assignedIP s.peerID conns) }
    | .release ip peerID conns =>
      let s := { s with stopOnce := .running r (.remove conns) }
      match ip with
      | some ip => s.log (.released { ip := ip, peerID := peerID })
      | none => s
    | .remove conns => { s with stopOnce := .running r (.closeConns conns) }
    | .closeConns (c :: cs) =>
      { s with stopOnce := .running r (.closeConns cs) }.closeConn c .teardown
    | .closeConns [] => { s with stopOnce := .running r .loadPublished }
    | .loadPublished =>
      { s with
        stopOnce := .done
        callback := if cfg.onSessionClosed && s.published then some r else s.callback }

/-- The goroutine that calls `OnSessionClosed`. -/
def callOnSessionClosed (s : Session) : Session :=
  match s.callback with
  | some r => { s with callback := none }.log (.onSessionClosed r)
  | none => s

/-! ## Bring-up -/

/-- The locked section of `performPushExchange` that publishes the data channel. -/
def publishKeys (s : Session) (g : Grant) : Session :=
  match newWrapper (serverSlots s.dataKeys (cipherKeyLen s.cipher)) g.peerID 0 with
  | none => { s with hs := .releaseGrant g }
  | some w =>
    if s.stopped then { s with hs := .releaseGrant g }
    else
      { s with
        assignedIP := some g.ip
        peerID := g.peerID
        primary :=
          { keyID := 0, conn := some 0, wrapper := some s.gens.length, established := some s.clock }
        gens := s.gens ++ [w]
        poll := .idle
        hs := .pushReply }

/-- A step of `runHandshake`. -/
def handshake (cfg : Config) (s : Session) (e : Env) : Session :=
  match s.hs with
  | .tls => { s with hs := if e.ok then .keyMethod2 else .fail .failed .unknown }
  | .keyMethod2 =>
    match e.keyMethod2 with
    | .ok => { s with cipher := some e.cipher, dataKeys := e.keys, hs := .pushStart }
    | .credentials =>
      { s with cipher := some e.cipher, dataKeys := e.keys, hs := .fail .authFailed .authFailed }
    | .noSharedCipher => { s with hs := .fail .cipherNegotiationFailed .unknown }
    | .error => { s with hs := .fail .failed .unknown }
  | .pushStart =>
    { s with hs := if cfg.network && s.cipher.isSome then .pushRead else .fail .failed .unknown }
  | .pushRead =>
    if e.ok then { s with hs := if s.assignedIP.isSome then .pushReply else .assign }
    else { s with hs := .fail .failed .unknown }
  | .assign =>
    match e.assignIP with
    | .none | .decline => { s with hs := .allocate }
    | .error => { s with hs := .fail .failed .unknown }
    | .want ip => { s with hs := .reserve ip false }
  | .allocate =>
    match e.grant with
    | some g => { s with hs := .publishKeys g }.log (.granted g)
    | none => { s with hs := .fail .failed .unknown }
  | .reserve want again =>
    match want, e.reserved with
    | some ip, .inr peerID =>
      let g : Grant := { ip := ip, peerID := peerID }
      { s with hs := .publishKeys g }.log (.granted g)
    | _, .inl .inUse =>
      { s with hs := if again then .fail .failed .unknown else .sessionByIP want }
    | _, _ => { s with hs := .fail .failed .unknown }
  | .sessionByIP want => { s with hs := .lookup want e.candidates }
  | .lookup want [] => { s with hs := .reserve want true }
  | .lookup want (j :: js) =>
    if e.holds then { s with hs := if j = s.self then .reserve want true else .evict want j }
    else { s with hs := .lookup want js }
  | .evict want old => { s with hs := .evicting want old e.caller }
  | .evicting want _ _ => if e.returned then { s with hs := .reserve want true } else s
  | .publishKeys g => s.publishKeys g
  | .releaseGrant g => { s with hs := .fail .failed .unknown }.log (.released g)
  | .pushReply =>
    if e.ok then { s with hs := if e.buffered then .pushRead else .closeDone }
    else { s with hs := .fail .failed .unknown }
  | .closeDone => { s with doneClosed := true, hs := .checkClosing }
  | .checkClosing => { s with hs := if s.stopped then .failLate else .recordCompleted }
  | .recordCompleted => { s.recordHandshakeOutcome .completed with hs := .establish }
  | .establish => { s with established := true, hs := .publish }
  | .publish =>
    if cfg.onSession then { s with published := true, hs := .callOnSession }
    else { s with hs := .returned }
  | .callOnSession => { s with hs := .returned }.log .onSession
  | .fail o r => { s.recordHandshakeOutcome o with hs := .failDone r }
  | .failDone r => { s with doneClosed := true, hs := .close r .enter }
  | .failLate => { s.recordHandshakeOutcome .failed with hs := .close .unknown .enter }
  | .close r pc =>
    let (s, pc) := s.callClose r pc
    { s with hs := if pc = .returned then .returned else .close r pc }
  | .returned => s

/-- A step of `enforceHandshakeWindow`; `expired` is the branch its `select` takes. -/
def handshakeWindow (s : Session) (expired : Bool) : Session :=
  match s.window with
  | .waiting =>
    if expired then { s with window := .record }
    else if s.doneClosed then { s with window := .returned }
    else s
  | .record => { s.recordHandshakeOutcome .timedOut with window := .close .enter }
  | .close pc =>
    let (s, pc) := s.callClose .unknown pc
    { s with window := if pc = .returned then .returned else .close pc }
  | .returned => s

/-- A step of the `i`-th other caller of `closeWithReason`. -/
def closer (s : Session) (i : Nat) : Session :=
  match s.closers[i]? with
  | none => s
  | some (r, pc) =>
    let (s, pc) := s.callClose r pc
    { s with closers := s.closers.set i (r, pc) }

end Session

end GoVpn.Ovpn
