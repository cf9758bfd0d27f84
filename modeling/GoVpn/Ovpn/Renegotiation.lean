import GoVpn.Lib.Run
import GoVpn.Ovpn.Session

/-!
# A session: key renegotiation and the data path

The other half of a session's goroutines: `startRenegotiation`, `runRenegotiation`
with its window, the `runReneg` poller with `sweepLameDuck` and `checkReneg`, and
`handleDataPacket` and `Write`. `Session.step` is one step of any of them, so a run
is any interleaving of them all.
-/

namespace GoVpn.Ovpn

open GoVpn.Control (Bytes)
open GoVpn.Data

/-- `transitionWindow`, in nanoseconds. -/
def transitionWindow : Int := 3600 * 1000000000

def occMagic : Bytes :=
  [0x28, 0x7f, 0x34, 0x6b, 0xd4, 0xef, 0x7a, 0x81,
   0x2d, 0x56, 0xb8, 0xd3, 0xaf, 0xc5, 0x45, 0x9c]

def occExit : UInt8 := 0x06

def isExitNotify (plaintext : Bytes) : Bool :=
  plaintext.length ≥ 17 && plaintext.take 16 == occMagic && plaintext[16]? == some occExit

/-- `now.Before(t)`; nothing is before the zero time. -/
def before (now : Int) : Option Int → Bool
  | some t => now < t
  | none => false

theorem before_mono {now now' : Int} {t : Option Int} (h : now ≤ now') (hb : before now' t = true) :
    before now t = true := by
  cases t with
  | none => cases hb
  | some t => exact decide_eq_true (Int.lt_of_le_of_lt h (of_decide_eq_true hb))

namespace Session

/-! ## Starting -/

/-- `routeControlPacket`: the connection a packet with this key-id belongs to. -/
def routeControlPacket (s : Session) (keyID : KeyID) : Option Nat :=
  if s.primary.conn.isNone then if keyID = 0 then some 0 else none
  else if keyID = s.primary.keyID then s.primary.conn
  else if s.lameDuck.conn.isSome ∧ keyID = s.lameDuck.keyID then s.lameDuck.conn
  else if s.pendingReneg.isSome ∧ keyID = s.pendingRenegKeyID then s.pendingReneg
  else none

/-- The rate limit of `startRenegotiation`. -/
def rateLimited (cfg : Config) (s : Session) : Bool :=
  match s.lastRenegAccepted with
  | none => false
  | some t => s.clock - t < cfg.renegMinInterval

/-- `startRenegotiation`; `want` is the key-id a client asked for. -/
def startRenegotiation (cfg : Config) (s : Session) (want : Option KeyID) : Session :=
  if s.stopped then s
  else if s.primary.conn.isNone ∨ s.primary.established.isNone then s
  else if s.pendingReneg.isSome then s
  else if s.rateLimited cfg then s
  else
    let next := nextKeyID s.primary.keyID
    if want.isSome ∧ want ≠ some next then s
    else
      { s with
        conns := s.conns ++ [{}]
        pendingReneg := some s.conns.length
        pendingRenegKeyID := next
        lastRenegAccepted := some s.clock
        renegs := s.renegs ++ [{ conn := s.conns.length, keyID := next }] }

/-- A soft reset for a key-id no connection has: `handleDatagram` will begin a renegotiation. -/
def softReset (s : Session) (keyID : KeyID) : Session :=
  if (s.routeControlPacket keyID).isSome then s
  else { s with softResets := s.softResets ++ [keyID] }

/-- `beginRenegotiation`, for the soft reset in place `i`. -/
def beginRenegotiation (cfg : Config) (s : Session) (i : Nat) : Session :=
  match s.softResets[i]? with
  | none => s
  | some keyID =>
    { s with softResets := s.softResets.eraseIdx i }.startRenegotiation cfg (some keyID)

/-! ## Running -/

def setReneg (s : Session) (i : Nat) (n : Reneg) : Session := { s with renegs := s.renegs.set i n }

/-- The marker is cleared if it is still this connection's. -/
def clearPending (s : Session) (c : Nat) : Session :=
  if s.pendingReneg = some c then { s with pendingReneg := none } else s

/-- The swap: the new generation becomes the primary one, the old primary the lame duck. -/
def swapKeys (s : Session) (n : Reneg) (keys : Bytes) (w : Wrapper) : Session :=
  let old := s.lameDuck.conn
  let mustDie := s.clock + transitionWindow
  let s' :=
    { s with
      lameDuck := { s.primary with mustDie := some mustDie }
      primary :=
        { keyID := n.keyID, conn := some n.conn, wrapper := some s.gens.length,
          established := some s.clock }
      gens := s.gens ++ [w]
      dataKeys := keys
      renegotiations := s.renegotiations + 1
      hist := s.hist ++ (s.primary.wrapper.map fun g => Event.demoted g mustDie).toList }
  let s' := match old with
    | some c => s'.closeConn c .swap
    | none => s'
  s'.clearPending n.conn

/-- The locked section at the end of `runRenegotiation`. -/
def commitRenegotiation (s : Session) (i : Nat) (n : Reneg) (keys : Bytes) : Session :=
  if s.stopped ∨ s.pendingReneg ≠ some n.conn then s.setReneg i { n with pc := .closeConn false }
  else
    match newWrapper (serverSlots keys (cipherKeyLen s.cipher)) s.peerID n.keyID with
    | none => (s.clearPending n.conn).setReneg i { n with pc := .closeConn false }
    | some w => (s.swapKeys n keys w).setReneg i { n with pc := .completed }

/-- A step of the `i`-th renegotiation. -/
def runRenegotiation (s : Session) (i : Nat) (e : Env) : Session :=
  match s.renegs[i]? with
  | none => s
  | some n =>
    match n.pc with
    | .begin => s.setReneg i { n with pc := .tls, window := .waiting }
    | .tls => s.setReneg i { n with pc := if e.ok then .readKeyMethod2 else .abandon false }
    | .readKeyMethod2 => s.setReneg i { n with pc := if e.ok then .deriveKeys else .abandon false }
    | .deriveKeys =>
      s.setReneg i { n with pc := if e.ok then .verifyUserPass e.keys else .abandon false }
    | .verifyUserPass keys =>
      s.setReneg i { n with pc := if e.ok then .commit keys else .abandon true }
    | .commit keys => s.commitRenegotiation i n keys
    | .abandon auth => (s.clearPending n.conn).setReneg i { n with pc := .closeConn auth }
    | .closeConn auth =>
      let s := (s.closeConn n.conn .renegotiation).setReneg i { n with pc := .failed }
      if auth then { s with closers := s.closers ++ [(.authFailed, .enter)] } else s
    | .failed | .completed => s

/-- A step of the `i`-th renegotiation's window; `expired` is the branch its `select` takes. -/
def renegotiationWindow (s : Session) (i : Nat) (expired : Bool) : Session :=
  match s.renegs[i]? with
  | none => s
  | some n =>
    match n.window with
    | .notStarted | .returned => s
    | .waiting =>
      if expired then
        if s.pendingReneg = some n.conn then
          (s.clearPending n.conn).setReneg i { n with window := .closeConn }
        else s.setReneg i { n with window := .returned }
      else if n.pc = .failed ∨ n.pc = .completed then s.setReneg i { n with window := .returned }
      else s
    | .closeConn => (s.closeConn n.conn .renegWindow).setReneg i { n with window := .returned }

/-! ## The poller -/

/-- The locked section of `sweepLameDuck`. -/
def sweepLameDuck (s : Session) : Session :=
  if s.lameDuck.wrapper.isSome ∧ ¬ before s.clock s.lameDuck.mustDie then
    { s with
      lameDuck := {}
      poll := match s.lameDuck.conn with
        | some c => .closeSwept c
        | none => .check }
  else { s with poll := .check }

/-- A step of `runReneg`; `tick` is the branch its `select` takes. -/
def runReneg (cfg : Config) (s : Session) (tick : Bool) : Session :=
  match s.poll with
  | .notStarted | .ended => s
  | .idle =>
    if tick then s.sweepLameDuck
    else if s.stopped then { s with poll := .ended }
    else s
  | .closeSwept c => { s with poll := .check }.closeConn c .sweep
  | .check =>
    match s.primary.established with
    | none => { s with poll := .idle }
    | some t => { s with poll := if s.clock - t < cfg.renegSec then .idle else .start }
  | .start => { s with poll := .idle }.startRenegotiation cfg none

/-! ## The data path -/

/-- `handleDataPacket` reads the slots. -/
def handleDataPacket (s : Session) (packet : Bytes) : Session :=
  { s with
    calls := s.calls ++
      [{ packet := packet, primary := s.primary, lameDuck := s.lameDuck, readAt := s.clock }] }

def setCall (s : Session) (i : Nat) (c : DataCall) : Session := { s with calls := s.calls.set i c }

/-- `Open` of a packet under generation `g`. -/
def openUnder (A : Aead) (s : Session) (g : Nat) (packet : Bytes) :
    Session × Except OpenErr Bytes :=
  match s.gens[g]? with
  | none => (s, .error .auth)
  | some w => ({ s with gens := s.gens.set g (w.open A packet).1 }, (w.open A packet).2)

/-- A step of the `i`-th `handleDataPacket` call. -/
def dataStep (A : Aead) (s : Session) (i : Nat) (e : Env) : Session :=
  match s.calls[i]? with
  | none => s
  | some c =>
    match c.pc with
    | .openPrimary =>
      match c.primary.wrapper with
      | none => s.setCall i { c with pc := .ended }
      | some g =>
        let (s, res) := s.openUnder A g c.packet
        match res with
        | .ok plaintext => s.setCall i { c with pc := .deliver g plaintext }
        | .error .pingAbsorbed => s.setCall i { c with pc := .ended }
        | .error _ => s.setCall i { c with pc := .tryLameDuck }
    | .tryLameDuck =>
      if c.lameDuck.wrapper.isNone ∨ ¬ before s.clock c.lameDuck.mustDie then
        s.setCall i { c with pc := .ended }
      else s.setCall i { c with pc := .openLameDuck }
    | .openLameDuck =>
      match c.lameDuck.wrapper with
      | none => s.setCall i { c with pc := .ended }
      | some g =>
        let (s, res) := s.openUnder A g c.packet
        match res with
        | .ok plaintext => s.setCall i { c with pc := .deliver g plaintext }
        | .error _ => s.setCall i { c with pc := .ended }
    | .deliver g plaintext =>
      let s := s.setCall i { c with pc := .ended }
      if isExitNotify plaintext then
        { s with closers := s.closers ++ [(.clientExitNotify, .enter)] }
      else if e.room then s.log (.queued c g plaintext)
      else s
    | .ended => s

/-- `Write`, once past its `closing` check, and `emitPing` read the primary generation. -/
def write (s : Session) (plaintext : Bytes) : Session :=
  match s.primary.wrapper with
  | none => s
  | some g => { s with writes := s.writes ++ [(g, plaintext)] }

/-- The `Seal` of the write in place `i`. -/
def sealWrite (A : Aead) (s : Session) (i : Nat) : Session :=
  match s.writes[i]? with
  | none => s
  | some (g, plaintext) =>
    let s := { s with writes := s.writes.eraseIdx i }
    match s.gens[g]? with
    | none => s
    | some w => { s with gens := s.gens.set g (w.seal A plaintext).1 }

end Session

/-! ## One step of anything -/

/-- Who calls `closeWithReason`, beside the goroutines above: none of them says `unknown`. -/
inductive Caller
  | embedder | idleReap | serverClose | replaced
  deriving DecidableEq

def Caller.reason : Caller → CloseReason
  | .embedder => .embedder
  | .idleReap => .idleReap
  | .serverClose => .serverClose
  | .replaced => .replaced

inductive Input
  | handshake (e : Env)
  | handshakeWindow (expired : Bool)
  | close (c : Caller)
  | closer (i : Nat)
  | teardown
  | callback
  | softReset (keyID : KeyID)
  | beginRenegotiation (i : Nat)
  | runRenegotiation (i : Nat) (e : Env)
  | renegotiationWindow (i : Nat) (expired : Bool)
  | runReneg (tick : Bool)
  | packet (p : Bytes)
  | data (i : Nat) (e : Env)
  | write (p : Bytes)
  | sealWrite (i : Nat)
  | elapse (ns : Nat)
  deriving DecidableEq

/-- One step of one goroutine of the session. -/
def Session.step (A : Aead) (cfg : Config) (s : Session) : Input → Session
  | .handshake e => s.handshake cfg e
  | .handshakeWindow expired => s.handshakeWindow expired
  | .close c => { s with closers := s.closers ++ [(c.reason, .enter)] }
  | .closer i => s.closer i
  | .teardown => s.teardown cfg
  | .callback => s.callOnSessionClosed
  | .softReset keyID => s.softReset keyID
  | .beginRenegotiation i => s.beginRenegotiation cfg i
  | .runRenegotiation i e => s.runRenegotiation i e
  | .renegotiationWindow i expired => s.renegotiationWindow i expired
  | .runReneg tick => s.runReneg cfg tick
  | .packet p => s.handleDataPacket p
  | .data i e => s.dataStep A i e
  | .write p => s.write p
  | .sealWrite i => s.sealWrite A i
  | .elapse ns => { s with clock := s.clock + ns }

end GoVpn.Ovpn
