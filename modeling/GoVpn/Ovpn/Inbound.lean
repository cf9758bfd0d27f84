import Mathlib.Data.List.AList
import GoVpn.Control.CtrlConn
import GoVpn.Lib.Threads
import GoVpn.Ovpn.SlotsMade

/-!
# The way of a datagram into the server

`handleDatagram` and `handleDataDatagram` with all they call (`ovpn.go`, `session.go`). A control
packet goes through the session table, tls-crypt and the parser into its session's queue, and
`pump` takes it from there to one of the control connections. A data packet goes through the
routing table and the key slots into the queue of IP packets.

Every control datagram is handled on a goroutine of its own, so a call is the list of its critical
sections and any number of calls run at once. What runs beside them is an `Activity`, which may do
anything but take a session's memory away, change the keys of a wrapper that was made, or turn
back a clock.
-/

namespace GoVpn.Ovpn.Inbound

open GoVpn.Control (Bytes Crypto Opcode SessionID Header ControlPacket Task parseHeaderByte
  validOpcode parseControlPacket sessionIDSize opControlSoftResetV1 opControlHardResetClientV2
  opControlHardResetServerV2)
open GoVpn.Data (Aead opDataV2)

def maxDatagramSize : Nat := 2048
def minDatagramSize : Nat := Control.offCT
def inboundQueueSize : Nat := 32

def opDataV1 : Opcode := 6

/-! ## The session's tls-crypt wrapper -/

/-- The keys the server checks control packets with, from the bytes of its static key. -/
def tlsCryptKeys (key256 : Bytes) : Control.KeySlot :=
  { cipher := (key256.drop 128).take 32, hmac := (key256.drop 192).take 32 }

/-- A tls-crypt wrapper of this server: whatever it sent and received, its keys are the server's. -/
structure TlsWrapper (key256 : Bytes) where
  wrapper : Control.Wrapper
  keyed : wrapper.decrypt = tlsCryptKeys key256

theorem newWrapper_decrypt {key256 : Bytes} {w : Control.Wrapper}
    (h : Control.newWrapper key256 true = some w) : w.decrypt = tlsCryptKeys key256 := by
  unfold Control.newWrapper at h
  split at h
  · cases h
  · cases h
    rfl

theorem unwrap_decrypt {K : Crypto} {w w' : Control.Wrapper} {packet header plaintext : Bytes}
    (h : w.unwrap K packet = .ok (header, plaintext, w')) : w'.decrypt = w.decrypt := by
  obtain ⟨r, -, rfl⟩ := Control.unwrap_frame h
  rfl

theorem wrap_decrypt (K : Crypto) (w : Control.Wrapper) (now : Int) (header plaintext : Bytes) :
    (w.wrap K now header plaintext).1.decrypt = w.decrypt := by
  rcases hw : w.wrap K now header plaintext with ⟨w', res⟩
  cases res with
  | error e => exact (Control.wrap_error hw).2.2.2.1
  | ok wire => exact (Control.nextPID_frame (Control.wrap_ok hw).1).2.1

/-- No locked section of a control connection changes the keys. -/
theorem exec_decrypt (K : Crypto) (c : Control.Conn) (env : Control.Env) (t : Task) :
    (c.exec K env t).1.wrapper.decrypt = c.wrapper.decrypt := by
  cases t with
  | wrap slot cp rest =>
    rw [← wrap_decrypt K c.wrapper env.clock cp.header cp.plaintext]
    unfold Control.Conn.exec
    dsimp only
    split
    · rfl
    · cases slot <;> rfl
  | _ =>
    unfold Control.Conn.exec
    dsimp only
    repeat' split
    all_goals rfl

namespace TlsWrapper

variable {key256 : Bytes}

/-- `tlscrypt.NewWrapper`, as the server calls it. -/
def new (key256 : Bytes) : Option (TlsWrapper key256) :=
  (Control.newWrapper key256 true).attach.map fun w => ⟨w.1, newWrapper_decrypt w.2⟩

/-- `Unwrap`: the plaintext, and the wrapper with the packet marked taken. -/
def unwrap (K : Crypto) (w : TlsWrapper key256) (packet : Bytes) :
    Option (Bytes × TlsWrapper key256) :=
  match h : w.wrapper.unwrap K packet with
  | .error _ => none
  | .ok (_, plaintext, w') => some (plaintext, ⟨w', (unwrap_decrypt h).trans w.keyed⟩)

end TlsWrapper

/-! ## The state -/

structure SessionKey where
  addr : String
  sid : SessionID
  deriving DecidableEq

/--
`Session`, with what datagrams reach beside the key slots. `channels` are the control
connections, numbered as `conns` numbers them; all of them send through the session's
wrapper, and the one they hold is that wrapper as they last saw it.
-/
structure Peer (key256 : Bytes) extends Session where
  made : SlotsMade toSession
  sessionID : SessionID
  remoteAddr : String
  clientSessionID : SessionID
  wrapper : TlsWrapper key256
  channels : List Control.Conn := []
  inbound : List ControlPacket := []
  ipInbound : List Bytes := []
  /-- The capacity of `ipInbound`; nothing fits into a nil channel. -/
  ipInboundSize : Nat := 0
  lastAuthTraffic : Option Int := none
  keepalivesIn : Nat := 0
  packetsIn : Nat := 0
  bytesIn : Nat := 0
  inboundQueueDropped : Nat := 0

/-- `Server`: its tables, every session it ever made, and what it sent to whom. -/
structure Server (key256 : Bytes) where
  sessions : AList fun _ : SessionKey => Nat := ∅
  dataSessions : AList fun _ : PeerID => Nat := ∅
  sess : List (Peer key256) := []
  handshakesStarted : Nat := 0
  /-- The sessions whose `pump` was started and has not run yet. -/
  pumps : List Nat := []
  sent : List (String × Bytes) := []

/-- A critical section of a call, in the order the source has them. -/
inductive Section (key256 : Bytes)
  /-- `handleDatagram` looks the session up. -/
  | lookup (addr : String) (hdr : Header) (packet : Bytes)
  /-- There is none: a wrapper is made, and the datagram must unwrap under it. -/
  | candidate (addr : String) (hdr : Header) (packet : Bytes)
  | unwrap (id : Nat) (hdr : Header) (packet : Bytes)
  /-- The candidate is put into the table, unless another goroutine was first. -/
  | publish (p : Peer key256) (cp : ControlPacket)
  | opened (id : Nat) (cp : ControlPacket)
  | softReset (id : Nat) (cp : ControlPacket)
  | beginRenegotiation (id : Nat) (cp : ControlPacket)
  | goRenegotiation (id : Nat) (i : Nat)
  | enqueue (id : Nat) (cp : ControlPacket)
  /-- `pump`, at its `select`. -/
  | pump (id : Nat)
  /-- `pump` has a packet and asks whether the session is closing. -/
  | dispatch (id : Nat) (cp : ControlPacket)
  | route (id : Nat) (cp : ControlPacket)
  /-- `Deliver` or `DeliverAndRespond` on the `conn`-th connection, at its next locked section. -/
  | task (id conn : Nat) (t : Task)
  | touchAuthTraffic (id : Nat)
  /-- `handleDataDatagram` looks the peer-id up. -/
  | dataLookup (packet : Bytes)
  /-- `handleDataPacket` reads the slots. -/
  | handleDataPacket (id : Nat) (packet : Bytes)
  | openPrimary (id gen : Nat) (lameDuck : KeySlot) (packet : Bytes)
  | tryLameDuck (id : Nat) (lameDuck : KeySlot) (packet : Bytes)
  | openLameDuck (id gen : Nat) (packet : Bytes)
  | keepalive (id : Nat)
  | deliver (id : Nat) (plaintext : Bytes)
  | queueIP (id : Nat) (plaintext : Bytes)

/-- What the environment decides in a section; each looks at its own. -/
structure Choice where
  env : Control.Env
  now : Int := 0
  /-- What `rand.Read` draws. -/
  draw : Option SessionID := none
  /-- A `select` with two ready cases takes the queue's. -/
  takes : Bool := true

/-- What a section does: the server after it, what the call does next, and the drop counter. -/
structure Outcome (key256 : Bytes) where
  server : Server key256
  next : List (Section key256) := []
  /-- `datagramsRejected.Add(1)`. -/
  rejected : Bool := false

/-- What a section does to the one session it works on. -/
structure Turn (key256 : Bytes) where
  peer : Peer key256
  next : List (Section key256) := []
  rejected : Bool := false
  sent : List Bytes := []

variable {key256 : Bytes}

/-- A section of the session with number `id`. -/
def Server.turn (s : Server key256) (id : Nat) (f : Peer key256 → Turn key256) : Outcome key256 :=
  match s.sess[id]? with
  | none => { server := s }
  | some p =>
    let r := f p
    { server :=
        { s with
          sess := s.sess.set id r.peer
          sent := s.sent ++ r.sent.map fun d => (p.remoteAddr, d) }
      next := r.next
      rejected := r.rejected }

/-! ## Control packets -/

/-- Where an authenticated packet of a session that exists goes. -/
def received (id : Nat) (cp : ControlPacket) : Section key256 :=
  if cp.opcode = opControlSoftResetV1 then .softReset id cp else .enqueue id cp

def Server.lookup (s : Server key256) (addr : String) (hdr : Header) (packet : Bytes) :
    Outcome key256 :=
  match s.sessions.lookup { addr := addr, sid := hdr.sessionID } with
  | some id => { server := s, next := [.unwrap id hdr packet] }
  | none =>
    if hdr.opcode ≠ opControlHardResetClientV2 ∨ hdr.keyID ≠ 0 then
      { server := s, rejected := true }
    else { server := s, next := [.candidate addr hdr packet] }

/-- The candidate session of an unknown sender; nothing of it is kept here. -/
def Server.candidate (K : Crypto) (s : Server key256) (addr : String) (hdr : Header)
    (packet : Bytes) (now : Int) (draw : Option SessionID) : Outcome key256 :=
  match TlsWrapper.new key256, draw with
  | some w, some serverSID =>
    match w.unwrap K packet with
    | none => { server := s, rejected := true }
    | some (plaintext, w) =>
      match parseControlPacket plaintext hdr with
      | .error _ => { server := s, rejected := true }
      | .ok cp =>
        let p : Peer key256 :=
          { Session.new 0 now with
            made := ⟨by simp [Session.new], by simp [Session.new]⟩
            sessionID := serverSID, remoteAddr := addr, clientSessionID := hdr.sessionID
            wrapper := w }
        { server := s, next := [.publish p cp] }
  | _, _ => { server := s }

def Peer.unwrap (K : Crypto) (id : Nat) (hdr : Header) (packet : Bytes) (p : Peer key256) :
    Turn key256 :=
  match p.wrapper.unwrap K packet with
  | none => { peer := p, rejected := true }
  | some (plaintext, w) =>
    match parseControlPacket plaintext hdr with
    | .error _ => { peer := { p with wrapper := w }, rejected := true }
    | .ok cp => { peer := { p with wrapper := w }, next := [received id cp] }

def Server.publish (s : Server key256) (p : Peer key256) (cp : ControlPacket) : Outcome key256 :=
  let key : SessionKey := { addr := p.remoteAddr, sid := p.clientSessionID }
  match s.sessions.lookup key with
  -- another goroutine won the race: its session gets the packet, the candidate is forgotten
  | some id => { server := s, next := [received id cp] }
  | none =>
    let conn := Control.Conn.new p.sessionID p.clientSessionID p.wrapper.wrapper 0
    let id := s.sess.length
    { server :=
        { s with
          sessions := s.sessions.insert key id
          sess := s.sess ++ [{ p with self := id, channels := [conn] }] }
      next := [.opened id cp] }

/-- The goroutines of a new session are started, and its hard reset is answered. -/
def Server.opened (s : Server key256) (id : Nat) (cp : ControlPacket) : Outcome key256 :=
  { server := { s with handshakesStarted := s.handshakesStarted + 1, pumps := s.pumps ++ [id] }
    next := [.task id 0 (.absorb cp (.respond opControlHardResetServerV2 []))] }

/-- `Deliver` on a connection, then `touchAuthTraffic`. -/
def deliverTo (id conn : Nat) (cp : ControlPacket) : List (Section key256) :=
  [.task id conn (.absorb cp .flush), .touchAuthTraffic id]

def Peer.softReset (id : Nat) (cp : ControlPacket) (p : Peer key256) : Turn key256 :=
  match p.routeControlPacket cp.keyID with
  | some c => { peer := p, next := deliverTo id c cp }
  | none => { peer := p, next := [.beginRenegotiation id cp] }

/-- `beginRenegotiation`, with `startRenegotiation` and the connection it makes. -/
def Peer.beginRenegotiation (cfg : Config) (id : Nat) (cp : ControlPacket) (p : Peer key256) :
    Turn key256 :=
  let s := p.startRenegotiation cfg (some cp.keyID)
  -- a refusal makes no connection
  if s.conns.length = p.conns.length then { peer := p }
  else
    let conn := Control.Conn.new p.sessionID p.clientSessionID p.wrapper.wrapper s.pendingRenegKeyID
    { peer :=
        { p with
          toSession := s
          made := slotsMade_startRenegotiation p.made cfg _
          channels := p.channels ++ [conn] }
      next :=
        [.task id p.conns.length (.absorb cp (.respond opControlSoftResetV1 [])),
         .goRenegotiation id p.renegs.length] }

/-- `go s.runRenegotiation(…)`. -/
def Peer.goRenegotiation (i : Nat) (p : Peer key256) : Turn key256 :=
  match p.renegs[i]? with
  | some n =>
    if n.pc = .begin then
      { peer := { p with renegs := p.renegs.set i { n with pc := .tls, window := .waiting } } }
    else { peer := p }
  | none => { peer := p }

def Peer.enqueue (cp : ControlPacket) (takes : Bool) (p : Peer key256) : Turn key256 :=
  if p.inbound.length < inboundQueueSize ∧ (!p.stopped || takes) then
    { peer := { p with inbound := p.inbound ++ [cp] } }
  else { peer := p, rejected := true }

/-- One turn of the loop of `pump`; with nothing in the queue it waits. -/
def Peer.pump (id : Nat) (takes : Bool) (p : Peer key256) : Turn key256 :=
  match p.inbound with
  | [] => { peer := p, next := if p.stopped then [] else [.pump id] }
  | cp :: rest =>
    if p.stopped && !takes then { peer := p }
    else { peer := { p with inbound := rest }, next := [.dispatch id cp, .pump id] }

def Peer.dispatch (id : Nat) (cp : ControlPacket) (p : Peer key256) : Turn key256 :=
  { peer := p, next := if p.stopped then [] else [.route id cp] }

def Peer.route (id : Nat) (cp : ControlPacket) (p : Peer key256) : Turn key256 :=
  match p.routeControlPacket cp.keyID with
  | some c => { peer := p, next := deliverTo id c cp }
  | none => { peer := p }

/-- One locked section of a call on a control connection. -/
def Peer.task (K : Crypto) (id conn : Nat) (t : Task) (env : Control.Env) (p : Peer key256) :
    Turn key256 :=
  match p.channels[conn]? with
  | none => { peer := p }
  | some c =>
    let c : Control.Conn := { c with wrapper := p.wrapper.wrapper }
    let r := c.exec K env t
    { peer :=
        { p with
          channels := p.channels.set conn r.1
          wrapper := ⟨r.1.wrapper, (exec_decrypt K c env t).trans p.wrapper.keyed⟩ }
      next := if r.2.1 = .done then [] else [.task id conn r.2.1]
      sent := r.2.2.filterMap fun
        | .handed wire => some wire
        | _ => none }

def Peer.touchAuthTraffic (p : Peer key256) : Turn key256 :=
  { peer := { p with lastAuthTraffic := some p.clock } }

/-! ## Data packets -/

/-- The peer-id of a data packet. -/
def peerIDOf (packet : Bytes) : PeerID := BitVec.ofNat 32 (BigEndian.get ((packet.drop 1).take 3))

def Server.dataLookup (s : Server key256) (packet : Bytes) : Outcome key256 :=
  match s.dataSessions.lookup (peerIDOf packet) with
  | none => { server := s, rejected := true }
  | some id => { server := s, next := [.handleDataPacket id packet] }

def Peer.handleDataPacket (id : Nat) (packet : Bytes) (p : Peer key256) : Turn key256 :=
  match p.primary.wrapper with
  | none => { peer := p }
  | some g => { peer := p, next := [.openPrimary id g p.lameDuck packet] }

/-- `Open` of a packet under generation `g`, and what follows from a packet that authenticates. -/
def Peer.openUnder (A : Aead) (id g : Nat) (packet : Bytes) (failed : List (Section key256))
    (p : Peer key256) : Turn key256 :=
  let r := Session.openUnder A p.toSession g packet
  { peer := { p with toSession := r.1, made := slotsMade_openUnder p.made A g packet }
    next := match r.2 with
      | .ok plaintext => [.touchAuthTraffic id, .deliver id plaintext]
      | .error .pingAbsorbed => [.touchAuthTraffic id, .keepalive id]
      | .error _ => failed }

def Peer.openPrimary (A : Aead) (id g : Nat) (lameDuck : KeySlot) (packet : Bytes) :
    Peer key256 → Turn key256 :=
  Peer.openUnder A id g packet [.tryLameDuck id lameDuck packet]

def Peer.tryLameDuck (id : Nat) (lameDuck : KeySlot) (packet : Bytes) (p : Peer key256) :
    Turn key256 :=
  match lameDuck.wrapper with
  | none => { peer := p }
  | some g =>
    { peer := p, next := if before p.clock lameDuck.mustDie then [.openLameDuck id g packet]
      else [] }

def Peer.openLameDuck (A : Aead) (id g : Nat) (packet : Bytes) : Peer key256 → Turn key256 :=
  Peer.openUnder A id g packet []

def Peer.keepalive (p : Peer key256) : Turn key256 :=
  { peer := { p with keepalivesIn := p.keepalivesIn + 1 } }

def Peer.deliver (id : Nat) (plaintext : Bytes) (p : Peer key256) : Turn key256 :=
  if isExitNotify plaintext then
    { peer := { p with closers := p.closers ++ [(.clientExitNotify, .enter)] } }
  else
    { peer := { p with packetsIn := p.packetsIn + 1, bytesIn := p.bytesIn + plaintext.length }
      next := [.queueIP id plaintext] }

def Peer.queueIP (plaintext : Bytes) (takes : Bool) (p : Peer key256) : Turn key256 :=
  if p.ipInbound.length < p.ipInboundSize ∧ (!p.stopped || takes) then
    { peer := { p with ipInbound := p.ipInbound ++ [plaintext] } }
  else if p.stopped then { peer := p }
  else { peer := { p with inboundQueueDropped := p.inboundQueueDropped + 1 } }

/-! ## Arrivals -/

/-- `handleDataDatagram`, up to its lock. -/
def Server.handleDataDatagram (s : Server key256) (opcode : Opcode) (packet : Bytes) :
    Outcome key256 :=
  if opcode ≠ opDataV2 then { server := s, rejected := true }
  else if packet.length < 4 then { server := s, rejected := true }
  else { server := s, next := [.dataLookup packet] }

/-- `handleDatagram`, up to its first lock. -/
def Server.handleDatagram (s : Server key256) (addr : String) : Bytes → Outcome key256
  | [] => { server := s, rejected := true }
  | b :: rest =>
    if (b :: rest).length > maxDatagramSize then { server := s, rejected := true }
    else
      let (opcode, keyID) := parseHeaderByte b
      if !validOpcode opcode then { server := s, rejected := true }
      else if opcode = opDataV1 ∨ opcode = opDataV2 then s.handleDataDatagram opcode (b :: rest)
      else if h : (b :: rest).length < minDatagramSize then { server := s, rejected := true }
      else
        have hlen : (rest.take sessionIDSize).length = sessionIDSize := by
          simp only [List.length_cons, minDatagramSize, Control.offCT] at h
          simp only [List.length_take, sessionIDSize]
          omega
        let hdr : Header := { opcode, keyID, sessionID := ⟨rest.take sessionIDSize, hlen⟩ }
        { server := s, next := [.lookup addr hdr (b :: rest)] }

/-- The generations that were made are still there, with their keys. -/
def KeysKept (gens gens' : List Data.Wrapper) : Prop :=
  ∀ (g : Nat) (w : Data.Wrapper), gens[g]? = some w →
    ∃ w', gens'[g]? = some w' ∧ w'.decryptKey = w.decryptKey ∧ w'.decryptIV = w.decryptIV

/-- A session later on. -/
structure Peer.Later (p p' : Peer key256) : Prop where
  clock : p.clock ≤ p'.clock
  gens : KeysKept p.gens p'.gens

/-- The server later on. -/
def Server.Later (s s' : Server key256) : Prop :=
  ∀ (id : Nat) (p : Peer key256), s.sess[id]? = some p → ∃ p', s'.sess[id]? = some p' ∧ p.Later p'

/-- Whatever else goes on in the server. -/
structure Activity (key256 : Bytes) where
  act : Server key256 → Server key256
  later : ∀ s : Server key256, s.Later (act s)

inductive Event (key256 : Bytes)
  | datagram (addr : String) (packet : Bytes)
  /-- The `pump` of a session gets to run. -/
  | pump (id : Nat)
  | other (a : Activity key256)
  | nothing

def Server.start (s : Server key256) : Event key256 → Outcome key256
  | .datagram addr packet => s.handleDatagram addr packet
  | .pump id =>
    if id ∈ s.pumps then { server := { s with pumps := s.pumps.erase id }, next := [.pump id] }
    else { server := s }
  | .other a => { server := a.act s }
  | .nothing => { server := s }

def Server.exec (K : Crypto) (A : Aead) (cfg : Config) (s : Server key256) (x : Section key256)
    (c : Choice) : Outcome key256 :=
  match x with
  | .lookup addr hdr packet => s.lookup addr hdr packet
  | .candidate addr hdr packet => s.candidate K addr hdr packet c.now c.draw
  | .unwrap id hdr packet => s.turn id (Peer.unwrap K id hdr packet)
  | .publish p cp => s.publish p cp
  | .opened id cp => s.opened id cp
  | .softReset id cp => s.turn id (Peer.softReset id cp)
  | .beginRenegotiation id cp => s.turn id (Peer.beginRenegotiation cfg id cp)
  | .goRenegotiation id i => s.turn id (Peer.goRenegotiation i)
  | .enqueue id cp => s.turn id (Peer.enqueue cp c.takes)
  | .pump id => s.turn id (Peer.pump id c.takes)
  | .dispatch id cp => s.turn id (Peer.dispatch id cp)
  | .route id cp => s.turn id (Peer.route id cp)
  | .task id conn t => s.turn id (Peer.task K id conn t c.env)
  | .touchAuthTraffic id => s.turn id Peer.touchAuthTraffic
  | .dataLookup packet => s.dataLookup packet
  | .handleDataPacket id packet => s.turn id (Peer.handleDataPacket id packet)
  | .openPrimary id g lameDuck packet => s.turn id (Peer.openPrimary A id g lameDuck packet)
  | .tryLameDuck id lameDuck packet => s.turn id (Peer.tryLameDuck id lameDuck packet)
  | .openLameDuck id g packet => s.turn id (Peer.openLameDuck A id g packet)
  | .keepalive id => s.turn id Peer.keepalive
  | .deliver id plaintext => s.turn id (Peer.deliver id plaintext)
  | .queueIP id plaintext => s.turn id (Peer.queueIP plaintext c.takes)

/-- The server, and its count of the datagrams it dropped. -/
structure Counted (key256 : Bytes) where
  server : Server key256
  datagramsRejected : Nat := 0

/-- The outcome of a section, counted. -/
def Outcome.counted (o : Outcome key256) (n : Nat) : Counted key256 × List (Section key256) :=
  ({ server := o.server, datagramsRejected := if o.rejected then n + 1 else n }, o.next)

/-- The server's goroutines, as far as datagrams are concerned. -/
def program (K : Crypto) (A : Aead) (cfg : Config) (key256 : Bytes) :
    Threads.Program (Counted key256) (Section key256) (Event key256) Choice where
  start s e := (s.server.start e).counted s.datagramsRejected
  exec s x c := (s.server.exec K A cfg x c).counted s.datagramsRejected

end GoVpn.Ovpn.Inbound
