import GoVpn.Control.Reliable
import GoVpn.Control.TlsCrypt

/-!
# The control connection

`ctrlconn.Conn`: a byte stream over control packets. `Write` sends chunks through the
send window; `Deliver` takes an inbound packet apart into acknowledgements for the send
window and a payload for the receive window, and appends what that gives up to the buffer
`Read` reads from; `retransmitLoop` sends again what is due.

Between two locked sections of a goroutine any other may run. So a goroutine is a `Task`,
the rest of its work from its next locked section on, and a step runs one task through one
such section. Finished tasks stay in the list, so that a task's index is its name.
-/

namespace GoVpn.Control

def maxPayload : Nat := 1150

/-- The state of a `Conn`, its session's wrapper included. -/
structure Conn where
  localSID : SessionID
  remoteSID : SessionID
  keyID : UInt8
  wrapper : Wrapper
  sendRel : Reliable
  recvRel : Reliable
  acks : AckSet
  readBuf : Bytes
  closed : Bool
  deriving DecidableEq

/-- `NewWithKeyID`. -/
def Conn.new (localSID remoteSID : SessionID) (wrapper : Wrapper) (keyID : UInt8) : Conn :=
  { localSID, remoteSID, keyID, wrapper
    sendRel := Reliable.new nSendBuffers
    recvRel := Reliable.new nRecBuffers
    acks := [], readBuf := [], closed := false }

/-- What a delivering goroutine does once the packet is absorbed. -/
inductive After
  /-- `Deliver`: `flushAckOnly`. -/
  | flush
  /-- `DeliverAndRespond`: send one packet. -/
  | respond (opcode : Opcode) (payload : Bytes)
  deriving DecidableEq

/--
A goroutine, at its next locked section. `rest` is what a `Write` has still to
send after the present chunk; it is `none` in a goroutine whose send errors nobody
looks at. A packet with no `slot` is a bare acknowledgement.
-/
inductive Task
  /-- `waitForSendSlot`: ask for a slot. -/
  | waitSlot (opcode : Opcode) (payload : Bytes) (rest : Option Bytes)
  /-- `waitForSendSlot`: there was none; look at `closed` and the deadline. -/
  | blocked (opcode : Opcode) (payload : Bytes) (rest : Option Bytes)
  /-- `MarkActive`. -/
  | mark (idx : Nat) (opcode : Opcode) (payload : Bytes) (rest : Option Bytes)
  /-- `buildControlPacket`: drain the pending acknowledgements. -/
  | build (slot : Option Nat) (opcode : Opcode) (id : PacketID) (payload : Bytes)
      (rest : Option Bytes)
  /-- `buildControlPacket`: `Wrap`. -/
  | wrap (slot : Option Nat) (cp : ControlPacket) (rest : Option Bytes)
  | setPayload (idx : Nat) (wire : Bytes) (rest : Option Bytes)
  | transmit (wire : Bytes) (rest : Option Bytes)
  /-- `absorb`: the packet's acknowledgements. -/
  | absorb (cp : ControlPacket) (after : After)
  /-- `absorb`: the packet's payload. -/
  | put (cp : ControlPacket) (after : After)
  /-- `absorb`: note the packet for acknowledgement. -/
  | addAck (id : PacketID) (after : After)
  /-- `absorb`: one turn of the loop that drains the receive window. -/
  | drain (after : After)
  /-- `flushAckOnly`. -/
  | flush
  | done
  deriving DecidableEq

/-- What a step leaves to be recorded about the run. -/
inductive Event
  /-- `MarkActive` gave a chunk its packet ID. -/
  | marked (payload : Bytes)
  /-- `Wrap` made `wire` from a packet. -/
  | wrapped (cp : ControlPacket) (wire : Bytes)
  /-- A datagram was handed to the transport. -/
  | handed (wire : Bytes)
  /-- `Put` took a packet. -/
  | accepted (id : PacketID)
  /-- `Get` gave up a payload. -/
  | consumed (payload : Bytes)
  /-- A send ended with an error. -/
  | failed
  /-- `Unwrap` took a packet's sequence number. -/
  | took (seq : BitVec 32)
  /-- `Read` returned bytes. -/
  | returned (p : Bytes)
  /-- The application called `Write`. -/
  | wrote (p : Bytes)
  deriving DecidableEq

/-- The loop of `Write`: the next chunk, or the end. -/
def Task.write (p : Bytes) : Task :=
  if p.length > 0 then .waitSlot opControlV1 (p.take maxPayload) (some (p.drop maxPayload))
  else .done

/-- Where a sending goroutine goes on once its packet is out. -/
def Task.sent : Option Bytes → Task
  | some rest => Task.write rest
  | none => .done

/-- A send error, if somebody is told of it. -/
def sendFailed (rest : Option Bytes) : List Event := if rest.isSome then [.failed] else []

/-- Where a delivering goroutine goes on after `absorb`. -/
def After.task : After → Task
  | .flush => .flush
  | .respond opcode payload => .waitSlot opcode payload none

/-- What the environment decides while a task runs. -/
structure Env where
  /-- `time.Now().Unix()`, as `Wrap` reads it. -/
  clock : Int
  /-- The write deadline has passed. -/
  expired : Bool
  /-- `WriteTo` reports success. -/
  delivered : Bool

/-- `buildControlPacket`'s packet. -/
def Conn.packet (c : Conn) (opcode : Opcode) (id : PacketID) (acks : List PacketID)
    (payload : Bytes) : ControlPacket :=
  { opcode, keyID := c.keyID, sessionID := c.localSID, acks, remoteSessionID := c.remoteSID
    packetID := id, payload }

/-- The header `buildControlPacket` authenticates. -/
def ControlPacket.header (cp : ControlPacket) : Bytes :=
  headerByte cp.opcode cp.keyID :: cp.sessionID.bytes

/-- One locked section of a task: the connection after it, the task's next section, and events. -/
def Conn.exec (K : Crypto) (c : Conn) (env : Env) : Task → Conn × Task × List Event
  | .waitSlot opcode payload rest =>
    match c.sendRel.next with
    | some idx => (c, .mark idx opcode payload rest, [])
    -- `waitForSendSlot` looks again every `retransmitInterval`, until the deadline or `Close`
    | none => (c, .blocked opcode payload rest, [])
  | .blocked opcode payload rest =>
    if c.closed || env.expired then (c, .done, sendFailed rest)
    else (c, .waitSlot opcode payload rest, [])
  | .mark idx opcode payload rest =>
    ({ c with sendRel := c.sendRel.markActive idx },
      .build (some idx) opcode c.sendRel.packetID payload rest, [.marked payload])
  | .build slot opcode id payload rest =>
    let (acks, left) := AckSet.drain c.acks
    ({ c with acks := left }, .wrap slot (c.packet opcode id acks payload) rest, [])
  | .wrap slot cp rest =>
    let (w, r) := c.wrapper.wrap K env.clock cp.header cp.plaintext
    -- `Wrap` fails at a rollover when the clock has not moved since the last one
    match r with
    | .error _ => ({ c with wrapper := w }, .done, sendFailed rest)
    | .ok wire =>
      match slot with
      | some idx => ({ c with wrapper := w }, .setPayload idx wire rest, [.wrapped cp wire])
      | none => ({ c with wrapper := w }, .transmit wire rest, [.wrapped cp wire])
  | .setPayload idx wire rest =>
    ({ c with sendRel := c.sendRel.setPayload idx wire }, .transmit wire rest, [])
  | .transmit wire rest =>
    if env.delivered then (c, Task.sent rest, [.handed wire])
    -- `WriteTo` may have sent the datagram although it reports an error
    else (c, .done, .handed wire :: sendFailed rest)
  | .absorb cp after =>
    ({ c with sendRel := c.sendRel.ack cp.acks },
      -- an ack-only packet carries nothing for the receive window
      if cp.opcode != opAckV1 then .put cp after else .drain after, [])
  | .put cp after =>
    match c.recvRel.put cp.packetID cp.payload with
    | (r, .accepted) =>
      ({ c with recvRel := r }, .addAck cp.packetID after, [.accepted cp.packetID])
    | (r, .duplicate) => ({ c with recvRel := r }, .addAck cp.packetID after, [])
    -- a rejected packet is not acknowledged, and nothing is drained
    | (r, .rejected) => ({ c with recvRel := r }, after.task, [])
  | .addAck id after => ({ c with acks := AckSet.add c.acks id }, .drain after, [])
  | .drain after =>
    match c.recvRel.get with
    | some (payload, r) =>
      ({ c with recvRel := r, readBuf := c.readBuf ++ payload }, .drain after, [.consumed payload])
    | none => (c, after.task, [])
  | .flush => if AckSet.peek c.acks then (c, .build none opAckV1 0 [] none, []) else (c, .done, [])
  | .done => (c, .done, [])

/-! ## Runs -/

/-- The header fields of an unwrapped packet. -/
def Header.ofBytes : Bytes → Option Header
  | [] => none
  | b :: sid =>
    if h : sid.length = sessionIDSize then
      some
        { opcode := (parseHeaderByte b).1, keyID := (parseHeaderByte b).2
          sessionID := ⟨sid, h⟩ }
    else none

/-- The way of a datagram up to `Deliver`: unwrapped, then parsed. -/
def parseUnwrapped (header plaintext : Bytes) : Option ControlPacket :=
  match Header.ofBytes header with
  | none => none
  | some hdr => (parseControlPacket plaintext hdr).toOption

/-- A connection with its goroutines, and the record of what happened. -/
structure Node where
  conn : Conn
  tasks : List Task := []
  hist : List Event := []

/-- What can happen to a connection. -/
inductive Input
  | write (p : Bytes)
  | sendReset (opcode : Opcode)
  /-- `Deliver` or `DeliverAndRespond` is called. -/
  | deliver (cp : ControlPacket) (after : After)
  /-- A datagram arrives; `none` when it is dropped between `Unwrap` and `Deliver`. -/
  | receive (datagram : Bytes) (after : Option After)
  /-- A goroutine gets to run. -/
  | run (i : Nat) (env : Env)
  /-- `retransmitLoop` calls `Due`. -/
  | retransmit (now : Int)
  | read (n : Nat)
  | close

namespace Node

def spawn (n : Node) (t : Task) : Node := { n with tasks := n.tasks ++ [t] }

def log (n : Node) (es : List Event) : Node := { n with hist := n.hist ++ es }

def receive (K : Crypto) (n : Node) (datagram : Bytes) (after : Option After) : Node :=
  match n.conn.wrapper.unwrap K datagram with
  | .error _ => n
  | .ok (header, plaintext, w) =>
    let n := ({ n with conn := { n.conn with wrapper := w } }).log [.took (packetSeq datagram)]
    match after, parseUnwrapped header plaintext with
    | some after, some cp => n.spawn (.absorb cp after)
    | _, _ => n

def run (K : Crypto) (n : Node) (i : Nat) (env : Env) : Node :=
  match n.tasks[i]? with
  | none => n
  | some t =>
    let (c, t', es) := n.conn.exec K env t
    { conn := c, tasks := n.tasks.set i t', hist := n.hist ++ es }

def retransmit (n : Node) (now : Int) : Node :=
  match n.conn.sendRel.due now with
  | none => n
  | some (i, r) =>
    ({ n with conn := { n.conn with sendRel := r } }).spawn (.transmit (r.payloadAt i) none)

def read (n : Node) (k : Nat) : Node :=
  ({ n with conn := { n.conn with readBuf := n.conn.readBuf.drop k } }).log
    [.returned (n.conn.readBuf.take k)]

def step (K : Crypto) (n : Node) : Input → Node
  | .write p => (n.spawn (Task.write p)).log [.wrote p]
  | .sendReset opcode => n.spawn (.waitSlot opcode [] (some []))
  | .deliver cp after => n.spawn (.absorb cp after)
  | .receive datagram after => n.receive K datagram after
  | .run i env => n.run K i env
  | .retransmit now => n.retransmit now
  | .read k => n.read k
  | .close => { n with conn := { n.conn with closed := true } }

end Node

end GoVpn.Control
