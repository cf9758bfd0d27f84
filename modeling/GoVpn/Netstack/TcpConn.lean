import Mathlib.Algebra.GroupWithZero.Nat
import GoVpn.Netstack.TcpSegment

/-!
# One TCP connection

The state of a `tcpConn` and everything that runs under its mutex: the state machine
(`tcp_state.go`), the application's side of it (`tcp_conn.go`) and the timer (`tcp_timer.go`).
Each Go function that mutates the connection becomes a function from the old connection to the
new one; `toSend` collects the segments that are transmitted once the lock is released.

Lengths and byte counts are natural numbers. The code keeps them in `uint32`, and none comes near
`2 ^ 32`: the buffers are capped at 65535 bytes. Sequence numbers do wrap, and stay `BitVec 32`.
-/

namespace GoVpn.Netstack

/-- `tcpState`. `listen` is the listener's own state and never a connection's. -/
inductive TcpState
  | listen | synRcvd | established | finWait1 | finWait2 | closing | timeWait
  | closeWait | lastAck | closed
  deriving DecidableEq

/-- The errors `Read` and `Write` return; `eof` is `io.EOF`. -/
inductive TcpErr
  | connReset | writeAfterClose | deadlineExceeded | eof
  deriving DecidableEq

/-- The last operation applied to `rtoTimer`. -/
inductive TimerOp
  | created (d : Nat) | reset (d : Nat) | stopped
  deriving DecidableEq

/-- One millisecond, in the nanoseconds of `time.Duration`. -/
def millisecond : Nat := 1000000

def defaultReceiveWindow : Nat := 65535
def maxInFlightBytes : Nat := 65535
def maxPersistProbes : Nat := 20
def maxReorderSegments : Nat := 16
def initialRTO : Nat := 300 * millisecond
def maxRTO : Nat := 8000 * millisecond
def maxRetransmits : Nat := 6
def timeWaitDuration : Nat := 5000 * millisecond

/-- The part of `tcpConn` that its mutex guards. -/
structure TcpConn where
  localPort : Port
  remotePort : Port
  /-- `c.stack.maxSegmentSize()`, fixed for the life of the stack. -/
  stackMSS : BitVec 16
  state : TcpState
  sndUna : Seq
  sndWnd : Nat
  sndMSS : Nat
  outBuf : Bytes
  sentBytes : Nat
  rcvNxt : Seq
  recvBuf : Bytes
  /-- `map[uint32][]byte`, as its list of entries. -/
  reorder : List (Seq × Bytes)
  hasPendingFIN : Bool
  pendingFINSeq : Seq
  peerClosed : Bool
  finSent : Bool
  finAcked : Bool
  finSeq : Seq
  rtoTimer : TimerOp
  timerArmed : Bool
  retransmitCount : Nat
  persistProbeCount : Nat
  rto : Nat
  inTimeWait : Bool
  stopTimersClosed : Bool
  err : Option TcpErr
  closeWriteOnce : Bool
  deriving DecidableEq

/-- What `handleSYN` decides before it builds a connection. -/
structure SynParams where
  localPort : Port
  remotePort : Port
  stackMSS : BitVec 16
  isn : Seq
  clientISN : Seq
  clientWindow : BitVec 16
  sndMSS : BitVec 16

/-- `newTCPConn`: half open, with the SYN-ACK's retransmit clock already running. -/
def newTCPConn (p : SynParams) : TcpConn where
  localPort := p.localPort
  remotePort := p.remotePort
  stackMSS := p.stackMSS
  state := .synRcvd
  sndUna := p.isn
  sndWnd := p.clientWindow.toNat
  sndMSS := p.sndMSS.toNat
  outBuf := []
  sentBytes := 0
  rcvNxt := p.clientISN + 1
  recvBuf := []
  reorder := []
  hasPendingFIN := false
  pendingFINSeq := 0
  peerClosed := false
  finSent := false
  finAcked := false
  finSeq := 0
  rtoTimer := .created initialRTO
  timerArmed := true
  retransmitCount := 0
  persistProbeCount := 0
  rto := initialRTO
  inTimeWait := false
  stopTimersClosed := false
  err := none
  closeWriteOnce := false

/-- What a critical section leaves behind: the connection and what to do outside the lock. -/
structure Outcome where
  conn : TcpConn
  toSend : List TcpSegment := []
  /-- `enqueueToListener`. -/
  enqueue : Bool := false

/-- What one critical section of `Read` returns; `blocked` means it goes on waiting. -/
inductive ReadResult
  | data (bytes : Bytes)
  | failed (err : TcpErr)
  | blocked

/-- A `Write` call between two of its critical sections: `total` bytes of `p` are queued. -/
structure WriteCall where
  p : Bytes
  total : Nat
  deriving DecidableEq

/-- Where a critical section of `Write` leaves the call. -/
inductive WriteResult
  /-- The call returns `n` and an error, if any. -/
  | returned (n : Nat) (err : Option TcpErr)
  /-- The call has released the lock, to transmit or to wait, and will take it again. -/
  | pending (call : WriteCall)

namespace TcpConn

/-! ## Windows and bare segments -/

def allowedInFlightLocked (c : TcpConn) : Nat :=
  if c.sndWnd > maxInFlightBytes then maxInFlightBytes else c.sndWnd

/-- Everything held on the peer's behalf counts: in-order bytes and reordered ones. -/
def recvWindowRemainingLocked (c : TcpConn) : Nat :=
  let used := c.recvBuf.length + (c.reorder.map fun e => e.2.length).sum
  if used ≥ defaultReceiveWindow then 0 else defaultReceiveWindow - used

def advertisedWindowLocked (c : TcpConn) : BitVec 16 :=
  BitVec.ofNat 16 c.recvWindowRemainingLocked

/-- A segment of this connection, as every `tcpSegment` literal of the source fills it in. -/
def segment (c : TcpConn) (seq : Seq) (flags : BitVec 8) (payload : Bytes) : TcpSegment :=
  { srcPort := c.localPort, dstPort := c.remotePort, seq := seq, ack := c.rcvNxt,
    flags := flags, window := c.advertisedWindowLocked, payload := payload }

def buildACKLocked (c : TcpConn) : TcpSegment :=
  c.segment (c.sndUna + BitVec.ofNat 32 c.sentBytes) flagACK []

/-- The SYN-ACK of `handleSYN` and of the SYN_RCVD retransmission. -/
def synAck (c : TcpConn) : TcpSegment :=
  { c.segment c.sndUna (flagSYN ||| flagACK) [] with hasMSS := true, mss := c.stackMSS }

/-- The RST of `abort` and of a timer that gives up; its window is left zero. -/
def resetSegment (c : TcpConn) : TcpSegment :=
  { c.segment (c.sndUna + BitVec.ofNat 32 c.sentBytes) (flagRST ||| flagACK) [] with window := 0 }

/-! ## The timer -/

def stopTimersLocked (c : TcpConn) : TcpConn :=
  { c with rtoTimer := .stopped, stopTimersClosed := true }

def startTimeWaitLocked (c : TcpConn) : TcpConn :=
  { c with state := .timeWait, inTimeWait := true, timerArmed := true,
           rtoTimer := .reset timeWaitDuration }

def doubleRTO (d : Nat) : Nat := if d * 2 > maxRTO then maxRTO else d * 2

/-- The terminal transition every teardown makes; `err` stays as it is when none is given. -/
def teardown (c : TcpConn) (err : Option TcpErr) : TcpConn :=
  { c with state := .closed, err := err }.stopTimersLocked

/-! ## Sending -/

/-- How much the next segment of the send loop carries. -/
def nextChunk (c : TcpConn) (limit : Nat) : Nat :=
  min (min (limit - c.sentBytes) (c.outBuf.length - c.sentBytes)) c.sndMSS

/--
The loop of `sendPendingLocked`. Every iteration that does not leave the loop
sends at least one byte, so the number of unsent bytes is fuel enough.
-/
def sendLoop (limit : Nat) (forceProbe : Bool) :
    Nat → TcpConn → List TcpSegment → Bool → TcpConn × List TcpSegment × Bool
  | 0, c, toSend, sentAny => (c, toSend, sentAny)
  | fuel + 1, c, toSend, sentAny =>
    if c.sentBytes < limit ∧ c.sentBytes < c.outBuf.length then
      let chunk := c.nextChunk limit
      -- a client MSS of zero leaves the loop here with data still queued
      if chunk = 0 then (c, toSend, sentAny)
      else
        let seg := c.segment (c.sndUna + BitVec.ofNat 32 c.sentBytes) flagACK
          ((c.outBuf.drop c.sentBytes).take chunk)
        let c' := { c with sentBytes := c.sentBytes + chunk }
        -- a window probe is one segment, and leaves the timer to the caller
        if forceProbe then (c', toSend ++ [seg], true)
        else sendLoop limit forceProbe fuel c' (toSend ++ [seg]) true
    else (c, toSend, sentAny)

/-- The loop and the timer restart that follows it. -/
def sendUpTo (c : TcpConn) (toSend : List TcpSegment) (limit : Nat) (forceProbe : Bool) :
    TcpConn × List TcpSegment :=
  let r := sendLoop limit forceProbe (c.outBuf.length - c.sentBytes) c toSend false
  if r.2.2 && !forceProbe then
    ({ r.1 with rto := initialRTO, retransmitCount := 0, timerArmed := true,
                rtoTimer := .reset initialRTO }, r.2.1)
  else (r.1, r.2.1)

def sendPendingLocked (c : TcpConn) (toSend : List TcpSegment) (forceProbe : Bool) :
    TcpConn × List TcpSegment :=
  let limit := c.allowedInFlightLocked
  if limit = 0 then
    if !forceProbe || c.sentBytes ≥ c.outBuf.length then
      -- nothing can go out, but data queued behind a closed window needs the persist timer
      if c.outBuf.length > c.sentBytes && !c.timerArmed then
        ({ c with timerArmed := true, rto := initialRTO, rtoTimer := .reset initialRTO }, toSend)
      else (c, toSend)
    else c.sendUpTo toSend (c.sentBytes + 1) forceProbe
  else c.sendUpTo toSend limit forceProbe

def sendFINLocked (c : TcpConn) (toSend : List TcpSegment) : TcpConn × List TcpSegment :=
  let c := { c with finSeq := c.sndUna + BitVec.ofNat 32 c.outBuf.length, finSent := true }
  let seg := c.segment c.finSeq (flagFIN ||| flagACK) []
  ({ c with rto := initialRTO, retransmitCount := 0, timerArmed := true,
            rtoTimer := .reset initialRTO }, toSend ++ [seg])

/-! ## Acknowledgements -/

/-- First half of `handleAckLocked`: retire the in-flight bytes `ackNum` covers. -/
def retireData (c : TcpConn) (ackNum : Seq) : TcpConn :=
  if c.sentBytes > 0 ∧ seqGT ackNum c.sndUna then
    let maxCovered := c.sndUna + BitVec.ofNat 32 c.sentBytes
    -- an acknowledgement beyond what is in flight counts only up to there
    let covered := if seqGT ackNum maxCovered then maxCovered else ackNum
    let amount := (covered - c.sndUna).toNat
    if amount > 0 then
      let c := { c with outBuf := c.outBuf.drop amount, sentBytes := c.sentBytes - amount,
                        sndUna := covered, retransmitCount := 0, rto := initialRTO }
      -- the timer stops with the last byte, also when a FIN is still in flight
      if c.sentBytes = 0 then { c with rtoTimer := .stopped, timerArmed := false }
      else { c with timerArmed := true, rtoTimer := .reset initialRTO }
    else c
  else c

/-- Second half: the acknowledgement covers our own FIN. -/
def retireFIN (c : TcpConn) (ackNum : Seq) : TcpConn :=
  if c.finSent && !c.finAcked && seqGE ackNum (c.finSeq + 1) then
    let c := { c with finAcked := true }
    if c.sentBytes = 0 then { c with rtoTimer := .stopped, timerArmed := false } else c
  else c

/-- The window the segment advertises, and a fresh probe budget when it reopens. -/
def updateWindow (c : TcpConn) (seg : TcpSegment) : TcpConn :=
  let c := if c.sndWnd = 0 ∧ seg.window.toNat > 0 then { c with persistProbeCount := 0 } else c
  { c with sndWnd := seg.window.toNat }

def handleAckLocked (c : TcpConn) (seg : TcpSegment) (toSend : List TcpSegment) :
    TcpConn × List TcpSegment :=
  if !seg.has flagACK then (c, toSend)
  else (((c.retireData seg.ack).retireFIN seg.ack).updateWindow seg).sendPendingLocked toSend false

/-! ## Receiving -/

/-- The reorder buffer's entry for `k`. -/
def reorderGet (c : TcpConn) (k : Seq) : Option Bytes := c.reorder.lookup k

/--
The drain loop of `handleEstablishedDataLocked`: splice in reordered segments
for as long as the next one is there and fits. Each iteration deletes an entry.
-/
def drainReorder : Nat → TcpConn → TcpConn
  | 0, c => c
  | fuel + 1, c =>
    match c.reorderGet c.rcvNxt with
    | none => c
    | some data =>
      if data.length > c.recvWindowRemainingLocked then c
      else
        drainReorder fuel
          { c with reorder := c.reorder.filter (fun e => e.1 != c.rcvNxt),
                   recvBuf := c.recvBuf ++ data,
                   rcvNxt := c.rcvNxt + BitVec.ofNat 32 data.length }

/-- How many of `dataLen` in-order bytes the receive window still admits. -/
def admitted (c : TcpConn) (dataLen : Nat) : Nat := min dataLen c.recvWindowRemainingLocked

/-- After the drain: the segment's own FIN, or one remembered from out of order. -/
def consumeFIN (c : TcpConn) (seg : TcpSegment) : TcpConn × Bool :=
  if seg.has flagFIN ∧ seg.seq + BitVec.ofNat 32 seg.payload.length = c.rcvNxt then
    ({ c with rcvNxt := c.rcvNxt + 1, peerClosed := true }, true)
  else if c.hasPendingFIN ∧ c.rcvNxt = c.pendingFINSeq then
    ({ c with rcvNxt := c.rcvNxt + 1, peerClosed := true, hasPendingFIN := false }, true)
  else (c, false)

/-- The in-order bytes of a segment, as far as the window admits them. -/
def acceptInOrder (c : TcpConn) (payload : Bytes) : TcpConn :=
  { c with recvBuf := c.recvBuf ++ payload.take (c.admitted payload.length),
           rcvNxt := c.rcvNxt + BitVec.ofNat 32 (c.admitted payload.length) }

/-- `handleEstablishedDataLocked`; the last component is `finConsumed`. -/
def handleEstablishedDataLocked (c : TcpConn) (seg : TcpSegment) (toSend : List TcpSegment) :
    TcpConn × List TcpSegment × Bool :=
  if seg.payload = [] ∧ !seg.has flagFIN then (c, toSend, false)
  else if seg.seq = c.rcvNxt then
    let accepted := c.acceptInOrder seg.payload
    if c.admitted seg.payload.length = seg.payload.length then
      -- only a segment taken whole lets the reordered ones behind it and its FIN count
      let r := (drainReorder accepted.reorder.length accepted).consumeFIN seg
      (r.1, toSend ++ [r.1.buildACKLocked], r.2)
    else (accepted, toSend ++ [accepted.buildACKLocked], false)
  else if seqGT seg.seq c.rcvNxt then
    match c.reorderGet seg.seq with
    -- a segment that is already buffered is only acknowledged, its FIN unread
    | some _ => (c, toSend ++ [c.buildACKLocked], false)
    | none =>
      if c.reorder.length ≥ maxReorderSegments
          ∨ seg.payload.length > c.recvWindowRemainingLocked then
        (c, toSend ++ [c.buildACKLocked], false)
      else
        let c := { c with reorder := c.reorder ++ [(seg.seq, seg.payload)] }
        let c := if seg.has flagFIN then
            { c with hasPendingFIN := true,
                     pendingFINSeq := seg.seq + BitVec.ofNat 32 seg.payload.length }
          else c
        (c, toSend ++ [c.buildACKLocked], false)
  else (c, toSend ++ [c.buildACKLocked], false)

/-! ## The state machine -/

def rstInWindowLocked (c : TcpConn) (seg : TcpSegment) : Bool :=
  let wnd := c.advertisedWindowLocked
  if wnd = 0 then seg.seq = c.rcvNxt
  else seqGE seg.seq c.rcvNxt && seqGT (c.rcvNxt + wnd.setWidth 32) seg.seq

def handleSegment (c : TcpConn) (seg : TcpSegment) : Outcome :=
  if seg.has flagRST then
    if c.rstInWindowLocked seg then { conn := c.teardown (some .connReset) }
    else { conn := c }
  else
    match c.state with
    | .synRcvd =>
      if !seg.has flagACK || seg.ack != c.sndUna + 1 then
        { conn := c.teardown c.err, toSend := [buildRSTSegment seg] }
      else
        let c := { c with sndUna := seg.ack, state := .established,
                          rtoTimer := .stopped, timerArmed := false }
        -- the source drops `finConsumed` here
        let r := c.handleEstablishedDataLocked seg []
        { conn := r.1, toSend := r.2.1, enqueue := true }
    | .established =>
      let a := c.handleAckLocked seg []
      let r := a.1.handleEstablishedDataLocked seg a.2
      { conn := if r.2.2 then { r.1 with state := .closeWait } else r.1, toSend := r.2.1 }
    | .finWait1 =>
      let a := c.handleAckLocked seg []
      let r := a.1.handleEstablishedDataLocked seg a.2
      { conn :=
          -- simultaneous close goes to CLOSING unless our FIN is acknowledged already
          if r.2.2 && r.1.finAcked then r.1.startTimeWaitLocked
          else if r.2.2 then { r.1 with state := .closing }
          else if r.1.finAcked then { r.1 with state := .finWait2 }
          else r.1
        toSend := r.2.1 }
    | .finWait2 =>
      let a := c.handleAckLocked seg []
      let r := a.1.handleEstablishedDataLocked seg a.2
      { conn := if r.2.2 then r.1.startTimeWaitLocked else r.1, toSend := r.2.1 }
    | .closing =>
      let a := c.handleAckLocked seg []
      { conn := if a.1.finAcked then a.1.startTimeWaitLocked else a.1, toSend := a.2 }
    | .closeWait =>
      let a := c.handleAckLocked seg []
      { conn := a.1, toSend := a.2 }
    | .lastAck =>
      let a := c.handleAckLocked seg []
      { conn := if a.1.finAcked then a.1.teardown a.1.err else a.1, toSend := a.2 }
    | .timeWait =>
      { conn := c, toSend := if seg.has flagFIN then [c.buildACKLocked] else [] }
    | .listen => { conn := c }
    | .closed => { conn := c }

/-! ## Timer expiry -/

/-- The give-up branch of `onRTOFired`. -/
def giveUp (c : TcpConn) : Outcome :=
  { conn := c.teardown (some .connReset), toSend := [c.resetSegment] }

/-- A retransmission: back off, restart the timer and send `seg`. -/
def retransmit (c : TcpConn) (seg : TcpSegment) : Outcome :=
  let c := { c with retransmitCount := c.retransmitCount + 1 }
  if c.retransmitCount > maxRetransmits then c.giveUp
  else
    { conn := { c with rto := doubleRTO c.rto, rtoTimer := .reset (doubleRTO c.rto) }
      toSend := [seg] }

def onRTOFired (c : TcpConn) : Outcome :=
  if c.state = .closed then { conn := c }
  else if c.inTimeWait then { conn := c.teardown c.err }
  else if c.state = .synRcvd then c.retransmit c.synAck
  else if c.sentBytes > 0 then
    -- one segment from the front of the buffer, whatever the window
    c.retransmit (c.segment c.sndUna flagACK (c.outBuf.take (min c.sentBytes c.sndMSS)))
  else if c.finSent && !c.finAcked then
    c.retransmit (c.segment c.finSeq (flagFIN ||| flagACK) [])
  else if c.sndWnd = 0 ∧ c.outBuf.length > c.sentBytes then
    let c := { c with persistProbeCount := c.persistProbeCount + 1 }
    if c.persistProbeCount > maxPersistProbes then c.giveUp
    else
      -- persist probe: one byte past the closed window
      let r := c.sendPendingLocked [] true
      { conn := { r.1 with rtoTimer := .reset r.1.rto }, toSend := r.2 }
  else { conn := { c with timerArmed := false } }

def onAttachmentDetached (c : TcpConn) : Outcome :=
  if c.state = .closed then { conn := c } else { conn := c.teardown (some .connReset) }

def abort (c : TcpConn) : Outcome :=
  if c.state = .closed then { conn := c }
  else { conn := c.teardown (some .connReset), toSend := [c.resetSegment] }

/-! ## The application's calls -/

/-- One critical section of `Read` into a buffer of `n` bytes. -/
def readSection (c : TcpConn) (n : Nat) (deadlinePassed : Bool) : TcpConn × ReadResult :=
  if deadlinePassed then (c, .failed .deadlineExceeded)
  else if c.recvBuf ≠ [] then ({ c with recvBuf := c.recvBuf.drop n }, .data (c.recvBuf.take n))
  else
    match c.err with
    | some e => (c, .failed e)
    | none => if c.peerClosed then (c, .failed .eof) else (c, .blocked)

/-- How many bytes of `call` the send buffer takes now. -/
def capacity (c : TcpConn) (call : WriteCall) : Nat :=
  min (maxInFlightBytes - c.outBuf.length) (call.p.length - call.total)

/-- One critical section of `Write`, from the test of the outer loop to the next unlock. -/
def writeSection (c : TcpConn) (call : WriteCall) (deadlinePassed : Bool) :
    TcpConn × List TcpSegment × WriteResult :=
  if call.total ≥ call.p.length then (c, [], .returned call.total none)
  else if deadlinePassed then (c, [], .returned call.total (some .deadlineExceeded))
  else
    match c.err with
    | some e => (c, [], .returned call.total (some e))
    | none =>
      if c.outBuf.length < maxInFlightBytes then
        let n := c.capacity call
        let c := { c with outBuf := c.outBuf ++ (call.p.drop call.total).take n }
        let r := c.sendPendingLocked [] false
        (r.1, r.2, .pending { call with total := call.total + n })
      else (c, [], .pending call)

/-- The first critical section of `Write`: the entry checks, then the loop. -/
def writeEntry (c : TcpConn) (p : Bytes) (deadlinePassed : Bool) :
    TcpConn × List TcpSegment × WriteResult :=
  if deadlinePassed then (c, [], .returned 0 (some .deadlineExceeded))
  else
    match c.err with
    | some e => (c, [], .returned 0 (some e))
    | none =>
      if c.finSent then (c, [], .returned 0 (some .writeAfterClose))
      else c.writeSection { p := p, total := 0 } deadlinePassed

/-- The body of `CloseWrite`, which `closeWriteOnce` runs at most once. -/
def closeWriteSection (c : TcpConn) : Outcome :=
  if c.closeWriteOnce then { conn := c }
  else
    let c := { c with closeWriteOnce := true }
    match c.state with
    | .established =>
      let r := c.sendFINLocked []
      { conn := { r.1 with state := .finWait1 }, toSend := r.2 }
    | .closeWait =>
      let r := c.sendFINLocked []
      { conn := { r.1 with state := .lastAck }, toSend := r.2 }
    | _ => { conn := c }

/-- `Close`'s own critical section; in every other state `Close` goes on to call `CloseWrite`. -/
def closeSection (c : TcpConn) : Outcome :=
  if c.state = .synRcvd then { conn := c.teardown (some .writeAfterClose) } else { conn := c }

end TcpConn

end GoVpn.Netstack
