import GoVpn.Netstack.TcpWorld

/-!
# The slice expressions of a connection

Go checks the bounds of every slice expression when it is evaluated, and panics if they
do not fit. `TcpConn` cuts lists with `take` and `drop`, which never fail, so the checks
are modelled here: for each function of the connection, the slice expressions it
evaluates, in order and with the values their bounds have at that moment.
-/

namespace GoVpn.Netstack

/-- The evaluation of `b[lo:hi]` for a slice `b` of `len` bytes; `b[lo:]` has `hi = len`. -/
structure Slice where
  lo : Nat
  hi : Nat
  len : Nat
  deriving DecidableEq

def Slice.InRange (s : Slice) : Prop := s.lo ≤ s.hi ∧ s.hi ≤ s.len

instance (s : Slice) : Decidable s.InRange := inferInstanceAs (Decidable (_ ∧ _))

namespace TcpConn

/-- `c.outBuf[amount:]`, in the first half of `handleAckLocked`. -/
def retireSlices (c : TcpConn) (ackNum : Seq) : List Slice :=
  if c.sentBytes > 0 ∧ seqGT ackNum c.sndUna then
    let maxCovered := c.sndUna + BitVec.ofNat 32 c.sentBytes
    let covered := if seqGT ackNum maxCovered then maxCovered else ackNum
    let amount := (covered - c.sndUna).toNat
    if amount > 0 then [⟨amount, c.outBuf.length, c.outBuf.length⟩] else []
  else []

/-- `c.outBuf[c.sentBytes:c.sentBytes+chunk]`, in each iteration of the send loop. -/
def sendLoopSlices (limit : Nat) (forceProbe : Bool) : Nat → TcpConn → List Slice
  | 0, _ => []
  | fuel + 1, c =>
    if c.sentBytes < limit ∧ c.sentBytes < c.outBuf.length then
      let chunk := c.nextChunk limit
      if chunk = 0 then []
      else
        ⟨c.sentBytes, c.sentBytes + chunk, c.outBuf.length⟩
          :: (if forceProbe then []
              else sendLoopSlices limit forceProbe fuel { c with sentBytes := c.sentBytes + chunk })
    else []

def sendPendingSlices (c : TcpConn) (forceProbe : Bool) : List Slice :=
  let limit := c.allowedInFlightLocked
  let unsent := c.outBuf.length - c.sentBytes
  if limit = 0 then
    if !forceProbe || c.sentBytes ≥ c.outBuf.length then []
    else sendLoopSlices (c.sentBytes + 1) forceProbe unsent c
  else sendLoopSlices limit forceProbe unsent c

def handleAckSlices (c : TcpConn) (seg : TcpSegment) : List Slice :=
  if !seg.has flagACK then []
  else
    c.retireSlices seg.ack
      ++ (((c.retireData seg.ack).retireFIN seg.ack).updateWindow seg).sendPendingSlices false

/-- `seg.payload[:accept]`, for the in-order segment of `handleEstablishedDataLocked`. -/
def dataSlices (c : TcpConn) (seg : TcpSegment) : List Slice :=
  if seg.seq = c.rcvNxt ∧ c.admitted seg.payload.length > 0 then
    [⟨0, c.admitted seg.payload.length, seg.payload.length⟩]
  else []

def handleSegmentSlices (c : TcpConn) (seg : TcpSegment) : List Slice :=
  if seg.has flagRST then []
  else
    match c.state with
    | .synRcvd =>
      if !seg.has flagACK || seg.ack != c.sndUna + 1 then []
      else
        { c with sndUna := seg.ack, state := .established,
                 rtoTimer := .stopped, timerArmed := false }.dataSlices seg
    | .established | .finWait1 | .finWait2 =>
      c.handleAckSlices seg ++ (c.handleAckLocked seg []).1.dataSlices seg
    | .closing | .closeWait | .lastAck => c.handleAckSlices seg
    | .timeWait | .listen | .closed => []

/-- `c.outBuf[:chunk]` of a retransmission, or those of a window probe. -/
def onRTOFiredSlices (c : TcpConn) : List Slice :=
  if c.state = .closed ∨ c.inTimeWait = true ∨ c.state = .synRcvd then []
  else if c.sentBytes > 0 then
    if c.retransmitCount + 1 > maxRetransmits then []
    else [⟨0, min c.sentBytes c.sndMSS, c.outBuf.length⟩]
  else if c.finSent && !c.finAcked then []
  else if c.sndWnd = 0 ∧ c.outBuf.length > c.sentBytes then
    if c.persistProbeCount + 1 > maxPersistProbes then []
    else { c with persistProbeCount := c.persistProbeCount + 1 }.sendPendingSlices true
  else []

/-- `c.recvBuf[n:]`, where `n` bytes have been copied into a buffer of `size`. -/
def readSlices (c : TcpConn) (size : Nat) (deadlinePassed : Bool) : List Slice :=
  if deadlinePassed then []
  else if c.recvBuf ≠ [] then [⟨min size c.recvBuf.length, c.recvBuf.length, c.recvBuf.length⟩]
  else []

/-- `p[total:total+capacity]`, and what pushing the bytes evaluates. -/
def writeSlices (c : TcpConn) (call : WriteCall) (deadlinePassed : Bool) : List Slice :=
  if call.total ≥ call.p.length ∨ deadlinePassed = true ∨ c.err.isSome = true then []
  else if c.outBuf.length < maxInFlightBytes then
    let n := c.capacity call
    ⟨call.total, call.total + n, call.p.length⟩
      :: { c with outBuf := c.outBuf ++ (call.p.drop call.total).take n }.sendPendingSlices false
  else []

end TcpConn

namespace World

/-- The slice expressions that an action evaluates. -/
def slices (w : World) : Action → List Slice
  | .segment seg => w.conn.handleSegmentSlices seg
  | .rtoFired => w.conn.onRTOFiredSlices
  | .write p d =>
    if w.accepted ∧ !w.conn.finSent then w.conn.writeSlices { p := p, total := 0 } d else []
  | .resumeWrite i d =>
    match w.writers[i]? with
    | some call => if w.accepted then w.conn.writeSlices call d else []
    | none => []
  | .read n d => if w.accepted then w.conn.readSlices n d else []
  | .detached | .abort | .closeWrite | .close => []

end World

end GoVpn.Netstack
