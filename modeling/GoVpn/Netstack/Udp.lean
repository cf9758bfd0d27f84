import Mathlib.Data.List.AList
import GoVpn.Lib.Run
import GoVpn.Netstack.Frame
import GoVpn.Netstack.Stack

/-!
# UDP

`parseUDP`, the port demux and the `net.PacketConn` of a listener (`udp.go`), together with
the way of a packet out of the stack and into it (`writePacket` and `deliver`, `stack.go`).
Each function runs as one step here: no other goroutine is at the same queue meanwhile.
-/

namespace GoVpn.Netstack

def udpQueueDepth : Nat := 64
def maxUDPPayload : Nat := 65507

/-! ## Parsing -/

inductive UdpParseErr
  | headerTooShort | badLength
  deriving DecidableEq

/-- What `parseUDP` returns. -/
structure UdpSegment where
  srcPort : Port
  dstPort : Port
  data : Bytes
  deriving DecidableEq

def parseUDP (payload : Bytes) : Except UdpParseErr UdpSegment :=
  if payload.length < udpHeaderLen then .error .headerTooShort
  else
    let length := uint16At payload 4
    if length < udpHeaderLen ∨ length > payload.length then .error .badLength
    else
      .ok { srcPort := BitVec.ofNat 16 (uint16At payload 0)
            dstPort := BitVec.ofNat 16 (uint16At payload 2)
            data := slice payload udpHeaderLen length }

/-! ## Listeners -/

/-- `UDPDropPolicy`; the source's third error of `ListenUDPOptions` is for a value that is
neither. -/
inductive UdpDropPolicy
  | dropNewest | dropOldest
  deriving DecidableEq

/-- `udpDatagram`: the sender's address and the payload. -/
structure UdpDatagram where
  ip : Addr
  port : Port
  data : Bytes
  deriving DecidableEq

structure UdpConn where
  port : Port
  policy : UdpDropPolicy := .dropNewest
  inbound : List UdpDatagram := []
  /-- The capacity of `inbound`. -/
  depth : Nat := udpQueueDepth
  closed : Bool := false
  /-- The channel of `writeDeadline` is closed. -/
  writeExpired : Bool := false
  deriving DecidableEq

namespace UdpConn

/-- A send to `inbound` with a `default` case. -/
def trySend (c : UdpConn) (dgram : UdpDatagram) : Option UdpConn :=
  if c.inbound.length < c.depth then some { c with inbound := c.inbound ++ [dgram] } else none

/-- A receive from `inbound` with a `default` case. -/
def evict (c : UdpConn) : UdpConn := { c with inbound := c.inbound.tail }

/-- The end of `handlePacket`, and whether a datagram was lost to a full queue. -/
def enqueue (c : UdpConn) (dgram : UdpDatagram) : UdpConn × Bool :=
  match c.trySend dgram with
  | some c => (c, false)
  | none =>
    match c.policy with
    | .dropOldest => ((c.evict.trySend dgram).getD c.evict, true)
    | .dropNewest => (c, true)

end UdpConn

structure UdpDemux where
  ports : AList (fun _ : Port => UdpConn) := ∅
  noListenerDropped : Nat := 0
  badChecksumDropped : Nat := 0
  queueFullDropped : Nat := 0

/-- `Stack`, with what UDP reads of it on the way out. -/
structure UdpStack extends Stack where
  mtu : Nat
  ipID : BitVec 32 := 0
  /-- The keys of `routes`: the addresses that have an attachment. -/
  routes : List Addr := []
  /-- What `udpHandler` points to, once it is registered. -/
  demux : UdpDemux := {}
  outboundSourceDropped : Nat := 0
  outboundFragmented : Nat := 0

structure UdpOptions where
  queueDepth : Int := 0
  dropPolicy : UdpDropPolicy := .dropNewest

inductive UdpListenErr
  | portZero | invalidQueueDepth | portInUse
  deriving DecidableEq

namespace UdpStack

/-- `ListenUDPOptions`; the demux is registered even if the port is taken. -/
def listenUDPOptions (s : UdpStack) (port : Port) (opts : UdpOptions) :
    UdpStack × Except UdpListenErr UdpConn :=
  if port = 0 then (s, .error .portZero)
  else if opts.queueDepth < 0 then (s, .error .invalidQueueDepth)
  else
    let depth := if opts.queueDepth = 0 then udpQueueDepth else opts.queueDepth.toNat
    let s := { s with udpHandler := true }
    if (s.demux.ports.lookup port).isSome then (s, .error .portInUse)
    else
      let conn : UdpConn := { port := port, policy := opts.dropPolicy, depth := depth }
      ({ s with demux := { s.demux with ports := s.demux.ports.insert port conn } }, .ok conn)

/-! ## The way in -/

/-- `handlePacket`. A checksum field of zero says that there is no checksum. -/
def handlePacket (s : UdpStack) (src dst : Addr) (payload : Bytes) : UdpStack :=
  match parseUDP payload with
  | .error _ =>
    { s with stats := { s.stats with malformedDropped := s.stats.malformedDropped + 1 } }
  | .ok seg =>
    let wireChecksum := uint16At payload 6
    let segment := ((payload.take (udpHeaderLen + seg.data.length)).set 6 0).set 7 0
    if wireChecksum ≠ 0 ∧ (udpChecksum src dst segment).toNat ≠ wireChecksum then
      { s with demux := { s.demux with badChecksumDropped := s.demux.badChecksumDropped + 1 } }
    else
      match s.demux.ports.lookup seg.dstPort with
      | none =>
        { s with demux := { s.demux with noListenerDropped := s.demux.noListenerDropped + 1 } }
      | some conn =>
        let r := conn.enqueue { ip := src, port := seg.srcPort, data := seg.data }
        { s with demux := { s.demux with
            ports := s.demux.ports.insert seg.dstPort r.1
            queueFullDropped := s.demux.queueFullDropped + if r.2 then 1 else 0 } }

/-- The handler that `deliver` has chosen, if it is the UDP demux. -/
def handle (s : UdpStack) : Option HandlerCall → UdpStack
  | some { handler := .udp, src, dst, payload } => s.handlePacket src dst payload
  | _ => s

/-! ## The way out -/

/-- A call's `sess.Write`s, in order: what was written before one failed, and whether none did. -/
def writeAll (accepts : Nat → Bool) : Nat → List Bytes → List Bytes × Bool
  | _, [] => ([], true)
  | k, pkt :: pkts =>
    if accepts k then
      let r := writeAll accepts (k + 1) pkts
      (pkt :: r.1, r.2)
    else ([], false)

inductive UdpWriteErr
  | closed | deadlineExceeded | invalidAddr | payloadTooLarge | noRoute
  | ipv4 (e : Ipv4Err) | outboundSourceMismatch
  /-- What the session's `Write` has returned. -/
  | session
  deriving DecidableEq

/-- What `writePacket` leaves behind. -/
structure Wrote where
  stack : UdpStack
  writes : List Bytes := []
  err : Option UdpWriteErr := none

/-- `writePacket`; `accepts k` is whether the session takes write number `k` of the call. -/
def writePacket (s : UdpStack) (accepts : Nat → Bool) (pkt : Bytes) : Wrote :=
  match parseIPv4 pkt with
  | .error e => { stack := s, err := some (.ipv4 e) }
  | .ok hdr =>
    if hdr.src ≠ s.serverIP then
      { stack := { s with outboundSourceDropped := s.outboundSourceDropped + 1 }
        err := some .outboundSourceMismatch }
    else if hdr.totalLen ≤ s.mtu then
      let r := writeAll accepts 0 [pkt]
      { stack := s, writes := r.1, err := if r.2 then none else some .session }
    else
      let s := { s with ipID := s.ipID + 1 }
      let frags := fragmentIPv4 hdr pkt s.mtu (s.ipID.setWidth 16)
      if frags.isEmpty then { stack := s, err := some (.ipv4 .badFragment) }
      else
        let r := writeAll accepts 0 frags
        { stack := { s with outboundFragmented := s.outboundFragmented + 1 }
          writes := r.1
          err := if r.2 then none else some .session }

end UdpStack

/-- A `*net.UDPAddr`: `ip` is `none` if the address is none, or has no IPv4 address. -/
structure UdpAddr where
  ip : Option Addr
  port : Int

/-- `WriteTo`: what is sent, and the count or the error it returns. -/
def UdpConn.writeTo (c : UdpConn) (s : UdpStack) (accepts : Nat → Bool) (p : Bytes)
    (addr : UdpAddr) : UdpStack.Wrote × Except UdpStack.UdpWriteErr Nat :=
  if c.closed then ({ stack := s }, .error .closed)
  else if c.writeExpired then ({ stack := s }, .error .deadlineExceeded)
  else
    match addr.ip with
    | none => ({ stack := s }, .error .invalidAddr)
    | some dstAddr =>
      if p.length > maxUDPPayload then ({ stack := s }, .error .payloadTooLarge)
      else if !s.routes.contains dstAddr then ({ stack := s }, .error .noRoute)
      else
        let datagram := buildUDP s.serverIP dstAddr c.port (BitVec.ofInt 16 addr.port) p
        let pkt := buildIPv4 s.serverIP dstAddr protocolUDP datagram
        let r := s.writePacket accepts pkt
        match r.err with
        | some e => (r, .error e)
        | none => (r, .ok p.length)

/-! ## A stack with one attachment -/

/-- A stack and the attachment that packets arrive at. -/
structure UdpTunnel where
  stack : UdpStack
  attachment : Attachment

/-- `deliver`, and the handler it calls. -/
def UdpTunnel.deliver (t : UdpTunnel) (arrival : Int × Bytes) : UdpTunnel :=
  let r := t.stack.toStack.deliver t.attachment arrival.1 arrival.2
  { stack := ({ t.stack with toStack := r.stack } : UdpStack).handle r.call
    attachment := r.attachment }

/-- Packets arrive one after the other. -/
def UdpTunnel.deliverAll (t : UdpTunnel) (arrivals : List (Int × Bytes)) : UdpTunnel :=
  Machine.run UdpTunnel.deliver t arrivals

end GoVpn.Netstack
