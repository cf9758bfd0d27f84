import GoVpn.Lib.Run
import GoVpn.Netstack.Reassembly

/-!
# From a session to the protocol handlers

`deliver` and `dispatch` (`stack.go`) for one attachment: parse, compare source and
destination, reassemble, and hand the datagram to a handler. What a handler does with
it is not this module's concern; its invocation is the output.
-/

namespace GoVpn.Netstack

/-- The protocol handlers `dispatch` chooses between. -/
inductive Handler
  | icmp | udp | tcp
  deriving DecidableEq

/-- One invocation of a handler. -/
structure HandlerCall where
  handler : Handler
  src : Addr
  dst : Addr
  payload : Bytes
  deriving DecidableEq

/-- The counters of `stats` that the inbound path touches. -/
structure StackStats where
  packetsReceived : Nat := 0
  malformedDropped : Nat := 0
  spoofedSourceDropped : Nat := 0
  wrongDestinationDropped : Nat := 0
  reassemblyTimeouts : Nat := 0
  fragmentsReassembled : Nat := 0
  reassemblyBoundExceeded : Nat := 0
  fragmentsDropped : Nat := 0
  unhandledProtocolDropped : Nat := 0
  deriving DecidableEq

/-- The part of `Stack` that the inbound path reads. -/
structure Stack where
  serverIP : Addr
  /-- `udpHandler` and `tcpHandler` are not nil. -/
  udpHandler : Bool := false
  tcpHandler : Bool := false
  stats : StackStats := {}
  deriving DecidableEq

/-- The part of `attachment` that the inbound path reads. -/
structure Attachment where
  ip : Addr
  reasm : Reassembler

/-- What `deliver` leaves behind. -/
structure Delivered where
  stack : Stack
  attachment : Attachment
  call : Option HandlerCall := none

namespace Stack

/-- `dispatch`: which handler gets a complete datagram, and with what. -/
def dispatch (s : Stack) (hdr : Ipv4Header) (pkt : Bytes) : Stack × Option HandlerCall :=
  let payload := slice pkt hdr.payloadOff hdr.totalLen
  let unhandled := { s with stats := { s.stats with
    unhandledProtocolDropped := s.stats.unhandledProtocolDropped + 1 } }
  let call (h : Handler) : Option HandlerCall :=
    some { handler := h, src := hdr.src, dst := hdr.dst, payload := payload }
  if hdr.protocol = protocolICMP then (s, call .icmp)
  else if hdr.protocol = protocolUDP then if s.udpHandler then (s, call .udp) else (unhandled, none)
  else if hdr.protocol = protocolTCP then if s.tcpHandler then (s, call .tcp) else (unhandled, none)
  else (unhandled, none)

/-- The rest of `deliver` for a fragment that has passed both checks. -/
def deliverFragment (s : Stack) (a : Attachment) (now : Int) (hdr : Ipv4Header) (pkt : Bytes) :
    Delivered :=
  let added := a.reasm.add now hdr pkt
  let a := { a with reasm := added.1 }
  let s := { s with stats := { s.stats with
    reassemblyTimeouts := s.stats.reassemblyTimeouts + added.2.expired } }
  match added.2.outcome, added.2.datagram with
  | .complete, some datagram =>
    match parseIPv4 datagram with
    | .error _ =>
      { attachment := a
        stack := { s with stats := { s.stats with
          malformedDropped := s.stats.malformedDropped + 1 } } }
    | .ok whole =>
      let s := { s with stats := { s.stats with
        fragmentsReassembled := s.stats.fragmentsReassembled + 1 } }
      let r := s.dispatch whole datagram
      { stack := r.1, attachment := a, call := r.2 }
  | .boundExceeded, _ =>
    { attachment := a
      stack := { s with stats := { s.stats with
        reassemblyBoundExceeded := s.stats.reassemblyBoundExceeded + 1 } } }
  | .duplicate, _ | .conflict, _ | .closed, _ =>
    { attachment := a
      stack := { s with stats := { s.stats with
        fragmentsDropped := s.stats.fragmentsDropped + 1 } } }
  | _, _ => { stack := s, attachment := a }

def deliver (s : Stack) (a : Attachment) (now : Int) (pkt : Bytes) : Delivered :=
  let s := { s with stats := { s.stats with packetsReceived := s.stats.packetsReceived + 1 } }
  match parseIPv4 pkt with
  | .error _ =>
    { attachment := a
      stack := { s with stats := { s.stats with
        malformedDropped := s.stats.malformedDropped + 1 } } }
  | .ok hdr =>
    if hdr.src ≠ a.ip then
      { attachment := a
        stack := { s with stats := { s.stats with
          spoofedSourceDropped := s.stats.spoofedSourceDropped + 1 } } }
    else if hdr.dst ≠ s.serverIP then
      { attachment := a
        stack := { s with stats := { s.stats with
          wrongDestinationDropped := s.stats.wrongDestinationDropped + 1 } } }
    else if hdr.isFragment then s.deliverFragment a now hdr pkt
    else
      let r := s.dispatch hdr pkt
      { stack := r.1, attachment := a, call := r.2 }

end Stack

/-! ## The life of an attachment -/

/-- What happens to an attachment. -/
inductive TunnelEvent
  /-- Its read loop delivers a packet. -/
  | deliver (now : Int) (pkt : Bytes)
  | stop
  /-- A handler is registered with the stack. -/
  | register (h : Handler)

/-- A stack and one of its attachments. -/
structure Tunnel where
  stack : Stack
  attachment : Attachment

namespace Tunnel

def attach (s : Stack) (ip : Addr) (limits : ReassemblyLimits) : Tunnel where
  stack := s
  attachment := { ip := ip, reasm := { limits := limits } }

def step (t : Tunnel) : TunnelEvent → Tunnel
  | .deliver now pkt =>
    let r := t.stack.deliver t.attachment now pkt
    { stack := r.stack, attachment := r.attachment }
  | .stop => { t with attachment := { t.attachment with reasm := t.attachment.reasm.discardAll } }
  | .register .icmp => t
  | .register .udp => { t with stack := { t.stack with udpHandler := true } }
  | .register .tcp => { t with stack := { t.stack with tcpHandler := true } }

end Tunnel

end GoVpn.Netstack
