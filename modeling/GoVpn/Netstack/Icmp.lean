import GoVpn.Netstack.Udp

/-!
# ICMP

`handleICMP` (`icmp.go`): an echo request is answered, and nothing else is.
-/

namespace GoVpn.Netstack

def icmpTypeEchoRequest : UInt8 := 8
def icmpTypeEchoReply : UInt8 := 0
def minICMPHeaderLen : Nat := 8

/-- `Stack`, with the counters of echoes. -/
structure IcmpStack extends UdpStack where
  icmpEchoRequests : Nat := 0
  icmpEchoReplies : Nat := 0

/-- The message that answers an echo request: its type is changed and its checksum is new. -/
def echoReply (icmpMsg : Bytes) : Bytes :=
  let out := ((icmpMsg.set 0 icmpTypeEchoReply).set 2 0).set 3 0
  putUint16 out 2 (internetChecksum out).toNat

/-- `handleICMP`: the stack afterwards, and what was written to the session. -/
def IcmpStack.handleICMP (s : IcmpStack) (accepts : Nat → Bool) (hdr : Ipv4Header)
    (icmpMsg : Bytes) : IcmpStack × List Bytes :=
  if icmpMsg.length < minICMPHeaderLen then
    ({ s with stats := { s.stats with malformedDropped := s.stats.malformedDropped + 1 } }, [])
  else if byteAt icmpMsg 0 ≠ icmpTypeEchoRequest then (s, [])
  else
    let s := { s with icmpEchoRequests := s.icmpEchoRequests + 1 }
    let reply := buildIPv4 s.serverIP hdr.src protocolICMP (echoReply icmpMsg)
    let r := s.toUdpStack.writePacket accepts reply
    let s := { s with toUdpStack := r.stack }
    match r.err with
    | some _ => (s, r.writes)
    | none => ({ s with icmpEchoReplies := s.icmpEchoReplies + 1 }, r.writes)

end GoVpn.Netstack
