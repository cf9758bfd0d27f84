import GoVpn.Lib.Threads
import GoVpn.Netstack.Udp

/-!
# Calls on one UDP queue

`handlePacket` and `ReadFrom` of one open listener (`udp.go`), cut into their channel operations.
Every attached session has a goroutine that calls `handlePacket`, the application any number that
call `ReadFrom`, and the lock `handlePacket` holds is one that its calls share. So between two
operations of a call the queue may change. A send that meets a waiting `ReadFrom` hands it the
datagram at once; here it is the send, followed by that call's next step.
-/

namespace GoVpn.Netstack

/-- The steps of the two calls. -/
inductive UdpSection
  /-- `handlePacket`: the first `select`. -/
  | send (dgram : UdpDatagram)
  /-- The `select` that takes the oldest datagram. -/
  | evict (dgram : UdpDatagram)
  /-- The `select` after it; whether that one took a datagram is not in the source. -/
  | resend (dgram : UdpDatagram) (evicted : Bool)
  /-- `queueFullDropped.Add(1)`. -/
  | count
  /-- `ReadFrom`: the `select` on the deadline. -/
  | checkDeadline
  /-- The last `select`, which waits. -/
  | receive
  deriving DecidableEq

inductive UdpCall
  | handlePacket (src dst : Addr) (payload : Bytes)
  | readFrom

/-- A listener, and what has become of the datagrams that arrived for its port. -/
structure UdpQueue where
  conn : UdpConn
  queueFullDropped : Nat
  /-- The datagrams that `handlePacket` found the listener for. -/
  arrived : List UdpDatagram := []
  /-- Returned by `ReadFrom`. -/
  returned : List UdpDatagram := []
  /-- The calls that took a datagram and then could not send their own. -/
  lostTwo : Nat := 0
  /-- The calls that took none and then could. -/
  lostNone : Nat := 0

/-- The part of `handlePacket` before the queue: what arrives for `port`, if the packet is in
order. -/
def udpArrival (port : Port) (src dst : Addr) (payload : Bytes) : Option UdpDatagram :=
  match parseUDP payload with
  | .error _ => none
  | .ok seg =>
    let wireChecksum := uint16At payload 6
    let segment := ((payload.take (udpHeaderLen + seg.data.length)).set 6 0).set 7 0
    if wireChecksum ≠ 0 ∧ (udpChecksum src dst segment).toNat ≠ wireChecksum then none
    else if seg.dstPort ≠ port then none
    else some { ip := src, port := seg.srcPort, data := seg.data }

namespace UdpQueue

/-- The queue of a listener that `ListenUDPOptions` has opened, with the counter at `dropped`. -/
def listening (port : Port) (policy : UdpDropPolicy) (depth dropped : Nat) : UdpQueue where
  conn := { port := port, policy := policy, depth := depth }
  queueFullDropped := dropped

def start (q : UdpQueue) : UdpCall → UdpQueue × List UdpSection
  | .handlePacket src dst payload =>
    match udpArrival q.conn.port src dst payload with
    | none => (q, [])
    | some dgram => ({ q with arrived := q.arrived ++ [dgram] }, [.send dgram])
  | .readFrom => (q, [.checkDeadline])

/-- One step of a call; `expired` says that the `select` goes by the deadline. -/
def exec (q : UdpQueue) (sec : UdpSection) (expired : Bool) : UdpQueue × List UdpSection :=
  match sec with
  | .send dgram =>
    match q.conn.trySend dgram with
    | some conn => ({ q with conn := conn }, [])
    | none =>
      match q.conn.policy with
      | .dropOldest => (q, [.evict dgram])
      | .dropNewest => (q, [.count])
  | .evict dgram => ({ q with conn := q.conn.evict }, [.resend dgram (!q.conn.inbound.isEmpty)])
  | .resend dgram evicted =>
    match q.conn.trySend dgram with
    | some conn =>
      ({ q with conn := conn, lostNone := q.lostNone + if evicted then 0 else 1 }, [.count])
    -- the datagram is dropped
    | none => ({ q with lostTwo := q.lostTwo + if evicted then 1 else 0 }, [.count])
  | .count => ({ q with queueFullDropped := q.queueFullDropped + 1 }, [])
  | .checkDeadline => (q, if expired then [] else [.receive])
  | .receive =>
    if expired then (q, [])
    else
      match q.conn.inbound with
      | [] => (q, [.receive])
      | dgram :: rest =>
        ({ q with conn := { q.conn with inbound := rest }, returned := q.returned ++ [dgram] }, [])

end UdpQueue

def udpQueue : Threads.Program UdpQueue UdpSection UdpCall Bool where
  start := UdpQueue.start
  exec := UdpQueue.exec

end GoVpn.Netstack
