import GoVpn.Netstack.Udp
import GoVpn.Proof.FragmentArrival
import GoVpn.Proof.TunnelAcl

/-!
# A datagram from one stack to another

`WriteTo` builds a UDP segment and an IPv4 packet around the payload, and cuts the packet up
if it is larger than the MTU. On the other side the packets go through the reassembler, the
two parsers, the checksum and the port table. What ends up in the listener's queue is the
payload that was written, once, and nothing else of the demux has changed.
-/

namespace GoVpn.Netstack

/-! ## The segment -/

section Segment

variable (src dst : Addr) (srcPort dstPort : Port) {p : Bytes}

theorem parseUDP_buildUDP (hp : p.length ≤ maxUDPPayload) :
    parseUDP (buildUDP src dst srcPort dstPort p)
      = .ok { srcPort := srcPort, dstPort := dstPort, data := p } := by
  unfold maxUDPPayload at hp
  have hlen := length_buildUDP src dst srcPort dstPort p
  have hfield := udpLength_buildUDP src dst srcPort dstPort p (by unfold udpHeaderLen; omega)
  have hdata : slice (buildUDP src dst srcPort dstPort p) udpHeaderLen (udpHeaderLen + p.length) =
      p := by
    rw [slice, ← hlen, List.take_length, drop_buildUDP]
  unfold parseUDP
  rw [if_neg (by omega), hfield, if_neg (by omega), srcPort_buildUDP, dstPort_buildUDP, hdata]

/-- The demux after `dgram` was queued at the listener `l`. -/
def UdpDemux.queued (d : UdpDemux) (port : Port) (l : UdpConn) (dgram : UdpDatagram) : UdpDemux :=
  { d with ports := d.ports.insert port { l with inbound := l.inbound ++ [dgram] } }

theorem UdpStack.handlePacket_buildUDP (s : UdpStack) {l : UdpConn} (hp : p.length ≤ maxUDPPayload)
    (hl : s.demux.ports.lookup dstPort = some l) (hspace : l.inbound.length < l.depth) :
    s.handlePacket src dst (buildUDP src dst srcPort dstPort p)
      = { s with demux := s.demux.queued dstPort l { ip := src, port := srcPort, data := p } } := by
  have hlen := length_buildUDP src dst srcPort dstPort p
  have hsent : l.enqueue { ip := src, port := srcPort, data := p }
      = ({ l with inbound := l.inbound ++ [{ ip := src, port := srcPort, data := p }] },
        false) := by
    unfold UdpConn.enqueue UdpConn.trySend
    rw [if_pos hspace]
  unfold handlePacket
  rw [parseUDP_buildUDP src dst srcPort dstPort hp]
  dsimp only
  rw [← hlen, List.take_length, blank_buildUDP, checksum_buildUDP,
    if_neg (fun hbad => hbad.2 rfl), hl]
  dsimp only
  rw [hsent]
  rfl

end Segment

/-! ## Sending -/

/-- Nothing keeps `WriteTo` from sending `p` to `dst`, on a stack with a valid MTU. -/
structure CanWrite (w : UdpStack) (c : UdpConn) (accepts : Nat → Bool) (dst : Addr) (p : Bytes) :
    Prop where
  isOpen : c.closed = false
  inTime : c.writeExpired = false
  size : p.length ≤ maxUDPPayload
  route : w.routes.contains dst = true
  minMtu : minMTU ≤ w.mtu
  maxMtu : w.mtu ≤ maxMTU
  accepted : ∀ k, accepts k = true

/-- The segment that carries `p`. -/
def UdpConn.segment (c : UdpConn) (w : UdpStack) (dst : Addr) (port : Port) (p : Bytes) : Bytes :=
  buildUDP w.serverIP dst c.port port p

/-- The packet that carries `p`, before it is cut up. -/
def UdpConn.packet (c : UdpConn) (w : UdpStack) (dst : Addr) (port : Port) (p : Bytes) : Bytes :=
  buildIPv4 w.serverIP dst protocolUDP (c.segment w dst port p)

/-- The address of a peer. -/
def peerAddr (dst : Addr) (port : Port) : UdpAddr := { ip := some dst, port := port.toNat }

theorem UdpStack.writeAll_eq {accepts : Nat → Bool} (h : ∀ k, accepts k = true) (pkts : List Bytes)
    (k : Nat) : writeAll accepts k pkts = (pkts, true) := by
  induction pkts generalizing k with
  | nil => rfl
  | cons pkt pkts ih =>
    unfold writeAll
    rw [if_pos (h k), ih]

namespace CanWrite

variable {w : UdpStack} {c : UdpConn} {accepts : Nat → Bool} {dst : Addr} {p : Bytes}

theorem length_segment (port : Port) : (c.segment w dst port p).length = udpHeaderLen + p.length :=
  length_buildUDP _ _ _ _ _

section

variable (h : CanWrite w c accepts dst p)

include h

theorem parsed (port : Port) :
    parseIPv4 (c.packet w dst port p)
      = .ok (plainHeader w.serverIP dst protocolUDP (udpHeaderLen + p.length)) := by
  have hsize := h.size
  unfold maxUDPPayload at hsize
  have hparse := parseIPv4_buildIPv4 w.serverIP dst protocolUDP (c.segment w dst port p) (by
    rw [length_segment]
    unfold minIPv4HeaderLen udpHeaderLen maxIPv4Datagram
    omega)
  rw [length_segment] at hparse
  exact hparse

theorem writeTo_eq (port : Port)
    (hok : (w.writePacket accepts (c.packet w dst port p)).err = none) :
    c.writeTo w accepts p (peerAddr dst port)
      = (w.writePacket accepts (c.packet w dst port p), .ok p.length) := by
  have hport : BitVec.ofInt 16 (peerAddr dst port).port = port := by
    show BitVec.ofInt 16 ((port.toNat : Nat) : Int) = port
    rw [BitVec.ofInt_natCast, BitVec.ofNat_toNat, BitVec.setWidth_eq]
  have hpkt : buildIPv4 w.serverIP dst protocolUDP
      (buildUDP w.serverIP dst c.port (BitVec.ofInt 16 (peerAddr dst port).port) p)
        = c.packet w dst port p := by
    rw [hport]
    rfl
  unfold UdpConn.writeTo
  rw [h.isOpen, h.inTime]
  dsimp only [peerAddr] at hpkt ⊢
  rw [if_neg (by decide), if_neg (by decide), if_neg (Nat.not_lt.mpr h.size), h.route,
    if_neg (by decide), hpkt, hok]

theorem writePacket_whole (port : Port)
    (hfits : minIPv4HeaderLen + (udpHeaderLen + p.length) ≤ w.mtu) :
    w.writePacket accepts (c.packet w dst port p)
      = { stack := w, writes := [c.packet w dst port p], err := none } := by
  unfold UdpStack.writePacket
  rw [h.parsed port]
  dsimp only
  rw [if_neg (fun hne => hne rfl), if_pos (show (plainHeader _ _ _ _).totalLen ≤ _ from hfits),
    UdpStack.writeAll_eq h.accepted]
  rfl

/-- The identification of the next datagram that is cut up. -/
def nextID (w : UdpStack) : BitVec 16 := (w.ipID + 1).setWidth 16

/-- A packet that does not fit. -/
def large (h : CanWrite w c accepts dst p) (port : Port)
    (hlarge : w.mtu < minIPv4HeaderLen + (udpHeaderLen + p.length)) :
    Datagram { val := w.mtu, min := h.minMtu, max := h.maxMtu } where
  pkt := c.packet w dst port p
  hdr := plainHeader w.serverIP dst protocolUDP (udpHeaderLen + p.length)
  parsed := h.parsed port
  whole := rfl
  large := hlarge
  id := nextID w

theorem payload_large (port : Port)
    (hlarge : w.mtu < minIPv4HeaderLen + (udpHeaderLen + p.length)) :
    (h.large port hlarge).payload = c.segment w dst port p := by
  show slice (c.packet w dst port p) minIPv4HeaderLen
    (minIPv4HeaderLen + (udpHeaderLen + p.length)) = _
  have hlen : (c.packet w dst port p).length = minIPv4HeaderLen + (udpHeaderLen + p.length) := by
    rw [← length_segment port]
    exact length_buildIPv4 ..
  rw [slice, ← hlen, List.take_length]
  exact drop_buildIPv4 ..

theorem writePacket_large (port : Port)
    (hlarge : w.mtu < minIPv4HeaderLen + (udpHeaderLen + p.length)) :
    w.writePacket accepts (c.packet w dst port p)
      = { stack := { w with ipID := w.ipID + 1, outboundFragmented := w.outboundFragmented + 1 }
          writes := (h.large port hlarge).frags
          err := none } := by
  have hfrags : (h.large port hlarge).frags.isEmpty = false := by
    have hpos := Nat.lt_of_le_of_lt (Nat.zero_le _) (h.large port hlarge).maxData_lt
    have hlt := Nat.lt_of_le_of_lt (Nat.zero_le _) ((h.large port hlarge).div_lt_length_frags hpos)
    rw [← Bool.not_eq_true, List.isEmpty_iff_length_eq_zero]
    omega
  unfold UdpStack.writePacket
  rw [h.parsed port]
  dsimp only
  rw [if_neg (fun hne => hne rfl),
    if_neg (show ¬ (plainHeader _ _ _ _).totalLen ≤ _ from Nat.not_le.mpr hlarge)]
  show (if (h.large port hlarge).frags.isEmpty then _ else _) = _
  rw [hfrags, if_neg (by decide), UdpStack.writeAll_eq h.accepted]
  rfl

end

end CanWrite

/-! ## Receiving -/

/-- The stack takes packets from `src` and has a listener on `port` with space in its queue. -/
structure CanQueue (t : UdpTunnel) (src dst : Addr) (port : Port) (l : UdpConn) : Prop where
  server : t.stack.serverIP = dst
  client : t.attachment.ip = src
  registered : t.stack.udpHandler = true
  listening : t.stack.demux.ports.lookup port = some l
  space : l.inbound.length < l.depth

namespace Stack

variable {a : Attachment} {hdr : Ipv4Header} {s : Stack}

theorem dispatch_udp (pkt : Bytes) (hreg : s.udpHandler = true)
    (hproto : hdr.protocol = protocolUDP) :
    s.dispatch hdr pkt
      = (s, some ⟨.udp, hdr.src, hdr.dst, slice pkt hdr.payloadOff hdr.totalLen⟩) := by
  unfold dispatch
  rw [hproto, if_neg (by decide), if_pos rfl, if_pos hreg]

theorem deliver_whole (now : Int) {pkt : Bytes} (hparse : parseIPv4 pkt = .ok hdr)
    (hsrc : hdr.src = a.ip) (hdst : hdr.dst = s.serverIP) (hwhole : hdr.isFragment = false) :
    ∃ stats, s.deliver a now pkt
      = { stack := (({ s with stats := stats } : Stack).dispatch hdr pkt).1
          attachment := a
          call := (({ s with stats := stats } : Stack).dispatch hdr pkt).2 } := by
  refine ⟨{ s.stats with packetsReceived := s.stats.packetsReceived + 1 }, ?_⟩
  unfold deliver
  rw [hparse]
  dsimp only
  rw [if_neg (fun h => h hsrc), if_neg (fun h => h hdst), hwhole, if_neg (by decide)]

theorem deliver_fragment (now : Int) (f : Fragment) (hsrc : f.hdr.src = a.ip)
    (hdst : f.hdr.dst = s.serverIP) :
    ∃ stats, s.deliver a now f.pkt
      = ({ s with stats := stats } : Stack).deliverFragment a now f.hdr f.pkt := by
  refine ⟨{ s.stats with packetsReceived := s.stats.packetsReceived + 1 }, ?_⟩
  unfold deliver
  rw [f.parsed]
  dsimp only
  rw [if_neg (fun h => h hsrc), if_neg (fun h => h hdst), f.fragment, if_pos rfl]

theorem deliverFragment_incomplete {now : Int} {pkt : Bytes}
    (ho : (a.reasm.add now hdr pkt).2.outcome ≠ .complete) :
    ∃ stats, s.deliverFragment a now hdr pkt
      = { stack := { s with stats := stats }
          attachment := { a with reasm := (a.reasm.add now hdr pkt).1 } } := by
  unfold deliverFragment
  dsimp only
  split
  · rename_i hc _
    exact absurd hc ho
  all_goals exact ⟨_, rfl⟩

theorem deliverFragment_complete {now : Int} {whole : Ipv4Header} {pkt datagram : Bytes}
    (ho : (a.reasm.add now hdr pkt).2.outcome = .complete)
    (hd : (a.reasm.add now hdr pkt).2.datagram = some datagram)
    (hparse : parseIPv4 datagram = .ok whole) :
    ∃ stats, s.deliverFragment a now hdr pkt
      = { stack := (({ s with stats := stats } : Stack).dispatch whole datagram).1
          attachment := { a with reasm := (a.reasm.add now hdr pkt).1 }
          call := (({ s with stats := stats } : Stack).dispatch whole datagram).2 } := by
  refine ⟨{ s.stats with
    reassemblyTimeouts := s.stats.reassemblyTimeouts + (a.reasm.add now hdr pkt).2.expired
    fragmentsReassembled := s.stats.fragmentsReassembled + 1 }, ?_⟩
  unfold deliverFragment
  dsimp only
  rw [ho, hd]
  dsimp only
  rw [hparse]

end Stack

namespace UdpTunnel

section Arrivals

variable {t : UdpTunnel} {src dst : Addr} {srcPort port : Port} {l : UdpConn} {p : Bytes}

theorem dispatch_queued (hq : CanQueue t src dst port l) (hp : p.length ≤ maxUDPPayload)
    (stats : StackStats) {hdr : Ipv4Header} {pkt : Bytes} (hproto : hdr.protocol = protocolUDP)
    (hsrc : hdr.src = src) (hdst : hdr.dst = dst)
    (hbody : slice pkt hdr.payloadOff hdr.totalLen = buildUDP src dst srcPort port p) :
    let r := ({ t.stack.toStack with stats := stats } : Stack).dispatch hdr pkt
    (({ t.stack with toStack := r.1 } : UdpStack).handle r.2).demux
      = t.stack.demux.queued port l { ip := src, port := srcPort, data := p } := by
  intro r
  have hr : r = ({ t.stack.toStack with stats := stats },
      some ⟨.udp, src, dst, buildUDP src dst srcPort port p⟩) := by
    rw [← hbody]
    subst hsrc hdst
    exact Stack.dispatch_udp pkt hq.registered hproto
  rw [hr]
  have hdone := UdpStack.handlePacket_buildUDP src dst srcPort port
    { t.stack with toStack := { t.stack.toStack with stats := stats } } hp hq.listening hq.space
  exact congrArg UdpStack.demux hdone

theorem deliver_packet (hq : CanQueue t src dst port l) (hp : p.length ≤ maxUDPPayload)
    (now : Int) :
    (t.deliver (now, buildIPv4 src dst protocolUDP (buildUDP src dst srcPort port p))).stack.demux
      = t.stack.demux.queued port l { ip := src, port := srcPort, data := p } := by
  have hlen := length_buildUDP src dst srcPort port p
  have hfits : minIPv4HeaderLen + (buildUDP src dst srcPort port p).length ≤ maxIPv4Datagram := by
    unfold maxUDPPayload at hp
    unfold minIPv4HeaderLen maxIPv4Datagram
    unfold udpHeaderLen at hlen
    omega
  have hparse := parseIPv4_buildIPv4 src dst protocolUDP (buildUDP src dst srcPort port p) hfits
  have hbody : slice
    (buildIPv4 src dst protocolUDP (buildUDP src dst srcPort port p)) minIPv4HeaderLen
      (minIPv4HeaderLen + (buildUDP src dst srcPort port p).length) =
        buildUDP src dst srcPort port p := by
    rw [slice, ← length_buildIPv4 src dst protocolUDP, List.take_length, drop_buildIPv4]
  obtain ⟨stats, hdeliver⟩ :=
    Stack.deliver_whole (s := t.stack.toStack) (a := t.attachment) now hparse
    hq.client.symm hq.server.symm rfl
  unfold deliver
  rw [hdeliver]
  exact dispatch_queued hq hp stats rfl rfl rfl hbody

variable {mtu : Mtu} {d : Datagram mtu}

/-- The datagram that carries `p` to the listener. -/
structure Carries (d : Datagram mtu) (src dst : Addr) (srcPort port : Port) (p : Bytes) : Prop where
  isUDP : d.hdr.protocol = protocolUDP
  srcIP : d.hdr.src = src
  dstIP : d.hdr.dst = dst
  payload : d.payload = buildUDP src dst srcPort port p

theorem deliver_piece (hc : Carries d src dst srcPort port p) (hp : p.length ≤ maxUDPPayload)
    (hq : CanQueue t src dst port l) {r₀ : Reassembler} {due : Int} {ss : List d.Piece}
    {b : ReassemblyBuffer} (s : d.Piece) (hm : d.Meets r₀ due ss s.now t.attachment.reasm b)
    (hlate : ¬ AllIn () ss) :
    (AllIn () (ss ++ [s]) ∧ (t.deliver (s.now, s.frag.pkt)).stack.demux
        = t.stack.demux.queued port l { ip := src, port := srcPort, data := p })
      ∨ (¬ AllIn () (ss ++ [s]) ∧ CanQueue (t.deliver (s.now, s.frag.pkt)) src dst port l
        ∧ (t.deliver (s.now, s.frag.pkt)).stack.demux = t.stack.demux
        ∧ ∃ b',
          d.Collecting r₀ due (ss ++ [s]) (t.deliver (s.now, s.frag.pkt)).attachment.reasm b') := by
  obtain ⟨stats, hdeliver⟩ :=
    Stack.deliver_fragment (s := t.stack.toStack) (a := t.attachment) s.now s.frag
    (hc.srcIP.trans hq.client.symm) (hc.dstIP.trans hq.server.symm)
  rcases hm.add s hlate with ⟨hall, ho, g, hd⟩ | ⟨hnot, ho, b', hb'⟩
  · -- the rebuilt packet parses, and holds the segment
    have hlen : g.frag.header.length = d.hdr.ihl := g.frag.length_header
    have hfits : g.frag.hdr.ihl + d.payload.length ≤ maxIPv4Datagram := by
      have h1 := d.totalLen_le
      have h2 := d.length_payload
      have h3 := d.valid.ihl_le
      have h4 : g.frag.hdr.ihl = d.hdr.ihl := rfl
      omega
    have hbody : slice (rebuild g.frag.header d.payload) (g.frag.wholeHeader d.payload).payloadOff
        (g.frag.wholeHeader d.payload).totalLen = d.payload := by
      show slice (rebuild g.frag.header d.payload) d.hdr.ihl (d.hdr.ihl + d.payload.length) =
        d.payload
      rw [slice, ← hlen, ← length_rebuild, List.take_length]
      exact drop_rebuild _ (by rw [hlen]; exact d.valid.ihl_ge)
    obtain ⟨stats', hdone⟩ := Stack.deliverFragment_complete
      (s := { t.stack.toStack with stats := stats }) ho hd
        (parseIPv4_rebuild g.frag d.payload hfits)
    refine .inl ⟨hall, ?_⟩
    unfold deliver
    rw [hdeliver, hdone]
    exact dispatch_queued hq hp stats' hc.isUDP hc.srcIP hc.dstIP (hbody.trans hc.payload)
  · obtain ⟨stats', hkept⟩ := Stack.deliverFragment_incomplete
      (s := { t.stack.toStack with stats := stats }) ho
    have hstep : t.deliver (s.now, s.frag.pkt)
        = { stack := { t.stack with toStack := { t.stack.toStack with stats := stats' } }
            attachment := { t.attachment with
              reasm := (t.attachment.reasm.add s.now s.frag.hdr s.frag.pkt).1 } } := by
      unfold deliver
      rw [hdeliver, hkept]
      rfl
    rw [hstep]
    exact .inr ⟨hnot, ⟨hq.server, hq.client, hq.registered, hq.listening, hq.space⟩, rfl, b', hb'⟩

theorem deliverAll_pieces (hc : Carries d src dst srcPort port p) (hp : p.length ≤ maxUDPPayload)
    {r₀ : Reassembler} {due : Int} (rs : List d.Piece) (s : d.Piece) {ss : List d.Piece}
    {b : ReassemblyBuffer} (hq : CanQueue t src dst port l)
    (hm : d.Meets r₀ due ss s.now t.attachment.reasm b) (hdue : ∀ s' ∈ rs, s'.now < due)
    (hall : AllIn () (ss ++ s :: rs)) (hlen : (ss ++ s :: rs).length = d.frags.length) :
    (t.deliverAll (d.arrivalsOf (s :: rs))).stack.demux
      = t.stack.demux.queued port l { ip := src, port := srcPort, data := p } := by
  induction rs generalizing t s ss b with
  | nil =>
    have hlate : ¬ AllIn () ss := d.not_allIn_of_length_lt (by rw [← hlen]; simp)
    rcases deliver_piece hc hp hq s hm hlate with ⟨-, hdone⟩ | ⟨hnot, -⟩
    · exact hdone
    · exact absurd hall hnot
  | cons s' rs ih =>
    have hlate : ¬ AllIn () ss := d.not_allIn_of_length_lt (by rw [← hlen]; simp)
    have hmore : ¬ AllIn () (ss ++ [s]) := d.not_allIn_of_length_lt (by rw [← hlen]; simp)
    rcases deliver_piece hc hp hq s hm hlate with ⟨hnow, -⟩ | ⟨-, hq', hsame, b', hb'⟩
    · exact absurd hnow hmore
    · rw [← hsame]
      exact ih s' hq' (hb'.meets (hdue s' List.mem_cons_self))
        (fun s'' hs'' => hdue s'' (List.mem_cons_of_mem _ hs''))
        (by rw [List.append_assoc]; exact hall) (by rw [List.append_assoc]; exact hlen)

end Arrivals

end UdpTunnel

/--
Fragments that arrive at `times` find room for their datagram of `n` bytes under `k`, and all
of them come before the reassembler gives up on the first.
-/
structure CanReassemble (r : Reassembler) (k : ReassemblyKey) (n : Nat) (times : List Int) :
    Prop where
  room : ∀ t ∈ times.head?, r.Room t k n
  inTime : ∀ t ∈ times.head?, ∀ t' ∈ times.tail, t' < t + r.resolveLimits.timeout

/-- What the fragments of the next datagram from `w` to `dst` are known by. -/
def UdpStack.nextKey (w : UdpStack) (dst : Addr) : ReassemblyKey where
  src := w.serverIP
  dst := dst
  protocol := protocolUDP
  id := CanWrite.nextID w

/--
A datagram that `WriteTo` sends to another stack, in however many packets and in whatever
order they arrive, is in the queue of its listener afterwards: once, with the bytes that were
written and the writer's address. Each packet fits the MTU. If there is more than one, the
attachment's reassembler must have room for the datagram, and get all of it in time.
-/
theorem udp_datagram_intact (w : UdpStack) (c : UdpConn) (accepts : Nat → Bool) (dst : Addr)
    (port : Port) (p : Bytes) (hw : CanWrite w c accepts dst p) (t : UdpTunnel) (l : UdpConn)
    (ht : CanQueue t w.serverIP dst port l) (arrivals : List (Int × Bytes))
    (harrive : (arrivals.map Prod.snd).Perm (c.writeTo w accepts p (peerAddr dst port)).1.writes)
    (hreasm : minIPv4HeaderLen + (udpHeaderLen + p.length) ≤ w.mtu
      ∨ CanReassemble t.attachment.reasm (w.nextKey dst) (udpHeaderLen + p.length)
          (arrivals.map Prod.fst)) :
    (c.writeTo w accepts p (peerAddr dst port)).2 = .ok p.length
      ∧ (∀ pkt ∈ (c.writeTo w accepts p (peerAddr dst port)).1.writes, pkt.length ≤ w.mtu)
      ∧ (t.deliverAll arrivals).stack.demux
          = t.stack.demux.queued port l { ip := w.serverIP, port := c.port, data := p } := by
  by_cases hfits : minIPv4HeaderLen + (udpHeaderLen + p.length) ≤ w.mtu
  · have hwrite := hw.writePacket_whole port hfits
    have heq := hw.writeTo_eq port (by rw [hwrite])
    rw [heq, hwrite] at harrive ⊢
    refine ⟨rfl, ?_, ?_⟩
    · intro pkt hpkt
      obtain rfl := List.mem_singleton.mp hpkt
      rw [UdpConn.packet, length_buildIPv4, CanWrite.length_segment]
      exact hfits
    · obtain ⟨x, rfl, hx⟩ := List.map_eq_singleton_iff.mp (List.perm_singleton.mp harrive)
      show (t.deliver (x.1, x.2)).stack.demux = _
      rw [hx]
      exact UdpTunnel.deliver_packet ht hw.size x.1
  · have hlarge := Nat.lt_of_not_le hfits
    have hwrite := hw.writePacket_large port hlarge
    have heq := hw.writeTo_eq port (by rw [hwrite])
    rw [heq, hwrite] at harrive ⊢
    have hcan := hreasm.resolve_left hfits
    have hpayload := hw.payload_large port hlarge
    have hn : (hw.large port hlarge).payload.length = udpHeaderLen + p.length := by
      rw [hpayload, CanWrite.length_segment]
    have hc : UdpTunnel.Carries (hw.large port hlarge) w.serverIP dst c.port port p :=
      ⟨rfl, rfl, rfl, hpayload⟩
    refine ⟨rfl, ?_, ?_⟩
    · intro pkt hpkt
      obtain ⟨j, hj, rfl⟩ := List.getElem_of_mem hpkt
      exact (hw.large port hlarge).length_fragment_le hj
    · obtain ⟨ps, rfl, hall, hlen⟩ := (hw.large port hlarge).exists_pieces_of_perm harrive
      cases ps with
      | nil =>
        have hpos := Nat.lt_of_le_of_lt (Nat.zero_le _) (hw.large port hlarge).maxData_lt
        have hlt := (hw.large port hlarge).div_lt_length_frags hpos
        rw [← hlen] at hlt
        exact absurd hlt (Nat.not_lt_zero _)
      | cons s ps =>
        have hroom := hcan.room s.now rfl
        rw [← hn] at hroom
        refine UdpTunnel.deliverAll_pieces hc hw.size ps s ht
          (Datagram.meets_first hroom) ?_ hall hlen
        intro s' hs'
        refine hcan.inTime s.now rfl s'.now ?_
        exact List.mem_map.mpr ⟨_, List.mem_map_of_mem hs', rfl⟩

/-! ### Two stacks to try it on -/

/-- The datagrams waiting at a port. -/
def UdpTunnel.queueAt (t : UdpTunnel) (port : Port) : Option (List UdpDatagram) :=
  (t.stack.demux.ports.lookup port).map UdpConn.inbound

/-- A stack at 10.8.0.1 with a session at 10.8.0.2. -/
def sampleWriter : UdpStack := { serverIP := 0x0A080001, mtu := 576, routes := [0x0A080002] }

/-- What port 5353 sends to port 53. -/
def sampleWrites (w : UdpStack) (p : Bytes) : List Bytes :=
  (UdpConn.writeTo { port := 5353 } w (fun _ => true) p (peerAddr 0x0A080002 53)).1.writes

/-- Six hundred bytes, which go into two packets. -/
def sampleBody : Bytes := List.replicate 600 7

/-- A stack at 10.8.0.2 that listens on port 53. -/
def sampleReader (limits : ReassemblyLimits) : UdpTunnel where
  stack := (({ serverIP := 0x0A080002, mtu := 576 } : UdpStack).listenUDPOptions 53 {}).1
  attachment := { ip := 0x0A080001, reasm := { limits := limits } }

/-- Two fragments, the second first: the reader's queue holds the datagram. -/
theorem swapped_fragments_queued :
    (sampleWrites sampleWriter sampleBody).length = 2
      ∧ ((sampleReader {}).deliverAll
        ([5, 9].zip (sampleWrites sampleWriter sampleBody).reverse)).queueAt 53
          = some [{ ip := 0x0A080001, port := 5353, data := sampleBody }] := by
  have hlen : (sampleWrites sampleWriter sampleBody).length = 2 := by decide +kernel
  have hsnd : ([(5 : Int), 9].zip (sampleWrites sampleWriter sampleBody).reverse).map Prod.snd
      = (sampleWrites sampleWriter sampleBody).reverse :=
    List.map_snd_zip (by rw [List.length_reverse, hlen]; decide)
  have hfst : ([(5 : Int), 9].zip (sampleWrites sampleWriter sampleBody).reverse).map Prod.fst =
      [5, 9] :=
    List.map_fst_zip (by rw [List.length_reverse, hlen]; decide)
  have hroom : (sampleReader {}).attachment.reasm.Room 5 (sampleWriter.nextKey 0x0A080002)
      (udpHeaderLen + sampleBody.length) := ⟨rfl, rfl, by decide +kernel, by decide +kernel⟩
  obtain ⟨-, -, hdemux⟩ :=
    udp_datagram_intact sampleWriter { port := 5353 } (fun _ => true) 0x0A080002 53
    sampleBody ⟨rfl, rfl, by decide +kernel, by decide, by decide, by decide, fun _ => rfl⟩
      (sampleReader {})
    { port := 53 } ⟨rfl, rfl, rfl, by decide +kernel, by decide⟩
    ([5, 9].zip (sampleWrites sampleWriter sampleBody).reverse)
    (by rw [hsnd]; exact List.reverse_perm _)
    (.inr (by
      rw [hfst]
      refine ⟨fun t ht => ?_, fun t ht t' ht' => ?_⟩
      · cases ht
        exact hroom
      · cases ht
        obtain rfl := List.mem_singleton.mp ht'
        decide))
  refine ⟨hlen, ?_⟩
  rw [UdpTunnel.queueAt, hdemux, UdpDemux.queued, AList.lookup_insert]
  rfl

/-- The last fragment of a shorter datagram, whose first one was lost. -/
def strayFragment (w : UdpStack) : Bytes := (sampleWrites w (List.replicate 560 9)).getLastD []

/--
The reassembler need not complete a datagram: the second fragment comes thirty seconds after
the first; its limits leave no room for the bytes, or for a buffer; or it still has a fragment
of another datagram under the same identification.
-/
theorem datagram_never_queued :
    (sampleWrites sampleWriter sampleBody).length = 2
      ∧ ((sampleReader {}).deliverAll
          ([0, (reassemblyTimeout : Int)].zip (sampleWrites sampleWriter sampleBody))).queueAt 53 =
            some []
      ∧ ((sampleReader { maxBytes := 607 }).deliverAll
          ([0, 1].zip (sampleWrites sampleWriter sampleBody))).queueAt 53 = some []
      ∧ (((sampleReader { maxBufs := 1 }).deliver
        (0, strayFragment { sampleWriter with ipID := 7 })).deliverAll
          ([1, 2].zip (sampleWrites sampleWriter sampleBody))).queueAt 53 = some []
      ∧ (((sampleReader {}).deliver (0, strayFragment sampleWriter)).deliverAll
          ([1, 2].zip (sampleWrites sampleWriter sampleBody))).queueAt 53 = some [] := by
  decide +kernel

end GoVpn.Netstack
