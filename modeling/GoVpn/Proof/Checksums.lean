import GoVpn.Lib.OnesComplement
import GoVpn.Netstack.Icmp
import GoVpn.Netstack.TcpWire
import GoVpn.Proof.Reassembled

/-!
# Checksums

Every checksum the stack writes is the complement of a sum added up in a `uint32` with the field
itself zeroed. The `uint32` is wide enough, folding the carries ends, and the field makes the sum
over everything `0xFFFF`.

For UDP a field of zero says that there is no checksum: `BuildUDP` writes all ones for it, which
stands for the same number, and the demux compares accordingly.
-/

namespace GoVpn.Proof

open Netstack OnesComplement

/-! ## What is to hold -/

/-- The sum over an IPv4 header, as long as its own length field says it is. -/
def headerSum (pkt : Bytes) : Nat :=
  OnesComplement.sum (pkt.take ((byteAt pkt 0 &&& 0x0F).toNat * 4))

/-- The header that is summed before a segment and never sent. -/
def pseudoHeader (src dst : Addr) (protocol : UInt8) (length : Nat) : Bytes :=
  addrBytes src ++ addrBytes dst ++ [0, protocol] ++ BigEndian.put 2 length

/-- The sum over the pseudo-header and a segment. -/
def segmentSum (src dst : Addr) (protocol : UInt8) (segment : Bytes) : Nat :=
  OnesComplement.sum (pseudoHeader src dst protocol segment.length ++ segment)

/-- The loop that folds the carries in, which may run for ever. -/
def foldLoop : Nat → BitVec 32 → Option (BitVec 32)
  | 0, _ => none
  | fuel + 1, sum => if sum >>> 16 ≠ 0 then foldLoop fuel (foldCarry sum) else some sum

/-- What the loop makes of a sum, and the complement of it. -/
def loopChecksum (fuel : Nat) (sum : BitVec 32) : Option (BitVec 16) :=
  (foldLoop fuel sum).map fun sum => ~~~ (sum.setWidth 16)

/-! ## Adding up -/

theorem sumWords_toNat (b : Bytes) : (sumWords b).toNat = total b % 2 ^ 32 := by
  unfold total
  fun_induction sumWords b with
  | case1 x y rest ih =>
    rw [words, List.sum_cons, BitVec.toNat_add, BitVec.toNat_ofNat, ih, ← Nat.add_mod]
  | case2 x => rw [words, List.sum_singleton, BitVec.toNat_ofNat]
  | case3 => rfl

variable {b payload : Bytes} {hdr : Ipv4Header}

theorem sumWords_exact (h : b.length ≤ 65535) : (sumWords b).toNat = total b := by
  have hle := total_le b
  rw [sumWords_toNat, Nat.mod_eq_of_lt (by omega)]

theorem total_put_two (x : Nat) : total (BigEndian.put 2 x) = x % 65536 := by
  show (UInt8.ofNat (x / 256)).toNat * 256 + (UInt8.ofNat x).toNat + 0 = _
  rw [UInt8.toNat_ofNat', UInt8.toNat_ofNat']
  omega

variable (src dst : Addr)

theorem total_pseudoHeader (protocol : UInt8) (length : Nat) :
    total (pseudoHeader src dst protocol length)
      = total (addrBytes src) + total (addrBytes dst) + protocol.toNat + length % 65536 := by
  have hsrc : (addrBytes src).length = 4 := BigEndian.length_put _ _
  have hdst : (addrBytes dst).length = 4 := BigEndian.length_put _ _
  have hproto : total [0, protocol] = protocol.toNat := by
    show (0 : UInt8).toNat * 256 + protocol.toNat + 0 = protocol.toNat
    simp
  unfold pseudoHeader
  rw [total_append (by simp [hsrc, hdst]), total_append (by simp [hsrc, hdst]),
    total_append (by simp [hsrc]), hproto, total_put_two]

theorem pseudoHeaderSum_add (protocol : UInt8) (length : Nat) (h : b.length ≤ 65535) :
    (pseudoHeaderSum src dst protocol length + sumWords b).toNat
      = total (pseudoHeader src dst protocol length) + total b := by
  have hsrc : (addrBytes src).length = 4 := BigEndian.length_put _ _
  have hdst : (addrBytes dst).length = 4 := BigEndian.length_put _ _
  have hle := total_le b
  have hsrc' := total_le (addrBytes src)
  have hdst' := total_le (addrBytes dst)
  have hproto := protocol.toNat_lt
  rw [total_pseudoHeader]
  simp only [pseudoHeaderSum, BitVec.toNat_add, BitVec.toNat_ofNat, sumWords_exact h,
    sumWords_exact (show (addrBytes src).length ≤ 65535 by omega),
    sumWords_exact (show (addrBytes dst).length ≤ 65535 by omega)]
  omega

/-! ## Folding -/

theorem carry_iff (sum : BitVec 32) : sum >>> 16 ≠ 0 ↔ 65536 ≤ sum.toNat := by
  have hshift : (sum >>> 16).toNat = sum.toNat / 65536 := by
    rw [BitVec.toNat_ushiftRight, Nat.shiftRight_eq_div_pow]
  rw [Ne, ← BitVec.toNat_inj, hshift]
  show ¬ sum.toNat / 65536 = 0 ↔ _
  omega

theorem foldLoop_ends (sum : BitVec 32) : foldLoop 3 sum = some
    (let sum := if sum >>> 16 ≠ 0 then foldCarry sum else sum
     if sum >>> 16 ≠ 0 then foldCarry sum else sum) := by
  have hlast := foldCarry_foldCarry_lt sum
  by_cases h : sum >>> 16 ≠ 0
  · by_cases h' : foldCarry sum >>> 16 ≠ 0
    · have h'' : ¬ foldCarry (foldCarry sum) >>> 16 ≠ 0 := by rw [carry_iff]; omega
      simp only [foldLoop, if_pos h, if_pos h', if_neg h'']
    · simp only [foldLoop, if_pos h, if_neg h']
  · simp only [foldLoop, if_neg h]

theorem loopChecksum_eq (sum : BitVec 32) : loopChecksum 3 sum = some (complementSum sum) := by
  rw [loopChecksum, foldLoop_ends]
  rfl

theorem residue_fold (sum : BitVec 32) :
    residue (if sum >>> 16 ≠ 0 then foldCarry sum else sum).toNat = residue sum.toNat := by
  split
  · rw [foldCarry_toNat, residue_carry]
  · rfl

theorem complementSum_toNat (sum : BitVec 32) :
    (complementSum sum).toNat = 65535 - residue sum.toNat := by
  obtain ⟨once, honce⟩ : ∃ once, once = if sum >>> 16 ≠ 0 then foldCarry sum else sum := ⟨_, rfl⟩
  obtain ⟨twice, htwice⟩ : ∃ twice, twice = if once >>> 16 ≠ 0 then foldCarry once else once :=
    ⟨_, rfl⟩
  have hres : residue twice.toNat = residue sum.toNat := by
    rw [htwice, residue_fold, honce, residue_fold]
  have hlt : twice.toNat < 65536 := by
    have hlast := foldCarry_foldCarry_lt sum
    rw [htwice]
    split
    · next h =>
        rw [honce] at h ⊢
        split at h
        · next h' => rw [if_pos h']; exact hlast
        · next h' => exact absurd h h'
    · next h =>
        rw [carry_iff] at h
        omega
  have heq : complementSum sum = ~~~ (twice.setWidth 16) := by rw [htwice, honce]; rfl
  rw [heq, BitVec.toNat_not, BitVec.toNat_setWidth, ← hres, residue_of_le (by omega)]
  omega

theorem internetChecksum_toNat (h : b.length ≤ 65535) :
    (internetChecksum b).toNat = 65535 - residue (total b) := by
  rw [← sumWords_exact h]
  exact complementSum_toNat _

theorem transportChecksum_toNat (protocol : UInt8) (h : b.length ≤ 65535) :
    (transportChecksum src dst protocol b).toNat
      = 65535 - residue (total (pseudoHeader src dst protocol b.length) + total b) := by
  rw [← pseudoHeaderSum_add src dst protocol b.length h]
  exact complementSum_toNat _

/-! ## Writing the field -/

theorem total_putUint16 {i x : Nat} (hi : i % 2 = 0) (h : i + 1 < b.length) (hx : x < 65536) :
    total (putUint16 b i x) = total ((b.set i 0).set (i + 1) 0) + x := by
  rw [putUint16, total_set hi h, UInt8.toNat_ofNat', UInt8.toNat_ofNat']
  omega

theorem sum_putUint16 {i : Nat} (hi : i % 2 = 0) (h : i + 1 < b.length)
    (hlen : b.length ≤ 65535) (hblank : (b.set i 0).set (i + 1) 0 = b) :
    OnesComplement.sum (putUint16 b i (internetChecksum b).toNat) = 0xFFFF := by
  rw [sum_eq, total_putUint16 hi h (internetChecksum b).isLt, hblank, internetChecksum_toNat hlen,
    residue_complement]

theorem total_pseudoHeader_append (protocol : UInt8) (segment : Bytes) (length : Nat) :
    total (pseudoHeader src dst protocol length ++ segment)
      = total (pseudoHeader src dst protocol length) + total segment := by
  refine total_append ?_ _
  simp [pseudoHeader, addrBytes]

theorem segmentSum_putUint16 {i x : Nat} (protocol : UInt8) (hi : i % 2 = 0)
    (h : i + 1 < b.length) (hblank : (b.set i 0).set (i + 1) 0 = b) (hx : x < 65536) :
    segmentSum src dst protocol (putUint16 b i x)
      = residue (total (pseudoHeader src dst protocol b.length) + total b + x) := by
  rw [segmentSum, sum_eq, total_pseudoHeader_append, length_putUint16, total_putUint16 hi h hx,
    hblank, Nat.add_assoc]

/-! ## Headers -/

theorem sum_setChecksum {ihl : Nat} (h : 12 ≤ ihl) (hle : ihl ≤ b.length)
    (hmax : ihl ≤ 65535) : OnesComplement.sum ((setChecksum b ihl).take ihl) = 0xFFFF := by
  have htake : (setChecksum b ihl).take ihl
      = putUint16 (((b.set 10 0).set 11 0).take ihl) 10
          (internetChecksum (((b.set 10 0).set 11 0).take ihl)).toNat := by
    simp only [setChecksum, putUint16, List.take_set]
  have hlen : (((b.set 10 0).set 11 0).take ihl).length = ihl := by
    rw [List.length_take, List.length_set, List.length_set, Nat.min_eq_left hle]
  rw [htake]
  refine sum_putUint16 (by decide) (by omega) (by omega) ?_
  simp only [List.take_set, List.set_set, List.set_comm _ _ (show (11 : Nat) ≠ 10 by decide)]

theorem headerSum_buildIPv4 (protocol : UInt8) (payload : Bytes) :
    headerSum (buildIPv4 src dst protocol payload) = 0xFFFF := by
  have hlen : (blankIPv4 src dst protocol (minIPv4HeaderLen + payload.length)).length = 20 := rfl
  have htake : (buildIPv4 src dst protocol payload).take 20
      = putUint16 (blankIPv4 src dst protocol (minIPv4HeaderLen + payload.length)) 10
          (internetChecksum
            (blankIPv4 src dst protocol (minIPv4HeaderLen + payload.length))).toNat := by
    rw [buildIPv4, List.take_left' (by rw [length_putUint16, hlen])]
  have hihl : (byteAt (buildIPv4 src dst protocol payload) 0 &&& 0x0F).toNat * 4 = 20 := by
    show ((0x45 : UInt8) &&& 0x0F).toNat * 4 = 20
    decide
  rw [headerSum, hihl, htake]
  exact sum_putUint16 (by decide) (by rw [hlen]; decide) (by rw [hlen]; decide) rfl

variable {accepts : Nat → Bool} {pkt : Bytes} {seg : UdpSegment}

theorem headerSum_setChecksum (hv : hdr.Valid pkt) (hle : hdr.ihl ≤ b.length)
    (hfirst : byteAt b 0 = byteAt pkt 0) : headerSum (setChecksum b hdr.ihl) = 0xFFFF := by
  have hge := hv.ihl_ge
  have hmax := hv.ihl_le
  have htotal : hdr.totalLen < 65536 := hv.totalLen_eq ▸ uint16At_lt pkt 2
  unfold minIPv4HeaderLen at hge
  rw [headerSum, byteAt_setChecksum_ne _ _ (by decide) (by decide), hfirst, ← hv.ihl_eq]
  exact sum_setChecksum (by omega) hle (by omega)

variable {d frag msg out : Bytes}

theorem mem_fragmentLoop {maxData : Nat} {id : BitVec 16} {fuel off : Nat}
    (h : frag ∈ fragmentLoop hdr pkt payload maxData id fuel off) :
    ∃ off', frag = fragmentAt hdr pkt payload maxData id off' := by
  induction fuel generalizing off with
  | zero => cases h
  | succ fuel ih =>
    unfold fragmentLoop at h
    split at h
    · rcases List.mem_cons.mp h with h | h
      · exact ⟨off, h⟩
      · exact ih h
    · cases h

theorem headerSum_fragment {mtu : Nat} {id : BitVec 16} (hp : parseIPv4 pkt = .ok hdr)
    (h : frag ∈ fragmentIPv4 hdr pkt mtu id) : headerSum frag = 0xFFFF := by
  have hv := parseIPv4_eq_ok_iff.mp hp
  have hlen : (pkt.take hdr.ihl).length = hdr.ihl := by
    rw [List.length_take, Nat.min_eq_left (Nat.le_trans hv.ihl_le hv.totalLen_le)]
  have hge := hv.ihl_ge
  unfold minIPv4HeaderLen at hge
  unfold fragmentIPv4 at h
  dsimp only at h
  split at h
  · cases h
  · obtain ⟨off, rfl⟩ := mem_fragmentLoop h
    refine headerSum_setChecksum hv ?_ ?_
    · simp only [length_putUint16, List.length_append, hlen]
      omega
    · rw [byteAt_putUint16_ne _ _ (by decide) (by decide),
        byteAt_putUint16_ne _ _ (by decide) (by decide),
        byteAt_putUint16_ne _ _ (by decide) (by decide), byteAt_append_left (by omega),
        byteAt_take (by omega)]

theorem complete_of_datagram {w : Watched} (hopen : w.r.closed = false) {a : Arrival}
    (h : (w.step a).2.datagram = some d) : (w.step a).2.outcome = .complete := by
  obtain ⟨-, -, hown⟩ := Reassembler.add_cases hopen a.now a.frag
  have h' : (w.r.add a.now a.frag.hdr a.frag.pkt).2.datagram = some d := h
  rcases hown with ⟨-, -, -, hnone⟩ | hfate
  · rw [hnone] at h'
    cases h'
  · rw [h'] at hfate
    show (w.r.add a.now a.frag.hdr a.frag.pkt).2.outcome = .complete
    generalize (w.r.add a.now a.frag.hdr a.frag.pkt).1.buffer a.frag.key = left at hfate
    generalize (w.r.add a.now a.frag.hdr a.frag.pkt).2.outcome = o at hfate ⊢
    cases hfate
    rfl

theorem headerSum_reassembled {limits : ReassemblyLimits} {as : List Arrival} {a : Arrival}
    (h : ((Watched.after limits as).step a).2.datagram = some d) : headerSum d = 0xFFFF := by
  have hw := Faithful.after limits as
  obtain ⟨b, t, lead, -, -, -, -, -, -, hd⟩ := hw.complete (complete_of_datagram hw.isOpen h)
  rw [h] at hd
  cases hd
  have hge := lead.valid.ihl_ge
  unfold minIPv4HeaderLen at hge
  rw [rebuild, lead.length_header]
  refine headerSum_setChecksum lead.valid ?_ ?_
  · simp only [length_putUint16, List.length_append, lead.length_header]
    omega
  · rw [byteAt_putUint16_ne _ _ (by decide) (by decide),
      byteAt_putUint16_ne _ _ (by decide) (by decide),
      byteAt_append_left (by rw [lead.length_header]; omega), Fragment.header,
        byteAt_take (by omega)]

/-! ## Messages and segments -/

theorem sum_echoReply (h : minICMPHeaderLen ≤ msg.length) (hlen : msg.length ≤ 65535) :
    OnesComplement.sum (echoReply msg) = 0xFFFF := by
  unfold minICMPHeaderLen at h
  have hlen' : (((msg.set 0 icmpTypeEchoReply).set 2 0).set 3 0).length = msg.length := by simp
  refine sum_putUint16 (by decide) (by omega) (by omega) ?_
  simp only [List.set_set, List.set_comm _ _ (show (3 : Nat) ≠ 2 by decide)]

theorem mem_writeAll {k : Nat} {pkts : List Bytes}
    (h : pkt ∈ (UdpStack.writeAll accepts k pkts).1) : pkt ∈ pkts := by
  induction pkts generalizing k with
  | nil => cases h
  | cons p pkts ih =>
    unfold UdpStack.writeAll at h
    split at h
    · rcases List.mem_cons.mp h with rfl | h
      · exact List.mem_cons_self
      · exact List.mem_cons_of_mem _ (ih h)
    · cases h

theorem headerSum_writePacket {s : UdpStack} (hpkt : headerSum pkt = 0xFFFF)
    (h : out ∈ (s.writePacket accepts pkt).writes) : headerSum out = 0xFFFF := by
  unfold UdpStack.writePacket at h
  split at h
  · cases h
  · next hdr hp =>
      split at h
      · cases h
      · split at h
        · rw [List.mem_singleton.mp (mem_writeAll h)]
          exact hpkt
        · dsimp only at h
          split at h
          · cases h
          · exact headerSum_fragment hp (mem_writeAll h)

theorem headerSum_handleICMP {s : IcmpStack} (h : out ∈ (s.handleICMP accepts hdr msg).2) :
    headerSum out = 0xFFFF := by
  unfold IcmpStack.handleICMP at h
  split at h
  · cases h
  · split at h
    · cases h
    · dsimp only at h
      split at h
      · exact headerSum_writePacket (headerSum_buildIPv4 ..) h
      · exact headerSum_writePacket (headerSum_buildIPv4 ..) h

theorem segmentSum_buildTCP {seg : TcpSegment} (h : seg.headerLen + seg.payload.length ≤ 65535) :
    segmentSum src dst protocolTCP (buildTCP seg src dst) = 0xFFFF := by
  have hlen := length_blankTCP seg
  have hge : tcpHeaderMinLen ≤ seg.headerLen := Nat.le_add_right _ _
  unfold tcpHeaderMinLen at hge
  rw [buildTCP, segmentSum_putUint16 _ _ _ (by decide) (by omega) rfl (BitVec.isLt _),
    transportChecksum_toNat _ _ _ (by omega), residue_complement]

theorem length_blankUDP (srcPort dstPort : Port) (payload : Bytes) :
    (blankUDP srcPort dstPort payload).length = udpHeaderLen + payload.length := by
  rw [blankUDP, List.length_append]
  rfl

theorem udpChecksum_toNat (h : b.length ≤ 65535) :
    (udpChecksum src dst b).toNat =
      if 65535 - residue (total (pseudoHeader src dst protocolUDP b.length) + total b) = 0 then
        65535
      else 65535 - residue (total (pseudoHeader src dst protocolUDP b.length) + total b) := by
  have hcs := transportChecksum_toNat src dst protocolUDP h
  have hzero : transportChecksum src dst protocolUDP b = 0 ↔
      65535 - residue (total (pseudoHeader src dst protocolUDP b.length) + total b) = 0 := by
    rw [← hcs, ← BitVec.toNat_inj]
    rfl
  unfold udpChecksum
  by_cases h0 : transportChecksum src dst protocolUDP b = 0
  · rw [if_pos h0, if_pos (hzero.mp h0)]
    rfl
  · rw [if_neg h0, if_neg fun h' => h0 (hzero.mpr h'), hcs]

theorem total_pseudoHeader_pos (length : Nat) :
    0 < total (pseudoHeader src dst protocolUDP length) := by
  have hproto : protocolUDP.toNat = 17 := rfl
  rw [total_pseudoHeader, hproto]
  omega

theorem udpChecksum_iff {w : Nat} (hb : b.length ≤ 65535) (hw : 0 < w) (hw' : w ≤ 65535) :
    (udpChecksum src dst b).toNat = w ↔
      residue (total (pseudoHeader src dst protocolUDP b.length) + total b + w) = 0xFFFF := by
  have hpos := total_pseudoHeader_pos src dst b.length
  rw [udpChecksum_toNat src dst hb, ← residue_add_eq_full_iff (by omega) hw hw']

theorem udpChecksum_pos (h : b.length ≤ 65535) : 0 < (udpChecksum src dst b).toNat := by
  rw [udpChecksum_toNat src dst h]
  split <;> omega

theorem segmentSum_buildUDP (srcPort dstPort : Port) (h : udpHeaderLen + payload.length ≤ 65535) :
    segmentSum src dst protocolUDP (buildUDP src dst srcPort dstPort payload) = 0xFFFF
      ∧ uint16At (buildUDP src dst srcPort dstPort payload) 6 ≠ 0 := by
  have hlen := length_blankUDP srcPort dstPort payload
  have hpos :=
    udpChecksum_pos src dst (show (blankUDP srcPort dstPort payload).length ≤ 65535 by omega)
  have hlt := (udpChecksum src dst (blankUDP srcPort dstPort payload)).isLt
  constructor
  · unfold udpHeaderLen at hlen h
    rw [buildUDP, segmentSum_putUint16 _ _ _ (by decide) (by omega) rfl hlt,
      ← udpChecksum_iff src dst (by omega) hpos (by omega)]
  · rw [checksum_buildUDP]
    omega

/-! ## The demux -/

theorem segmentSum_zeroed {segment : Bytes} (h : udpHeaderLen ≤ segment.length) :
    segmentSum src dst protocolUDP segment
      = residue (total (pseudoHeader src dst protocolUDP segment.length)
          + total ((segment.set 6 0).set 7 0) + uint16At segment 6) := by
  unfold udpHeaderLen at h
  have hself : (((segment.set 6 0).set 7 0).set 6 (byteAt segment 6)).set 7 (byteAt segment 7) =
      segment := by
    refine List.ext_getElem? fun j => ?_
    by_cases h7 : j = 7
    · subst h7
      simp [byteAt, show 7 < segment.length by omega]
    · by_cases h6 : j = 6
      · subst h6
        simp [byteAt, show 6 < segment.length by omega]
      · simp [Ne.symm h7, Ne.symm h6]
  have hset := total_set (b := (segment.set 6 0).set 7 0) (i := 6) (by decide)
    (by simp only [List.length_set]; omega) (byteAt segment 6) (byteAt segment 7)
  rw [hself] at hset
  rw [segmentSum, sum_eq, total_pseudoHeader_append, hset, uint16At_eq]
  simp only [List.set_set, List.set_comm _ _ (show (7 : Nat) ≠ 6 by decide), Nat.add_assoc]

theorem length_of_parseUDP (h : parseUDP payload = .ok seg) :
    (payload.take (udpHeaderLen + seg.data.length)).length = udpHeaderLen + seg.data.length
      ∧ udpHeaderLen + seg.data.length ≤ 65535 := by
  have hlt := uint16At_lt payload 4
  unfold parseUDP at h
  split at h
  · cases h
  · dsimp only at h
    split at h
    · cases h
    · cases h
      rw [List.length_take, length_slice]
      omega

theorem handlePacket_badChecksum (s : UdpStack) (src dst : Addr) (h : parseUDP payload = .ok seg) :
    (s.handlePacket src dst payload).demux.badChecksumDropped =
      if uint16At payload 6 ≠ 0 ∧ (udpChecksum src dst
          (((payload.take (udpHeaderLen + seg.data.length)).set 6 0).set 7 0)).toNat
            ≠ uint16At payload 6
      then s.demux.badChecksumDropped + 1 else s.demux.badChecksumDropped := by
  simp only [UdpStack.handlePacket, h]
  split
  · rfl
  · cases s.demux.ports.lookup seg.dstPort <;> rfl

theorem handlePacket_accepts_iff (s : UdpStack) (src dst : Addr) (h : parseUDP payload = .ok seg) :
    (s.handlePacket src dst payload).demux.badChecksumDropped = s.demux.badChecksumDropped ↔
      uint16At payload 6 = 0 ∨
        segmentSum src dst protocolUDP (payload.take (udpHeaderLen + seg.data.length)) =
          0xFFFF := by
  obtain ⟨hlen, hmax⟩ := length_of_parseUDP h
  have hwire : uint16At (payload.take (udpHeaderLen + seg.data.length)) 6 = uint16At payload 6 := by
    refine uint16At_congr (byteAt_take ?_) (byteAt_take ?_) <;> unfold udpHeaderLen <;> omega
  have hlt := uint16At_lt payload 6
  have hblank : (((payload.take (udpHeaderLen + seg.data.length)).set 6 0).set 7 0).length
      = udpHeaderLen + seg.data.length := by
    rw [List.length_set, List.length_set, hlen]
  rw [handlePacket_badChecksum s src dst h, segmentSum_zeroed src dst (by omega), hwire, hlen]
  by_cases h0 : uint16At payload 6 = 0
  · simp [h0]
  · have hiff :=
      udpChecksum_iff src dst
        (b := ((payload.take (udpHeaderLen + seg.data.length)).set 6 0).set 7 0)
      (w := uint16At payload 6) (by omega) (by omega) (by omega)
    rw [hblank] at hiff
    rw [← hiff]
    by_cases heq : (udpChecksum src dst
        (((payload.take (udpHeaderLen + seg.data.length)).set 6 0).set 7 0)).toNat =
          uint16At payload 6
    · simp [heq]
    · simp [h0, heq]

/-! ## All of it -/

/-- **Checksums verify.** -/
structure ChecksumsVerify : Prop where
  /-- No running sum of `InternetChecksum` overflows. -/
  words_exact : ∀ b : Bytes, b.length ≤ maxIPv4Datagram → ∀ n,
    (sumWords (b.take n)).toNat = total (b.take n)
  /-- No running sum of `TransportChecksum` overflows. -/
  segment_exact : ∀ src dst protocol, ∀ b : Bytes, b.length ≤ maxIPv4Datagram → ∀ n,
    (pseudoHeaderSum src dst protocol b.length + sumWords (b.take n)).toNat
      = total (pseudoHeader src dst protocol b.length) + total (b.take n)
  /-- The loops that fold the carries in end, with what the two functions return. -/
  internet_ends : ∀ b, loopChecksum 3 (sumWords b) = some (internetChecksum b)
  transport_ends : ∀ src dst protocol b,
    loopChecksum 3 (pseudoHeaderSum src dst protocol b.length + sumWords b)
      = some (transportChecksum src dst protocol b)
  /-- `BuildIPv4`. -/
  built : ∀ src dst protocol payload, minIPv4HeaderLen + payload.length ≤ maxIPv4Datagram →
    headerSum (buildIPv4 src dst protocol payload) = 0xFFFF
  /-- `fragmentIPv4`. -/
  fragment : ∀ hdr pkt mtu id, parseIPv4 pkt = .ok hdr → ∀ frag ∈ fragmentIPv4 hdr pkt mtu id,
    headerSum frag = 0xFFFF
  /-- What the reassembler returns, whatever has arrived at it. -/
  reassembled : ∀ limits as a d, ((Watched.after limits as).step a).2.datagram = some d →
    headerSum d = 0xFFFF
  /-- The message of an echo reply. -/
  echo : ∀ msg, minICMPHeaderLen ≤ msg.length → minIPv4HeaderLen + msg.length ≤ maxIPv4Datagram →
    OnesComplement.sum (echoReply msg) = 0xFFFF
  /-- The packets `handleICMP` writes. -/
  echoed : ∀ (s : IcmpStack) accepts hdr msg, ∀ pkt ∈ (s.handleICMP accepts hdr msg).2,
    headerSum pkt = 0xFFFF
  /-- `buildTCP`. -/
  tcp : ∀ seg src dst, minIPv4HeaderLen + (buildTCP seg src dst).length ≤ maxIPv4Datagram →
    segmentSum src dst protocolTCP (buildTCP seg src dst) = 0xFFFF
  /-- `BuildUDP`, which never writes a checksum of zero. -/
  udp : ∀ src dst srcPort dstPort payload,
    minIPv4HeaderLen + (buildUDP src dst srcPort dstPort payload).length ≤ maxIPv4Datagram →
    segmentSum src dst protocolUDP (buildUDP src dst srcPort dstPort payload) = 0xFFFF ∧
      uint16At (buildUDP src dst srcPort dstPort payload) 6 ≠ 0
  /-- The UDP demux drops a datagram for its checksum unless there is none or it is right. -/
  demux : ∀ (s : UdpStack) src dst payload seg, parseUDP payload = .ok seg →
    ((s.handlePacket src dst payload).demux.badChecksumDropped = s.demux.badChecksumDropped ↔
      uint16At payload 6 = 0 ∨
        segmentSum src dst protocolUDP (payload.take (udpHeaderLen + seg.data.length)) = 0xFFFF)

/-- All that the stack builds, cuts, puts together and echoes, with headers and transport segments.
-/
theorem checksumsVerify : ChecksumsVerify where
  words_exact b hb n := sumWords_exact (Nat.le_trans (List.length_take_le' n b) hb)
  segment_exact src dst protocol b hb n :=
    pseudoHeaderSum_add src dst protocol _ (Nat.le_trans (List.length_take_le' n b) hb)
  internet_ends b := loopChecksum_eq _
  transport_ends src dst protocol b := loopChecksum_eq _
  built src dst protocol payload _ := headerSum_buildIPv4 src dst protocol payload
  fragment _ _ _ _ hp _ hf := headerSum_fragment hp hf
  reassembled _ _ _ _ h := headerSum_reassembled h
  echo msg h hlen := sum_echoReply h (Nat.le_trans (Nat.le_add_left _ _) hlen)
  echoed _ _ _ _ _ h := headerSum_handleICMP h
  tcp seg src dst h := by
    rw [length_buildTCP] at h
    exact segmentSum_buildTCP src dst (Nat.le_trans (Nat.le_add_left _ _) h)
  udp src dst srcPort dstPort payload h := by
    rw [length_buildUDP] at h
    exact segmentSum_buildUDP src dst srcPort dstPort (Nat.le_trans (Nat.le_add_left _ _) h)
  demux s src dst _ _ h := handlePacket_accepts_iff s src dst h

end GoVpn.Proof
