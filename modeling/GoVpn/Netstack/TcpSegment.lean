import GoVpn.Lib.Serial

/-!
# TCP segments and sequence numbers

The parsed form of a segment (`tcp_segment.go`), the wraparound-safe comparisons
and the RST generator (`tcp_state.go`). A segment is what `parseTCP` hands to a
connection and what a connection hands to `buildTCP`; the byte layout in between
is not this module's concern.
-/

namespace GoVpn.Netstack

abbrev Bytes := List UInt8

/-- A 32-bit sequence or acknowledgement number. -/
abbrev Seq := BitVec 32

abbrev Port := BitVec 16

def flagFIN : BitVec 8 := 0x01
def flagSYN : BitVec 8 := 0x02
def flagRST : BitVec 8 := 0x04
def flagACK : BitVec 8 := 0x10

/-- `tcpSegment`: the fields the state machine, the timer and the RST generator need. -/
structure TcpSegment where
  srcPort : Port
  dstPort : Port
  seq : Seq
  ack : Seq
  flags : BitVec 8
  window : BitVec 16
  hasMSS : Bool := false
  mss : BitVec 16 := 0
  payload : Bytes := []
  deriving DecidableEq

/-- `seg.flags&flag != 0`. -/
def TcpSegment.has (seg : TcpSegment) (flag : BitVec 8) : Bool := seg.flags &&& flag != 0

/-- `segLen`: the sequence numbers the segment occupies. -/
def TcpSegment.segLen (seg : TcpSegment) : Seq :=
  BitVec.ofNat 32 seg.payload.length
    + (if seg.has flagSYN then 1 else 0) + (if seg.has flagFIN then 1 else 0)

/-- `seqGT`: compare by signed difference, so that a wrap does not misorder. -/
def seqGT (a b : Seq) : Bool := 0 < (a - b).toInt

def seqGE (a b : Seq) : Bool := 0 ≤ (a - b).toInt

/-- `buildRSTSegment`: the two Reset Generation cases of RFC 9293. -/
def buildRSTSegment (offending : TcpSegment) : TcpSegment :=
  if offending.has flagACK then
    { srcPort := offending.dstPort, dstPort := offending.srcPort,
      seq := offending.ack, ack := 0, flags := flagRST, window := 0 }
  else
    { srcPort := offending.dstPort, dstPort := offending.srcPort,
      seq := 0, ack := offending.seq + offending.segLen,
      flags := flagRST ||| flagACK, window := 0 }

theorem seqGT_iff {a b : Seq} : seqGT a b = true ↔ 0 < (a - b).toNat ∧ (a - b).toNat < 2 ^ 31 := by
  rw [seqGT, decide_eq_true_iff, Serial.toInt_pos_iff]
  omega

theorem seqGT_offset (b : Seq) {m n : Nat} (h : n < m) (hd : m - n < 2 ^ 31) :
    seqGT (b + BitVec.ofNat 32 m) (b + BitVec.ofNat 32 n) = true := by
  rw [seqGT_iff, Serial.add_ofNat_sub_add_ofNat b (Nat.le_of_lt h), BitVec.toNat_ofNat,
    Nat.mod_eq_of_lt (by omega)]
  omega

theorem not_seqGT_offset (b : Seq) {m n : Nat} (h : m ≤ n) (hd : n - m ≤ 2 ^ 31) :
    seqGT (b + BitVec.ofNat 32 m) (b + BitVec.ofNat 32 n) = false := by
  rw [Bool.eq_false_iff]
  intro hc
  rw [seqGT_iff] at hc
  have hs := Serial.add_ofNat_sub_add_ofNat b h
  have hneg : b + BitVec.ofNat 32 m - (b + BitVec.ofNat 32 n) = -BitVec.ofNat 32 (n - m) := by
    rw [← hs, BitVec.neg_sub, BitVec.add_comm (-(b + BitVec.ofNat 32 n)), ← BitVec.sub_eq_add_neg]
  rw [hneg, BitVec.toNat_neg, BitVec.toNat_ofNat] at hc
  omega

end GoVpn.Netstack
