import GoVpn.Netstack.Ipv4

/-!
# Building packets

`BuildIPv4`, `BuildUDP` and the transport checksum (`internal/frame/frame.go`), each onto
an empty buffer. A header starts out with its checksum zeroed, which is what the checksum
is computed over.
-/

namespace GoVpn.Netstack

def defaultTTL : UInt8 := 64
def udpHeaderLen : Nat := 8

/-- `addr.As4()`. -/
def addrBytes (a : Addr) : Bytes := BigEndian.put 4 a.toNat

/-- `BuildIPv4`'s header, its checksum still zero. -/
def blankIPv4 (src dst : Addr) (protocol : UInt8) (totalLen : Nat) : Bytes :=
  [0x45, 0] ++ BigEndian.put 2 totalLen ++ [0, 0, 0, 0, defaultTTL, protocol, 0, 0]
    ++ addrBytes src ++ addrBytes dst

def buildIPv4 (src dst : Addr) (protocol : UInt8) (payload : Bytes) : Bytes :=
  let hdr := blankIPv4 src dst protocol (minIPv4HeaderLen + payload.length)
  putUint16 hdr 10 (internetChecksum hdr).toNat ++ payload

/-! ## The transport checksum -/

/-- `PseudoHeaderSum`; the length is a `uint16`. -/
def pseudoHeaderSum (src dst : Addr) (protocol : UInt8) (length : Nat) : BitVec 32 :=
  sumWords (addrBytes src) + sumWords (addrBytes dst) + BitVec.ofNat 32 protocol.toNat
    + BitVec.ofNat 32 (length % 65536)

/-- The loop that folds the carries back in, as in `internetChecksum`, and the complement. -/
def complementSum (sum : BitVec 32) : BitVec 16 :=
  let sum := if sum >>> 16 ≠ 0 then foldCarry sum else sum
  let sum := if sum >>> 16 ≠ 0 then foldCarry sum else sum
  ~~~ (sum.setWidth 16)

def transportChecksum (src dst : Addr) (protocol : UInt8) (payload : Bytes) : BitVec 16 :=
  complementSum (pseudoHeaderSum src dst protocol payload.length + sumWords payload)

/-- What goes into the checksum field of a UDP segment: zero would mean that there is none. -/
def udpChecksum (src dst : Addr) (segment : Bytes) : BitVec 16 :=
  let checksum := transportChecksum src dst protocolUDP segment
  if checksum = 0 then 0xFFFF else checksum

/-- `BuildUDP`'s segment, its checksum still zero. -/
def blankUDP (srcPort dstPort : Port) (payload : Bytes) : Bytes :=
  BigEndian.put 2 srcPort.toNat ++ BigEndian.put 2 dstPort.toNat
    ++ BigEndian.put 2 (udpHeaderLen + payload.length) ++ [0, 0] ++ payload

def buildUDP (src dst : Addr) (srcPort dstPort : Port) (payload : Bytes) : Bytes :=
  let segment := blankUDP srcPort dstPort payload
  putUint16 segment 6 (udpChecksum src dst segment).toNat

/-! ## Reading an IPv4 packet back -/

theorem get_put_two {x : Nat} (h : x < 65536) : BigEndian.get (BigEndian.put 2 x) = x := by
  have hwidth : 256 ^ 2 = 65536 := by decide
  rw [BigEndian.get_put, hwidth, Nat.mod_eq_of_lt h]

theorem ofNat_get_put_two (x : BitVec 16) :
    BitVec.ofNat 16 (BigEndian.get (BigEndian.put 2 x.toNat)) = x := by
  rw [get_put_two x.isLt, BitVec.ofNat_toNat, BitVec.setWidth_eq]

section IPv4

variable (src dst : Addr) (protocol : UInt8) (payload : Bytes)

theorem length_buildIPv4 :
    (buildIPv4 src dst protocol payload).length = minIPv4HeaderLen + payload.length := by
  rw [buildIPv4, List.length_append, length_putUint16]
  rfl

theorem drop_buildIPv4 : (buildIPv4 src dst protocol payload).drop minIPv4HeaderLen = payload :=
  List.drop_left' (length_putUint16 ..)

theorem byteAt_buildIPv4 {i : Nat} (hi : i < 20) (h10 : i ≠ 10) (h11 : i ≠ 11) :
    byteAt (buildIPv4 src dst protocol payload) i
      = byteAt (blankIPv4 src dst protocol (minIPv4HeaderLen + payload.length)) i := by
  have hlen : (blankIPv4 src dst protocol (minIPv4HeaderLen + payload.length)).length = 20 := rfl
  rw [buildIPv4, byteAt_append_left (by rw [length_putUint16, hlen]; exact hi),
    byteAt_putUint16_ne _ _ h10 h11]

/-- The header that comes with a payload of `n` bytes. -/
def plainHeader (n : Nat) : Ipv4Header where
  ihl := minIPv4HeaderLen
  totalLen := minIPv4HeaderLen + n
  protocol := protocol
  src := src
  dst := dst
  payloadOff := minIPv4HeaderLen
  id := 0
  moreFragments := false
  fragOffset := 0

theorem ofNat_get_addrBytes (a : Addr) : BitVec.ofNat 32 (BigEndian.get (addrBytes a)) = a := by
  have hwidth : 256 ^ 4 = 2 ^ 32 := by decide
  rw [addrBytes, BigEndian.get_put, hwidth, Nat.mod_eq_of_lt a.isLt, BitVec.ofNat_toNat,
    BitVec.setWidth_eq]

theorem parseIPv4_buildIPv4 (h : minIPv4HeaderLen + payload.length ≤ maxIPv4Datagram) :
    parseIPv4 (buildIPv4 src dst protocol payload)
      = .ok (plainHeader src dst protocol payload.length) := by
  have hkeep := fun {i} => byteAt_buildIPv4 src dst protocol payload (i := i)
  have hlen : (buildIPv4 src dst protocol payload).length = _ :=
    length_buildIPv4 src dst protocol payload
  have hword : ∀ i, i + 1 < 10 → uint16At (buildIPv4 src dst protocol payload) i
      = uint16At (blankIPv4 src dst protocol (minIPv4HeaderLen + payload.length)) i := fun i hi =>
    uint16At_congr (hkeep (by omega) (by omega) (by omega)) (hkeep (by omega) (by omega) (by omega))
  have haddr : ∀ i, 12 ≤ i → i + 4 ≤ 20 → addrAt (buildIPv4 src dst protocol payload) i
      = addrAt (blankIPv4 src dst protocol (minIPv4HeaderLen + payload.length)) i := fun i h1 h2 =>
    addrAt_congr fun j h3 h4 => hkeep (by omega) (by omega) (by omega)
  have htotal : uint16At (buildIPv4 src dst protocol payload) 2 =
      minIPv4HeaderLen + payload.length := by
    rw [hword 2 (by omega)]
    show BigEndian.get (BigEndian.put 2 (minIPv4HeaderLen + payload.length)) = _
    unfold maxIPv4Datagram at h
    rw [get_put_two (by omega)]
  have hversion : byteAt (buildIPv4 src dst protocol payload) 0 = 0x45 := by
    rw [hkeep (by omega) (by omega) (by omega)]
    rfl
  have hflags : uint16At (buildIPv4 src dst protocol payload) 6 = 0 := by
    rw [hword 6 (by omega)]
    show BigEndian.get [0, 0] = 0
    decide
  refine parseIPv4_eq_ok_iff.mpr {
    version := by rw [hversion]; decide
    ihl_eq := by rw [hversion]; show minIPv4HeaderLen = _; decide
    ihl_ge := Nat.le_refl _
    ihl_le := Nat.le_add_right _ _
    totalLen_eq := htotal.symm
    totalLen_le := by rw [hlen]; exact Nat.le_refl _
    payloadOff_eq := rfl
    protocol_eq := by rw [hkeep (by omega) (by omega) (by omega)]; rfl
    src_eq := by rw [haddr 12 (by omega) (by omega)]; exact (ofNat_get_addrBytes src).symm
    dst_eq := by rw [haddr 16 (by omega) (by omega)]; exact (ofNat_get_addrBytes dst).symm
    id_eq := by
      rw [hword 4 (by omega)]
      show (0 : BitVec 16) = BitVec.ofNat 16 (BigEndian.get [0, 0])
      decide
    more_eq := by rw [hflags]; rfl
    offset_eq := by rw [hflags]; rfl
    geometry := fun hf => by cases hf }

end IPv4

/-! ## Reading a UDP segment back -/

section Udp

variable (src dst : Addr) (srcPort dstPort : Port) (payload : Bytes)

theorem length_buildUDP :
    (buildUDP src dst srcPort dstPort payload).length = udpHeaderLen + payload.length := by
  rw [buildUDP, length_putUint16, blankUDP, List.length_append]
  rfl

theorem drop_buildUDP : (buildUDP src dst srcPort dstPort payload).drop udpHeaderLen = payload := by
  rw [buildUDP, drop_putUint16 _ _ (by decide)]
  rfl

theorem uint16At_buildUDP_ne {i : Nat} (h : i + 1 < 6) :
    uint16At (buildUDP src dst srcPort dstPort payload) i =
      uint16At (blankUDP srcPort dstPort payload) i :=
  uint16At_putUint16_ne _ _ (.inl h)

theorem srcPort_buildUDP :
    BitVec.ofNat 16 (uint16At (buildUDP src dst srcPort dstPort payload) 0) = srcPort := by
  rw [uint16At_buildUDP_ne _ _ _ _ _ (by omega)]
  exact ofNat_get_put_two srcPort

theorem dstPort_buildUDP :
    BitVec.ofNat 16 (uint16At (buildUDP src dst srcPort dstPort payload) 2) = dstPort := by
  rw [uint16At_buildUDP_ne _ _ _ _ _ (by omega)]
  exact ofNat_get_put_two dstPort

theorem udpLength_buildUDP (h : udpHeaderLen + payload.length < 65536) :
    uint16At (buildUDP src dst srcPort dstPort payload) 4 = udpHeaderLen + payload.length := by
  rw [uint16At_buildUDP_ne _ _ _ _ _ (by omega)]
  exact get_put_two h

theorem checksum_buildUDP :
    uint16At (buildUDP src dst srcPort dstPort payload) 6
      = (udpChecksum src dst (blankUDP srcPort dstPort payload)).toNat := by
  have hlen : (blankUDP srcPort dstPort payload).length = udpHeaderLen + payload.length := by
    rw [blankUDP, List.length_append]
    rfl
  unfold udpHeaderLen at hlen
  rw [buildUDP, uint16At_putUint16 _ (by omega), Nat.mod_eq_of_lt (BitVec.isLt _)]

theorem blank_buildUDP :
    ((buildUDP src dst srcPort dstPort payload).set 6 0).set 7 0 =
      blankUDP srcPort dstPort payload :=
  rfl

end Udp

end GoVpn.Netstack
