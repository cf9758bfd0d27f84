import GoVpn.Lib.BigEndian
import GoVpn.Netstack.TcpSegment

/-!
# IPv4 headers and fragments

Parsing a header, cutting a datagram into fragments, and the header checksum
(`ipv4.go`, `internal/frame`). A packet is a list of bytes. Go checks a length before
every read; `byteAt` reads zero outside the packet, and no read below depends on it.
-/

namespace GoVpn.Netstack

/-- `netip.Addr`, an IPv4 address. -/
abbrev Addr := BitVec 32

def minIPv4HeaderLen : Nat := 20
def maxIPv4Datagram : Nat := 65535
def minMTU : Nat := 576
def maxMTU : Nat := maxIPv4Datagram

def protocolICMP : UInt8 := 1
def protocolTCP : UInt8 := 6
def protocolUDP : UInt8 := 17

def flagMoreFragments : Nat := 0x2000
def fragOffsetMask : Nat := 0x1FFF

/-- `b[i]`. -/
def byteAt (b : Bytes) (i : Nat) : UInt8 := b.getD i 0

/-- `b[i:j]`. -/
def slice (b : Bytes) (i j : Nat) : Bytes := (b.take j).drop i

/-- `binary.BigEndian.Uint16(b[i:i+2])`. -/
def uint16At (b : Bytes) (i : Nat) : Nat := BigEndian.get [byteAt b i, byteAt b (i + 1)]

/-- `netip.AddrFrom4([4]byte(b[i:i+4]))`. -/
def addrAt (b : Bytes) (i : Nat) : Addr :=
  BitVec.ofNat 32
    (BigEndian.get [byteAt b i, byteAt b (i + 1), byteAt b (i + 2), byteAt b (i + 3)])

/-- `binary.BigEndian.PutUint16(b[i:i+2], uint16(x))`. -/
def putUint16 (b : Bytes) (i x : Nat) : Bytes :=
  (b.set i (UInt8.ofNat (x / 256))).set (i + 1) (UInt8.ofNat x)

/-! ## The checksum -/

/-- The 16-bit words of `b`, added up in a `uint32`; an odd last byte is a high byte. -/
def sumWords : Bytes → BitVec 32
  | a :: b :: rest => BitVec.ofNat 32 (a.toNat * 256 + b.toNat) + sumWords rest
  | [a] => BitVec.ofNat 32 (a.toNat * 256)
  | [] => 0

/-- One turn of the loop that folds the carries back in. -/
def foldCarry (sum : BitVec 32) : BitVec 32 := (sum &&& 0xFFFF#32) + (sum >>> 16)

/-- `InternetChecksum`. The loop folds while there is a carry, which is twice at most. -/
def internetChecksum (b : Bytes) : BitVec 16 :=
  let sum := sumWords b
  let sum := if sum >>> 16 ≠ 0 then foldCarry sum else sum
  let sum := if sum >>> 16 ≠ 0 then foldCarry sum else sum
  ~~~ (sum.setWidth 16)

theorem foldCarry_toNat (sum : BitVec 32) :
    (foldCarry sum).toNat = sum.toNat % 65536 + sum.toNat / 65536 := by
  have hand : (sum &&& 0xFFFF#32).toNat = sum.toNat % 65536 := by
    rw [BitVec.toNat_and]
    exact Nat.and_two_pow_sub_one_eq_mod sum.toNat 16
  have hshift : (sum >>> 16).toNat = sum.toNat / 65536 := by
    rw [BitVec.toNat_ushiftRight, Nat.shiftRight_eq_div_pow]
  rw [foldCarry, BitVec.toNat_add, hand, hshift, Nat.mod_eq_of_lt (by omega)]

theorem foldCarry_foldCarry_lt (sum : BitVec 32) : (foldCarry (foldCarry sum)).toNat < 65536 := by
  rw [foldCarry_toNat, foldCarry_toNat]
  omega

/-- Zero the checksum of a header of `ihl` bytes and compute it anew. -/
def setChecksum (b : Bytes) (ihl : Nat) : Bytes :=
  let b := (b.set 10 0).set 11 0
  putUint16 b 10 (internetChecksum (b.take ihl)).toNat

/-! ## Parsing -/

inductive Ipv4Err
  | tooShort | notIPv4 | badIHL | badTotalLength | badFragment
  deriving DecidableEq

/-- `ipv4Header`; `fragOffset` is in bytes. -/
structure Ipv4Header where
  ihl : Nat
  totalLen : Nat
  protocol : UInt8
  src : Addr
  dst : Addr
  payloadOff : Nat
  id : BitVec 16
  moreFragments : Bool
  fragOffset : Nat
  deriving DecidableEq

def Ipv4Header.isFragment (h : Ipv4Header) : Bool := h.moreFragments || h.fragOffset != 0

/-- The geometry a fragment must have. -/
def fragmentOk (moreFragments : Bool) (fragOffset payloadLen : Nat) : Bool :=
  payloadLen != 0 && !(moreFragments && payloadLen % 8 != 0)
    && decide (fragOffset + payloadLen ≤ maxIPv4Datagram)

def parseIPv4 (pkt : Bytes) : Except Ipv4Err Ipv4Header :=
  if pkt.length < minIPv4HeaderLen then .error .tooShort
  else if byteAt pkt 0 >>> 4 ≠ 4 then .error .notIPv4
  else
    let ihl := (byteAt pkt 0 &&& 0x0F).toNat * 4
    if ihl < minIPv4HeaderLen ∨ ihl > pkt.length then .error .badIHL
    else
      let totalLen := uint16At pkt 2
      if totalLen < ihl ∨ totalLen > pkt.length then .error .badTotalLength
      else
        let flagsFragOffset := uint16At pkt 6
        let moreFragments := flagsFragOffset &&& flagMoreFragments != 0
        let fragOffset := (flagsFragOffset &&& fragOffsetMask) * 8
        -- a whole datagram may be empty and of any length, a fragment may not
        if (moreFragments || fragOffset != 0)
            && !fragmentOk moreFragments fragOffset (totalLen - ihl) then .error .badFragment
        else
          .ok { ihl := ihl
                totalLen := totalLen
                protocol := byteAt pkt 9
                src := addrAt pkt 12
                dst := addrAt pkt 16
                payloadOff := ihl
                id := BitVec.ofNat 16 (uint16At pkt 4)
                moreFragments := moreFragments
                fragOffset := fragOffset }

/-! ## Cutting -/

/-- The fragment of `payload` from `off` on, as the loop of `fragmentIPv4` builds it. -/
def fragmentAt (hdr : Ipv4Header) (pkt payload : Bytes) (maxData : Nat) (id : BitVec 16)
    (off : Nat) : Bytes :=
  let stop := if off + maxData > payload.length then payload.length else off + maxData
  let chunk := slice payload off stop
  let frag := pkt.take hdr.ihl ++ chunk
  let frag := putUint16 frag 2 (hdr.ihl + chunk.length)
  let frag := putUint16 frag 4 id.toNat
  let flagsFragOffset := off / 8 ||| (if stop < payload.length then flagMoreFragments else 0)
  let frag := putUint16 frag 6 flagsFragOffset
  setChecksum frag hdr.ihl

/-- The loop of `fragmentIPv4`; every turn moves `off` forward, so the payload's length is fuel
enough. -/
def fragmentLoop (hdr : Ipv4Header) (pkt payload : Bytes) (maxData : Nat) (id : BitVec 16) :
    Nat → Nat → List Bytes
  | 0, _ => []
  | fuel + 1, off =>
    if off < payload.length then
      fragmentAt hdr pkt payload maxData id off
        :: fragmentLoop hdr pkt payload maxData id fuel (off + maxData)
    else []

/-- The payload bytes a fragment of a given MTU has room for, rounded down to a multiple of
eight. -/
def maxFragmentData (hdr : Ipv4Header) (mtu : Nat) : Nat := (mtu - hdr.ihl) / 8 * 8

def fragmentIPv4 (hdr : Ipv4Header) (pkt : Bytes) (mtu : Nat) (id : BitVec 16) : List Bytes :=
  let maxData := maxFragmentData hdr mtu
  if maxData = 0 then []
  else
    let payload := slice pkt hdr.payloadOff hdr.totalLen
    fragmentLoop hdr pkt payload maxData id payload.length 0

/-! ## Reading what was written -/

@[simp] theorem length_putUint16 (b : Bytes) (i x : Nat) : (putUint16 b i x).length = b.length := by
  simp [putUint16]

@[simp] theorem length_setChecksum (b : Bytes) (ihl : Nat) :
    (setChecksum b ihl).length = b.length := by
  simp [setChecksum]

variable {b c : Bytes} {i j : Nat}

theorem byteAt_set_ne (b : Bytes) (a : UInt8) (h : i ≠ j) : byteAt (b.set i a) j = byteAt b j := by
  simp [byteAt, List.getD_eq_getElem?_getD, List.getElem?_set_ne h]

theorem byteAt_set_self (a : UInt8) (h : i < b.length) : byteAt (b.set i a) i = a := by
  simp [byteAt, List.getD_eq_getElem?_getD, List.getElem?_set_self h]

theorem byteAt_putUint16_ne (b : Bytes) (x : Nat) (h : j ≠ i) (h' : j ≠ i + 1) :
    byteAt (putUint16 b i x) j = byteAt b j := by
  rw [putUint16, byteAt_set_ne _ _ (Ne.symm h'), byteAt_set_ne _ _ (Ne.symm h)]

theorem byteAt_setChecksum_ne (b : Bytes) (ihl : Nat) (h : j ≠ 10) (h' : j ≠ 11) :
    byteAt (setChecksum b ihl) j = byteAt b j := by
  rw [setChecksum, byteAt_putUint16_ne _ _ h h', byteAt_set_ne _ _ (Ne.symm h'),
    byteAt_set_ne _ _ (Ne.symm h)]

theorem uint16At_putUint16 (x : Nat) (h : i + 1 < b.length) :
    uint16At (putUint16 b i x) i = x % 65536 := by
  have hi : byteAt (putUint16 b i x) i = UInt8.ofNat (x / 256) := by
    rw [putUint16, byteAt_set_ne _ _ (by omega), byteAt_set_self _ (by omega)]
  have hi' : byteAt (putUint16 b i x) (i + 1) = UInt8.ofNat x := by
    rw [putUint16, byteAt_set_self _ (by rw [List.length_set]; omega)]
  have hput : [UInt8.ofNat (x / 256), UInt8.ofNat x] = BigEndian.put 2 x := rfl
  have hwidth : 256 ^ 2 = 65536 := by decide
  rw [uint16At, hi, hi', hput, BigEndian.get_put, hwidth]

theorem uint16At_eq (b : Bytes) (i : Nat) :
    uint16At b i = (byteAt b i).toNat * 256 + (byteAt b (i + 1)).toNat := by
  simp [uint16At, BigEndian.get]

theorem uint16At_lt (b : Bytes) (i : Nat) : uint16At b i < 65536 := by
  have h1 := (byteAt b i).toNat_lt
  have h2 := (byteAt b (i + 1)).toNat_lt
  rw [uint16At_eq]
  omega

theorem byteAt_putUint16_uint16At (hi : i + 1 < b.length)
    (hj : j = i ∨ j = i + 1) : byteAt (putUint16 b i (uint16At c i)) j = byteAt c j := by
  have h1 := (byteAt c i).toNat_lt
  have h2 := (byteAt c (i + 1)).toNat_lt
  rw [uint16At_eq, putUint16]
  rcases hj with rfl | rfl
  · rw [byteAt_set_ne _ _ (by omega), byteAt_set_self _ (by omega)]
    apply UInt8.toNat_inj.mp
    rw [UInt8.toNat_ofNat']
    omega
  · rw [byteAt_set_self _ (by rw [List.length_set]; omega)]
    apply UInt8.toNat_inj.mp
    rw [UInt8.toNat_ofNat']
    omega

theorem uint16At_congr (h : byteAt b i = byteAt c i)
    (h' : byteAt b (i + 1) = byteAt c (i + 1)) : uint16At b i = uint16At c i := by
  rw [uint16At, uint16At, h, h']

theorem uint16At_putUint16_ne (b : Bytes) {k : Nat} (x : Nat) (h : i + 1 < k ∨ k + 1 < i) :
    uint16At (putUint16 b k x) i = uint16At b i :=
  uint16At_congr (byteAt_putUint16_ne _ _ (by omega) (by omega))
    (byteAt_putUint16_ne _ _ (by omega) (by omega))

theorem uint16At_setChecksum (b : Bytes) (ihl : Nat) (h : i + 1 < 10) :
    uint16At (setChecksum b ihl) i = uint16At b i :=
  uint16At_congr (byteAt_setChecksum_ne _ _ (by omega) (by omega))
    (byteAt_setChecksum_ne _ _ (by omega) (by omega))

theorem addrAt_congr (h : ∀ j, i ≤ j → j < i + 4 → byteAt b j = byteAt c j) :
    addrAt b i = addrAt c i := by
  rw [addrAt, addrAt, h i (by omega) (by omega), h (i + 1) (by omega) (by omega),
    h (i + 2) (by omega) (by omega), h (i + 3) (by omega) (by omega)]

theorem byteAt_append_left (h : i < b.length) : byteAt (b ++ c) i = byteAt b i := by
  simp [byteAt, List.getD_eq_getElem?_getD, List.getElem?_append_left h]

theorem byteAt_take {n : Nat} (h : i < n) : byteAt (b.take n) i = byteAt b i := by
  simp [byteAt, List.getD_eq_getElem?_getD, h]

theorem length_slice (b : Bytes) (i j : Nat) : (slice b i j).length = min j b.length - i := by
  simp [slice]

theorem drop_putUint16 (b : Bytes) {n : Nat} (x : Nat) (h : i + 1 < n) :
    (putUint16 b i x).drop n = b.drop n := by
  unfold putUint16
  rw [List.drop_set_of_lt (by omega), List.drop_set_of_lt (by omega)]

theorem drop_setChecksum (b : Bytes) {n : Nat} (ihl : Nat) (h : 11 < n) :
    (setChecksum b ihl).drop n = b.drop n := by
  rw [setChecksum, drop_putUint16 _ _ (by omega), List.drop_set_of_lt (by omega),
    List.drop_set_of_lt (by omega)]

/-! ## What an accepted header says -/

/-- The rules `parseIPv4` has checked of a header it returns. -/
structure Ipv4Header.Valid (hdr : Ipv4Header) (pkt : Bytes) : Prop where
  version : byteAt pkt 0 >>> 4 = 4
  ihl_eq : hdr.ihl = (byteAt pkt 0 &&& 0x0F).toNat * 4
  ihl_ge : minIPv4HeaderLen ≤ hdr.ihl
  ihl_le : hdr.ihl ≤ hdr.totalLen
  totalLen_eq : hdr.totalLen = uint16At pkt 2
  totalLen_le : hdr.totalLen ≤ pkt.length
  payloadOff_eq : hdr.payloadOff = hdr.ihl
  protocol_eq : hdr.protocol = byteAt pkt 9
  src_eq : hdr.src = addrAt pkt 12
  dst_eq : hdr.dst = addrAt pkt 16
  id_eq : hdr.id = BitVec.ofNat 16 (uint16At pkt 4)
  more_eq : hdr.moreFragments = (uint16At pkt 6 &&& flagMoreFragments != 0)
  offset_eq : hdr.fragOffset = (uint16At pkt 6 &&& fragOffsetMask) * 8
  geometry : hdr.isFragment = true →
    fragmentOk hdr.moreFragments hdr.fragOffset (hdr.totalLen - hdr.ihl) = true

theorem parseIPv4_eq_ok_iff {pkt : Bytes} {hdr : Ipv4Header} :
    parseIPv4 pkt = .ok hdr ↔ hdr.Valid pkt := by
  unfold parseIPv4
  constructor
  · intro h
    split at h
    · cases h
    split at h
    · cases h
    rename_i _ hversion
    dsimp only at h
    split at h
    · cases h
    split at h
    · cases h
    split at h
    · cases h
    rename_i hihl htotal hfrag
    cases h
    refine ⟨Classical.not_not.mp hversion, rfl, ?_, ?_, rfl, ?_, rfl, rfl, rfl, rfl, rfl, rfl, rfl,
      ?_⟩
    · dsimp only; omega
    · dsimp only; omega
    · dsimp only; omega
    · intro hf
      unfold Ipv4Header.isFragment at hf
      cases hg : fragmentOk (uint16At pkt 6 &&& flagMoreFragments != 0)
          ((uint16At pkt 6 &&& fragOffsetMask) * 8)
          (uint16At pkt 2 - (byteAt pkt 0 &&& 0x0F).toNat * 4) with
      | true => rfl
      | false => exact absurd (by rw [hf, hg]; rfl) hfrag
  · intro h
    obtain ⟨hversion, hihl, hge, hle, htotal, hlen, hoff, hproto, hsrc, hdst, hid, hmore, hfo,
      hgeo⟩ := h
    have hgeo' : ¬ (((uint16At pkt 6 &&& flagMoreFragments != 0)
        || (uint16At pkt 6 &&& fragOffsetMask) * 8 != 0)
        && !fragmentOk (uint16At pkt 6 &&& flagMoreFragments != 0)
          ((uint16At pkt 6 &&& fragOffsetMask) * 8)
          (uint16At pkt 2 - (byteAt pkt 0 &&& 0x0F).toNat * 4)) = true := by
      rw [← hmore, ← hfo, ← htotal, ← hihl, Bool.and_eq_true]
      rintro ⟨hf, hn⟩
      rw [hgeo hf] at hn
      cases hn
    have hpkt : ¬ pkt.length < minIPv4HeaderLen := by omega
    rw [if_neg hpkt, if_neg (Classical.not_not.mpr hversion)]
    rw [if_neg (by omega), if_neg (by omega), if_neg hgeo']
    cases hdr
    simp_all

end GoVpn.Netstack
