import Mathlib.Data.Nat.Bitwise
import Mathlib.Data.Nat.Find
import GoVpn.Proof.Reassembled

/-!
# Cutting a datagram up and putting it together again

`fragmentIPv4` cuts a datagram at multiples of eight bytes; the reassembler keeps a list of holes.
The first half says what the fragments are: number `j` carries the bytes from `j * maxData` on, and
`parseIPv4` accepts it. The second half follows any number of datagrams through the reassembler,
their fragments interleaved and repeated in any way.
-/

namespace GoVpn.Netstack

open HoleList Overlay

/-! ## The fragments of a datagram -/

theorem fragmentWord (units : Nat) (h : units < 8192) (more : Bool) :
    let word := units ||| (if more then flagMoreFragments else 0)
    word < 65536 ∧ (word &&& flagMoreFragments != 0) = more ∧ word &&& fragOffsetMask = units := by
  have hbit : units.testBit 13 = false := Nat.testBit_lt_two_pow h
  have hflag : ∀ n, n &&& flagMoreFragments = (n.testBit 13).toNat * 2 ^ 13 :=
    fun n => Nat.and_two_pow n 13
  have hmask : ∀ n, n &&& fragOffsetMask = n % 2 ^ 13 :=
    fun n => Nat.and_two_pow_sub_one_eq_mod n 13
  have hmod : units % 2 ^ 13 = units := Nat.mod_eq_of_lt h
  cases more with
  | false =>
    simp only [Bool.false_eq_true, if_false, Nat.or_zero, hflag, hmask, hbit, hmod]
    exact ⟨by omega, rfl, trivial⟩
  | true =>
    have hset : (units ||| flagMoreFragments).testBit 13 = true := by
      rw [Nat.testBit_or, hbit]
      decide
    have hlow : (units ||| flagMoreFragments) % 2 ^ 13 = units := by
      rw [Nat.or_mod_two_pow, hmod, show flagMoreFragments % 2 ^ 13 = 0 by decide, Nat.or_zero]
    have hlt : units ||| flagMoreFragments < 2 ^ 16 :=
      Nat.or_lt_two_pow (by omega) (by decide)
    simp only [if_true, hflag, hmask, hset, hlow]
    exact ⟨hlt, rfl, trivial⟩

/-- An MTU that `New` accepts. -/
structure Mtu where
  val : Nat
  min : minMTU ≤ val
  max : val ≤ maxMTU

/-- A datagram that is too large for `mtu`, and the identification it is sent under. -/
structure Datagram (mtu : Mtu) where
  pkt : Bytes
  hdr : Ipv4Header
  parsed : parseIPv4 pkt = .ok hdr
  whole : hdr.isFragment = false
  large : mtu.val < hdr.totalLen
  id : BitVec 16

namespace Datagram

variable {mtu : Mtu} (d : Datagram mtu)

def payload : Bytes := slice d.pkt d.hdr.payloadOff d.hdr.totalLen

/-- The fragments, in the order `writePacket` sends them. -/
def frags : List Bytes := fragmentIPv4 d.hdr d.pkt mtu.val d.id

/-- How the reassembler tells this datagram from others. -/
def key : ReassemblyKey := { d.hdr.key with id := d.id }

/-- The bytes a fragment carries. -/
def maxData : Nat := maxFragmentData d.hdr mtu.val

/-- The offset behind the bytes of fragment `j`. -/
def fragStop (j : Nat) : Nat := min (j * d.maxData + d.maxData) d.payload.length

/-- The header of fragment `j`. -/
def fragHeader (j : Nat) : Ipv4Header where
  ihl := d.hdr.ihl
  totalLen := d.hdr.ihl + (d.fragStop j - j * d.maxData)
  protocol := d.hdr.protocol
  src := d.hdr.src
  dst := d.hdr.dst
  payloadOff := d.hdr.ihl
  id := d.id
  moreFragments := decide (d.fragStop j < d.payload.length)
  fragOffset := j * d.maxData

theorem valid : d.hdr.Valid d.pkt := parseIPv4_eq_ok_iff.mp d.parsed

theorem length_payload : d.payload.length = d.hdr.totalLen - d.hdr.ihl := by
  rw [payload, length_slice, d.valid.payloadOff_eq, Nat.min_eq_left d.valid.totalLen_le]

theorem ihl_le : d.hdr.ihl ≤ 60 := by
  rw [d.valid.ihl_eq]
  have : (byteAt d.pkt 0 &&& 0x0F).toNat ≤ 15 := by
    exact Nat.and_le_right
  omega

theorem totalLen_le : d.hdr.totalLen ≤ maxIPv4Datagram := by
  rw [d.valid.totalLen_eq]
  exact Nat.le_of_lt_succ (uint16At_lt _ _)

theorem maxData_mod : d.maxData % 8 = 0 := by
  exact Nat.mul_mod_left _ 8

theorem maxData_pos : 0 < d.maxData ∧ d.maxData + d.hdr.ihl ≤ mtu.val := by
  have := d.ihl_le
  have := mtu.min
  unfold minMTU at this
  unfold maxData maxFragmentData
  omega

theorem maxData_lt : d.maxData < d.payload.length := by
  have h1 := d.maxData_pos
  have h2 := d.large
  rw [d.length_payload]
  omega

/-- The bytes fragment `j` carries. -/
def chunk (j : Nat) : Bytes := slice d.payload (j * d.maxData) (d.fragStop j)

theorem length_chunk (j : Nat) : (d.chunk j).length = d.fragStop j - j * d.maxData := by
  have : d.fragStop j ≤ d.payload.length := Nat.min_le_right _ _
  rw [chunk, length_slice, Nat.min_eq_left this]

/-- Fragment `j`, as the loop builds it. -/
def cut (j : Nat) : Bytes := fragmentAt d.hdr d.pkt d.payload d.maxData d.id (j * d.maxData)

theorem cut_eq (j : Nat) :
    d.cut j
      = setChecksum
          (putUint16
            (putUint16
              (putUint16 (d.pkt.take d.hdr.ihl ++ d.chunk j) 2 (d.hdr.ihl + (d.chunk j).length)) 4
              d.id.toNat)
            6
            (j * d.maxData / 8
              ||| (if d.fragStop j < d.payload.length then flagMoreFragments else 0)))
                d.hdr.ihl := by
  have hstop : (if j * d.maxData + d.maxData > d.payload.length then d.payload.length
      else j * d.maxData + d.maxData) = d.fragStop j := by
    unfold fragStop
    split <;> omega
  unfold cut fragmentAt
  rw [hstop]
  rfl

theorem getElem?_fragmentLoop (hdr : Ipv4Header) (pkt payload : Bytes) (maxData : Nat)
    (id : BitVec 16) :
    ∀ fuel off j, payload.length ≤ off + fuel * maxData →
      (fragmentLoop hdr pkt payload maxData id fuel off)[j]?
        = if off + j * maxData < payload.length then
            some (fragmentAt hdr pkt payload maxData id (off + j * maxData))
          else none := by
  intro fuel
  induction fuel with
  | zero =>
    intro off j h
    rw [if_neg (by omega)]
    rfl
  | succ fuel ih =>
    intro off j h
    rw [Nat.succ_mul] at h
    unfold fragmentLoop
    by_cases hoff : off < payload.length
    · rw [if_pos hoff]
      cases j with
      | zero =>
        rw [Nat.zero_mul, Nat.add_zero, if_pos hoff]
        rfl
      | succ j =>
        have hnext : off + (j + 1) * maxData = off + maxData + j * maxData := by
          rw [Nat.succ_mul]; omega
        rw [List.getElem?_cons_succ, ih _ _ (by omega), hnext]
    · rw [if_neg hoff, if_neg (by omega)]
      rfl

theorem getElem?_frags (j : Nat) :
    d.frags[j]? = if j * d.maxData < d.payload.length then some (d.cut j) else none := by
  have hpos := (d.maxData_pos).1
  have hfuel : d.payload.length ≤ 0 + d.payload.length * d.maxData := by
    rw [Nat.zero_add]
    exact Nat.le_mul_of_pos_right _ hpos
  have h := getElem?_fragmentLoop d.hdr d.pkt d.payload d.maxData d.id d.payload.length 0 j hfuel
  rw [Nat.zero_add] at h
  unfold frags fragmentIPv4
  rw [if_neg (by unfold maxData at hpos; omega)]
  exact h

theorem length_take_ihl : (d.pkt.take d.hdr.ihl).length = d.hdr.ihl := by
  have h1 := d.valid.ihl_le
  have h2 := d.valid.totalLen_le
  rw [List.length_take]
  omega

theorem byteAt_cut {i : Nat} (j : Nat) (hi : i < d.hdr.ihl)
    (h : i < 2 ∨ 8 ≤ i) (h10 : i ≠ 10) (h11 : i ≠ 11) : byteAt (d.cut j) i = byteAt d.pkt i := by
  have hlen := d.length_take_ihl
  rw [cut_eq, byteAt_setChecksum_ne _ _ h10 h11, byteAt_putUint16_ne _ _ (by omega) (by omega),
    byteAt_putUint16_ne _ _ (by omega) (by omega), byteAt_putUint16_ne _ _ (by omega) (by omega),
    byteAt_append_left (by omega), byteAt_take hi]

theorem length_cut (j : Nat) : (d.cut j).length = (d.fragHeader j).totalLen := by
  rw [cut_eq]
  simp only [length_setChecksum, length_putUint16, List.length_append, length_take_ihl,
    length_chunk]
  rfl

theorem drop_cut (j : Nat) : (d.cut j).drop d.hdr.ihl = d.chunk j := by
  have hge := d.valid.ihl_ge
  unfold minIPv4HeaderLen at hge
  rw [cut_eq, drop_setChecksum _ _ (by omega), drop_putUint16 _ _ (by omega),
    drop_putUint16 _ _ (by omega), drop_putUint16 _ _ (by omega), List.drop_left' d.length_take_ihl]

section Fields

variable {j : Nat}

theorem fragStop_le (j : Nat) : d.fragStop j ≤ d.payload.length := Nat.min_le_right _ _

/-- No fragment is empty. -/
theorem start_lt_fragStop (hj : j * d.maxData < d.payload.length) :
    j * d.maxData < d.fragStop j := by
  have hpos := d.maxData_pos
  unfold fragStop
  omega

theorem fragment_bounds : d.hdr.ihl + d.fragStop j < 65536 := by
  have htotal := d.totalLen_le
  unfold maxIPv4Datagram at htotal
  have hpay := d.length_payload
  have hstop := d.fragStop_le j
  have hle := d.valid.ihl_le
  omega

theorem fragment_room (j : Nat) : 20 ≤ (d.pkt.take d.hdr.ihl ++ d.chunk j).length := by
  have hge := d.valid.ihl_ge
  unfold minIPv4HeaderLen at hge
  rw [List.length_append, d.length_take_ihl]
  omega

theorem totalLen_cut : uint16At (d.cut j) 2 = (d.fragHeader j).totalLen := by
  have hroom := d.fragment_room j
  have hbound := d.fragment_bounds (j := j)
  have hchunk := d.length_chunk j
  rw [cut_eq, uint16At_setChecksum _ _ (by omega), uint16At_putUint16_ne _ _ (by omega),
    uint16At_putUint16_ne _ _ (by omega), uint16At_putUint16 _ (by omega),
    Nat.mod_eq_of_lt (by omega), hchunk]
  rfl

theorem id_cut : uint16At (d.cut j) 4 = d.id.toNat := by
  have hroom := d.fragment_room j
  rw [cut_eq, uint16At_setChecksum _ _ (by omega), uint16At_putUint16_ne _ _ (by omega),
    uint16At_putUint16 _ (by rw [length_putUint16]; omega), Nat.mod_eq_of_lt d.id.isLt]

theorem word_cut (hj : j * d.maxData < d.payload.length) :
    let word := uint16At (d.cut j) 6
    (word &&& flagMoreFragments != 0) = (d.fragHeader j).moreFragments
      ∧ word &&& fragOffsetMask = j * d.maxData / 8 := by
  have hroom := d.fragment_room j
  have hbound := d.fragment_bounds (j := j)
  have hstart := d.start_lt_fragStop hj
  obtain ⟨hword, hmore, hoff⟩ :=
    fragmentWord (j * d.maxData / 8) (by omega) (decide (d.fragStop j < d.payload.length))
  simp only [decide_eq_true_eq] at hword hmore hoff
  rw [cut_eq, uint16At_setChecksum _ _ (by omega),
    uint16At_putUint16 _ (by rw [length_putUint16, length_putUint16]; omega),
      Nat.mod_eq_of_lt hword]
  exact ⟨hmore, hoff⟩

theorem start_mod (j : Nat) : j * d.maxData % 8 = 0 := by
  rw [Nat.mul_mod, d.maxData_mod, Nat.mul_zero, Nat.zero_mod]

theorem fragmentOk_fragHeader (hj : j * d.maxData < d.payload.length) :
    fragmentOk (d.fragHeader j).moreFragments (d.fragHeader j).fragOffset
      ((d.fragHeader j).totalLen - (d.fragHeader j).ihl) = true := by
  have hdata : (d.fragHeader j).totalLen - (d.fragHeader j).ihl = d.fragStop j - j * d.maxData :=
    Nat.add_sub_cancel_left ..
  have hbound := d.fragment_bounds (j := j)
  have hstart := d.start_lt_fragStop hj
  rw [hdata]
  show fragmentOk (decide (d.fragStop j < d.payload.length)) (j * d.maxData) _ = true
  unfold fragmentOk maxIPv4Datagram
  simp only [Bool.and_eq_true, bne_iff_ne, ne_eq, Bool.not_eq_true', Bool.and_eq_false_iff,
    decide_eq_false_iff_not, bne_eq_false_iff_eq, decide_eq_true_eq]
  refine ⟨⟨by omega, ?_⟩, by omega⟩
  by_cases hlast : d.fragStop j < d.payload.length
  · right
    have hfull : d.fragStop j = j * d.maxData + d.maxData := by
      unfold fragStop at hlast ⊢
      omega
    rw [hfull, Nat.add_sub_cancel_left, d.maxData_mod]
  · exact .inl hlast

theorem fragHeader_valid (hj : j * d.maxData < d.payload.length) :
    (d.fragHeader j).Valid (d.cut j) := by
  have hv := d.valid
  have hge := hv.ihl_ge
  unfold minIPv4HeaderLen at hge
  obtain ⟨hmore, hoff⟩ := d.word_cut hj
  -- the other fields are the datagram's own
  have hkeep : ∀ i, i < 20 → i < 2 ∨ 8 ≤ i → i ≠ 10 → i ≠ 11 →
      byteAt (d.cut j) i = byteAt d.pkt i :=
    fun i hi h h10 h11 => d.byteAt_cut j (by omega) h h10 h11
  exact {
    version := by rw [hkeep 0 (by omega) (by omega) (by omega) (by omega)]; exact hv.version
    ihl_eq := by rw [hkeep 0 (by omega) (by omega) (by omega) (by omega)]; exact hv.ihl_eq
    ihl_ge := hv.ihl_ge
    ihl_le := Nat.le_add_right _ _
    totalLen_eq := d.totalLen_cut.symm
    totalLen_le := by rw [length_cut]
    payloadOff_eq := rfl
    protocol_eq := by
      rw [hkeep 9 (by omega) (by omega) (by omega) (by omega)]; exact hv.protocol_eq
    src_eq := hv.src_eq.trans
      (addrAt_congr fun i h1 h2 => (hkeep i (by omega) (by omega) (by omega) (by omega)).symm)
    dst_eq := hv.dst_eq.trans
      (addrAt_congr fun i h1 h2 => (hkeep i (by omega) (by omega) (by omega) (by omega)).symm)
    id_eq := by rw [d.id_cut, BitVec.ofNat_toNat, BitVec.setWidth_eq]; rfl
    more_eq := hmore.symm
    offset_eq := by
      have hmod := d.start_mod j
      show j * d.maxData = _
      omega
    geometry := fun _ => d.fragmentOk_fragHeader hj }

end Fields

/-! ### Fragments on their way -/

variable {j x : Nat}

theorem lt_length_frags_iff : j < d.frags.length ↔ j * d.maxData < d.payload.length := by
  rw [← not_iff_not, Nat.not_lt, ← List.getElem?_eq_none_iff, getElem?_frags]
  split
  · rename_i h
    simp [h]
  · rename_i h
    simp [h]

theorem getElem_frags (h : j < d.frags.length) : d.frags[j] = d.cut j := by
  have hget := d.getElem?_frags j
  rw [List.getElem?_eq_getElem h, if_pos (d.lt_length_frags_iff.mp h)] at hget
  exact Option.some.inj hget

theorem fragHeader_isFragment (j : Nat) : (d.fragHeader j).isFragment = true := by
  have hpos := d.maxData_pos.1
  have hlt := d.maxData_lt
  show (decide (d.fragStop j < d.payload.length) || j * d.maxData != 0) = true
  rw [Bool.or_eq_true, decide_eq_true_eq, bne_iff_ne]
  cases j with
  | zero =>
    left
    unfold fragStop
    omega
  | succ j =>
    right
    exact Nat.mul_ne_zero (Nat.succ_ne_zero j) (Nat.ne_of_gt hpos)

/-- Fragment `j`, as the reassembler gets it. -/
def fragment (j : Nat) (h : j < d.frags.length) : Fragment where
  pkt := d.frags[j]
  hdr := d.fragHeader j
  parsed := by
    rw [d.getElem_frags h]
    exact parseIPv4_eq_ok_iff.mpr (d.fragHeader_valid (d.lt_length_frags_iff.mp h))
  fragment := d.fragHeader_isFragment j

section Fragment

variable {j : Nat} (h : j < d.frags.length)

theorem fragment_start : (d.fragment j h).start = j * d.maxData := rfl

theorem fragment_payload : (d.fragment j h).payload = d.chunk j := by
  show (d.frags[j].take (d.fragHeader j).totalLen).drop d.hdr.ihl = d.chunk j
  rw [d.getElem_frags h, ← d.length_cut j, List.take_length, d.drop_cut]

theorem fragment_stop : (d.fragment j h).stop = d.fragStop j := by
  have hlt := d.lt_length_frags_iff.mp h
  unfold Fragment.stop
  rw [fragment_payload, length_chunk, fragment_start]
  unfold fragStop
  omega

theorem fragment_final : (d.fragment j h).final = true ↔ d.fragStop j = d.payload.length := by
  have hle := d.fragStop_le j
  show (!decide (d.fragStop j < d.payload.length)) = true ↔ _
  rw [Bool.not_eq_true', decide_eq_false_iff_not]
  omega

theorem length_fragment_le : d.frags[j].length ≤ mtu.val := by
  have hpos := d.maxData_pos
  rw [d.getElem_frags h, length_cut]
  unfold fragHeader fragStop
  dsimp only
  omega

end Fragment

theorem mem_fragment_iff (hx : x < d.payload.length) :
    (j * d.maxData ≤ x ∧ x < d.fragStop j) ↔ j = x / d.maxData := by
  have hpos := d.maxData_pos.1
  have hstop : x < d.fragStop j ↔ x < (j + 1) * d.maxData := by
    rw [Nat.succ_mul]
    unfold fragStop
    omega
  rw [hstop, ← Nat.le_div_iff_mul_le hpos, ← Nat.div_lt_iff_lt_mul hpos]
  omega

theorem div_lt_length_frags (hx : x < d.payload.length) : x / d.maxData < d.frags.length :=
  d.lt_length_frags_iff.mpr (Nat.lt_of_le_of_lt (Nat.div_mul_le_self _ _) hx)

theorem fragStop_last : d.fragStop ((d.payload.length - 1) / d.maxData) = d.payload.length := by
  have hlt := d.maxData_lt
  have hlast : d.payload.length - 1 < d.payload.length := by omega
  have hin := ((d.mem_fragment_iff hlast).mpr rfl).2
  have hle := d.fragStop_le ((d.payload.length - 1) / d.maxData)
  omega

theorem getElem?_chunk (h : j * d.maxData ≤ x) (h' : x < d.fragStop j) :
    (d.chunk j)[x - j * d.maxData]? = d.payload[x]? := by
  rw [chunk, slice, List.getElem?_drop, Nat.add_sub_cancel' h, List.getElem?_take, if_pos h']

end Datagram

/-! ## Any number of datagrams at once -/

section Interleaved

variable {ι : Type} {mtu : Mtu} {ds : ι → Datagram mtu}

/-- Fragment `j` of the datagram `i` arrives. -/
structure Sent (ds : ι → Datagram mtu) where
  now : Int
  i : ι
  j : Nat
  lt : j < (ds i).frags.length

namespace Sent

def frag (s : Sent ds) : Fragment := (ds s.i).fragment s.j s.lt

def arrival (s : Sent ds) : Arrival := { now := s.now, frag := s.frag }

theorem stop_frag (s : Sent ds) : s.frag.stop = (ds s.i).fragStop s.j :=
  (ds s.i).fragment_stop s.lt

theorem stop_of_final {s : Sent ds} (h : s.frag.final = true) :
    s.frag.stop = (ds s.i).payload.length :=
  s.stop_frag.trans (((ds s.i).fragment_final s.lt).mp h)

theorem stop_of_last {s : Sent ds} (h : s.frag.hdr.moreFragments = false) :
    s.frag.stop = (ds s.i).payload.length :=
  stop_of_final (by simp [Fragment.final, h])

end Sent

/-- Every fragment of datagram `i` is among those that have arrived. -/
def AllIn (i : ι) (sent : List (Sent ds)) : Prop :=
  ∀ j < (ds i).frags.length, ∃ s ∈ sent, s.i = i ∧ s.j = j

instance [DecidableEq ι] (i : ι) (sent : List (Sent ds)) : Decidable (AllIn i sent) :=
  inferInstanceAs (Decidable (∀ j < (ds i).frags.length, ∃ s ∈ sent, s.i = i ∧ s.j = j))

theorem AllIn.mono {i : ι} {sent sent' : List (Sent ds)} (h : AllIn i sent)
    (hsub : ∀ s ∈ sent, s ∈ sent') : AllIn i sent' := by
  intro j hj
  obtain ⟨s, hs, hi, hj⟩ := h j hj
  exact ⟨s, hsub s hs, hi, hj⟩

/-! ### One buffer -/

/-- The buffer of datagram `i` has accepted `ss`, all of them fragments of it. -/
structure Gathers (i : ι) (b : ReassemblyBuffer) (ss : List (Sent ds)) : Prop where
  own : ∀ s ∈ ss, s.i = i
  holds : Holds (ds i).key b (ss.map Sent.frag)
  ends : ∀ t, b.totalLen = some t → t = (ds i).payload.length

namespace Gathers

variable {i : ι} {b b' : ReassemblyBuffer} {ss : List (Sent ds)} (h : Gathers i b ss)

include h

theorem missing_iff {x : Nat} (hx : x < (ds i).payload.length) :
    Missing b.holes x ↔ ∀ s ∈ ss, s.j ≠ x / (ds i).maxData := by
  have hmax : x ≤ holeOpenEnd := by
    have h1 := (ds i).totalLen_le
    have h2 := (ds i).length_payload
    unfold holeOpenEnd
    omega
  rw [h.holds.missing]
  simp only [List.forall_mem_map]
  have hcover : ∀ s ∈ ss, (s.frag.start ≤ x ∧ x < s.frag.stop) ↔ s.j = x / (ds i).maxData := by
    intro s hs
    obtain rfl := h.own s hs
    rw [← (ds s.i).mem_fragment_iff hx, s.stop_frag]
    rfl
  constructor
  · rintro ⟨-, hnot, -⟩ s hs hj
    exact hnot s hs ((hcover s hs).mpr hj)
  · intro hnot
    refine ⟨hmax, fun s hs hin => hnot s hs ((hcover s hs).mp hin), ?_⟩
    intro s hs hfinal
    obtain rfl := h.own s hs
    rw [Sent.stop_of_final hfinal]
    exact hx

theorem holes_eq_nil_iff : b.holes = [] ↔ AllIn i ss := by
  rw [eq_nil_iff h.holds.proper]
  constructor
  · intro hnone j hj
    have hx := (ds i).lt_length_frags_iff.mp hj
    have hdiv : j * (ds i).maxData / (ds i).maxData = j :=
      Nat.mul_div_cancel _ (ds i).maxData_pos.1
    by_contra hno
    refine hnone (j * (ds i).maxData) ((h.missing_iff hx).mpr ?_)
    intro s hs hsj
    exact hno ⟨s, hs, h.own s hs, hsj.trans hdiv⟩
  · intro hall x hmiss
    have hpos : 0 < (ds i).payload.length := Nat.lt_of_le_of_lt (Nat.zero_le _) (ds i).maxData_lt
    by_cases hx : x < (ds i).payload.length
    · obtain ⟨s, hs, -, hj⟩ := hall _ ((ds i).div_lt_length_frags hx)
      exact (h.missing_iff hx).mp hmiss s hs hj
    · -- what lies behind the end was cut off by the final fragment
      obtain ⟨s, hs, rfl, hj⟩ := hall _ ((ds i).div_lt_length_frags (Nat.sub_lt hpos Nat.one_pos))
      have hstop : (ds s.i).fragStop s.j = (ds s.i).payload.length := by
        rw [hj]
        exact (ds s.i).fragStop_last
      have hfinal : s.frag.final = true := ((ds s.i).fragment_final s.lt).mpr hstop
      have hlt := ((h.holds.missing x).mp hmiss).2.2 s.frag (List.mem_map_of_mem hs) hfinal
      rw [s.stop_frag, hstop] at hlt
      exact hx hlt

theorem declareEnd_ne_none {s : Sent ds} (hs : s.i = i) :
    b.declareEnd s.frag.hdr.moreFragments (s.frag.stop - 1) ≠ none := by
  subst hs
  have hpos := s.frag.start_lt_stop
  have hle : s.frag.stop ≤ (ds s.i).payload.length := by
    rw [s.stop_frag]
    exact (ds s.i).fragStop_le s.j
  unfold ReassemblyBuffer.declareEnd
  cases ht : b.totalLen with
  | none => cases s.frag.hdr.moreFragments <;> simp
  | some t =>
    obtain rfl := h.ends t ht
    rw [Option.any_some, Option.any_some, if_neg (by rw [decide_eq_true_eq]; omega)]
    cases hmore : s.frag.hdr.moreFragments with
    | true => simp
    | false =>
      have := Sent.stop_of_last hmore
      rw [if_pos (by rfl), if_neg (by rw [decide_eq_true_eq]; omega)]
      simp

theorem absorb {s : Sent ds} (hs : s.i = i)
    (hend : b.declareEnd s.frag.hdr.moreFragments (s.frag.stop - 1) = some b') :
    Gathers i (b'.absorb s.frag.hdr s.frag.pkt s.frag.payload) (ss ++ [s]) where
  own := by
    intro s' hs'
    rcases List.mem_append.mp hs' with hs' | hs'
    · exact h.own s' hs'
    · rw [List.mem_singleton.mp hs']
      exact hs
  holds := by
    rw [List.map_append, List.map_singleton]
    exact h.holds.absorb (by subst hs; rfl) hend
  ends := by
    intro t ht
    have ht' : b'.totalLen = some t := ht
    obtain ⟨-, hkeep, hfinal, hmore⟩ := ReassemblyBuffer.declareEnd_some hend
    subst hs
    cases hm : s.frag.hdr.moreFragments with
    | true => exact h.ends t ((hmore hm).symm.trans ht')
    | false =>
      have hpos := s.frag.start_lt_stop
      have heq := Option.some.inj ((hfinal hm).symm.trans ht')
      rw [← Sent.stop_of_last hm]
      omega

theorem finished_eq_some {header payload : Bytes} (hdone : b.finished = some (header, payload)) :
    payload = (ds i).payload ∧ ∃ s ∈ ss, s.i = i ∧ header = s.frag.header := by
  obtain ⟨t, lead, hholes, ht, hlen, hlead, rfl, rfl⟩ := h.holds.finished_eq_some hdone
  obtain ⟨s, hs, rfl⟩ := List.mem_map.mp (newest_mem hlead).1
  refine ⟨List.ext_getElem? fun x => ?_, s, hs, h.own s hs, rfl⟩
  obtain rfl := h.ends t ht
  rw [List.getElem?_take]
  split
  · rename_i hx
    -- the newest fragment with this byte is one of the datagram's own
    obtain ⟨f, hf⟩ := h.holds.exists_covers hholes ht hx
    obtain ⟨hmem, hcov⟩ := newest_mem hf
    obtain ⟨g, hg, rfl⟩ := List.mem_map.mp hmem
    obtain rfl := h.own g hg
    have hin := covers_iff.mp hcov
    rw [h.holds.shows.shows x _ hf]
    rw [show g.frag.start + g.frag.payload.length = g.frag.stop from rfl, g.stop_frag] at hin
    rw [Sent.frag, Datagram.fragment_payload]
    exact (ds g.i).getElem?_chunk hin.1 hin.2
  · rename_i hx
    exact (List.getElem?_eq_none (Nat.not_lt.mp hx)).symm

theorem fate {s : Sent ds} (hs : s.i = i) (hlate : ¬ AllIn i ss)
    {left : Option ReassemblyBuffer} {o : ReasmOutcome} {datagram : Option Bytes}
    (hfate : Fate b s.frag left o datagram) (hroom : o ≠ .boundExceeded) :
    (AllIn i (ss ++ [s]) ∧ o = .complete ∧ left = none)
      ∨ (¬ AllIn i (ss ++ [s]) ∧ o ≠ .complete ∧ o.accepted = true
          ∧ ∃ b', left = some b' ∧ Gathers i b' (ss ++ [s])) := by
  cases hfate with
  | contradiction hend => exact absurd hend (h.declareEnd_ne_none hs)
  | refused hend => exact absurd rfl hroom
  | @duplicate b' hend hmet =>
    have h' := h.absorb hs hend
    refine .inr ⟨?_, by decide, rfl, _, rfl, h'⟩
    intro hall
    -- the fragment is the one that was missing, so it meets a hole
    have hsame : b'.holes = b.holes := by rw [(ReassemblyBuffer.declareEnd_some hend).1]
    have hx := (ds s.i).lt_length_frags_iff.mp s.lt
    have hpos := s.frag.start_lt_stop
    subst hs
    have hnew : ∀ s' ∈ ss, s'.j ≠ s.j := by
      intro s' hs' hj
      apply hlate
      intro j hjlt
      obtain ⟨g, hg, hgi, hgj⟩ := hall j hjlt
      rcases List.mem_append.mp hg with hg | hg
      · exact ⟨g, hg, hgi, hgj⟩
      · obtain rfl := List.mem_singleton.mp hg
        exact ⟨s', hs', h.own s' hs', hj.trans hgj⟩
    have hmiss : Missing b.holes s.frag.start := by
      refine (h.missing_iff hx).mpr ?_
      rw [Nat.mul_div_cancel _ (ds s.i).maxData_pos.1]
      exact hnew
    rw [hsame] at hmet
    have hle := Nat.le_sub_one_of_lt hpos
    have hyes : intersects s.frag.start (s.frag.stop - 1) s.frag.hdr.moreFragments b.holes = true :=
      (intersects_iff h.holds.proper hle).mpr ⟨_, Nat.le_refl _, hle, hmiss⟩
    rw [hmet] at hyes
    cases hyes
  | buffered hend hleft =>
    have h' := h.absorb hs hend
    refine .inr ⟨?_, by decide, rfl, _, rfl, h'⟩
    intro hall
    exact h'.holds.finished_eq_none_iff.mp hleft (h'.holes_eq_nil_iff.mpr hall)
  | tooLong hend hdone hlong =>
    obtain ⟨rfl, g, -, rfl, rfl⟩ := (h.absorb hs hend).finished_eq_some hdone
    have h1 := (ds g.i).totalLen_le
    have h2 := (ds g.i).length_payload
    have h3 := (ds g.i).valid.ihl_le
    rw [g.frag.length_header] at hlong
    have h4 : g.frag.hdr.ihl = (ds g.i).hdr.ihl := rfl
    omega
  | complete hend hdone hfits =>
    have h' := h.absorb hs hend
    refine .inl ⟨h'.holes_eq_nil_iff.mp ?_, rfl, rfl⟩
    by_contra hholes
    rw [h'.holds.finished_eq_none_iff.mpr hholes] at hdone
    cases hdone

end Gathers

/-- What a datagram must look like after its trip: the bytes that fragmenting rewrites apart. -/
structure Restored (d : Datagram mtu) (datagram : Bytes) : Prop where
  length : datagram.length = d.hdr.totalLen
  payload : datagram.drop d.hdr.ihl = d.payload
  /-- All header bytes but identification, flags, offset and checksum. -/
  header : ∀ i, i < d.hdr.ihl → i < 4 ∨ 8 ≤ i → i ≠ 10 → i ≠ 11 →
    byteAt datagram i = byteAt d.pkt i

theorem restored_rebuild (s : Sent ds) :
    Restored (ds s.i) (rebuild s.frag.header (ds s.i).payload) := by
  have h1 := (ds s.i).valid.ihl_le
  have h2 := (ds s.i).length_payload
  have h3 := (ds s.i).valid.ihl_ge
  unfold minIPv4HeaderLen at h3
  have hlen : s.frag.header.length = (ds s.i).hdr.ihl := s.frag.length_header
  refine ⟨?_, ?_, ?_⟩
  · rw [length_rebuild, hlen]
    omega
  · rw [← hlen]
    exact drop_rebuild _ (by rw [hlen]; exact (ds s.i).valid.ihl_ge)
  · intro i hi hkept h10 h11
    by_cases hfield : i = 2 ∨ i = 3
    · -- the length field is written, with the number that stood there
      have hout : (s.frag.header ++ (ds s.i).payload).length = uint16At (ds s.i).pkt 2 := by
        rw [List.length_append, hlen, ← (ds s.i).valid.totalLen_eq]
        omega
      unfold rebuild
      rw [byteAt_setChecksum_ne _ _ h10 h11, byteAt_putUint16_ne _ _ (by omega) (by omega)]
      rw [hout]
      exact byteAt_putUint16_uint16At (by rw [List.length_append]; omega) hfield
    · have hr : rewritten i = false := by
        simp only [rewritten, Bool.or_eq_false_iff, decide_eq_false_iff_not]
        omega
      have hpkt : s.frag.pkt = _ := (ds s.i).getElem_frags s.lt
      rw [byteAt_rebuild _ (by omega) hr]
      refine (byteAt_take hi).trans ?_
      rw [hpkt]
      exact (ds s.i).byteAt_cut s.j hi (by omega) h10 h11

/-! ### The whole reassembler -/

section Runs

variable [DecidableEq ι]

/-- The fragments of datagram `i` among those that have arrived. -/
def ofDatagram (i : ι) (sent : List (Sent ds)) : List (Sent ds) := sent.filter fun s => s.i = i

theorem allIn_ofDatagram_iff {i : ι} {sent : List (Sent ds)} :
    AllIn i (ofDatagram i sent) ↔ AllIn i sent := by
  unfold AllIn ofDatagram
  simp only [List.mem_filter, decide_eq_true_eq]
  constructor
  · intro h j hj
    obtain ⟨s, hs, hi, hj⟩ := h j hj
    exact ⟨s, hs.1, hi, hj⟩
  · intro h j hj
    obtain ⟨s, hs, hi, hj⟩ := h j hj
    exact ⟨s, ⟨hs, hi⟩, hi, hj⟩

theorem ofDatagram_snoc_self (sent : List (Sent ds)) (s : Sent ds) :
    ofDatagram s.i (sent ++ [s]) = ofDatagram s.i sent ++ [s] := by
  simp [ofDatagram]

theorem ofDatagram_snoc_ne {i : ι} (sent : List (Sent ds)) {s : Sent ds} (h : s.i ≠ i) :
    ofDatagram i (sent ++ [s]) = ofDatagram i sent := by
  simp [ofDatagram, h]

/-- What the buffer of datagram `i` has accepted: once everything was in, it is gone. -/
def gathered (i : ι) (sent : List (Sent ds)) : List (Sent ds) :=
  if AllIn i sent then [] else ofDatagram i sent

theorem gathered_snoc_ne {i : ι} (sent : List (Sent ds)) {s : Sent ds} (h : s.i ≠ i) :
    gathered i (sent ++ [s]) = gathered i sent := by
  have hall : AllIn i (sent ++ [s]) ↔ AllIn i sent := by
    rw [← allIn_ofDatagram_iff, ofDatagram_snoc_ne sent h, allIn_ofDatagram_iff]
  unfold gathered
  rw [ofDatagram_snoc_ne sent h]
  simp only [hall]

/-- One fragment reaches the reassembler. -/
def feed (w : Watched) (s : Sent ds) : Watched × Added := w.step s.arrival

/-- The reassembler has got `sent`, and nothing was refused or timed out. -/
structure Underway (limits : ReassemblyLimits) (sent : List (Sent ds)) (w : Watched) : Prop where
  faithful : Faithful limits w
  accepted : ∀ i, w.accepted (ds i).key = (gathered i sent).map Sent.arrival
  gone : ∀ k, w.r.buffer k = none → w.accepted k = []
  ends : ∀ i b t, w.r.buffer (ds i).key = some b → b.totalLen = some t →
    t = (ds i).payload.length

namespace Underway

variable {limits : ReassemblyLimits} {sent : List (Sent ds)} {w : Watched} {s : Sent ds}

/-- Nothing has arrived at first. -/
theorem start (limits : ReassemblyLimits) :
    Underway limits ([] : List (Sent ds)) (Watched.start limits) where
  faithful := Faithful.start limits
  accepted := by
    intro i
    unfold gathered
    split <;> rfl
  gone := by intro k _; rfl
  ends := by intro i b t h; cases h

theorem before_eq (h : Underway limits sent w) (hlate : ¬ AllIn s.i sent)
    (hq : (w.r.sweep s.now).2 = 0) :
    w.before s.arrival = (ofDatagram s.i sent).map Sent.arrival := by
  have hacc := h.accepted s.i
  rw [gathered, if_neg hlate] at hacc
  show (if ((w.r.sweep s.now).1.buffer (ds s.i).key).isSome then w.accepted (ds s.i).key else []) =
    _
  rw [Reassembler.buffer_sweep_of_none hq, ← hacc]
  split
  · rfl
  · rename_i hnone
    rw [Bool.not_eq_true, Option.isSome_eq_false_iff, Option.isNone_iff_eq_none] at hnone
    exact (h.gone _ hnone).symm

theorem gathers_bufferAt (h : Underway limits sent w) (hlate : ¬ AllIn s.i sent)
    (hq : (w.r.sweep s.now).2 = 0) :
    Gathers s.i (w.r.bufferAt s.now s.frag.key) (ofDatagram s.i sent) where
  own := by
    intro s' hs'
    simpa [ofDatagram] using (List.mem_filter.mp hs').2
  holds := by
    have hat := h.faithful.holds_bufferAt s.arrival
    rw [h.before_eq hlate hq, List.map_map] at hat
    exact hat
  ends := by
    intro t ht
    unfold Reassembler.bufferAt at ht
    rw [Reassembler.buffer_sweep_of_none hq] at ht
    cases hb : w.r.buffer s.frag.key with
    | none =>
      rw [hb] at ht
      cases ht
    | some b =>
      rw [hb] at ht
      exact h.ends s.i b t hb ht

theorem fate (h : Underway limits sent w) (hexp : (feed w s).2.expired = 0)
    (hroom : (feed w s).2.outcome ≠ .boundExceeded) :
    (w.r.sweep s.now).2 = 0
      ∧ (∀ k, k ≠ s.frag.key → (feed w s).1.r.buffer k = w.r.buffer k)
      ∧ Fate (w.r.bufferAt s.now s.frag.key) s.frag ((feed w s).1.r.buffer s.frag.key)
          (feed w s).2.outcome (feed w s).2.datagram := by
  obtain ⟨hother, hswept, hown⟩ := Reassembler.add_cases h.faithful.isOpen s.now s.frag
  have hq : (w.r.sweep s.now).2 = 0 := hswept.symm.trans hexp
  refine ⟨hq, fun k hk => ?_, hown.resolve_left fun hn => hroom hn.2.2.1⟩
  rw [← Reassembler.buffer_sweep_of_none hq]
  exact hother k hk

/-- One fragment, of a datagram that is not complete yet. -/
theorem step (hkeys : Function.Injective fun i => (ds i).key) (h : Underway limits sent w)
    (hlate : ¬ AllIn s.i sent) (hexp : (feed w s).2.expired = 0)
    (hroom : (feed w s).2.outcome ≠ .boundExceeded) :
    Underway limits (sent ++ [s]) (feed w s).1
      ∧ ((feed w s).2.outcome = .complete ↔ AllIn s.i (sent ++ [s])) := by
  obtain ⟨hq, hother, hfate⟩ := h.fate hexp hroom
  have hcases :=
    (h.gathers_bufferAt hlate hq).fate rfl (fun ha => hlate (allIn_ofDatagram_iff.mp ha))
    hfate hroom
  rw [← ofDatagram_snoc_self, allIn_ofDatagram_iff] at hcases
  have hne : ∀ i, i ≠ s.i → (ds i).key ≠ s.frag.key := fun i hi hk => hi (hkeys hk)
  have hkept : ∀ i, i ≠ s.i → (feed w s).1.r.buffer (ds i).key = w.r.buffer (ds i).key :=
    fun i hi => hother _ (hne i hi)
  refine ⟨⟨h.faithful.step s.arrival, ?_, ?_, ?_⟩, ?_⟩
  · intro i
    show (if ((feed w s).1.r.buffer (ds i).key).isSome then
        if (ds i).key = s.frag.key then w.before s.arrival
          ++ (if (feed w s).2.outcome.accepted then [s.arrival] else [])
        else w.accepted (ds i).key else []) = _
    by_cases hi : i = s.i
    · subst hi
      rcases hcases with ⟨hall, -, hnone⟩ | ⟨hnot, -, hacc, b', hsome, -⟩
      · rw [gathered, if_pos hall, show (ds s.i).key = s.frag.key from rfl, hnone]
        rfl
      · rw [gathered, if_neg hnot, show (ds s.i).key = s.frag.key from rfl, hsome, hacc,
          h.before_eq hlate hq, ofDatagram_snoc_self, List.map_append, Option.isSome_some,
          if_pos rfl, if_pos rfl, if_pos rfl]
        rfl
    · rw [hkept i hi, if_neg (hne i hi), gathered_snoc_ne sent (Ne.symm hi), ← h.accepted i]
      cases hb : w.r.buffer (ds i).key with
      | none => exact (h.gone _ hb).symm
      | some b => rfl
  · intro k hk
    show (if ((feed w s).1.r.buffer k).isSome then _ else []) = []
    rw [hk]
    rfl
  · intro i b t hb ht
    by_cases hi : i = s.i
    · subst hi
      rcases hcases with ⟨-, -, hnone⟩ | ⟨-, -, -, b', hsome, hg⟩
      · cases hnone.symm.trans hb
      · obtain rfl := Option.some.inj (hsome.symm.trans hb)
        exact hg.ends t ht
    · rw [hkept i hi] at hb
      exact h.ends i b t hb ht
  · rcases hcases with ⟨hall, ho, -⟩ | ⟨hnot, ho, -⟩
    · exact ⟨fun _ => hall, fun _ => ho⟩
    · exact ⟨fun hc => absurd hc ho, fun hc => absurd hc hnot⟩

theorem restored (h : Underway limits sent w) (hlate : ¬ AllIn s.i sent)
    (hexp : (feed w s).2.expired = 0) (ho : (feed w s).2.outcome = .complete) :
    ∃ datagram, (feed w s).2.datagram = some datagram ∧ Restored (ds s.i) datagram := by
  obtain ⟨hq, -, hfate⟩ := h.fate hexp (by rw [ho]; decide)
  rw [ho] at hfate
  generalize (feed w s).1.r.buffer s.frag.key = left at hfate
  generalize (feed w s).2.datagram = datagram at hfate ⊢
  cases hfate with
  | complete hend hdone hfits =>
    have hg := (h.gathers_bufferAt hlate hq).absorb rfl hend
    obtain ⟨rfl, g, -, hi, rfl⟩ := hg.finished_eq_some hdone
    refine ⟨_, rfl, ?_⟩
    rw [← hi]
    exact restored_rebuild g

end Underway

/-- What `add` answers to the fragment at place `n`. -/
def answer (limits : ReassemblyLimits) (sent : List (Sent ds)) (n : Fin sent.length) : Added :=
  (feed (Machine.run (fun w s => (feed w s).1) (Watched.start limits) (sent.take n)) sent[n]).2

/--
No fragment arrives when its datagram is complete already, no call hits a resource
bound and nothing expires.
-/
structure Undisturbed (limits : ReassemblyLimits) (sent : List (Sent ds)) : Prop where
  early : ∀ n : Fin sent.length, ¬ AllIn sent[n].i (sent.take n)
  expired : ∀ n : Fin sent.length, (answer limits sent n).expired = 0
  room : ∀ n : Fin sent.length, (answer limits sent n).outcome ≠ .boundExceeded

namespace Undisturbed

variable {limits : ReassemblyLimits} {sent : List (Sent ds)}

section Complete

variable (hkeys : Function.Injective fun i => (ds i).key) (h : Undisturbed limits sent)

include hkeys h

theorem underway : ∀ n ≤ sent.length, Underway limits (sent.take n)
      (Machine.run (fun w s => (feed w s).1) (Watched.start limits) (sent.take n)) := by
  intro n
  induction n with
  | zero =>
    intro _
    exact Underway.start limits
  | succ n ih =>
    intro hn
    have hstep := (ih (Nat.le_of_lt hn)).step hkeys (h.early ⟨n, hn⟩) (h.expired ⟨n, hn⟩)
      (h.room ⟨n, hn⟩)
    rw [List.take_succ_eq_append_getElem hn, Machine.run_append]
    exact hstep.1

theorem complete_iff (n : Fin sent.length) :
    (answer limits sent n).outcome = .complete ↔ AllIn sent[n].i (sent.take (n + 1)) := by
  have hstep := (h.underway hkeys n (Nat.le_of_lt n.isLt)).step hkeys (h.early n) (h.expired n)
    (h.room n)
  rw [List.take_succ_eq_append_getElem n.isLt]
  exact hstep.2

theorem restored (n : Fin sent.length) (ho : (answer limits sent n).outcome = .complete) :
    ∃ datagram, (answer limits sent n).datagram = some datagram
      ∧ Restored (ds sent[n].i) datagram :=
  (h.underway hkeys n (Nat.le_of_lt n.isLt)).restored (h.early n) (h.expired n) ho

end Complete

theorem exists_last_missing {i : ι} (h : AllIn i sent) :
    ∃ n : Fin sent.length, sent[n].i = i ∧ AllIn i (sent.take (n + 1)) := by
  have hex : ∃ n, AllIn i (sent.take n) := ⟨sent.length, by rw [List.take_length]; exact h⟩
  have hall := Nat.find_spec hex
  have hmin : ∀ m, m < Nat.find hex → ¬ AllIn i (sent.take m) := fun m hm => Nat.find_min hex hm
  have hle : Nat.find hex ≤ sent.length := Nat.find_min' hex (by rw [List.take_length]; exact h)
  cases hn : Nat.find hex with
  | zero =>
    rw [hn, List.take_zero] at hall
    have hpos := (ds i).div_lt_length_frags (Nat.lt_of_le_of_lt (Nat.zero_le _) (ds i).maxData_lt)
    obtain ⟨s, hs, -⟩ := hall _ hpos
    cases hs
  | succ m =>
    rw [hn] at hall hmin hle
    have hm : m < sent.length := hle
    refine ⟨⟨m, hm⟩, ?_, hall⟩
    by_contra hne
    apply hmin m (Nat.lt_succ_self m)
    have hother : sent[m].i ≠ i := hne
    rw [List.take_succ_eq_append_getElem hm, ← allIn_ofDatagram_iff,
      ofDatagram_snoc_ne _ hother] at hall
    exact allIn_ofDatagram_iff.mp hall

end Undisturbed

/--
Fragments of any datagrams, each under a key of its own, arrive in any order and may be
repeated until their datagram is complete. Each of them fits the MTU and is accepted,
and each datagram comes out once, when its last missing fragment arrives, as it was.
-/
theorem fragments_reassembled (ds : ι → Datagram mtu)
    (hkeys : Function.Injective fun i => (ds i).key) (limits : ReassemblyLimits)
    (sent : List (Sent ds)) (h : Undisturbed limits sent) :
    (∀ i, ∀ f ∈ (ds i).frags, f.length ≤ mtu.val ∧ ∃ hdr, parseIPv4 f = .ok hdr)
      ∧ (∀ i, AllIn i sent →
          ∃! n : Fin sent.length, sent[n].i = i ∧ (answer limits sent n).outcome = .complete)
      ∧ ∀ n : Fin sent.length,
          ((answer limits sent n).outcome = .complete ↔ AllIn sent[n].i (sent.take (n + 1)))
          ∧ ((answer limits sent n).outcome = .complete →
              ∃ datagram, (answer limits sent n).datagram = some datagram
                ∧ Restored (ds sent[n].i) datagram) := by
  refine ⟨?_, ?_, fun n => ⟨h.complete_iff hkeys n, h.restored hkeys n⟩⟩
  · intro i f hf
    obtain ⟨j, hj, rfl⟩ := List.getElem_of_mem hf
    exact ⟨(ds i).length_fragment_le hj, _, ((ds i).fragment j hj).parsed⟩
  · intro i hall
    obtain ⟨n, rfl, hn⟩ := Undisturbed.exists_last_missing hall
    refine ⟨n, ⟨rfl, (h.complete_iff hkeys n).mpr hn⟩, ?_⟩
    rintro m ⟨hmi, hm⟩
    have hm := (h.complete_iff hkeys m).mp hm
    -- after the fragment that completes it, a datagram gets no other
    have hafter : ∀ a b : Fin sent.length, sent[a].i = sent[b].i →
        AllIn sent[a].i (sent.take (a + 1)) → ¬ a < b := by
      intro a b hi ha hab
      refine h.early b (hi ▸ ha.mono fun s hs => ?_)
      exact (List.take_prefix_take_left (Nat.succ_le_of_lt hab)).subset hs
    have h1 := hafter m n hmi hm
    have h2 := hafter n m hmi.symm hn
    omega

end Runs

end Interleaved

/-! ### Two datagrams to try it on -/

/-- Six hundred bytes behind a header with four bytes of options. -/
def samplePayload (body : UInt8) : Bytes :=
  [0x46, 0, 0x02, 0x70, 0, 0, 0, 0, 64, 17, 0, 0, 10, 8, 0, 1, 10, 8, 0, 2, 1, 1, 1, 0]
    ++ List.replicate 600 body

def sampleLargeHeader : Ipv4Header where
  ihl := 24
  totalLen := 624
  protocol := protocolUDP
  src := 0x0A080001
  dst := 0x0A080002
  payloadOff := 24
  id := 0
  moreFragments := false
  fragOffset := 0

/-- Two datagrams of one flow, sent under two identifications. -/
def sampleDatagram (i : Bool) : Datagram { val := 576, min := by decide, max := by decide } where
  pkt := samplePayload (if i then 7 else 9)
  hdr := sampleLargeHeader
  parsed := by cases i <;> decide +kernel
  whole := rfl
  large := by decide
  id := if i then 1 else 2

/-- Both datagrams' fragments, interleaved, the last ones first, and one of them twice. -/
def sampleSent : List (Sent sampleDatagram) :=
  [ { now := 0, i := true, j := 1, lt := by decide +kernel },
    { now := 1, i := false, j := 1, lt := by decide +kernel },
    { now := 2, i := true, j := 1, lt := by decide +kernel },
    { now := 3, i := true, j := 0, lt := by decide +kernel },
    { now := 4, i := false, j := 0, lt := by decide +kernel } ]

/-- Two datagrams of two fragments each, interleaved: one answer completes the first. -/
theorem sample_datagrams_reassembled :
    AllIn true sampleSent ∧ AllIn false sampleSent
    ∧ (∃! n : Fin sampleSent.length, sampleSent[n].i = true ∧
    (answer {} sampleSent n).outcome = .complete)
    ∧ ∃ datagram, (answer {} sampleSent ⟨3, by decide⟩).datagram = some datagram
        ∧ Restored (sampleDatagram true) datagram := by
  have hkeys : Function.Injective fun i => (sampleDatagram i).key := by
    intro i i' h
    cases i <;> cases i'
    · rfl
    · exact absurd h (by decide +kernel)
    · exact absurd h (by decide +kernel)
    · rfl
  have hanswers : ∀ n : Fin sampleSent.length, (answer {} sampleSent n).expired = 0
      ∧ (answer {} sampleSent n).outcome ≠ .boundExceeded := by decide +kernel
  have hsent : Undisturbed {} sampleSent :=
    ⟨by decide +kernel, fun n => (hanswers n).1, fun n => (hanswers n).2⟩
  obtain ⟨-, honce, hwhen⟩ := fragments_reassembled sampleDatagram hkeys {} sampleSent hsent
  have hfourth : AllIn true (sampleSent.take 4) := by decide +kernel
  have htrue : AllIn true sampleSent := hfourth.mono fun _ hs => List.mem_of_mem_take hs
  have hdone := hwhen ⟨3, by decide⟩
  exact ⟨htrue, by decide +kernel, honce true htrue, hdone.2 (hdone.1.mpr hfourth)⟩

end GoVpn.Netstack
