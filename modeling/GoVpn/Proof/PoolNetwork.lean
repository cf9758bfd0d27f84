import Mathlib.Data.Nat.Bitwise
import GoVpn.Ovpn.Network
import GoVpn.Proof.AddressPool

/-!
# Assigned addresses and the configured network

The pool counts offsets from the address it was given, and `Contains` compares the bits under the
mask. The two agree when the address has no bit set outside the mask. `newIPPool` takes any address:
one with host bits moves the whole pool up, so that the broadcast address is an offset like any
other, and the offsets behind it are addresses of the next network or of none. So the addresses are
inside, in every state of every run, exactly when the configured address has no host bits.
-/

namespace GoVpn.Ovpn

open GoVpn.Control (Bytes)

/-- The mask as a number. -/
def IPNet.maskWord (n : IPNet) : BitVec 32 := uint32 (normalizeIPv4Mask n.mask)

/-- The bits of an address outside the mask. -/
def IPNet.hostPart (n : IPNet) (a : IPv4) : BitVec 32 := a &&& ~~~ n.maskWord

/-- The configured address has no bit set outside the mask. -/
def IPNet.NoHostBits (n : IPNet) : Prop := ∀ ip4 ∈ to4 n.ip, n.hostPart (uint32 ip4) = 0

/-- An address of the network that is neither its first nor its last. -/
structure IPNet.Host (n : IPNet) (a : IPv4) : Prop where
  inside : n.contains (offsetToIP a) = true
  zeros : n.hostPart a ≠ 0
  ones : n.hostPart a ≠ ~~~ n.maskWord

/-- The base and the offset of `a` add up to `a` without a wrap. -/
def IpPool.Unwrapped (p : IpPool) (a : IPv4) : Prop := p.base.toNat + (a - p.base).toNat < 2 ^ 32

inductive AddrCall
  | allocate
  | reserve (ip : Bytes)
  | release (ip : Bytes) (peerID : PeerID)

def IpPool.call (p : IpPool) : AddrCall → IpPool
  | .allocate =>
    match p.allocate with
    | some (_, p') => p'
    | none => p
  | .reserve ip =>
    match p.reserveIP ip with
    | .inr (_, p') => p'
    | .inl _ => p
  | .release ip peerID => p.releaseIP ip peerID

/-- Whatever the pool hands out or accepts next is an address of the network. -/
structure IPNet.AddressesInside (n : IPNet) (p : IpPool) : Prop where
  server : n.Host p.serverIP ∧ p.Unwrapped p.serverIP
  allocate : ∀ g p', p.allocate = some (g, p') → n.Host g.ip ∧ p.Unwrapped g.ip
  reserve : ∀ ip id p', p.reserveIP ip = .inr (id, p') →
    n.contains ip = true ∧ ∃ ip4, to4 ip = some ip4 ∧ n.Host (uint32 ip4) ∧ p.Unwrapped (uint32 ip4)

end GoVpn.Ovpn

namespace GoVpn.Proof

open GoVpn.Control (Bytes)
open GoVpn.Ovpn

/-! ## Masks -/

theorem shiftOnes_byte : ∀ v : BitVec 8, (shiftOnes 8 ⟨v⟩).2 = 0 →
    (shiftOnes 8 ⟨v⟩).1 ≤ 8 ∧ v.toNat + 2 ^ (8 - (shiftOnes 8 ⟨v⟩).1) = 256 := by decide +kernel

/-- A mask of `ones` ones is the range without the host numbers. -/
theorem simpleMaskLength_spec {mask : Bytes} {ones : Nat} (h : simpleMaskLength mask = some ones) :
    ones ≤ 8 * mask.length ∧ BigEndian.get mask + 2 ^ (8 * mask.length - ones) =
      256 ^ mask.length := by
  induction mask generalizing ones with
  | nil =>
    cases h
    exact ⟨Nat.le_refl _, rfl⟩
  | cons v rest ih =>
    unfold simpleMaskLength at h
    rw [BigEndian.get_cons, List.length_cons, Nat.pow_succ]
    split at h
    · rename_i hv
      obtain ⟨n, hn, rfl⟩ := Option.map_eq_some_iff.mp h
      obtain ⟨hle, hget⟩ := ih hn
      have hexp : 8 * (rest.length + 1) - (n + 8) = 8 * rest.length - n := by omega
      refine ⟨by omega, ?_⟩
      rw [hexp, hv, ← hget]
      show 255 * _ + _ + _ = _
      omega
    · dsimp only at h
      split at h
      · cases h
      rename_i hrem
      split at h
      · rename_i hzero
        cases h
        obtain ⟨hle, hbyte⟩ := shiftOnes_byte v.toBitVec (Classical.not_not.mp hrem)
        have hrest : BigEndian.get rest = 0 := BigEndian.get_zeros hzero
        have h256 : 256 ^ rest.length = 2 ^ (8 * rest.length) := by
          rw [Nat.pow_mul]
        have hexp : 8 * (rest.length + 1) - (shiftOnes 8 v).1 =
            (8 - (shiftOnes 8 v).1) + 8 * rest.length := by
          have : (shiftOnes 8 v).1 ≤ 8 := hle
          omega
        refine ⟨?_, ?_⟩
        · have : (shiftOnes 8 v).1 ≤ 8 := hle
          omega
        · rw [hrest, hexp, Nat.pow_add, h256]
          have hb : v.toNat + 2 ^ (8 - (shiftOnes 8 v).1) = 256 := hbyte
          rw [Nat.add_zero, ← Nat.add_mul, hb, Nat.mul_comm]
      · cases h

theorem and_leading_ones {x M k : Nat} (hx : x < 2 ^ 32) (hk : k ≤ 32) (hM : M + 2 ^ k = 2 ^ 32) :
    x &&& M = x / 2 ^ k * 2 ^ k := by
  have hfactor : M = (2 ^ (32 - k) - 1) * 2 ^ k := by
    have hsplit : 2 ^ 32 = 2 ^ (32 - k) * 2 ^ k := by
      rw [← Nat.pow_add]
      congr 1
      omega
    rw [Nat.sub_mul, ← hsplit]
    omega
  rw [hfactor]
  refine Nat.eq_of_testBit_eq fun i => ?_
  rw [Nat.testBit_and, Nat.testBit_mul_two_pow, Nat.testBit_mul_two_pow,
    Nat.testBit_two_pow_sub_one, Nat.testBit_div_two_pow]
  by_cases hki : k ≤ i
  · have hi : i - k + k = i := by omega
    by_cases h32 : i < 32
    · simp [hki, hi, show i - k < 32 - k by omega]
    · have hbig : x.testBit i = false := Nat.testBit_lt_two_pow (Nat.lt_of_lt_of_le hx
        (Nat.pow_le_pow_right (by decide) (by omega)))
      simp [hbig, hi]
  · simp [hki]

/-! ## What `newIPPool` accepts -/

theorem length_to4 {ip ip4 : Bytes} (h : to4 ip = some ip4) : ip4.length = ipv4Len := by
  unfold to4 at h
  split at h
  · rename_i hlen
    cases h
    exact hlen
  split at h
  · rename_i hlen
    cases h
    rw [List.length_drop, hlen.1]
    rfl
  · cases h

theorem to4_of_length {ip : Bytes} (h : ip.length = ipv4Len) : to4 ip = some ip := if_pos h

theorem toNat_uint32 {b : Bytes} (h : b.length = ipv4Len) : (uint32 b).toNat = BigEndian.get b := by
  have hlt := BigEndian.get_lt b
  rw [h] at hlt
  exact Nat.mod_eq_of_lt hlt

theorem uint32_offsetToIP (a : IPv4) : uint32 (offsetToIP a) = a := by
  have hwidth : 256 ^ ipv4Len = 2 ^ 32 := by decide
  rw [uint32, offsetToIP, BigEndian.get_put, hwidth, Nat.mod_eq_of_lt a.isLt, BitVec.ofNat_toNat,
    BitVec.setWidth_eq]

/-- A pool over a network: its base is the configured address, `2 ^ k` addresses from it on. -/
structure PoolOver (n : IPNet) (ip4 : Bytes) (k : Nat) (p : IpPool) : Prop where
  ip : to4 n.ip = some ip4
  mask : (normalizeIPv4Mask n.mask).length = ipv4Len
  word : n.maskWord.toNat + 2 ^ k = 2 ^ 32
  base : p.base = uint32 ip4
  size : p.size.toNat = 2 ^ k
  big : 4 ≤ 2 ^ k
  bits : k < 32

theorem poolOver_new {n : IPNet} {p : IpPool} (hp : IPNet.newIPPool (some n) = .ok p) :
    ∃ ip4 k, PoolOver n ip4 k p ∧ p.usedIPs = [] ∧ p.usedPeerIDs = [] := by
  unfold IPNet.newIPPool at hp
  dsimp only at hp
  split at hp
  · cases hp
  rename_i ip4 hip
  split at hp
  · cases hp
  rename_i hmask
  split at hp
  · cases hp
  rename_i hbits
  split at hp
  · cases hp
  rename_i q hq
  cases hp
  have hlen : (normalizeIPv4Mask n.mask).length = 4 := Classical.not_not.mp hmask
  unfold maskSize at hbits hq
  cases hones : simpleMaskLength (normalizeIPv4Mask n.mask) with
  | none =>
    rw [hones] at hbits
    exact absurd (show (0 : Nat) ≠ 32 by decide) hbits
  | some ones =>
    rw [hones] at hq
    obtain ⟨-, hword⟩ := simpleMaskLength_spec hones
    rw [hlen] at hword
    obtain ⟨hbase, hsize, hbig, hlt⟩ := newIPPool_size hq
    refine ⟨ip4, 32 - ones, ⟨hip, hlen, ?_, hbase, hsize, hbig, hlt⟩, newIPPool_unused hq⟩
    rw [IPNet.maskWord, toNat_uint32 hlen]
    exact hword

section Over

variable {n : IPNet} {ip4 : Bytes} {k : Nat} {p : IpPool} (h : PoolOver n ip4 k p)

include h

theorem PoolOver.numberAndMask : n.numberAndMask = (ip4, normalizeIPv4Mask n.mask) := by
  have hmask := h.mask
  unfold IPNet.numberAndMask
  unfold normalizeIPv4Mask at hmask ⊢
  rw [h.ip]
  dsimp only
  split at hmask
  · rename_i h16
    rw [if_neg (by rw [h16]; decide), if_pos h16, if_pos h16]
  · rename_i h16
    rw [if_pos hmask, if_neg h16]

theorem PoolOver.contains_iff {b b4 : Bytes} (hb : to4 b = some b4) :
    n.contains b = true ↔ (uint32 b4).toNat / 2 ^ k = p.base.toNat / 2 ^ k := by
  have hip4 := length_to4 h.ip
  have hb4 := length_to4 hb
  have hzip : ∀ {x : Bytes}, x.length = ipv4Len →
      BigEndian.get (List.zipWith (· &&& ·) x (normalizeIPv4Mask n.mask))
        = (uint32 x).toNat / 2 ^ k * 2 ^ k := by
    intro x hx
    rw [BigEndian.get_zipWith_and (hx.trans h.mask.symm), ← toNat_uint32 hx, ← toNat_uint32 h.mask]
    exact and_leading_ones (uint32 x).isLt (Nat.le_of_lt h.bits) h.word
  have hlen : ∀ {x : Bytes}, x.length = ipv4Len →
      (List.zipWith (· &&& ·) x (normalizeIPv4Mask n.mask)).length = ipv4Len := by
    intro x hx
    rw [List.length_zipWith, hx, h.mask, Nat.min_self]
  unfold IPNet.contains
  rw [h.numberAndMask, hb]
  dsimp only
  rw [Option.getD_some, if_neg (by rw [hb4, hip4]; exact fun hne => hne rfl), beq_iff_eq, h.base]
  have hpos : 0 < 2 ^ k := Nat.two_pow_pos k
  constructor
  · intro heq
    have hget := congrArg BigEndian.get heq
    rw [hzip hip4, hzip hb4] at hget
    exact (Nat.eq_of_mul_eq_mul_right hpos hget).symm
  · intro heq
    refine BigEndian.get_inj ((hlen hip4).trans (hlen hb4).symm) ?_
    rw [hzip hip4, hzip hb4, heq]

theorem PoolOver.not_maskWord : (~~~ n.maskWord).toNat = 2 ^ k - 1 := by
  have hword := h.word
  rw [BitVec.toNat_not]
  omega

theorem PoolOver.hostPart (a : IPv4) : (n.hostPart a).toNat = a.toNat % 2 ^ k := by
  rw [IPNet.hostPart, BitVec.toNat_and, h.not_maskWord]
  exact Nat.and_two_pow_sub_one_eq_mod a.toNat k

theorem PoolOver.host_iff (a : IPv4) : n.Host a ↔ a.toNat / 2 ^ k = p.base.toNat / 2 ^ k
    ∧ a.toNat % 2 ^ k ≠ 0 ∧ a.toNat % 2 ^ k ≠ 2 ^ k - 1 := by
  have hcontains := h.contains_iff (to4_of_length (BigEndian.length_put ipv4Len a.toNat))
  have huint : uint32 (BigEndian.put ipv4Len a.toNat) = a := uint32_offsetToIP a
  rw [huint] at hcontains
  have hzero : n.hostPart a = 0 ↔ a.toNat % 2 ^ k = 0 := by
    rw [← h.hostPart a]
    exact BitVec.toNat_inj.symm
  have hones : n.hostPart a = ~~~ n.maskWord ↔ a.toNat % 2 ^ k = 2 ^ k - 1 := by
    rw [← h.hostPart a, ← h.not_maskWord]
    exact BitVec.toNat_inj.symm
  constructor
  · intro hh
    exact ⟨hcontains.mp hh.inside, mt hzero.mpr hh.zeros, mt hones.mpr hh.ones⟩
  · rintro ⟨hin, h0, h1⟩
    exact ⟨hcontains.mpr hin, mt hzero.mp h0, mt hones.mp h1⟩

theorem PoolOver.noHostBits_iff : n.NoHostBits ↔ p.base.toNat % 2 ^ k = 0 := by
  have hpart : n.hostPart p.base = 0 ↔ p.base.toNat % 2 ^ k = 0 := by
    rw [← h.hostPart p.base]
    exact BitVec.toNat_inj.symm
  rw [← hpart, h.base]
  constructor
  · intro hn
    exact hn ip4 h.ip
  · intro hz x hx
    rw [h.ip, Option.mem_def, Option.some.injEq] at hx
    subst hx
    exact hz

theorem PoolOver.host_of_offset (hz : p.base.toNat % 2 ^ k = 0) {a : IPv4} {d : Nat}
    (ha : a.toNat = p.base.toNat + d) (hd : 1 ≤ d) (hlt : d < 2 ^ k - 1) :
    n.Host a ∧ p.Unwrapped a := by
  have hmod : (p.base.toNat + d) % 2 ^ k = d := by
    rw [Nat.add_mod, hz, Nat.zero_add, Nat.mod_mod, Nat.mod_eq_of_lt (by omega)]
  have hdiv : (p.base.toNat + d) / 2 ^ k = p.base.toNat / 2 ^ k := by
    obtain ⟨q, hq⟩ := Nat.dvd_of_mod_eq_zero hz
    rw [hq, Nat.mul_add_div (Nat.two_pow_pos k), Nat.div_eq_of_lt (by omega), Nat.add_zero,
      Nat.mul_div_cancel_left _ (Nat.two_pow_pos k)]
  refine ⟨(h.host_iff a).mpr ?_, ?_⟩
  · rw [ha, hdiv, hmod]
    exact ⟨rfl, by omega, by omega⟩
  · have hsub : (a - p.base).toNat = d := by
      rw [BitVec.toNat_sub_of_le (BitVec.le_def.mpr (by omega))]
      omega
    unfold IpPool.Unwrapped
    rw [hsub, ← ha]
    exact a.isLt

theorem PoolOver.nextFreeOffset_range {o : BitVec 32} (ho : p.nextFreeOffset = some o) :
    2 ≤ o.toNat ∧ o.toNat < 2 ^ k - 1 := by
  have hbig := h.big
  have hsize := h.size
  obtain ⟨hle, hlt, -⟩ := firstFree_some (by simp; omega) ho
  simp at hlt
  exact ⟨hle, by omega⟩

theorem addressesInside_of_noHostBits (hz : p.base.toNat % 2 ^ k = 0) : n.AddressesInside p := by
  have hbig := h.big
  have hsize := h.size
  have hfits := aligned_fits p.base.isLt (Nat.le_of_lt h.bits) hz
  have hsum : ∀ {o : BitVec 32}, o.toNat < 2 ^ k - 1 →
      (p.base + o).toNat = p.base.toNat + o.toNat := by
    intro o ho
    rw [BitVec.toNat_add]
    exact Nat.mod_eq_of_lt (by omega)
  refine ⟨h.host_of_offset hz (hsum (o := 1) (by simp; omega)) (by simp) (by simp; omega), ?_, ?_⟩
  · intro g p' hg
    unfold IpPool.allocate at hg
    split at hg
    · rename_i o id ho _
      cases hg
      obtain ⟨hge, hlt⟩ := h.nextFreeOffset_range ho
      exact h.host_of_offset hz (hsum hlt) (by omega) hlt
    · cases hg
  · intro ip id p' hr
    have hcase := reserve_cases p ((to4 ip).map uint32)
    unfold IpPool.reserveIP at hr
    rw [hr] at hcase
    generalize hwant : (to4 ip).map uint32 = want at hcase
    cases hcase with
    | @reserved a _ hlow hhigh hhost _ _ =>
      obtain ⟨b4, hb4, rfl⟩ := Option.map_eq_some_iff.mp hwant
      have hsub : (uint32 b4 - p.base).toNat = (uint32 b4).toNat - p.base.toNat :=
        BitVec.toNat_sub_of_le hlow
      have hrange : 1 ≤ (uint32 b4 - p.base).toNat ∧ (uint32 b4 - p.base).toNat < 2 ^ k - 1 := by
        generalize uint32 b4 - p.base = o at hhigh hhost hsub
        rw [← hsize]
        rw [← hsize] at hbig
        bv_omega
      have hin := h.host_of_offset hz (a := uint32 b4) (d := (uint32 b4 - p.base).toNat) (by omega)
        hrange.1 hrange.2
      exact ⟨(h.contains_iff hb4).mpr ((h.host_iff _).mp hin.1).1, b4, hb4, hin⟩

theorem noHostBits_of_inside (hips : p.usedIPs = []) (hids : p.usedPeerIDs = [])
    (hin : n.AddressesInside p) : p.base.toNat % 2 ^ k = 0 := by
  have hbig := h.big
  have hsize := h.size
  have hpos := Nat.two_pow_pos k
  have hsplit := Nat.div_add_mod p.base.toNat (2 ^ k)
  have hnet : p.base.toNat - p.base.toNat % 2 ^ k + 2 ^ k ≤ 2 ^ 32 := by
    refine aligned_fits (Nat.lt_of_le_of_lt (Nat.sub_le _ _) p.base.isLt) (Nat.le_of_lt h.bits) ?_
    have heq : p.base.toNat - p.base.toNat % 2 ^ k = 2 ^ k * (p.base.toNat / 2 ^ k) := by omega
    rw [heq, Nat.mul_mod_right]
  by_contra hhost
  by_cases hlast : p.base.toNat % 2 ^ k + 3 ≤ 2 ^ k
  · -- the broadcast address can be reserved
    obtain ⟨v, hv⟩ : ∃ v : BitVec 32, v.toNat = p.base.toNat - p.base.toNat % 2 ^ k + (2 ^ k - 1) :=
      ⟨BitVec.ofNat 32 _, Nat.mod_eq_of_lt (by omega)⟩
    have hto4 : to4 (offsetToIP v) = some (offsetToIP v) := to4_of_length (BigEndian.length_put _ _)
    have hsub : (v - p.base).toNat = 2 ^ k - 1 - p.base.toNat % 2 ^ k := by
      rw [BitVec.toNat_sub_of_le (BitVec.le_def.mpr (by omega))]
      omega
    have hfree : p.nextFreePeerID = some 0 := by
      unfold IpPool.nextFreePeerID
      rw [hids]
      rfl
    have hr : p.reserveIP (offsetToIP v) = .inr (0, p.take (v - p.base) 0) := by
      unfold IpPool.reserveIP IpPool.reserve
      rw [hto4, Option.map_some, uint32_offsetToIP]
      dsimp only
      rw [← hsize] at hsub hlast hbig
      rw [if_neg (by bv_omega), if_neg (by bv_omega), if_neg (by bv_omega), hips, hfree]
      rfl
    obtain ⟨-, b4, hb4, hhostv, -⟩ := hin.reserve _ _ _ hr
    rw [hto4, Option.some.injEq] at hb4
    subst hb4
    rw [uint32_offsetToIP] at hhostv
    refine ((h.host_iff v).mp hhostv).2.2 ?_
    have heq : v.toNat = 2 ^ k * (p.base.toNat / 2 ^ k) + (2 ^ k - 1) := by omega
    rw [heq, Nat.mul_add_mod, Nat.mod_eq_of_lt (by omega)]
  · -- the server's own address is the broadcast address or behind it
    obtain ⟨hserver, hwrap⟩ := hin.server
    have hone : (p.serverIP - p.base).toNat = 1 := by
      unfold IpPool.serverIP
      rw [BitVec.add_comm, BitVec.add_sub_cancel]
      rfl
    unfold IpPool.Unwrapped at hwrap
    rw [hone] at hwrap
    have hnat : p.serverIP.toNat = 2 ^ k * (p.base.toNat / 2 ^ k) + (p.base.toNat % 2 ^ k + 1) := by
      unfold IpPool.serverIP
      rw [BitVec.toNat_add, show (1 : BitVec 32).toNat = 1 from rfl, Nat.mod_eq_of_lt hwrap]
      omega
    obtain ⟨hdiv, -, hones⟩ := (h.host_iff _).mp hserver
    rw [hnat] at hdiv hones
    by_cases hbc : p.base.toNat % 2 ^ k + 1 = 2 ^ k - 1
    · rw [hbc, Nat.mul_add_mod, Nat.mod_eq_of_lt (by omega)] at hones
      exact hones rfl
    · have hend : p.base.toNat % 2 ^ k + 1 = 2 ^ k := by omega
      rw [hend, Nat.mul_add_div hpos, Nat.div_self hpos] at hdiv
      omega

theorem PoolOver.call (c : AddrCall) : PoolOver n ip4 k (p.call c) := by
  have hmove : ∀ {q : IpPool}, q.base = p.base → q.size = p.size → PoolOver n ip4 k q := by
    intro q hb hs
    exact ⟨h.ip, h.mask, h.word, hb.trans h.base, (congrArg _ hs).trans h.size, h.big, h.bits⟩
  cases c with
  | allocate =>
    unfold IpPool.call
    dsimp only
    split
    · rename_i g q hq
      unfold IpPool.allocate at hq
      split at hq
      · cases hq
        exact hmove rfl rfl
      · cases hq
    · exact h
  | reserve ip =>
    unfold IpPool.call
    dsimp only
    split
    · rename_i id q hq
      have hcase := reserve_cases p ((to4 ip).map uint32)
      unfold IpPool.reserveIP at hq
      rw [hq] at hcase
      generalize (to4 ip).map uint32 = want at hcase
      cases hcase with
      | reserved => exact hmove rfl rfl
    · exact h
  | release ip id =>
    unfold IpPool.call IpPool.releaseIP
    dsimp only
    split
    · exact hmove rfl rfl
    · exact hmove rfl rfl

end Over

/--
**Every assigned address lies in the configured network**, whatever calls are made on the
pool of any network `newIPPool` accepts, exactly when the configured address has no host
bits: `serverIP`, every address `allocate` returns and every address `reserve` accepts is
in the network, is neither its first nor its last address, and is base plus offset
without a wrap.
-/
theorem assigned_inside_iff (n : IPNet) {p : IpPool} (hp : IPNet.newIPPool (some n) = .ok p) :
    (∀ cs, Machine.Always IpPool.call n.AddressesInside p cs) ↔ n.NoHostBits := by
  obtain ⟨ip4, k, hover, hips, hids⟩ := poolOver_new hp
  rw [hover.noHostBits_iff]
  constructor
  · intro hall
    exact noHostBits_of_inside hover hips hids (hall [])
  · intro hz cs
    have hI : Machine.Always IpPool.call (fun q => PoolOver n ip4 k q ∧ q.base = p.base) p cs := by
      refine Machine.always_invariant (P := fun _ _ => True) ?_ ⟨hover, rfl⟩
        (Machine.along_true _ cs)
      intro q c hq _
      have hq' := hq.1.call c
      exact ⟨hq', hq'.base.trans hover.base.symm⟩
    refine Machine.always_mono (fun q hq => ?_) hI
    exact addressesInside_of_noHostBits hq.1 (by rw [hq.2]; exact hz)

/-- 10.8.0.0/24, with address and mask in their 16-byte form. -/
def mappedNetwork : IPNet where
  ip := List.replicate 10 0 ++ [0xFF, 0xFF, 10, 8, 0, 0]
  mask := List.replicate 12 0 ++ [255, 255, 255, 0]

/-- Its pool assigns addresses of the network only. -/
theorem mapped_network_inside :
    IPNet.newIPPool (some mappedNetwork) = .ok { base := 0x0A080000, size := 256 }
      ∧ ∀ cs, Machine.Always IpPool.call mappedNetwork.AddressesInside
        { base := 0x0A080000, size := 256 } cs := by
  have hp : IPNet.newIPPool (some mappedNetwork) = .ok { base := 0x0A080000, size := 256 } := by
    decide +kernel
  refine ⟨hp, (assigned_inside_iff mappedNetwork hp).mpr ?_⟩
  intro ip4 hip4
  have hmem : ip4 = [10, 8, 0, 0] :=
    (Option.some.inj (show some [10, 8, 0, 0] = some ip4 from hip4)).symm
  subst hmem
  decide

/-- 10.8.0.200 with the mask of a /24. -/
def hostNetwork : IPNet := { ip := [10, 8, 0, 200], mask := [255, 255, 255, 0] }

/-- Its pool lets 10.8.1.1 be reserved, which is in another network, and 10.8.0.255, the broadcast
address. -/
theorem host_bits_leave_network :
    IPNet.newIPPool (some hostNetwork) = .ok { base := 0x0A0800C8, size := 256 }
      ∧ (∃ out, IpPool.reserveIP { base := 0x0A0800C8, size := 256 } [10, 8, 1, 1] = .inr out)
      ∧ hostNetwork.contains [10, 8, 1, 1] = false
      ∧ (∃ out, IpPool.reserveIP { base := 0x0A0800C8, size := 256 } [10, 8, 0, 255] = .inr out)
      ∧ hostNetwork.hostPart (uint32 [10, 8, 0, 255]) = ~~~ hostNetwork.maskWord := by
  refine ⟨by decide +kernel, ⟨_, rfl⟩, by decide +kernel, ⟨_, rfl⟩, by decide +kernel⟩

end GoVpn.Proof
