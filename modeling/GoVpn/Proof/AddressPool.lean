import Mathlib.Data.List.Nodup
import Mathlib.Data.Set.Insert
import Mathlib.Order.Bounds.Defs
import GoVpn.Lib.Run
import GoVpn.Proof.Addresses

/-!
# The pool as a set of held pairs

`ipPool` keeps offsets from its network address and peer-ids in two maps. What it is for can be
said without either: there is a set of pairs that are held, `allocate` hands out the lowest address
and the lowest peer-id that are in none of them, `reserve` the address it is asked for, and
`release` takes a pair out of the set.

The network's address has no host bits, so the offsets below the network's size are the addresses
from it on, in order and without a wrap.
-/

namespace GoVpn.Proof

open GoVpn.Ovpn

/-! ## What the pool is for -/

/-- The addresses a client can have: those of the network but for the network's own, the
server's and the broadcast address. -/
structure HostAddr (ip : IPv4) (ones : Nat) (a : IPv4) : Prop where
  inside : ip.toNat ≤ a.toNat ∧ a.toNat < ip.toNat + 2 ^ (32 - ones)
  network : a ≠ ip
  server : a ≠ ip + 1
  broadcast : a.toNat ≠ ip.toNat + 2 ^ (32 - ones) - 1

/-- The host addresses in no held pair. -/
def freeAddrs (ip : IPv4) (ones : Nat) (held : List Grant) : Set IPv4 :=
  {a | HostAddr ip ones a ∧ a ∉ held.map Grant.ip}

/-- The peer-ids in no held pair. -/
def freeIDs (held : List Grant) : Set PeerID :=
  {id | id.toNat ≤ maxPeerID ∧ id ∉ held.map Grant.peerID}

/-- A pool, and the pairs it gave out and has not had back. -/
structure PoolLog where
  pool : IpPool
  held : List Grant := []

inductive PoolCall
  | allocate
  | reserve (want : Option IPv4)
  | release (g : Grant)

def PoolLog.call (s : PoolLog) : PoolCall → PoolLog
  | .allocate =>
    match s.pool.allocate with
    | some (g, pool) => { pool := pool, held := g :: s.held }
    | none => s
  | .reserve none => s
  | .reserve (some ip) =>
    match s.pool.reserve (some ip) with
    | .inr (peerID, pool) => { pool := pool, held := { ip := ip, peerID := peerID } :: s.held }
    | .inl _ => s
  | .release g => { pool := s.pool.release g, held := s.held.filter fun g' => decide (g' ≠ g) }

/-- Only what is held is given back. -/
def ReleasesHeld (s : PoolLog) : PoolCall → Prop
  | .release g => g ∈ s.held
  | _ => True

instance (s : PoolLog) : (c : PoolCall) → Decidable (ReleasesHeld s c)
  | .release g => inferInstanceAs (Decidable (g ∈ s.held))
  | .allocate | .reserve _ => .isTrue trivial

/-! ## The two loops -/

theorem firstFree_some {used : List (BitVec 32)} {n : Nat} {o x : BitVec 32}
    (hn : o.toNat + n ≤ 2 ^ 32) (h : IpPool.firstFree used n o = some x) :
    o ≤ x ∧ x.toNat < o.toNat + n ∧ x ∉ used ∧ ∀ y, o ≤ y → y < x → y ∈ used := by
  induction n generalizing o with
  | zero => cases h
  | succ n ih =>
    unfold IpPool.firstFree at h
    split at h
    · rename_i hused
      by_cases hlast : n = 0
      · subst hlast
        cases h
      · have hsucc : (o + 1).toNat = o.toNat + 1 := by
          exact Nat.mod_eq_of_lt (by bv_omega)
        obtain ⟨hle, hlt, hfree, hbelow⟩ := ih (by omega) h
        refine ⟨by bv_omega, by omega, hfree, fun y hy hyx => ?_⟩
        by_cases he : y = o
        · rw [he]
          simpa using hused
        · exact hbelow y (by bv_omega) hyx
    · rename_i hused
      cases h
      exact ⟨BitVec.le_refl _, by omega, by simpa using hused, fun y hy hyx =>
        absurd hyx (BitVec.not_lt.mpr hy)⟩

theorem firstFree_none {used : List (BitVec 32)} {n : Nat} {o : BitVec 32}
    (hn : o.toNat + n ≤ 2 ^ 32) (h : IpPool.firstFree used n o = none) :
    ∀ y, o ≤ y → y.toNat < o.toNat + n → y ∈ used := by
  induction n generalizing o with
  | zero =>
    intro y hle hlt
    exact absurd hlt (by bv_omega)
  | succ n ih =>
    intro y hle hlt
    unfold IpPool.firstFree at h
    split at h
    · rename_i hused
      by_cases he : y = o
      · rw [he]
        simpa using hused
      · have hsucc : (o + 1).toNat = o.toNat + 1 := by
          exact Nat.mod_eq_of_lt (by bv_omega)
        exact ih (by omega) h y (by bv_omega) (by omega)
    · cases h

/-! ## Offsets and addresses -/

/-- The network a pool is over, with no host bits in its address. -/
structure OverNetwork (ip : IPv4) (ones : Nat) (p : IpPool) : Prop where
  base : p.base = ip
  size : p.size.toNat = 2 ^ (32 - ones)
  big : 4 ≤ 2 ^ (32 - ones)
  fits : ip.toNat + 2 ^ (32 - ones) ≤ 2 ^ 32

variable {ip : IPv4} {ones : Nat}

variable {p : IpPool} {s : PoolLog}

theorem newIPPool_size (hp : newIPPool ip ones = some p) :
    p.base = ip ∧ p.size.toNat = 2 ^ (32 - ones) ∧ 4 ≤ 2 ^ (32 - ones) ∧ 32 - ones < 32 := by
  unfold newIPPool at hp
  dsimp only at hp
  split at hp
  · cases hp
  rename_i hsize
  cases hp
  have hbits : 32 - ones < 32 := by
    refine Nat.lt_of_not_le fun hge => hsize ?_
    have h32 : 32 - ones = 32 := by omega
    rw [h32]
    decide
  have hlt : 2 ^ (32 - ones) < 2 ^ 32 := Nat.pow_lt_pow_right (by decide) hbits
  have hval : ((1 : BitVec 32) <<< (32 - ones)).toNat = 2 ^ (32 - ones) := by
    rw [BitVec.toNat_shiftLeft, Nat.shiftLeft_eq]
    simpa using hlt
  have hbig : 4 ≤ 2 ^ (32 - ones) := by
    have hge : (4 : BitVec 32) ≤ (1 : BitVec 32) <<< (32 - ones) := BitVec.not_lt.mp hsize
    have := BitVec.le_def.mp hge
    rw [hval] at this
    exact this
  exact ⟨rfl, hval, hbig, hbits⟩

theorem aligned_fits {x k : Nat} (hx : x < 2 ^ 32) (hk : k ≤ 32) (h : x % 2 ^ k = 0) :
    x + 2 ^ k ≤ 2 ^ 32 := by
  obtain ⟨q, hq⟩ := Nat.dvd_of_mod_eq_zero h
  have hsplit : 2 ^ 32 = 2 ^ k * 2 ^ (32 - k) := by
    rw [← Nat.pow_add]
    congr 1
    omega
  rw [hq, hsplit] at hx
  have hlt : q + 1 ≤ 2 ^ (32 - k) := Nat.lt_of_mul_lt_mul_left hx
  rw [hq, hsplit, ← Nat.mul_succ]
  exact Nat.mul_le_mul_left _ hlt

theorem overNetwork_new (hp : newIPPool ip ones = some p) (hhost : ip.toNat % 2 ^ (32 - ones) = 0) :
    OverNetwork ip ones p := by
  obtain ⟨hbase, hval, hbig, -⟩ := newIPPool_size hp
  exact ⟨hbase, hval, hbig, aligned_fits ip.isLt (Nat.sub_le _ _) hhost⟩

section Network

variable {ip : IPv4} {ones : Nat} {p : IpPool} (h : OverNetwork ip ones p)

include h

theorem hostAddr_iff (a : IPv4) :
    HostAddr ip ones a ↔ ip ≤ a ∧ 2 ≤ (a - ip).toNat ∧ (a - ip).toNat < 2 ^ (32 - ones) - 1 := by
  constructor
  · rintro ⟨⟨hlo, hhi⟩, hnet, hsrv, hbc⟩
    have hoff : (a - ip).toNat = a.toNat - ip.toNat := BitVec.toNat_sub_of_le hlo
    refine ⟨hlo, ?_, by omega⟩
    bv_omega
  · rintro ⟨hlo, hge, hlt⟩
    have hoff : (a - ip).toNat = a.toNat - ip.toNat := BitVec.toNat_sub_of_le hlo
    have hle : ip.toNat ≤ a.toNat := hlo
    refine ⟨⟨hle, by omega⟩, ?_, ?_, by omega⟩
    · rintro rfl
      omega
    · rintro rfl
      bv_omega

end Network

/-! ## The maps and the held pairs -/

/-- The two maps hold the addresses and peer-ids of the held pairs, no two of which share either. -/
structure PoolInv (ip : IPv4) (ones : Nat) (s : PoolLog) : Prop where
  network : OverNetwork ip ones s.pool
  ips : ∀ a, a - ip ∈ s.pool.usedIPs ↔ a ∈ s.held.map Grant.ip
  ids : ∀ id, id ∈ s.pool.usedPeerIDs ↔ id ∈ s.held.map Grant.peerID
  ipsDistinct : (s.held.map Grant.ip).Nodup
  idsDistinct : (s.held.map Grant.peerID).Nodup
  hosts : ∀ g ∈ s.held, HostAddr ip ones g.ip ∧ g.peerID.toNat ≤ maxPeerID

theorem poolInv_new (hp : newIPPool ip ones = some p) (hhost : ip.toNat % 2 ^ (32 - ones) = 0) :
    PoolInv ip ones { pool := p } := by
  obtain ⟨hips, hids⟩ := newIPPool_unused hp
  refine ⟨overNetwork_new hp hhost, ?_, ?_, List.nodup_nil, List.nodup_nil, by simp⟩
  · intro a
    simp [hips]
  · intro id
    simp [hids]

/-! ## What the loops find -/

section Search

variable {ip : IPv4} {ones : Nat} {s : PoolLog} (h : PoolInv ip ones s)

include h

theorem mem_freeAddrs (a : IPv4) : a ∈ freeAddrs ip ones s.held
    ↔ (ip ≤ a ∧ 2 ≤ (a - ip).toNat ∧ (a - ip).toNat < 2 ^ (32 - ones) - 1) ∧
    a - ip ∉ s.pool.usedIPs := by
  rw [h.ips, ← hostAddr_iff h.network]
  rfl

theorem mem_freeIDs (id : PeerID) :
    id ∈ freeIDs s.held ↔ id.toNat ≤ maxPeerID ∧ id ∉ s.pool.usedPeerIDs := by
  rw [h.ids]
  rfl

theorem nextFreeOffset_some {o : BitVec 32} (ho : s.pool.nextFreeOffset = some o) :
    IsLeast (freeAddrs ip ones s.held) (s.pool.base + o) := by
  have hbig := h.network.big
  have hfits := h.network.fits
  have hsize := h.network.size
  obtain ⟨hle, hlt, hfree, hbelow⟩ := firstFree_some (by simp; omega) ho
  have hback : ip + o - ip = o := by rw [BitVec.add_comm, BitVec.add_sub_cancel]
  rw [h.network.base]
  constructor
  · rw [mem_freeAddrs h, hback]
    refine ⟨⟨by bv_omega, hle, ?_⟩, hfree⟩
    simp at hlt
    omega
  · intro a ha
    obtain ⟨⟨hip, hge, -⟩, hnot⟩ := (mem_freeAddrs h a).mp ha
    refine BitVec.not_lt.mp fun hlow => hnot (hbelow (a - ip) hge ?_)
    bv_omega

theorem nextFreeOffset_none (ho : s.pool.nextFreeOffset = none) : freeAddrs ip ones s.held = ∅ := by
  have hsize := h.network.size
  refine Set.eq_empty_of_forall_notMem fun a ha => ?_
  obtain ⟨⟨-, hge, hlt⟩, hnot⟩ := (mem_freeAddrs h a).mp ha
  refine hnot (firstFree_none (by simp; omega) ho (a - ip) hge ?_)
  show (a - ip).toNat < 2 + (s.pool.size.toNat - 3)
  omega

theorem nextFreePeerID_some {id : PeerID} (hid : s.pool.nextFreePeerID = some id) :
    IsLeast (freeIDs s.held) id := by
  obtain ⟨-, hlt, hfree, hbelow⟩ := firstFree_some (by decide) hid
  constructor
  · rw [mem_freeIDs h]
    exact ⟨by simp at hlt; omega, hfree⟩
  · intro y hy
    refine BitVec.not_lt.mp fun hlow => ((mem_freeIDs h y).mp hy).2 (hbelow y (by bv_omega) hlow)

theorem nextFreePeerID_none (hid : s.pool.nextFreePeerID = none) : freeIDs s.held = ∅ := by
  refine Set.eq_empty_of_forall_notMem fun id hmem => ?_
  obtain ⟨hle, hnot⟩ := (mem_freeIDs h id).mp hmem
  exact hnot (firstFree_none (by decide) hid id (by bv_omega) (by simp; omega))

/-! ## What the calls answer -/

theorem allocate_least {g : Grant} {p : IpPool} (ha : s.pool.allocate = some (g, p)) :
    IsLeast (freeAddrs ip ones s.held) g.ip ∧ IsLeast (freeIDs s.held) g.peerID := by
  unfold IpPool.allocate at ha
  split at ha
  · rename_i offset peerID ho hid
    cases ha
    exact ⟨nextFreeOffset_some h ho, nextFreePeerID_some h hid⟩
  · cases ha

theorem allocate_none_iff :
    s.pool.allocate = none ↔ freeAddrs ip ones s.held = ∅ ∨ freeIDs s.held = ∅ := by
  unfold IpPool.allocate
  cases ho : s.pool.nextFreeOffset with
  | none => simp [nextFreeOffset_none h ho]
  | some offset =>
    have hoff : freeAddrs ip ones s.held ≠ ∅ :=
      Set.nonempty_iff_ne_empty.mp ⟨_, (nextFreeOffset_some h ho).1⟩
    cases hid : s.pool.nextFreePeerID with
    | none => simp [nextFreePeerID_none h hid]
    | some peerID =>
      have hpeer : freeIDs s.held ≠ ∅ :=
        Set.nonempty_iff_ne_empty.mp ⟨_, (nextFreePeerID_some h hid).1⟩
      simp [hoff, hpeer]

theorem reserve_free {a : IPv4} (ha : a ∈ freeAddrs ip ones s.held) {peerID : PeerID}
    (hid : s.pool.nextFreePeerID = some peerID) :
    s.pool.reserve (some a) = .inr (peerID, s.pool.take (a - s.pool.base) peerID) := by
  have hsize := h.network.size
  obtain ⟨⟨hip, hge, hlt⟩, hnot⟩ := (mem_freeAddrs h a).mp ha
  simp only [IpPool.reserve]
  rw [h.network.base, if_neg (BitVec.not_lt.mpr hip), if_neg (by bv_omega), if_neg (by bv_omega),
    if_neg (by simpa using hnot), hid]

theorem reserve_some {a : IPv4} {id : PeerID} {p : IpPool}
    (hr : s.pool.reserve (some a) = .inr (id, p)) :
    a ∈ freeAddrs ip ones s.held ∧ id ∈ freeIDs s.held := by
  have hsize := h.network.size
  have hcase := reserve_cases s.pool (some a)
  rw [hr] at hcase
  cases hcase with
  | reserved hlow hhigh hhost hfree hid =>
    rw [h.network.base] at hlow hhigh hhost hfree
    refine ⟨(mem_freeAddrs h a).mpr ⟨⟨hlow, ?_, ?_⟩, hfree⟩, (nextFreePeerID_some h hid).1⟩
    · bv_omega
    · bv_omega

theorem reserve_ok_iff (want : Option IPv4) :
    (∃ out, s.pool.reserve want = .inr out)
      ↔ ∃ a, want = some a ∧ a ∈ freeAddrs ip ones s.held ∧ (freeIDs s.held).Nonempty := by
  cases want with
  | none => simp [IpPool.reserve]
  | some a =>
    constructor
    · rintro ⟨⟨id, pool⟩, hr⟩
      obtain ⟨ha, hid⟩ := reserve_some h hr
      exact ⟨a, rfl, ha, id, hid⟩
    · rintro ⟨_, he, ha, hids⟩
      obtain rfl := Option.some.inj he
      cases hid : s.pool.nextFreePeerID with
      | none => exact absurd (nextFreePeerID_none h hid) hids.ne_empty
      | some peerID => exact ⟨_, reserve_free h ha hid⟩

end Search

/-! ## Every call keeps the maps and the held pairs in step -/

theorem mem_map_released {κ : Type} {key : Grant → κ} {held : List Grant} {g : Grant}
    (hnodup : (held.map key).Nodup) (hg : g ∈ held) (k : κ) :
    k ∈ (held.filter fun g' => decide (g' ≠ g)).map key ↔ k ∈ held.map key ∧ k ≠ key g := by
  simp only [List.mem_map, List.mem_filter, decide_eq_true_eq]
  constructor
  · rintro ⟨g', ⟨hg', hne⟩, rfl⟩
    exact ⟨⟨g', hg', rfl⟩, fun he => hne (List.inj_on_of_nodup_map hnodup hg' hg he)⟩
  · rintro ⟨⟨g', hg', rfl⟩, hne⟩
    exact ⟨g', ⟨hg', fun he => hne (he ▸ rfl)⟩, rfl⟩

theorem poolInv_grant {g : Grant} (h : PoolInv ip ones s) (hstep : PoolStep s.pool (.grant g) p)
    (hip : g.ip ∈ freeAddrs ip ones s.held) (hid : g.peerID ∈ freeIDs s.held) :
    PoolInv ip ones { pool := p, held := g :: s.held } := by
  cases hstep with
  | grant =>
    refine ⟨⟨h.network.base, h.network.size, h.network.big, h.network.fits⟩, ?_, ?_,
      List.nodup_cons.mpr ⟨hip.2, h.ipsDistinct⟩, List.nodup_cons.mpr ⟨hid.2, h.idsDistinct⟩,
      List.forall_mem_cons.mpr ⟨⟨hip.1, hid.1⟩, h.hosts⟩⟩
    · intro a
      simp only [IpPool.take, h.network.base, List.mem_cons, List.map_cons, h.ips,
        BitVec.sub_left_inj]
    · intro id
      simp only [IpPool.take, List.mem_cons, List.map_cons, h.ids]

theorem poolInv_release {g : Grant} (h : PoolInv ip ones s) (hg : g ∈ s.held) :
    PoolInv ip ones (s.call (.release g)) := by
  have hsub : (s.held.filter fun g' => decide (g' ≠ g)).Sublist s.held := List.filter_sublist
  refine ⟨⟨h.network.base, h.network.size, h.network.big, h.network.fits⟩, ?_, ?_,
    h.ipsDistinct.sublist (hsub.map _), h.idsDistinct.sublist (hsub.map _),
    fun g' hg' => h.hosts g' (hsub.subset hg')⟩
  · intro a
    simp only [PoolLog.call, mem_map_released h.ipsDistinct hg]
    simp only [IpPool.release, h.network.base, List.mem_filter, h.ips, decide_eq_true_eq, ne_eq,
      BitVec.sub_left_inj]
  · intro id
    simp only [PoolLog.call, mem_map_released h.idsDistinct hg]
    simp only [IpPool.release, List.mem_filter, h.ids, decide_eq_true_eq, ne_eq]

theorem poolInv_call {c : PoolCall} (h : PoolInv ip ones s) (hheld : ReleasesHeld s c) :
    PoolInv ip ones (s.call c) := by
  cases c with
  | allocate =>
    simp only [PoolLog.call]
    cases ha : s.pool.allocate with
    | none => exact h
    | some out =>
      obtain ⟨hip, hid⟩ := allocate_least h ha
      exact poolInv_grant h (allocate_step ha) hip.1 hid.1
  | reserve want =>
    cases want with
    | none => exact h
    | some a =>
      simp only [PoolLog.call]
      cases hr : s.pool.reserve (some a) with
      | inl e => exact h
      | inr out =>
        obtain ⟨hip, hid⟩ := reserve_some h hr
        exact poolInv_grant h (reserve_step hr) hip hid
  | release g => exact poolInv_release h hheld


section Release

variable {ip : IPv4} {ones : Nat} {s : PoolLog} {g : Grant} (h : PoolInv ip ones s)
  (hg : g ∈ s.held)

include h hg

theorem freeAddrs_release :
    freeAddrs ip ones (s.call (.release g)).held = insert g.ip (freeAddrs ip ones s.held) := by
  ext a
  simp only [freeAddrs, PoolLog.call, Set.mem_ofPred_eq, Set.mem_insert_iff,
    mem_map_released h.ipsDistinct hg]
  by_cases ha : a = g.ip
  · simp [ha, (h.hosts g hg).1]
  · simp [ha]

theorem freeIDs_release :
    freeIDs (s.call (.release g)).held = insert g.peerID (freeIDs s.held) := by
  ext id
  simp only [freeIDs, PoolLog.call, Set.mem_ofPred_eq, Set.mem_insert_iff,
    mem_map_released h.idsDistinct hg]
  by_cases hid : id = g.peerID
  · simp [hid, (h.hosts g hg).2]
  · simp [hid]

end Release

/-- **The pool is a first-free set allocator.** Whatever calls have been made that gave back only
what was held: `allocate` hands out the lowest free address with the lowest free peer-id and fails
exactly when there is no free one of either; `reserve` succeeds exactly for a free address while
there is a free peer-id; no two held pairs share an address or a peer-id; and giving back a pair
frees it and nothing else. -/
theorem address_pool_first_free (ip : IPv4) (ones : Nat) {p : IpPool}
    (hp : newIPPool ip ones = some p) (hhost : ip.toNat % 2 ^ (32 - ones) = 0) (cs : List PoolCall)
    (hheld : Machine.Along PoolLog.call ReleasesHeld { pool := p } cs) :
    let s := Machine.run PoolLog.call { pool := p } cs
    (∀ g pool, s.pool.allocate = some (g, pool) →
        IsLeast (freeAddrs ip ones s.held) g.ip ∧ IsLeast (freeIDs s.held) g.peerID)
      ∧ (s.pool.allocate = none ↔ freeAddrs ip ones s.held = ∅ ∨ freeIDs s.held = ∅)
      ∧ (∀ want, (∃ out, s.pool.reserve want = .inr out)
        ↔ ∃ a, want = some a ∧ a ∈ freeAddrs ip ones s.held ∧ (freeIDs s.held).Nonempty)
      ∧ (s.held.map Grant.ip).Nodup ∧ (s.held.map Grant.peerID).Nodup
      ∧ ∀ g ∈ s.held,
        freeAddrs ip ones (s.call (.release g)).held = insert g.ip (freeAddrs ip ones s.held)
          ∧ freeIDs (s.call (.release g)).held = insert g.peerID (freeIDs s.held) := by
  intro s
  have h : PoolInv ip ones s :=
    Machine.run_invariant (fun s c hs hc => poolInv_call hs hc) (poolInv_new hp hhost) hheld
  refine ⟨fun g pool => allocate_least h, allocate_none_iff h, reserve_ok_iff h, h.ipsDistinct,
    h.idsDistinct, fun g hg => ⟨freeAddrs_release h hg, freeIDs_release h hg⟩⟩

/-- Two clients of 10.8.0.0/29 come, one to a chosen address, and the first one leaves. -/
def slash29Calls : List PoolCall :=
  [.allocate, .reserve (some 0x0A080003), .release { ip := 0x0A080002, peerID := 0 }]

/-- The next client gets the address and the peer-id of the one that left. -/
theorem released_pair_first :
    let s := Machine.run PoolLog.call { pool := { base := 0x0A080000, size := 8 } } slash29Calls
    ∃ pool, s.pool.allocate = some ({ ip := 0x0A080002, peerID := 0 }, pool)
      ∧ IsLeast (freeAddrs 0x0A080000 29 s.held) 0x0A080002 := by
  intro s
  obtain ⟨hleast, -⟩ := address_pool_first_free 0x0A080000 29
    (p := { base := 0x0A080000, size := 8 }) (by decide) (by decide) slash29Calls
      (by decide +kernel)
  have hnext : (s.pool.allocate).map Prod.fst = some { ip := 0x0A080002, peerID := 0 } := by
    decide +kernel
  obtain ⟨⟨g, pool⟩, ha, hg⟩ := Option.map_eq_some_iff.mp hnext
  obtain rfl : g = { ip := 0x0A080002, peerID := 0 } := hg
  exact ⟨pool, ha, (hleast _ _ ha).1⟩

end GoVpn.Proof
