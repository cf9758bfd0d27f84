import GoVpn.Lib.Run
import GoVpn.Proof.ReliableSpec

/-!
# What the receive window takes

`Put` compares an ID with the floor twice: `pidMin` asks whether it lies in the half of the ID space
behind the floor, `pidInRange2` whether it lies below the end of the window. Both are simple by the
distance from the floor, except that `pidInRange2` compares the plain numbers where the end of the
window does not wrap. An ID that has itself wrapped is below any such end, however far ahead it is.

As long as no such ID is put, the window holds distinct IDs of its own range, and the verdicts are
exact. A single one of them breaks that.
-/

namespace GoVpn.Proof

open GoVpn.Control Reliable

/-- The calls on a receive window. -/
inductive RecvCall
  | put (id : PacketID) (payload : Bytes)
  | get

def recvCall (r : Reliable) : RecvCall → Reliable
  | .put id payload => (r.put id payload).1
  | .get =>
    match r.get with
    | none => r
    | some (_, r') => r'

/-- A window of `size` entries that starts at `floor`. -/
def windowAt (size : Nat) (floor : PacketID) : Reliable :=
  { Reliable.new size with packetID := floor }

/-- The ID is one of the next `size`. -/
def InRecvWindow (r : Reliable) (id : PacketID) : Prop := (id - r.packetID).toNat < r.size

instance (r : Reliable) (id : PacketID) : Decidable (InRecvWindow r id) :=
  inferInstanceAs (Decidable (_ < _))

/-- The ID has wrapped, the end of the window has not, and the ID is ahead of the floor. -/
def WrapsAhead (r : Reliable) (id : PacketID) : Prop :=
  id < r.packetID ∧ (id - r.packetID).toNat < 2 ^ 31 ∧ r.packetID.toNat + r.size < 2 ^ 32

instance (r : Reliable) (id : PacketID) : Decidable (WrapsAhead r id) :=
  inferInstanceAs (Decidable (_ ∧ _))

/-- No wrapped ID is put into a window that has not wrapped. -/
def NoWrapAhead (r : Reliable) : RecvCall → Prop
  | .put id _ => ¬ WrapsAhead r id
  | .get => True

/-- The verdicts on an ID are those of the window, and the loop for a free entry does not end
without one. -/
structure ExactPut (r : Reliable) (id : PacketID) (payload : Bytes) : Prop where
  accepted : (r.put id payload).2 = .accepted ↔ InRecvWindow r id ∧ r.holds id = false
  duplicate : (r.put id payload).2 = .duplicate ↔ r.holds id = true
  rejected : (r.put id payload).2 = .rejected ↔ ¬ InRecvWindow r id ∧ r.holds id = false
  entry : ¬ OutOfEntries r id

/-- Active entries have distinct IDs, all of the window. -/
structure WindowExact (r : Reliable) : Prop where
  distinct : (activeIDs r).Nodup
  inside : ∀ id ∈ activeIDs r, InRecvWindow r id

/-! ## The range test -/

theorem pidInRange2_iff {id floor : PacketID} {size : Nat} (hpos : 0 < size) (hsize : size < 2 ^ 31)
    (hahead : (id - floor).toNat < 2 ^ 31) :
    pidInRange2 id floor (BitVec.ofNat 32 size) = true
      ↔ (id - floor).toNat < size ∨ id < floor ∧ floor.toNat + size < 2 ^ 32 := by
  have hext : (BitVec.ofNat 32 size).toNat = size := by
    rw [BitVec.toNat_ofNat, Nat.mod_eq_of_lt (by omega)]
  unfold pidInRange2
  split
  · rw [decide_eq_true_iff]
    bv_omega
  · rw [decide_eq_true_iff]
    bv_omega

/-! ## One state -/

/-- What is known of a window between calls. -/
structure RecvWindowInv (r : Reliable) : Prop where
  sized : 0 < r.size ∧ r.size ≤ capacity
  once : ∀ id, heldBy (fun x => x.1 == id) r ≤ 1
  inside : ∀ id, r.holds id = true → InRecvWindow r id

theorem put_missing {r : Reliable} {id : PacketID} (payload : Bytes)
    (hmissing : r.holds id = false) :
    (r.put id payload).2 =
      if (pidMin id r.packetID = false ∧ pidInRange2 id r.packetID (BitVec.ofNat 32 r.size) = true)
        ∧ r.free ≠ none then .accepted else .rejected := by
  unfold Reliable.put
  rw [hmissing]
  cases hmin : pidMin id r.packetID with
  | true => simp
  | false =>
    cases hrange : pidInRange2 id r.packetID (BitVec.ofNat 32 r.size) with
    | false => simp
    | true =>
      cases hfree : r.free with
      | none | some i => simp

section State

variable {r : Reliable} (h : RecvWindowInv r)

include h

variable {id : PacketID}

theorem RecvWindowInv.range (hahead : (id - r.packetID).toNat < 2 ^ 31) :
    pidInRange2 id r.packetID (BitVec.ofNat 32 r.size) = true ↔ InRecvWindow r id ∨
    WrapsAhead r id := by
  obtain ⟨hpos, hcap⟩ := h.sized
  unfold capacity at hcap
  rw [pidInRange2_iff hpos (by omega) hahead]
  unfold InRecvWindow WrapsAhead
  simp only [hahead, true_and]

theorem RecvWindowInv.ahead (hin : InRecvWindow r id) : (id - r.packetID).toNat < 2 ^ 31 := by
  have hcap := h.sized.2
  unfold InRecvWindow at hin
  unfold capacity at hcap
  omega

theorem RecvWindowInv.free (hin : InRecvWindow r id) (hmissing : r.holds id = false) :
    r.free ≠ none := by
  refine free_of_missing (fun x => (x - r.packetID).toNat) 0
    (fun x y hxy => (BitVec.sub_left_inj _).mp (BitVec.eq_of_toNat_eq hxy)) h.once
    (fun x hx => ⟨Nat.zero_le _, ?_⟩) hmissing ⟨Nat.zero_le _, ?_⟩
  · rw [Nat.zero_add]
    exact h.inside x hx
  · rw [Nat.zero_add]
    exact hin

omit h in
theorem WrapsAhead.not_inRecvWindow (hwraps : WrapsAhead r id) : ¬ InRecvWindow r id := by
  obtain ⟨hlt, hahead, hend⟩ := hwraps
  unfold InRecvWindow
  bv_omega

theorem RecvWindowInv.exact_of_held (payload : Bytes) (hheld : r.holds id = true) :
    ExactPut r id payload := by
  have hmin := pidMin_false_iff.mpr (h.ahead (h.inside id hheld))
  have hput : (r.put id payload).2 = .duplicate := by rw [put_duplicate payload hmin hheld]
  refine ⟨?_, ?_, ?_, fun hout => ?_⟩
  · simp [hput, hheld]
  · simp [hput, hheld]
  · simp [hput, hheld]
  · exact absurd hout.2.1 (by simp [hheld])

theorem RecvWindowInv.exactPut_iff (id : PacketID) (payload : Bytes) :
    ExactPut r id payload ↔ ¬ WrapsAhead r id := by
  constructor
  · intro hexact hwraps
    have hout := hwraps.not_inRecvWindow
    have hmissing : r.holds id = false := by
      rw [Bool.eq_false_iff]
      exact fun hheld => hout (h.inside id hheld)
    have hmin := pidMin_false_iff.mpr hwraps.2.1
    have hrange := (h.range hwraps.2.1).mpr (.inr hwraps)
    by_cases hfree : r.free = none
    · exact hexact.entry ⟨hmin, hmissing, hrange, hfree⟩
    · have hput : (r.put id payload).2 = .accepted := by
        rw [put_missing payload hmissing, if_pos ⟨⟨hmin, hrange⟩, hfree⟩]
      exact hout (hexact.accepted.mp hput).1
  · intro hwraps
    cases hheld : r.holds id with
    | true => exact h.exact_of_held payload hheld
    | false =>
      have hwindow : (pidMin id r.packetID = false
          ∧ pidInRange2 id r.packetID (BitVec.ofNat 32 r.size) = true) ↔ InRecvWindow r id := by
        rw [pidMin_false_iff]
        constructor
        · rintro ⟨hahead, hrange⟩
          exact ((h.range hahead).mp hrange).resolve_right hwraps
        · intro hin
          exact ⟨h.ahead hin, (h.range (h.ahead hin)).mpr (.inl hin)⟩
      have hput := put_missing payload hheld
      simp only [hwindow] at hput
      by_cases hin : InRecvWindow r id
      · rw [if_pos ⟨hin, h.free hin hheld⟩] at hput
        refine ⟨by
          simp [hput, hin, hheld], by simp [hput, hheld], by simp [hput, hin], fun hout => ?_⟩
        exact h.free hin hheld hout.2.2.2
      · rw [if_neg fun hc => hin hc.1] at hput
        refine ⟨by
          simp [hput, hin], by simp [hput, hheld], by simp [hput, hin, hheld], fun hout => ?_⟩
        exact hin (hwindow.mp ⟨hout.1, hout.2.2.1⟩)

theorem RecvWindowInv.exact : WindowExact r where
  distinct := nodup_activeIDs h.once
  inside := fun id hid => h.inside id (mem_activeIDs.mp hid)

end State

/-! ## Runs -/

theorem recvWindowInv_at {size : Nat} (hsize : 0 < size ∧ size ≤ capacity) (floor : PacketID) :
    RecvWindowInv (windowAt size floor) where
  sized := by simpa [windowAt, Reliable.new, Reliable.size] using hsize
  once id := by
    have hnone : heldBy (fun x => x.1 == id) (windowAt size floor) = 0 :=
      heldBy_new (fun x => x.1 == id) size
    omega
  inside id hid := absurd hid (holds_new size id)

theorem recvWindowInv_call {r : Reliable} {c : RecvCall} (h : RecvWindowInv r)
    (hwraps : NoWrapAhead r c) : RecvWindowInv (recvCall r c) := by
  cases c with
  | put id payload =>
    simp only [recvCall]
    rcases hput : r.put id payload with ⟨r', res⟩
    have hshape := put_shape r id payload
    rw [hput] at hshape
    cases hshape with
    | rejected | duplicate => exact h
    | accepted hs =>
      -- what is accepted is in the window, so it may be held
      have hexact := (h.exactPut_iff id payload).mpr hwraps
      have hin := (hexact.accepted.mp (by rw [hput])).1
      refine ⟨by rw [hs.size]; exact h.sized, hs.once h.once, fun x hx => ?_⟩
      unfold InRecvWindow
      rw [hs.floor, hs.size]
      rcases (hs.holds_iff x).mp hx with hold | rfl
      · exact h.inside x hold
      · exact hin
  | get =>
    simp only [recvCall]
    cases hget : r.get with
    | none => exact h
    | some out =>
      obtain ⟨hfloor, hsize, -⟩ := get_some hget
      obtain ⟨-, hholds⟩ := holds_get hget h.once
      refine ⟨by rw [hsize]; exact h.sized, get_once hget h.once, fun x hx => ?_⟩
      obtain ⟨hx', hne⟩ := (hholds x).mp hx
      have hold := h.inside x hx'
      have hcap := h.sized.2
      unfold InRecvWindow at hold ⊢
      bv_omega

/-- **The receive window is exact up to wrapped IDs.** From any floor, as long as no ID that has
wrapped is put into a window that has not: the active entries have distinct IDs of the window, and
the next verdict on an ID is exact if and only if that ID is not such a one either. -/
theorem receive_window_exact_iff (size : Nat) (hsize : 0 < size ∧ size ≤ capacity)
    (floor : PacketID) (cs : List RecvCall)
    (hwraps : Machine.Along recvCall NoWrapAhead (windowAt size floor) cs) :
    let r := Machine.run recvCall (windowAt size floor) cs
    WindowExact r ∧ ∀ id payload, ExactPut r id payload ↔ ¬ WrapsAhead r id := by
  intro r
  have h : RecvWindowInv r := Machine.run_invariant (fun _ _ h hc => recvWindowInv_call h hc)
    (recvWindowInv_at hsize floor) hwraps
  exact ⟨h.exact, h.exactPut_iff⟩

instance (r : Reliable) : (c : RecvCall) → Decidable (NoWrapAhead r c)
  | .put id _ => inferInstanceAs (Decidable (¬ WrapsAhead r id))
  | .get => .isTrue trivial

/-- Across the wrap itself the verdicts are right: the window has wrapped with the IDs. -/
theorem exact_across_wrap :
    let r := Machine.run recvCall (windowAt 12 0xFFFFFFFE) [.put 0xFFFFFFFE [1], .get, .put 3 [2]]
    WindowExact r ∧ ExactPut r 9 [] := by
  obtain ⟨hwindow, hexact⟩ := receive_window_exact_iff 12 (by decide) 0xFFFFFFFE
    [.put 0xFFFFFFFE [1], .get, .put 3 [2]] (by decide +kernel)
  exact ⟨hwindow, (hexact 9 []).mpr (by decide +kernel)⟩

/-- 261 ahead of the floor of a window of 12, and accepted. -/
theorem wrapped_id_accepted :
    ((windowAt 12 0xFFFFFF00).put 5 []).2 = .accepted ∧ ¬ InRecvWindow (windowAt 12 0xFFFFFF00) 5
      ∧ ¬ WindowExact ((windowAt 12 0xFFFFFF00).put 5 []).1 := by
  refine ⟨by decide +kernel, by decide +kernel, fun h => ?_⟩
  exact absurd (h.inside 5 (by decide +kernel)) (by decide +kernel)

end GoVpn.Proof
