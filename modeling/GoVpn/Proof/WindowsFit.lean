import GoVpn.Lib.LossyWindow
import GoVpn.Lib.Run
import GoVpn.Proof.ReliableSpec

/-!
# The two windows of a control channel

A send window of six and the peer's receive window of twelve, over a network that loses,
repeats, delays and reorders packets and acknowledgements. One writer asks `Next` for a
slot and marks it with `MarkActive`; acknowledgements may come between the two.

Below `2 ^ 31` packet IDs the two are a `LossyWindow`. The receive window can therefore
take everything the sender has active, as long as `Get` is not seven packets behind.
-/

namespace GoVpn.Proof

open GoVpn.Control

/-! ## The pair -/

/-- A sender and a receiver, and what they have put on the network. -/
structure WindowPair where
  sender : Reliable := .new nSendBuffers
  receiver : Reliable := .new nRecBuffers
  /-- The slot the writer has been given by `Next`. -/
  slot : Option Nat := none
  /-- The packets sent. -/
  sent : List PacketID := []
  /-- The packets acknowledged. -/
  acked : List PacketID := []
  /-- The packets `Get` has returned. -/
  consumed : List PacketID := []

inductive PairMove
  | next
  | markActive
  | setPayload (idx : Nat) (payload : Bytes)
  | due (now : Int)
  /-- A packet arrives, if it was sent; `absorb` acknowledges what `Put` does not reject. -/
  | put (id : PacketID) (payload : Bytes)
  | get
  /-- An acknowledgement arrives; of `ids` it carries those that were acknowledged. -/
  | ack (ids : List PacketID)

namespace WindowPair

def step (p : WindowPair) : PairMove → WindowPair
  | .next => { p with slot := p.sender.next }
  | .markActive =>
    match p.slot with
    | none => p
    | some idx =>
      { p with
        sender := p.sender.markActive idx, slot := none
        sent := p.sent ++ [p.sender.packetID] }
  | .setPayload idx payload => { p with sender := p.sender.setPayload idx payload }
  | .due now =>
    match p.sender.due now with
    | none => p
    | some (_, r) => { p with sender := r }
  | .put id payload =>
    if p.sent.contains id then
      match p.receiver.put id payload with
      | (r, .rejected) => { p with receiver := r }
      | (r, _) => { p with receiver := r, acked := p.acked ++ [id] }
    else p
  | .get =>
    match p.receiver.get with
    | none => p
    | some (_, r) => { p with receiver := r, consumed := p.consumed ++ [p.receiver.packetID] }
  | .ack ids => { p with sender := p.sender.ack (ids.filter p.acked.contains) }

/-- The pair after the moves `ms`. -/
def after (ms : List PairMove) : WindowPair := Machine.run step {} ms

end WindowPair

/-! ## As two windows over a lossy channel -/

/-- The positions of the packet IDs `P`. -/
def positions (P : PacketID → Prop) (i : Nat) : Prop := ∃ id, P id ∧ id.toNat = i

variable {P Q : PacketID → Prop} {a b id : PacketID}

theorem positions_toNat : positions P id.toNat ↔ P id := by
  constructor
  · rintro ⟨id', h, he⟩
    rwa [BitVec.eq_of_toNat_eq he] at h
  · intro h
    exact ⟨id, h, rfl⟩

theorem positions_congr (h : ∀ id, P id ↔ Q id) (i : Nat) : positions P i ↔ positions Q i := by
  simp only [positions, h]

theorem positions_or (id : PacketID) (i : Nat) :
    positions (fun x => P x ∨ x = id) i ↔ positions P i ∨ i = id.toNat := by
  constructor
  · rintro ⟨x, hx | rfl, rfl⟩
    · exact .inl ⟨x, hx, rfl⟩
    · exact .inr rfl
  · rintro (⟨x, hx, rfl⟩ | rfl)
    · exact ⟨x, .inl hx, rfl⟩
    · exact ⟨id, .inr rfl, rfl⟩

theorem positions_not (i : Nat) :
    positions (fun x => P x ∧ ¬ Q x) i ↔ positions P i ∧ ¬ positions Q i := by
  constructor
  · rintro ⟨x, ⟨hp, hq⟩, rfl⟩
    exact ⟨⟨x, hp, rfl⟩, fun h => hq (positions_toNat.mp h)⟩
  · rintro ⟨⟨x, hp, rfl⟩, hq⟩
    exact ⟨x, ⟨hp, fun h => hq (positions_toNat.mpr h)⟩, rfl⟩

def WindowPair.abs (p : WindowPair) : LossyWindow.State where
  next := p.sender.packetID.toNat
  window := positions fun id => p.sender.holds id = true
  floor := p.receiver.packetID.toNat
  held := positions fun id => p.receiver.holds id = true
  acked := positions fun id => id ∈ p.acked

/-- What is known of a pair whose packet IDs have not gone round. -/
structure PairFits (p : WindowPair) : Prop where
  windows : LossyWindow.Inv nSendBuffers nRecBuffers p.abs
  used : p.sender.packetID.toNat = p.sent.length
  sendSize : p.sender.size = nSendBuffers
  recvSize : p.receiver.size = nRecBuffers
  /-- The slot is still free, and there is room in the window for one more ID. -/
  slot : ∀ idx, p.slot = some idx →
    FreeSlot p.sender idx ∧ ∀ id, p.sender.holds id = true → behind p.sender id < nSendBuffers
  sent : ∀ id ∈ p.sent, id.toNat < p.sender.packetID.toNat
  once : ∀ id, heldBy (fun x => x.1 == id) p.receiver ≤ 1
  consumed : ∀ id : PacketID, id.toNat < p.receiver.packetID.toNat → id ∈ p.consumed

/-! ## Packet IDs below half the space -/

theorem pidMin_iff_lt (ha : a.toNat < b.toNat + 2 ^ 31) (hb : b.toNat < 2 ^ 31) :
    pidMin a b = true ↔ a.toNat < b.toNat := by
  unfold pidMin pidInRange1
  simp only [Bool.not_eq_true', decide_eq_false_iff_not]
  bv_omega

theorem pidInRange2_iff_lt (hb : b.toNat < 2 ^ 31) {n : Nat} (hn : n < 2 ^ 31) :
    pidInRange2 a b (BitVec.ofNat 32 n) = true ↔ a.toNat < b.toNat + n := by
  have hext : (BitVec.ofNat 32 n).toNat = n := by
    rw [BitVec.toNat_ofNat, Nat.mod_eq_of_lt (by omega)]
  have hsum : (b + BitVec.ofNat 32 n).toNat = b.toNat + n := by
    rw [BitVec.toNat_add, hext, Nat.mod_eq_of_lt (by omega)]
  unfold pidInRange2
  rw [if_pos (by rw [ge_iff_le, BitVec.le_def, hsum]; omega), decide_eq_true_iff, BitVec.lt_def,
    hsum]

theorem behind_eq {r : Reliable} (h : id.toNat < r.packetID.toNat) :
    behind r id = r.packetID.toNat - id.toNat :=
  BitVec.toNat_sub_of_le (Nat.le_of_lt h)

/-! ## Steps -/

section Steps

variable {p : WindowPair} (h : PairFits p)

include h

theorem PairFits.floor_lt (hn : p.sent.length < 2 ^ 31) :
    p.receiver.packetID.toNat < 2 ^ 31 ∧ p.sender.packetID.toNat < 2 ^ 31 := by
  have h1 := h.used
  have h2 : p.receiver.packetID.toNat ≤ p.sender.packetID.toNat := h.windows.floor_le
  omega

theorem PairFits.keepSender {r : Reliable} (hid : r.packetID = p.sender.packetID)
    (hsize : r.size = p.sender.size) (hholds : ∀ id, r.holds id = p.sender.holds id)
    (hslot : ∀ idx, FreeSlot p.sender idx → FreeSlot r idx) : PairFits { p with sender := r } := by
  refine ⟨LossyWindow.inv_step (by decide) h.windows ?_,
    by rw [hid]; exact h.used, hsize.trans h.sendSize, h.recvSize, ?_, ?_, h.once, h.consumed⟩
  · refine .quiet (by simp only [WindowPair.abs, hid]) (fun i => ?_) rfl (fun _ => Iff.rfl) fun _ =>
      Iff.rfl
    exact positions_congr (fun id => by rw [hholds]) i
  · intro idx hidx
    obtain ⟨hfree, hnear⟩ := h.slot idx hidx
    refine ⟨hslot idx hfree, fun id hh => ?_⟩
    rw [hholds] at hh
    unfold behind
    rw [hid]
    exact hnear id hh
  · intro id hmem
    rw [hid]
    exact h.sent id hmem

theorem PairFits.next : PairFits (p.step .next) := by
  refine ⟨h.windows, h.used, h.sendSize, h.recvSize, fun idx hidx => ?_, h.sent, h.once, h.consumed⟩
  have hbehind : ∀ id, p.sender.holds id = true → behind p.sender id ≤ p.sender.size := by
    intro id hid
    have hwin := h.windows.window id.toNat (positions_toNat.mpr hid)
    have hlt : id.toNat < p.sender.packetID.toNat := hwin.1
    have hle : p.sender.packetID.toNat ≤ id.toNat + nSendBuffers := hwin.2
    rw [behind_eq hlt, h.sendSize]
    omega
  have hnext := next_some (by rw [h.sendSize]; decide) hbehind hidx
  rw [h.sendSize] at hnext
  exact hnext

theorem PairFits.markActive (hn : (p.step .markActive).sent.length < 2 ^ 31) :
    PairFits (p.step .markActive) := by
  have hused := h.used
  simp only [WindowPair.step] at hn ⊢
  cases hslot : p.slot with
  | none => exact h
  | some idx =>
    rw [hslot] at hn
    simp only [List.length_append, List.length_singleton] at hn
    obtain ⟨⟨e, he, hfree⟩, hnear⟩ := h.slot idx hslot
    have hnextID : (p.sender.packetID + 1).toNat = p.sender.packetID.toNat + 1 := by
      rw [BitVec.toNat_add]
      exact Nat.mod_eq_of_lt (by simp; omega)
    have hid : (p.sender.markActive idx).packetID.toNat = p.sender.packetID.toNat + 1 := hnextID
    refine ⟨LossyWindow.inv_step (by decide) h.windows ?_, ?_, ?_, h.recvSize, ?_, ?_, h.once,
      h.consumed⟩
    · refine .send ?_ hid (fun i => ?_) rfl (fun _ => Iff.rfl) fun _ => Iff.rfl
      · rintro i ⟨id, hheld, rfl⟩
        have hlt := (h.windows.window id.toNat (positions_toNat.mpr hheld)).1
        have hbehind := hnear id hheld
        rw [behind_eq hlt] at hbehind
        show p.sender.packetID.toNat < id.toNat + nSendBuffers
        omega
      · exact (positions_congr (holds_markActive he hfree) i).trans (positions_or _ i)
    · simp only [hid, hused, List.length_append, List.length_singleton]
    · rw [← h.sendSize]
      simp [Reliable.size, Reliable.markActive]
    · intro idx' hidx'
      cases hidx'
    · intro id hmem
      show id.toNat < (p.sender.markActive idx).packetID.toNat
      rw [hid]
      rcases List.mem_append.mp hmem with hmem | hmem
      · exact Nat.lt_succ_of_lt (h.sent id hmem)
      · rw [List.mem_singleton.mp hmem]
        exact Nat.lt_succ_self _

theorem PairFits.ack (ids : List PacketID) : PairFits (p.step (.ack ids)) := by
  have hholds := holds_ack p.sender (ids.filter p.acked.contains)
  refine ⟨LossyWindow.inv_step (by decide) h.windows ?_, h.used, (size_ack _ _).trans h.sendSize,
    h.recvSize, ?_, h.sent, h.once, h.consumed⟩
  · refine .acknowledge (positions fun id => id ∈ ids.filter p.acked.contains) ?_ rfl
      (fun i => ?_) rfl
      (fun _ => Iff.rfl) fun _ => Iff.rfl
    · rintro i ⟨id, hid, rfl⟩
      exact positions_toNat.mpr (List.contains_iff_mem.mp (List.mem_filter.mp hid).2)
    · exact (positions_congr hholds i).trans (positions_not i)
  · intro idx hidx
    obtain ⟨hfree, hnear⟩ := h.slot idx hidx
    exact ⟨hfree.ack _, fun id hid => hnear id ((hholds id).mp hid).1⟩

theorem PairFits.get (hn : p.sent.length < 2 ^ 31) : PairFits (p.step .get) := by
  obtain ⟨hfloor, -⟩ := h.floor_lt hn
  simp only [WindowPair.step]
  cases hget : p.receiver.get with
  | none => exact h
  | some g =>
    obtain ⟨payload, r⟩ := g
    obtain ⟨hid, hsize, -⟩ := get_some hget
    have hid' : r.packetID.toNat = p.receiver.packetID.toNat + 1 := by
      rw [hid, BitVec.toNat_add]
      exact Nat.mod_eq_of_lt (by simp; omega)
    obtain ⟨hthere, hholds⟩ := holds_get hget h.once
    refine ⟨LossyWindow.inv_step (by decide) h.windows ?_, h.used, h.sendSize,
      hsize.trans h.recvSize, h.slot, h.sent, get_once hget h.once, fun id hlt => ?_⟩
    · refine .consume (positions_toNat.mpr hthere) rfl (fun _ => Iff.rfl) hid'
        (fun i => ?_) fun _ => Iff.rfl
      refine (positions_congr hholds i).trans
        ((positions_not i).trans (and_congr_right fun _ => not_congr ?_))
      constructor
      · rintro ⟨x, rfl, rfl⟩
        rfl
      · rintro rfl
        exact ⟨_, rfl, rfl⟩
    · show id ∈ p.consumed ++ [p.receiver.packetID]
      have hlt' : id.toNat < p.receiver.packetID.toNat + 1 := by rw [← hid']; exact hlt
      by_cases heq : id = p.receiver.packetID
      · exact List.mem_append_right _ (by simp [heq])
      · refine List.mem_append_left _ (h.consumed id ?_)
        have : id.toNat ≠ p.receiver.packetID.toNat := fun he => heq (BitVec.eq_of_toNat_eq he)
        omega

theorem PairFits.accept (hn : p.sent.length < 2 ^ 31) {id : PacketID}
    (hsent : id ∈ p.sent) {r : Reliable} (hcurrent : pidMin id p.receiver.packetID = false)
    (hfloor : r.packetID = p.receiver.packetID) (hsize : r.size = p.receiver.size)
    (hroom : id.toNat < p.receiver.packetID.toNat + nRecBuffers)
    (hholds : ∀ x, r.holds x = true ↔ p.receiver.holds x = true ∨ x = id)
    (honce : ∀ x, heldBy (fun y => y.1 == x) r ≤ 1) :
    PairFits { p with receiver := r, acked := p.acked ++ [id] } := by
  obtain ⟨hlt, hnext⟩ := h.floor_lt hn
  have hid := h.sent id hsent
  have hge : p.receiver.packetID.toNat ≤ id.toNat := by
    rw [← Nat.not_lt, ← pidMin_iff_lt (by omega) hlt, hcurrent]
    decide
  refine ⟨LossyWindow.inv_step (by decide) h.windows ?_, h.used, h.sendSize, hsize.trans h.recvSize,
    h.slot, h.sent, honce, fun x hx => h.consumed x (by rw [hfloor] at hx; exact hx)⟩
  refine .accept id.toNat hid hge hroom rfl (fun _ => Iff.rfl)
    (by simp only [WindowPair.abs, hfloor]) (fun i => ?_)
    fun i => ?_
  · exact (positions_congr hholds i).trans (positions_or _ i)
  · refine (positions_congr (fun x => ?_) i).trans (positions_or _ i)
    rw [List.mem_append, List.mem_singleton]

theorem PairFits.put (hn : p.sent.length < 2 ^ 31) (id : PacketID)
    (payload : Bytes) : PairFits (p.step (.put id payload)) := by
  obtain ⟨hlt, -⟩ := h.floor_lt hn
  simp only [WindowPair.step]
  split
  · rename_i hsent
    rw [List.contains_iff_mem] at hsent
    rcases hput : p.receiver.put id payload with ⟨r, res⟩
    have hshape := put_shape p.receiver id payload
    rw [hput] at hshape
    cases hshape with
    | rejected => exact h
    | duplicate hcurrent hthere =>
      have hin := (h.windows.held id.toNat (positions_toNat.mpr hthere)).2.1
      refine h.accept hn hsent hcurrent rfl rfl hin (fun x => ?_) h.once
      constructor
      · exact .inl
      · rintro (hx | rfl)
        · exact hx
        · exact hthere
    | accepted hs =>
      have hroom := (put_accepted hput).2
      rw [h.recvSize, pidInRange2_iff_lt hlt (by decide)] at hroom
      exact h.accept hn hsent hs.current hs.floor hs.size hroom hs.holds_iff (hs.once h.once)
  · exact h

/-- Every move keeps the pair's windows compatible. -/
theorem PairFits.step (m : PairMove) (hn : (p.step m).sent.length < 2 ^ 31) :
    PairFits (p.step m) := by
  cases m with
  | next => exact h.next
  | markActive => exact h.markActive hn
  | setPayload idx payload =>
    exact h.keepSender rfl (by simp [Reliable.size, Reliable.setPayload])
      (holds_setPayload _ idx payload)
      fun i hi => hi.setPayload idx payload
  | due now =>
    simp only [WindowPair.step]
    cases hd : p.sender.due now with
    | none => exact h
    | some d =>
      obtain ⟨hid, hsize, hholds⟩ := due_frame hd
      exact h.keepSender hid hsize hholds fun i hi => hi.due hd
  | put id payload =>
    refine h.put (Nat.lt_of_le_of_lt (Nat.le_of_eq ?_) hn) id payload
    simp only [WindowPair.step]
    split
    · split <;> rfl
    · rfl
  | get =>
    refine h.get (Nat.lt_of_le_of_lt (Nat.le_of_eq ?_) hn)
    simp only [WindowPair.step]
    split <;> rfl
  | ack ids => exact h.ack ids

theorem PairFits.not_outOfEntries (hn : p.sent.length < 2 ^ 31) (id : PacketID) :
    ¬ OutOfEntries p.receiver id := by
  rintro ⟨hcurrent, hmissing, hroom, hfull⟩
  obtain ⟨hlt, -⟩ := h.floor_lt hn
  rw [h.recvSize, pidInRange2_iff_lt hlt (by decide)] at hroom
  have hge : p.receiver.packetID.toNat ≤ id.toNat := by
    rw [← Nat.not_lt, ← pidMin_iff_lt (Nat.lt_trans hroom (by simp [nRecBuffers])) hlt, hcurrent]
    decide
  refine free_of_missing BitVec.toNat p.receiver.packetID.toNat (fun _ _ => BitVec.eq_of_toNat_eq)
    h.once (fun x hx => ?_) hmissing ?_ hfull
  · have hx' := h.windows.held x.toNat (positions_toNat.mpr hx)
    rw [h.recvSize]
    exact ⟨hx'.1, hx'.2.1⟩
  · rw [h.recvSize]
    exact ⟨hge, hroom⟩

theorem PairFits.not_tooFarAhead (hn : p.sent.length < 2 ^ 31) {id : PacketID}
    (hactive : p.sender.holds id = true) {j : Nat} (hj : j ≤ nRecBuffers - nSendBuffers)
    (hmissing : p.receiver.holds (p.receiver.packetID + BitVec.ofNat 32 j) = false) :
    ¬ TooFarAhead p.receiver id := by
  rintro ⟨-, -, hroom⟩
  obtain ⟨hlt, -⟩ := h.floor_lt hn
  have hj' : j + nSendBuffers ≤ nRecBuffers := by
    simp only [nRecBuffers, nSendBuffers] at hj ⊢
    omega
  have hpos : (p.receiver.packetID + BitVec.ofNat 32 j).toNat = p.receiver.packetID.toNat + j := by
    simp only [nRecBuffers, nSendBuffers] at hj'
    rw [BitVec.toNat_add, BitVec.toNat_ofNat, Nat.mod_eq_of_lt (by omega),
      Nat.mod_eq_of_lt (by omega)]
  have hgap : ¬ p.abs.held (p.abs.floor + j) := by
    intro hheld
    rw [show p.abs.floor + j =
      (p.receiver.packetID + BitVec.ofNat 32 j).toNat from hpos.symm] at hheld
    rw [positions_toNat.mp hheld] at hmissing
    cases hmissing
  have hfit := h.windows.fits (h.windows.window id.toNat (positions_toNat.mpr hactive)).1 hj' hgap
  rw [h.recvSize, (pidInRange2_iff_lt hlt (by decide)).mpr hfit] at hroom
  cases hroom

end Steps

/-! ## Whole runs -/

theorem pairFits_start : PairFits {} where
  windows := LossyWindow.inv_start rfl (fun _ hi => holds_new _ _ hi.choose_spec.1) rfl
    (fun _ hi => holds_new _ _ hi.choose_spec.1) fun _ hi => nomatch hi.choose_spec.1
  used := rfl
  sendSize := rfl
  recvSize := rfl
  slot _ h := nomatch h
  sent _ h := nomatch h
  once _ := Nat.le_trans (Nat.le_of_eq (heldBy_new _ _)) (Nat.zero_le 1)
  consumed _ h := absurd h (Nat.not_lt_zero _)

theorem sent_length_le_step (p : WindowPair) (m : PairMove) :
    p.sent.length ≤ (p.step m).sent.length := by
  cases m <;> simp only [WindowPair.step]
  case markActive =>
    split
    · exact Nat.le_refl _
    · exact (List.sublist_append_left _ _).length_le
  case due => split <;> exact Nat.le_refl _
  case put =>
    split
    · split <;> exact Nat.le_refl _
    · exact Nat.le_refl _
  case get => split <;> exact Nat.le_refl _
  all_goals exact Nat.le_refl _

/-- The windows fit as long as half the ID space is not used. -/
theorem pairFits_after (ms : List PairMove) :
    (WindowPair.after ms).sent.length < 2 ^ 31 → PairFits (WindowPair.after ms) := by
  refine Machine.run_history WindowPair.step (I := fun _ p => p.sent.length < 2 ^ 31 → PairFits p)
    (fun _ => pairFits_start) (fun _ m h hn => ?_) ms
  exact (h (Nat.lt_of_le_of_lt (sent_length_le_step _ m) hn)).step m hn

/-- **The windows fit.** Whatever the network does to packets and acknowledgements, the receiver
takes or has taken each packet the sender has active, unless `Get` is seven packets behind.
It never runs out of entries. -/
theorem windows_compatible (ms : List PairMove)
    (hfew : (WindowPair.after ms).sent.length < 2 ^ 31) :
    (∀ id payload, (WindowPair.after ms).sender.holds id = true →
      (∃ j ≤ nRecBuffers - nSendBuffers, (WindowPair.after ms).receiver.holds
        ((WindowPair.after ms).receiver.packetID + BitVec.ofNat 32 j) = false) →
      (((WindowPair.after ms).receiver.put id payload).2 = .accepted
        ∨ ((WindowPair.after ms).receiver.put id payload).2 = .duplicate ∨
        id ∈ (WindowPair.after ms).consumed)
      ∧ ¬ TooFarAhead (WindowPair.after ms).receiver id)
    ∧ ∀ id, ¬ OutOfEntries (WindowPair.after ms).receiver id := by
  have h := pairFits_after ms hfew
  obtain ⟨hlt, hnext⟩ := h.floor_lt hfew
  refine ⟨fun id payload hactive hgap => ?_, h.not_outOfEntries hfew⟩
  obtain ⟨j, hj, hmissing⟩ := hgap
  have hnear := h.not_tooFarAhead hfew hactive hj hmissing
  refine ⟨?_, hnear⟩
  cases hput : ((WindowPair.after ms).receiver.put id payload).2 with
  | accepted => exact .inl rfl
  | duplicate => exact .inr (.inl rfl)
  | rejected =>
    rcases put_rejected hput with hmin | hfar | hfull
    · have hid := (h.windows.window id.toNat (positions_toNat.mpr hactive)).1
      have hid' : id.toNat < (WindowPair.after ms).sender.packetID.toNat := hid
      exact .inr (.inr (h.consumed id ((pidMin_iff_lt (by omega) hlt).mp hmin)))
    · exact absurd hfar hnear
    · exact absurd hfull (h.not_outOfEntries hfew id)

/-- `n` packets are sent, in order. -/
def sendMany (n : Nat) : List PairMove := (List.replicate n [.next, .markActive]).flatten

/-- Packets `first`, …, `first + n - 1` arrive. -/
def putMany (first n : Nat) : List PairMove :=
  (List.range' first n).map fun i => .put (BitVec.ofNat 32 i) []

/-- Six packets in flight, five of them arrived out of order. -/
theorem windows_compatible_reordered :
    ((WindowPair.after (sendMany 6 ++ putMany 1 5)).receiver.put 0 []).2 = .accepted
      ∨ ((WindowPair.after (sendMany 6 ++ putMany 1 5)).receiver.put 0 []).2 = .duplicate
      ∨ 0 ∈ (WindowPair.after (sendMany 6 ++ putMany 1 5)).consumed :=
  ((windows_compatible (sendMany 6 ++ putMany 1 5) (by decide)).1 0 [] (by decide)
    ⟨0, by decide, by decide⟩).1

/-- Seven packets have arrived and been acknowledged, and `Get` has not been called.
Of the next six the last does not fit. -/
theorem behind_reader_rejects : ∃ ms : List PairMove, (WindowPair.after ms).sent.length < 2 ^ 31
    ∧ (WindowPair.after ms).sender.holds 12 = true ∧ 12 ∉ (WindowPair.after ms).consumed
    ∧ ((WindowPair.after ms).receiver.put 12 []).2 = .rejected ∧ TooFarAhead
    (WindowPair.after ms).receiver 12 := by
  refine ⟨sendMany 6 ++ putMany 0 6 ++ [.ack [0, 1, 2, 3, 4, 5]] ++ sendMany 1 ++ putMany 6 1 ++
    [.ack [6]]
    ++ sendMany 6, ?_⟩
  decide

end GoVpn.Proof
