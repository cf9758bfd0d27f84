import GoVpn.Lib.Serial
import GoVpn.Lib.Tally
import GoVpn.Control.Reliable

/-!
# What the windows do

One lemma for each operation of the reliability layer, in terms of which packet
IDs are active and, on the receive side, with which payloads. The layout of the
entry array does not appear past this file.
-/

namespace GoVpn.Proof

open GoVpn.Control Reliable Tally

/-- How many active entries hold a packet that `q` picks. -/
def heldBy (q : PacketID × Bytes → Bool) (r : Reliable) : Nat :=
  tally (fun e => if e.active && q (e.packetID, e.payload) then 1 else 0) r.entries

/-- How many active entries hold this packet. -/
def held (r : Reliable) (x : PacketID × Bytes) : Nat := heldBy (· == x) r

variable {r : Reliable} {id : PacketID} {payload : Bytes} {idx : Nat}

theorem holds_iff : r.holds id = true ↔ ∃ e ∈ r.entries, e.active = true ∧ e.packetID = id := by
  unfold Reliable.holds
  simp [List.any_eq_true]

theorem heldBy_pos {q : PacketID × Bytes → Bool} :
    0 < heldBy q r ↔ ∃ e ∈ r.entries, e.active = true ∧ q (e.packetID, e.payload) = true := by
  unfold heldBy
  rw [tally_pos]
  constructor
  · rintro ⟨e, he, hw⟩
    refine ⟨e, he, ?_⟩
    exact Classical.byContradiction fun hn => absurd hw (by simp [hn])
  · rintro ⟨e, he, ha, hq⟩
    exact ⟨e, he, by simp [ha, hq]⟩

theorem holds_iff_held : r.holds id = true ↔ ∃ a, 0 < held r (id, a) := by
  rw [holds_iff]
  constructor
  · rintro ⟨e, he, ha, rfl⟩
    exact ⟨e.payload, heldBy_pos.mpr ⟨e, he, ha, by simp⟩⟩
  · rintro ⟨a, ha⟩
    obtain ⟨e, he, hact, hq⟩ := heldBy_pos.mp ha
    rw [beq_iff_eq, Prod.mk.injEq] at hq
    exact ⟨e, he, hact, hq.1⟩

theorem holds_iff_heldBy : r.holds id = true ↔ 0 < heldBy (fun x => x.1 == id) r := by
  rw [holds_iff, heldBy_pos]; simp

theorem heldBy_new (q : PacketID × Bytes → Bool) (size : Nat) :
    heldBy q (Reliable.new size) = 0 := by
  refine tally_eq_zero fun e he => ?_
  obtain ⟨_, rfl⟩ := List.mem_replicate.mp he
  rfl

theorem holds_new (size : Nat) (id : PacketID) : ¬ (Reliable.new size).holds id = true := by
  rw [holds_iff_heldBy, heldBy_new]; simp

variable {i : Nat} {r' : Reliable}

theorem free_some (h : r.free = some i) : ∃ e, r.entries[i]? = some e ∧ e.active = false := by
  obtain ⟨hlt, hp, _⟩ := List.findIdx?_eq_some_iff_getElem.mp h
  exact ⟨_, List.getElem?_eq_getElem hlt, by simpa using hp⟩

/-! ## The receive side -/

/-- `Put` took the packet into the window. -/
structure Stored (r : Reliable) (id : PacketID) (payload : Bytes) (r' : Reliable) : Prop where
  current : pidMin id r.packetID = false
  absent : r.holds id = false
  floor : r'.packetID = r.packetID
  size : r'.size = r.size
  held : ∀ q, heldBy q r' = heldBy q r + if q (id, payload) then 1 else 0

/-- What `Put` does. -/
inductive PutShape (r : Reliable) (id : PacketID) (payload : Bytes) : Reliable → PutResult → Prop
  | rejected : PutShape r id payload r .rejected
  | duplicate : pidMin id r.packetID = false → r.holds id = true →
      PutShape r id payload r .duplicate
  | accepted {r' : Reliable} : Stored r id payload r' → PutShape r id payload r' .accepted

/-- **The inversion of `Put`.** -/
theorem put_shape (r : Reliable) (id : PacketID) (payload : Bytes) :
    PutShape r id payload (r.put id payload).1 (r.put id payload).2 := by
  unfold Reliable.put
  split
  · exact .rejected
  rename_i hmin
  split
  · exact .duplicate (by simpa using hmin) (by assumption)
  rename_i hholds
  split
  · exact .rejected
  cases hf : r.free with
  | none => exact .rejected
  | some i =>
    obtain ⟨e, he, ha⟩ := free_some hf
    refine .accepted ⟨by simpa using hmin, by simpa using hholds, rfl, by simp [Reliable.size], ?_⟩
    intro q
    have := tally_modify (fun e : Entry => if e.active && q (e.packetID, e.payload) then 1 else 0)
      (f := fun e => { e with active := true, packetID := id, nAcks := 0, payload := payload }) he
    simpa [heldBy, ha] using this

/-- The window has no room for the packet yet. -/
def TooFarAhead (r : Reliable) (id : PacketID) : Prop :=
  pidMin id r.packetID = false ∧ r.holds id = false ∧
    pidInRange2 id r.packetID (BitVec.ofNat 32 r.size) = false

/-- The window has room for the packet, and no entry. -/
def OutOfEntries (r : Reliable) (id : PacketID) : Prop :=
  pidMin id r.packetID = false ∧ r.holds id = false
    ∧ pidInRange2 id r.packetID (BitVec.ofNat 32 r.size) = true ∧ r.free = none

instance (r : Reliable) (id : PacketID) : Decidable (TooFarAhead r id) :=
  inferInstanceAs (Decidable (_ ∧ _))

theorem put_rejected (h : (r.put id payload).2 = .rejected) :
    pidMin id r.packetID = true ∨ TooFarAhead r id ∨ OutOfEntries r id := by
  unfold Reliable.put at h
  split at h
  · exact .inl (by assumption)
  rename_i hmin
  split at h
  · cases h
  rename_i hholds
  have hmin' : pidMin id r.packetID = false := by simpa using hmin
  have hholds' : r.holds id = false := by simpa using hholds
  split at h
  · rename_i hrange
    exact .inr (.inl ⟨hmin', hholds', by simpa using hrange⟩)
  · rename_i hrange
    cases hf : r.free with
    | none => exact .inr (.inr ⟨hmin', hholds', by simpa using hrange, hf⟩)
    | some i =>
      rw [hf] at h
      cases h

theorem put_accepted (h : r.put id payload = (r', .accepted)) :
    Stored r id payload r' ∧ pidInRange2 id r.packetID (BitVec.ofNat 32 r.size) = true := by
  have hshape := put_shape r id payload
  rw [h] at hshape
  cases hshape with
  | accepted hs =>
    refine ⟨hs, ?_⟩
    by_contra hrange
    unfold Reliable.put at h
    rw [if_neg (by simp [hs.current]), if_neg (by simp [hs.absent]),
      if_pos (by simpa using hrange)] at h
    cases h

theorem put_old (payload : Bytes) (h : pidMin id r.packetID = true) :
    r.put id payload = (r, .rejected) := by
  unfold Reliable.put; rw [if_pos h]

theorem put_duplicate (payload : Bytes) (h : pidMin id r.packetID = false)
    (hh : r.holds id = true) : r.put id payload = (r, .duplicate) := by
  unfold Reliable.put; rw [if_neg (by simp [h]), if_pos hh]

theorem get_some (h : r.get = some (payload, r')) :
    r'.packetID = r.packetID + 1 ∧ r'.size = r.size
      ∧ ∀ q, heldBy q r' + (if q (r.packetID, payload) then 1 else 0) = heldBy q r := by
  unfold Reliable.get at h
  split at h
  · cases h
  rename_i i hi
  -- `Get` only looks for the next ID in order
  obtain ⟨hlt, hp, _⟩ := List.findIdx?_eq_some_iff_getElem.mp hi
  have he := List.getElem?_eq_getElem hlt
  obtain ⟨rfl, rfl⟩ := h
  refine ⟨rfl, by simp [Reliable.size], ?_⟩
  intro q
  simp only [Bool.and_eq_true, beq_iff_eq] at hp
  have := tally_modify (fun e : Entry => if e.active && q (e.packetID, e.payload) then 1 else 0)
    (f := fun e => { e with active := false }) he
  simpa [heldBy, Reliable.payloadAt, he, hp.1, hp.2] using this

theorem beq_packet_iff (x y : PacketID × Bytes) : (x == y) = true ↔ y = x := by
  rw [beq_iff_eq, eq_comm]

theorem Stored.held_eq (h : Stored r id payload r') (y : PacketID × Bytes) :
    Proof.held r' y = Proof.held r y + if y = (id, payload) then 1 else 0 := by
  unfold Proof.held
  rw [h.held]
  simp only [beq_packet_iff]

theorem held_get (h : r.get = some (payload, r')) (y : PacketID × Bytes) :
    held r' y + (if y = (r.packetID, payload) then 1 else 0) = held r y := by
  have := (get_some h).2.2 (· == y)
  simp only [beq_packet_iff] at this
  exact this

theorem Stored.holds_iff (h : Stored r id payload r')
    (x : PacketID) : r'.holds x = true ↔ r.holds x = true ∨ x = id := by
  rw [holds_iff_heldBy, holds_iff_heldBy, h.held]
  by_cases hx : id = x
  · simp [hx]
  · simp [hx, Ne.symm hx]

theorem Stored.once (h : Stored r id payload r')
    (honce : ∀ x, heldBy (fun y => y.1 == x) r ≤ 1) (x : PacketID) :
    heldBy (fun y => y.1 == x) r' ≤ 1 := by
  rw [h.held]
  by_cases hx : id = x
  · subst hx
    have : ¬ 0 < heldBy (fun y => y.1 == id) r := by
      rw [← holds_iff_heldBy, h.absent]
      simp
    simp
    omega
  · simpa [hx] using honce x

theorem holds_get (h : r.get = some (payload, r')) (honce : ∀ x, heldBy (fun y => y.1 == x) r ≤ 1) :
    r.holds r.packetID = true ∧ ∀ x, r'.holds x = true ↔ r.holds x = true ∧ x ≠ r.packetID := by
  obtain ⟨-, -, hheld⟩ := get_some h
  refine ⟨holds_iff_heldBy.mpr ?_, fun x => ?_⟩
  · have := hheld fun y => y.1 == r.packetID
    simp only [beq_self_eq_true, if_pos] at this
    omega
  · have hx := hheld fun y => y.1 == x
    have hone := honce x
    rw [holds_iff_heldBy, holds_iff_heldBy]
    by_cases hxf : r.packetID = x
    · simp only [hxf, beq_self_eq_true, if_pos] at hx
      simp only [hxf, ne_eq, not_true, and_false, iff_false]
      omega
    · simp only [beq_iff_eq, if_neg hxf] at hx
      simp only [ne_eq, Ne.symm hxf, not_false_iff, and_true]
      omega

theorem get_once (h : r.get = some (payload, r'))
    (honce : ∀ x, heldBy (fun y => y.1 == x) r ≤ 1) (x : PacketID) :
    heldBy (fun y => y.1 == x) r' ≤ 1 := by
  have := (get_some h).2.2 fun y => y.1 == x
  have := honce x
  omega

theorem pidMin_false_iff {base : PacketID} :
    pidMin id base = false ↔ (id - base).toNat < 2 ^ 31 := by
  unfold pidMin pidInRange1
  simp only [Bool.not_eq_false', decide_eq_true_eq, BitVec.lt_def]
  exact Iff.rfl

/-- The IDs of the active entries. -/
def activeIDs (r : Reliable) : List PacketID := (r.entries.filter Entry.active).map Entry.packetID

theorem count_activeIDs (r : Reliable) (id : PacketID) :
    (activeIDs r).count id = heldBy (fun x => x.1 == id) r := by
  unfold heldBy
  rw [tally_indicator (fun e : Entry => e.active && e.packetID == id), List.count, activeIDs,
    List.countP_map, List.countP_filter]
  refine List.countP_congr fun e _ => ?_
  simp [and_comm]

theorem nodup_activeIDs (honce : ∀ x, heldBy (fun y => y.1 == x) r ≤ 1) : (activeIDs r).Nodup := by
  rw [List.nodup_iff_count]
  intro id
  rw [count_activeIDs]
  exact honce id

theorem mem_activeIDs : id ∈ activeIDs r ↔ r.holds id = true := by
  unfold activeIDs
  simp only [List.mem_map, List.mem_filter, GoVpn.Proof.holds_iff, and_assoc]

theorem free_of_missing (pos : PacketID → Nat) (f : Nat)
    (hpos : ∀ x y, pos x = pos y → x = y) (honce : ∀ x, heldBy (fun y => y.1 == x) r ≤ 1)
    (hrange : ∀ x, r.holds x = true → f ≤ pos x ∧ pos x < f + r.size)
    (hmissing : r.holds id = false) (hid : f ≤ pos id ∧ pos id < f + r.size) : r.free ≠ none := by
  intro hfull
  have hall : (activeIDs r).length = r.size := by
    unfold activeIDs
    rw [List.length_map, Reliable.size, List.length_filter_eq_length_iff]
    intro e he
    have := List.findIdx?_eq_none_iff.mp hfull e he
    simpa using this
  have hnodup : (id :: activeIDs r).Nodup := by
    refine List.nodup_cons.mpr ⟨fun hmem => ?_, nodup_activeIDs honce⟩
    rw [mem_activeIDs.mp hmem] at hmissing
    cases hmissing
  -- one ID more than there are positions
  have hsub : ((id :: activeIDs r).map pos) ⊆ List.range' f r.size := by
    intro i hi
    obtain ⟨x, hx, rfl⟩ := List.mem_map.mp hi
    rw [List.mem_range'_1]
    rcases List.mem_cons.mp hx with rfl | hx
    · exact hid
    · exact hrange x (mem_activeIDs.mp hx)
  have hlen := (hnodup.map hpos).length_le_of_subset hsub
  simp only [List.map_cons, List.length_cons, List.length_map, List.length_range', hall] at hlen
  omega

/-! ## The send side -/

theorem entry_ack_active (pid : PacketID) (e : Entry) :
    (e.ack pid).packetID = e.packetID
      ∧ ((e.ack pid).active = true ↔ e.active = true ∧ e.packetID ≠ pid) := by
  unfold Entry.ack
  by_cases ha : e.active = true
  · rw [if_neg (by simp [ha])]
    by_cases hp : e.packetID = pid
    · rw [if_pos hp]; simp [hp]
    · rw [if_neg hp]
      split <;> simp [ha, hp]
  · rw [if_pos (by simpa using ha)]; simp [ha]

theorem holds_ack (r : Reliable) (ids : List PacketID) (id : PacketID) :
    (r.ack ids).holds id = true ↔ r.holds id = true ∧ id ∉ ids := by
  unfold Reliable.ack
  simp only [holds_iff]
  generalize r.entries = es
  induction ids generalizing es with
  | nil => simp
  | cons pid ids ih =>
    rw [List.foldl_cons, ih]
    simp only [List.mem_map, List.mem_cons, not_or]
    constructor
    · rintro ⟨⟨_, ⟨e, he, rfl⟩, ha, hid⟩, hids⟩
      obtain ⟨h1, h2⟩ := entry_ack_active pid e
      have h3 := h2.mp ha
      rw [h1] at hid
      exact ⟨⟨e, he, h3.1, hid⟩, fun hp => h3.2 (hid.trans hp), hids⟩
    · rintro ⟨⟨e, he, ha, hid⟩, hne, hids⟩
      obtain ⟨h1, h2⟩ := entry_ack_active pid e
      exact ⟨⟨_, ⟨e, he, rfl⟩, h2.mpr ⟨ha, fun hp => hne (hid.symm.trans hp)⟩, h1.trans hid⟩, hids⟩

theorem holds_modify {f : Entry → Entry}
    (hf : ∀ e, (f e).active = e.active ∧ (f e).packetID = e.packetID) (id : PacketID) :
    ({ r with entries := r.entries.modify i f } : Reliable).holds id = r.holds id := by
  have key : ∀ (es : List Entry) (i : Nat),
      ((es.modify i f).any fun e => e.active && e.packetID == id)
        = es.any fun e => e.active && e.packetID == id := by
    intro es
    induction es with
    | nil => intro i; simp
    | cons e es ih =>
      intro i
      cases i with
      | zero => rw [List.modify_zero_cons]; simp [(hf e).1, (hf e).2]
      | succ i => rw [List.modify_succ_cons]; simp [ih]
  exact key r.entries i

theorem holds_setPayload (r : Reliable) (idx : Nat) (payload : Bytes) (id : PacketID) :
    (r.setPayload idx payload).holds id = r.holds id :=
  holds_modify (f := fun e => { e with payload := payload }) (fun _ => ⟨rfl, rfl⟩) id

/-- `Due` changes no ID. -/
theorem due_frame {now : Int} (h : r.due now = some (i, r')) :
    r'.packetID = r.packetID ∧ r'.size = r.size ∧ ∀ id, r'.holds id = r.holds id := by
  unfold Reliable.due at h
  split at h
  · cases h
  · obtain ⟨-, rfl⟩ := h
    exact ⟨rfl, by simp [Reliable.size], 
      fun id => holds_modify (f := Entry.backOff now) (fun _ => ⟨rfl, rfl⟩) id⟩

theorem entry_ack_frame (pid : PacketID) (e : Entry) :
    (e.ack pid).timeout = e.timeout ∧ ((e.ack pid).active = true → e.active = true) := by
  unfold Entry.ack
  split
  · exact ⟨rfl, id⟩
  · split
    · exact ⟨rfl, fun h => absurd h (by simp)⟩
    · split <;> exact ⟨rfl, id⟩

variable {e : Entry}

theorem ack_entry {ids : List PacketID} {es : List Entry}
    (h : (ids.foldl (fun es pid => es.map (Entry.ack pid)) es)[i]? = some e) :
    ∃ e₀, es[i]? = some e₀ ∧ e.timeout = e₀.timeout ∧ (e.active = true → e₀.active = true) := by
  induction ids generalizing es with
  | nil => exact ⟨e, h, rfl, id⟩
  | cons pid ids ih =>
    obtain ⟨e₁, h1, ht, ha⟩ := ih h
    rw [List.getElem?_map] at h1
    obtain ⟨e₀, h0, rfl⟩ := Option.map_eq_some_iff.mp h1
    have hf := entry_ack_frame pid e₀
    exact ⟨e₀, h0, ht.trans hf.1, fun h => hf.2 (ha h)⟩

theorem ack_length (ids : List PacketID) (es : List Entry) :
    (ids.foldl (fun es pid => es.map (Entry.ack pid)) es).length = es.length := by
  induction ids generalizing es with
  | nil => rfl
  | cons pid ids ih => exact (ih _).trans (List.length_map _)

theorem size_ack (r : Reliable) (ids : List PacketID) : (r.ack ids).size = r.size :=
  ack_length ids r.entries

theorem holds_markActive (h : r.entries[idx]? = some e) (ha : e.active = false) (id : PacketID) :
    (r.markActive idx).holds id = true ↔ r.holds id = true ∨ id = r.packetID := by
  simp only [holds_iff, Reliable.markActive, List.mem_iff_getElem?, List.getElem?_modify]
  constructor
  · rintro ⟨x, ⟨j, hj⟩, hact, hid⟩
    by_cases hij : idx = j
    · subst hij
      rw [h] at hj
      simp only [↓reduceIte, Option.map_eq_map, Option.map_some, Option.some.injEq] at hj
      subst hj
      exact .inr hid.symm
    · simp only [if_neg hij] at hj
      exact .inl ⟨x, ⟨j, by simpa using hj⟩, hact, hid⟩
  · rintro (⟨x, ⟨j, hj⟩, hact, hid⟩ | rfl)
    · have hij : idx ≠ j := by
        rintro rfl
        rw [h, Option.some.injEq] at hj
        rw [hj, hact] at ha; cases ha
      exact ⟨x, ⟨j, by simp [if_neg hij, hj]⟩, hact, hid⟩
    · exact ⟨_, ⟨idx, by simp [h]; rfl⟩, rfl, rfl⟩

/-- The slot is free. -/
def FreeSlot (r : Reliable) (idx : Nat) : Prop := ∃ e, r.entries[idx]? = some e ∧ e.active = false

theorem FreeSlot.ack (h : FreeSlot r idx) (ids : List PacketID) : FreeSlot (r.ack ids) idx := by
  obtain ⟨e₀, he, ha⟩ := h
  have hlt : idx < (r.ack ids).entries.length := by
    rw [show (r.ack ids).entries.length = r.entries.length from ack_length ids r.entries]
    exact (List.getElem?_eq_some_iff.mp he).1
  refine ⟨_, List.getElem?_eq_getElem hlt, ?_⟩
  obtain ⟨e₁, h1, -, hact⟩ := ack_entry (List.getElem?_eq_getElem hlt)
  rw [he, Option.some.injEq] at h1
  subst h1
  apply Bool.eq_false_iff.mpr
  intro hc
  rw [hact hc] at ha; cases ha

theorem FreeSlot.due {now : Int} (h : FreeSlot r idx)
    (hd : r.due now = some (i, r')) : FreeSlot r' idx := by
  obtain ⟨e, he, ha⟩ := h
  unfold Reliable.due at hd
  split at hd
  · cases hd
  · obtain ⟨-, rfl⟩ := hd
    refine ⟨_, by rw [List.getElem?_modify, he]; rfl, ?_⟩
    split
    · exact ha
    · exact ha

theorem FreeSlot.setPayload (h : FreeSlot r idx) (i : Nat) (payload : Bytes) :
    FreeSlot (r.setPayload i payload) idx := by
  obtain ⟨e, he, ha⟩ := h
  refine ⟨_, by rw [Reliable.setPayload, List.getElem?_modify, he]; rfl, ?_⟩
  split
  · exact ha
  · exact ha

/-! ## What the slots hold -/

/-- The packet an active entry holds. -/
def packetIn (e : Entry) : Option (PacketID × Bytes) :=
  if e.active then some (e.packetID, e.payload) else none

/-- The packet in a slot. -/
def slotAt (r : Reliable) (idx : Nat) : Option (PacketID × Bytes) := r.entries[idx]?.bind packetIn

theorem slotAt_eq_some {p : Bytes} :
    slotAt r idx = some (id, p)
      ↔ ∃ e, r.entries[idx]? = some e ∧ e.active = true ∧ e.packetID = id ∧ e.payload = p := by
  unfold slotAt packetIn
  simp [Option.bind_eq_some_iff]

theorem slotAt_new (size idx : Nat) : slotAt (Reliable.new size) idx = none := by
  unfold slotAt
  rw [Option.bind_eq_none_iff]
  intro e he
  obtain ⟨_, rfl⟩ := List.mem_replicate.mp (List.mem_of_getElem? he)
  rfl

theorem slotAt_modify (r' : Reliable) {f : Entry → Entry}
    (h : r'.entries = r.entries.modify i f) (idx : Nat) :
    slotAt r' idx = if i = idx then r.entries[idx]?.bind fun e => packetIn (f e)
      else slotAt r idx := by
  unfold slotAt
  rw [h, List.getElem?_modify]
  by_cases hi : i = idx
  · simp only [if_pos hi]
    cases r.entries[idx]? <;> rfl
  · simp only [if_neg hi]
    cases r.entries[idx]? <;> rfl

theorem FreeSlot.slotAt (h : FreeSlot r idx) : Proof.slotAt r idx = none := by
  obtain ⟨e, he, ha⟩ := h
  unfold Proof.slotAt packetIn
  simp [he, ha]

theorem slotAt_markActive (h : FreeSlot r idx) (j : Nat) :
    ∃ p, slotAt (r.markActive idx) j = if idx = j then some (r.packetID, p) else slotAt r j := by
  obtain ⟨e, he, -⟩ := h
  refine ⟨e.payload, ?_⟩
  rw [slotAt_modify (r.markActive idx) rfl]
  split
  · rename_i hj
    subst hj
    simp [he, packetIn]
  · rfl

theorem FreeSlot.markActive (h : FreeSlot r idx) (hne : i ≠ idx) :
    FreeSlot (r.markActive i) idx := by
  obtain ⟨e, he, ha⟩ := h
  exact ⟨e, by simp [Reliable.markActive, hne, he], ha⟩

theorem slotAt_setPayload (r : Reliable) (idx : Nat) (payload : Bytes) (j : Nat) :
    slotAt (r.setPayload idx payload) j
      = if idx = j then (slotAt r j).map fun x => (x.1, payload) else slotAt r j := by
  rw [slotAt_modify (r.setPayload idx payload) rfl]
  split
  · unfold slotAt
    cases r.entries[j]? with
    | none => rfl
    | some e => simp [packetIn]
  · rfl

theorem packetIn_ack {pid : PacketID} {x : PacketID × Bytes} :
    packetIn (e.ack pid) = some x ↔ packetIn e = some x ∧ x.1 ≠ pid := by
  have hpay : (e.ack pid).payload = e.payload := by
    unfold Entry.ack
    split
    · rfl
    · split
      · rfl
      · split <;> rfl
  obtain ⟨hid, hact⟩ := entry_ack_active pid e
  unfold packetIn
  simp only [Option.ite_none_right_eq_some, hact, hid, hpay, Option.some.injEq]
  constructor
  · rintro ⟨⟨ha, hne⟩, rfl⟩; exact ⟨⟨ha, rfl⟩, hne⟩
  · rintro ⟨⟨ha, rfl⟩, hne⟩; exact ⟨⟨ha, hne⟩, rfl⟩

theorem slotAt_ack {ids : List PacketID} {x : PacketID × Bytes} :
    slotAt (r.ack ids) idx = some x ↔ slotAt r idx = some x ∧ x.1 ∉ ids := by
  unfold Reliable.ack slotAt
  generalize r.entries = es
  induction ids generalizing es with
  | nil => simp
  | cons pid ids ih =>
    rw [List.foldl_cons, ih, List.getElem?_map]
    cases es[idx]? with
    | none => simp
    | some e => simp [packetIn_ack, and_assoc]

theorem slotAt_due {now : Int} (h : r.due now = some (i, r')) (idx : Nat) :
    slotAt r' idx = slotAt r idx := by
  unfold Reliable.due at h
  split at h
  · cases h
  · obtain ⟨-, rfl⟩ := h
    rw [slotAt_modify _ rfl]
    split <;> rfl

/-! ## `Next` -/

theorem next_freeSlot (h : r.next = some idx) : FreeSlot r idx := by
  unfold Reliable.next at h
  cases hm : r.minActive with
  | none =>
    rw [hm] at h
    exact free_some h
  | some m =>
    rw [hm] at h
    dsimp only at h
    split at h
    · exact free_some h
    · cases h

/-- How far behind the next ID an ID is. -/
def behind (r : Reliable) (id : PacketID) : Nat := (r.packetID - id).toNat

theorem pidMin_iff_behind {a b : PacketID} (ha : behind r a < 2 ^ 31)
    (hb : behind r b < 2 ^ 31) : pidMin a b = true ↔ behind r b < behind r a := by
  unfold behind at *
  unfold pidMin pidInRange1
  simp only [Bool.not_eq_true', decide_eq_false_iff_not]
  bv_omega

/-- One entry of the scan: the result is furthest behind of what it was and the entry. -/
theorem scanMin_spec (r : Reliable) {acc : Option PacketID}
    (hacc : ∀ m, acc = some m → behind r m < 2 ^ 31)
    (he : e.active = true → behind r e.packetID < 2 ^ 31) :
    (scanMin acc e = none → acc = none ∧ e.active = false)
      ∧ ∀ m, scanMin acc e = some m → behind r m < 2 ^ 31
        ∧ (∀ a, acc = some a → behind r a ≤ behind r m)
        ∧ (e.active = true → behind r e.packetID ≤ behind r m) := by
  unfold scanMin
  by_cases ha : e.active = true
  · rw [if_pos ha]
    cases acc with
    | none => simpa [ha] using he ha
    | some a =>
      -- within half the space `pidMin` compares the distances behind the next ID
      have hiff := pidMin_iff_behind (he ha) (hacc a rfl)
      have := he ha
      have := hacc a rfl
      dsimp only
      split
      · rename_i hmin
        have := hiff.mp hmin
        simp; omega
      · rename_i hmin
        have := mt hiff.mpr hmin
        simp; omega
  · rw [if_neg ha]
    refine ⟨fun h => ⟨h, by simpa using ha⟩, fun m hm => ⟨hacc m hm, ?_, fun h => absurd h ha⟩⟩
    rintro a rfl
    exact Nat.le_of_eq (by rw [Option.some.inj hm])

/-- The scan finds the entry furthest behind. -/
theorem scan_spec (r : Reliable) {es : List Entry} (acc : Option PacketID)
    (hacc : ∀ m, acc = some m → behind r m < 2 ^ 31)
    (hes : ∀ e ∈ es, e.active = true → behind r e.packetID < 2 ^ 31) :
    (es.foldl scanMin acc = none → acc = none ∧ ∀ e ∈ es, e.active = false)
      ∧ ∀ m, es.foldl scanMin acc = some m →
        (∀ a, acc = some a → behind r a ≤ behind r m)
        ∧ ∀ e ∈ es, e.active = true → behind r e.packetID ≤ behind r m := by
  induction es generalizing acc with
  | nil =>
    refine ⟨fun h => ⟨h, by simp⟩, fun m hm => ⟨?_, by simp⟩⟩
    rintro a rfl
    exact Nat.le_of_eq (by rw [Option.some.inj hm])
  | cons e es ih =>
    obtain ⟨hnone, hsome⟩ := scanMin_spec r hacc (hes e (by simp))
    obtain ⟨ih1, ih2⟩ := ih (scanMin acc e) (fun m hm => (hsome m hm).1)
      (fun x hx => hes x (by simp [hx]))
    simp only [List.mem_cons, forall_eq_or_imp]
    constructor
    · intro h
      obtain ⟨h1, h2⟩ := ih1 h
      exact ⟨(hnone h1).1, (hnone h1).2, h2⟩
    · intro m hm
      obtain ⟨h1, h2⟩ := ih2 m hm
      cases hc : scanMin acc e with
      | none =>
        obtain ⟨rfl, he⟩ := hnone hc
        exact ⟨by simp, fun h => absurd h (by simp [he]), h2⟩
      | some b =>
        obtain ⟨_, hb, hbe⟩ := hsome b hc
        have hbm := h1 b hc
        exact ⟨fun a ha => Nat.le_trans (hb a ha) hbm, fun h => Nat.le_trans (hbe h) hbm, h2⟩

theorem next_some (hsize : r.size < 2 ^ 31)
    (hn : ∀ id, r.holds id = true → behind r id ≤ r.size) (h : r.next = some idx) :
    (∃ e, r.entries[idx]? = some e ∧ e.active = false)
      ∧ ∀ id, r.holds id = true → behind r id < r.size := by
  have hclose : ∀ e ∈ r.entries, e.active = true → behind r e.packetID < 2 ^ 31 := by
    intro e he ha
    have := hn e.packetID (holds_iff.mpr ⟨e, he, ha, rfl⟩)
    omega
  -- `minActive` is the active ID furthest behind
  obtain ⟨hnone, hsome⟩ := scan_spec r none (by simp) hclose
  unfold Reliable.next at h
  cases hm : r.minActive with
  | none =>
    rw [hm] at h
    refine ⟨free_some h, ?_⟩
    intro id hid
    obtain ⟨e, he, ha, _⟩ := holds_iff.mp hid
    rw [(hnone hm).2 e he] at ha; cases ha
  | some m =>
    rw [hm] at h
    dsimp only at h
    split at h
    · rename_i hrange
      refine ⟨free_some h, ?_⟩
      intro id hid
      obtain ⟨e, he, ha, rfl⟩ := holds_iff.mp hid
      have hle := (hsome m hm).2 e he ha
      have hlt : behind r m < r.size := by
        have hr : r.packetID - m < BitVec.ofNat 32 r.size := by
          simpa [pidInRange1] using hrange
        rw [BitVec.lt_def, BitVec.toNat_ofNat, Nat.mod_eq_of_lt (by omega)] at hr
        exact hr
      omega
    · cases h

end GoVpn.Proof
