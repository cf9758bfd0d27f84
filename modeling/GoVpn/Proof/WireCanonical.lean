import GoVpn.Proof.PacketRoundTrip

/-!
# Canonical plaintexts

`PacketRoundTrip` starts from a packet. Here it is the bytes: which strings `ParseControlPacket`
accepts, and that the packet it makes of one writes the same string again. The layout is stated over
the bytes only. A string that has it is the plaintext of some packet, so the reader accepts it; and
a string the reader accepts is, field by field, what the writer writes.
-/

namespace GoVpn.Proof

open GoVpn.Control

/-- The bytes of a control plaintext under an opcode: an ack count, that many packet IDs, a
session ID exactly when there are any, an own packet ID exactly when the packet is not a bare
acknowledgement, and anything behind. -/
structure PlaintextLayout (opcode : Opcode) (b : Bytes) where
  count : UInt8
  ids : List Bytes
  remote : Bytes
  own : Bytes
  rest : Bytes
  spells : b = count :: (ids.flatten ++ remote ++ own ++ rest)
  few : count.toNat ≤ maxAcks
  counted : ids.length = count.toNat
  idSize : ∀ id ∈ ids, id.length = packetIDSize
  remoteSize : remote.length = if count.toNat > 0 then sessionIDSize else 0
  ownSize : own.length = if opcode ≠ opAckV1 then packetIDSize else 0

theorem bind_ok {ε α β : Type} {x : Except ε α} {f : α → Except ε β} {b : β}
    (h : x >>= f = .ok b) : ∃ a, x = .ok a ∧ f a = .ok b := by
  cases x with
  | error e => exact absurd h (by simp [bind, Except.bind])
  | ok a => exact ⟨a, rfl, h⟩

/-! ## One field -/

theorem putPacketID_read {bs : Bytes} (h : bs.length = packetIDSize) :
    putPacketID (BitVec.ofNat 32 (BigEndian.get bs)) = bs := by
  have hlt : BigEndian.get bs < 2 ^ 32 := by
    have := BigEndian.get_lt bs
    rw [h] at this
    exact this
  unfold putPacketID
  rw [BitVec.toNat_ofNat, Nat.mod_eq_of_lt hlt, ← h, BigEndian.put_get]

variable {buf rest : Bytes}

theorem putPacketID_readPacketID (h : packetIDSize ≤ buf.length) :
    putPacketID (readPacketID buf) = buf.take packetIDSize :=
  putPacketID_read (by rw [List.length_take]; omega)

theorem parseAcks_ok {n : Nat} {ids : List PacketID} (h : parseAcks n buf = .ok (ids, rest)) :
    ids.length = n ∧ buf = ids.flatMap putPacketID ++ rest := by
  induction n generalizing buf ids with
  | zero =>
    obtain ⟨rfl, rfl⟩ := h
    exact ⟨rfl, rfl⟩
  | succ n ih =>
    rw [parseAcks] at h
    split at h
    · cases h
    · rename_i hlen
      cases hrec : parseAcks n (buf.drop packetIDSize) with
      | error e => rw [hrec] at h; exact absurd h (by simp)
      | ok out =>
        rw [hrec] at h
        obtain ⟨rfl, rfl⟩ := h
        obtain ⟨hcount, hdrop⟩ := ih hrec
        refine ⟨by rw [List.length_cons, hcount], ?_⟩
        rw [List.flatMap_cons, List.append_assoc, ← hdrop,
          putPacketID_readPacketID (by omega), List.take_append_drop]

theorem parseRemoteSID_ok {n : Nat} {sid : SessionID} (h : parseRemoteSID n buf = .ok (sid, rest)) :
    buf = (if n > 0 then sid.bytes else []) ++ rest := by
  unfold parseRemoteSID at h
  split at h
  · rename_i hn
    split at h
    · cases h
    · simp only [Except.ok.injEq, Prod.mk.injEq] at h
      obtain ⟨rfl, rfl⟩ := h
      rw [if_pos hn, List.take_append_drop]
  · rename_i hn
    simp only [Except.ok.injEq, Prod.mk.injEq] at h
    rw [if_neg hn, h.2, List.nil_append]

theorem parseOwnID_ok {opcode : Opcode} {id : PacketID}
    (h : parseOwnID opcode buf = .ok (id, rest)) :
    buf = (if opcode != opAckV1 then putPacketID id else []) ++ rest := by
  unfold parseOwnID at h
  split at h
  · rename_i hop
    split at h
    · cases h
    · simp only [Except.ok.injEq, Prod.mk.injEq] at h
      obtain ⟨rfl, rfl⟩ := h
      rw [if_pos hop, putPacketID_readPacketID (by omega), List.take_append_drop]
  · rename_i hop
    simp only [Except.ok.injEq, Prod.mk.injEq] at h
    rw [if_neg hop, h.2, List.nil_append]

/-! ## The packet -/

theorem plaintext_parse {b : Bytes} {hdr : Header} {cp : ControlPacket}
    (h : parseControlPacket b hdr = .ok cp) :
    cp.plaintext = b ∧ cp.opcode = hdr.opcode ∧ cp.acks.length ≤ maxAcks := by
  unfold parseControlPacket at h
  split at h
  · cases h
  cases b with
  | nil => cases h
  | cons count buf =>
    dsimp only at h
    split at h
    · cases h
    · rename_i hfew
      obtain ⟨⟨acks, buf₁⟩, hacks, h⟩ := bind_ok h
      obtain ⟨⟨remote, buf₂⟩, hsid, h⟩ := bind_ok h
      obtain ⟨⟨id, payload⟩, hown, h⟩ := bind_ok h
      obtain rfl := Except.ok.inj h
      obtain ⟨hcount, hbuf⟩ := parseAcks_ok hacks
      refine ⟨?_, rfl, by dsimp only; omega⟩
      unfold ControlPacket.plaintext
      rw [hcount, UInt8.ofNat_toNat, List.append_assoc, List.append_assoc,
        ← parseOwnID_ok hown, ← parseRemoteSID_ok hsid, ← hbuf]

/-- The plaintext of a packet has the layout. -/
def plaintextLayout {cp : ControlPacket} (hacks : cp.acks.length ≤ maxAcks) :
    PlaintextLayout cp.opcode cp.plaintext where
  count := UInt8.ofNat cp.acks.length
  ids := cp.acks.map putPacketID
  remote := if cp.acks.length > 0 then cp.remoteSessionID.bytes else []
  own := if cp.opcode != opAckV1 then putPacketID cp.packetID else []
  rest := cp.payload
  spells := rfl
  few := by rw [ackCount hacks]; exact hacks
  counted := by rw [ackCount hacks, List.length_map]
  idSize := by
    intro id hid
    obtain ⟨ack, -, rfl⟩ := List.mem_map.mp hid
    exact length_putPacketID ack
  remoteSize := by
    rw [ackCount hacks]
    split
    · exact cp.remoteSessionID.size
    · rfl
  ownSize := by
    by_cases hop : cp.opcode = opAckV1
    · simp [hop]
    · simp [hop, length_putPacketID]

theorem exists_plaintext {opcode : Opcode} {b : Bytes} (l : PlaintextLayout opcode b) :
    ∃ cp : ControlPacket, cp.plaintext = b ∧ cp.opcode = opcode ∧ cp.acks.length ≤ maxAcks := by
  have hids : (l.ids.map fun id => BitVec.ofNat 32 (BigEndian.get id)).flatMap putPacketID
      = l.ids.flatten := by
    have hmap : l.ids.map (fun id => putPacketID (BitVec.ofNat 32 (BigEndian.get id)))
        = l.ids.map id := List.map_congr_left fun id hid => putPacketID_read (l.idSize id hid)
    rw [List.flatMap_map, List.flatMap_def, hmap, List.map_id]
  obtain ⟨sid, hsid⟩ : ∃ sid : SessionID, (if l.ids.length > 0 then sid.bytes else []) =
    l.remote := by
    have hsize := l.remoteSize
    rw [l.counted]
    split at hsize
    · rename_i hk
      exact ⟨⟨l.remote, hsize⟩, by rw [if_pos hk]⟩
    · rename_i hk
      exact ⟨.zero, by rw [if_neg hk, List.length_eq_zero_iff.mp hsize]⟩
  obtain ⟨id, hid⟩ : ∃ id : PacketID, (if opcode != opAckV1 then putPacketID id else []) =
    l.own := by
    have hsize := l.ownSize
    by_cases hop : opcode = opAckV1
    · rw [if_neg (not_not_intro hop)] at hsize
      exact ⟨0, by rw [List.length_eq_zero_iff.mp hsize, hop]; rfl⟩
    · rw [if_pos hop] at hsize
      exact ⟨_, by rw [if_pos (by simpa using hop), putPacketID_read hsize]⟩
  refine ⟨⟨opcode, 0, .zero, l.ids.map fun id => BitVec.ofNat 32 (BigEndian.get id), sid, id,
    l.rest⟩, ?_, rfl, ?_⟩
  · unfold ControlPacket.plaintext
    rw [List.length_map, hids, hsid, hid, l.counted, UInt8.ofNat_toNat, ← l.spells]
  · dsimp only
    rw [List.length_map, l.counted]
    exact l.few

theorem parse_iff_layout {hdr : Header} (hop : validOpcode hdr.opcode = true) (b : Bytes) :
    (∃ cp, parseControlPacket b hdr = .ok cp) ↔ Nonempty (PlaintextLayout hdr.opcode b) := by
  constructor
  · rintro ⟨cp, h⟩
    obtain ⟨rfl, hopcode, hacks⟩ := plaintext_parse h
    rw [← hopcode]
    exact ⟨plaintextLayout hacks⟩
  · rintro ⟨l⟩
    obtain ⟨cp, rfl, hopcode, hacks⟩ := exists_plaintext l
    exact ⟨_, parse_plaintext hacks hopcode.symm (hopcode ▸ hop)⟩

/-- **Parsing is canonical**: under a legal opcode exactly the strings with the layout are
accepted, the packet made of one is written as that string again, and so no two strings make the
same packet. -/
theorem parsing_canonical (hdr : Header) (hop : validOpcode hdr.opcode = true) (b : Bytes) :
    ((∃ cp, parseControlPacket b hdr = .ok cp) ↔ Nonempty (PlaintextLayout hdr.opcode b))
      ∧ (∀ cp, parseControlPacket b hdr = .ok cp → cp.plaintext = b)
      ∧ ∀ hdr' b' cp, parseControlPacket b hdr = .ok cp → parseControlPacket b' hdr' = .ok cp →
          b = b' := by
  refine ⟨parse_iff_layout hop b, fun cp h => (plaintext_parse h).1, ?_⟩
  intro hdr' b' cp h h'
  rw [← (plaintext_parse h).1, (plaintext_parse h').1]

/-- A packet with one acknowledgement, spelt out. -/
def oneAckBytes : Bytes := [1, 0, 0, 0, 9, 1, 2, 3, 4, 5, 6, 7, 8, 0, 0, 0, 5, 42]

/-- It parses, and the packet writes the same bytes. -/
theorem one_ack_reproduced : ∃ cp,
    parseControlPacket oneAckBytes ⟨opControlV1, 0, .zero⟩ = .ok cp ∧
    cp.plaintext = oneAckBytes := by
  obtain ⟨haccepts, hwrites, -⟩ := parsing_canonical ⟨opControlV1, 0, .zero⟩ (by decide) oneAckBytes
  have layout : PlaintextLayout opControlV1 oneAckBytes :=
    ⟨1, [[0, 0, 0, 9]], [1, 2, 3, 4, 5, 6, 7, 8], [0, 0, 0, 5], [42], rfl,
      by decide, rfl, by decide, rfl, rfl⟩
  obtain ⟨cp, h⟩ := haccepts.mpr ⟨layout⟩
  exact ⟨cp, h, hwrites cp h⟩

end GoVpn.Proof
