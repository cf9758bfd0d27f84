import GoVpn.Control.CtrlConn

/-!
# Packets there and back

What `Wrap` makes of a packet, `Unwrap` under the same key takes apart again, and
what `AppendPlaintext` writes, `ParseControlPacket` reads.
-/

namespace GoVpn.Proof

open GoVpn.Control

theorem ofNat_field (x : BitVec 32) : BitVec.ofNat 32 (x.toNat % 256 ^ 4) = x := by
  have hlt : x.toNat < 256 ^ 4 := x.isLt
  rw [Nat.mod_eq_of_lt hlt, BitVec.ofNat_toNat, BitVec.setWidth_eq]

/-! ## The tls-crypt layout -/

@[simp] theorem length_pidBytes (seq : BitVec 32) (ts : Int) :
    (pidBytes seq ts).length = pidSize := by
  simp [pidBytes, pidSize]

section Layout

variable (K : Crypto) (key : KeySlot) {header pid : Bytes} (plaintext : Bytes)
  (hh : header.length = offPID) (hp : pid.length = pidSize)

/-- The tag of a wrapped packet. -/
def tagOf (K : Crypto) (key : KeySlot) (header pid plaintext : Bytes) : Bytes :=
  K.hmac key.hmac (header ++ pid ++ plaintext)

theorem length_tagOf : (tagOf K key header pid plaintext).length = tagSize := K.hmac_length _ _

theorem wrapWithPID_eq : wrapWithPID K key header pid plaintext
    = header ++ (pid ++ (tagOf K key header pid plaintext
      ++ K.ctr key.cipher ((tagOf K key header pid plaintext).take blockSize) plaintext)) := by
  simp [wrapWithPID, tagOf]

include hh in
theorem take_header : (wrapWithPID K key header pid plaintext).take offPID = header := by
  rw [wrapWithPID_eq, List.take_left' hh]

include hh hp in
theorem take_aad : (wrapWithPID K key header pid plaintext).take offTag = header ++ pid := by
  rw [wrapWithPID_eq, ← List.append_assoc,
    List.take_left' (by rw [List.length_append, hh, hp]; rfl)]

include hh in
theorem drop_header : (wrapWithPID K key header pid plaintext).drop offPID
    = pid ++ (tagOf K key header pid plaintext
      ++ K.ctr key.cipher ((tagOf K key header pid plaintext).take blockSize) plaintext) := by
  rw [wrapWithPID_eq, List.drop_left' hh]

include hh hp in
theorem drop_aad : (wrapWithPID K key header pid plaintext).drop offTag
    = tagOf K key header pid plaintext
      ++ K.ctr key.cipher ((tagOf K key header pid plaintext).take blockSize) plaintext := by
  rw [wrapWithPID_eq, ← List.append_assoc,
    List.drop_left' (by rw [List.length_append, hh, hp]; rfl)]

include hh hp in
theorem take_tag : ((wrapWithPID K key header pid plaintext).drop offTag).take tagSize
    = tagOf K key header pid plaintext := by
  rw [drop_aad K key plaintext hh hp, List.take_left' (length_tagOf K key plaintext)]

include hh hp in
theorem drop_tag : (wrapWithPID K key header pid plaintext).drop offCT
    = K.ctr key.cipher ((tagOf K key header pid plaintext).take blockSize) plaintext := by
  rw [show offCT = offTag + tagSize from rfl, ← List.drop_drop, drop_aad K key plaintext hh hp,
    List.drop_left' (length_tagOf K key plaintext)]

include hh hp in
theorem decrypted_wrapped :
    decrypted K key (wrapWithPID K key header pid plaintext) = plaintext := by
  unfold decrypted
  rw [take_tag K key plaintext hh hp, drop_tag K key plaintext hh hp, K.ctr_ctr]

include hh hp in
theorem expectedTag_wrapped : expectedTag K key (wrapWithPID K key header pid plaintext)
    = tagOf K key header pid plaintext := by
  unfold expectedTag
  rw [decrypted_wrapped K key plaintext hh hp, take_aad K key plaintext hh hp]
  rfl

include hh hp in
theorem length_wrapped : offCT ≤ (wrapWithPID K key header pid plaintext).length := by
  rw [wrapWithPID_eq]
  simp only [List.length_append, hh, hp, length_tagOf]
  simp [offCT, offPID, pidSize, tagSize]
  omega

include hh hp in
/-- **Unwrapping a wrapped packet** is decided by the replay window alone. -/
theorem unwrap_wrapped (w : Wrapper) (hkey : w.decrypt = key) :
    w.unwrap K (wrapWithPID K key header pid plaintext)
      = match w.replay.accept (packetSeq (wrapWithPID K key header pid plaintext)) with
        | none => .error .replay
        | some r => .ok (header, plaintext, { w with replay := r }) := by
  subst hkey
  have hlen := length_wrapped K w.decrypt plaintext hh hp
  unfold Wrapper.unwrap
  rw [if_neg (by omega), expectedTag_wrapped K w.decrypt plaintext hh hp,
    take_tag K w.decrypt plaintext hh hp, if_neg (by simp)]
  cases w.replay.accept (packetSeq (wrapWithPID K w.decrypt header pid plaintext)) with
  | none => rfl
  | some r =>
    show Except.ok (_, _, _) = Except.ok _
    rw [decrypted_wrapped K w.decrypt plaintext hh hp, take_header K w.decrypt plaintext hh]

end Layout

/-! ## Packet IDs -/

/-- The eight bytes of a datagram's tls-crypt packet ID, if it is long enough to have one. -/
def pidOf (wire : Bytes) : Option Bytes :=
  if offTag ≤ wire.length then some ((wire.drop offPID).take pidSize) else none

/-- The timestamp half of a packet ID. -/
def stampOf (wire : Bytes) : BitVec 32 :=
  BitVec.ofNat 32 (BigEndian.get (((wire.drop offPID).take pidSize).drop 4))

theorem packetSeq_eq_of_pid {a b : Bytes}
    (h : (a.drop offPID).take pidSize = (b.drop offPID).take pidSize) :
    packetSeq a = packetSeq b ∧ stampOf a = stampOf b := by
  have key : ∀ x : Bytes, packetSeq x
      = BitVec.ofNat 32 (BigEndian.get (((x.drop offPID).take pidSize).take 4)) := by
    intro x; rw [List.take_take]; rfl
  exact ⟨by rw [key, key, h], by unfold stampOf; rw [h]⟩

theorem packetSeq_eq_of_pidOf {a b : Bytes} (h : pidOf a = pidOf b) (hb : pidOf b ≠ none) :
    packetSeq a = packetSeq b ∧ stampOf a = stampOf b := by
  unfold pidOf at h hb
  split at hb
  · rename_i hlen
    split at h
    · exact packetSeq_eq_of_pid (Option.some.inj h)
    · cases h
  · exact absurd rfl hb

section PID

variable (K : Crypto) (key : KeySlot) {header : Bytes} (seq : BitVec 32) (ts : Int)
  (plaintext : Bytes) (hh : header.length = offPID)

include hh in
theorem take_pid : ((wrapWithPID K key header (pidBytes seq ts) plaintext).drop offPID).take pidSize
    = pidBytes seq ts := by
  rw [drop_header K key plaintext hh, List.take_left' (length_pidBytes seq ts)]

include hh in
theorem packetSeq_wrapped :
    packetSeq (wrapWithPID K key header (pidBytes seq ts) plaintext) = seq := by
  have h4 : ((wrapWithPID K key header (pidBytes seq ts) plaintext).drop offPID).take 4
      = (pidBytes seq ts).take 4 := by
    have := congrArg (List.take 4) (take_pid K key seq ts plaintext hh)
    rwa [List.take_take] at this
  unfold packetSeq
  rw [h4, pidBytes, BigEndian.get_take_put, ofNat_field]

include hh in
theorem stampOf_wrapped :
    stampOf (wrapWithPID K key header (pidBytes seq ts) plaintext) = BitVec.ofInt 32 ts := by
  unfold stampOf
  rw [take_pid K key seq ts plaintext hh, pidBytes, List.drop_left' (BigEndian.length_put 4 _),
    BigEndian.get_put, ofNat_field]

end PID

/-! ## Control packets -/

theorem readPacketID_put (id : PacketID) (rest : Bytes) :
    readPacketID (putPacketID id ++ rest) = id := by
  unfold readPacketID putPacketID
  rw [BigEndian.get_take_put]; exact ofNat_field id

theorem length_putPacketID (id : PacketID) : (putPacketID id).length = packetIDSize :=
  BigEndian.length_put _ _

theorem parseAcks_put (ids : List PacketID) (rest : Bytes) :
    parseAcks ids.length (ids.flatMap putPacketID ++ rest) = .ok (ids, rest) := by
  induction ids with
  | nil => rfl
  | cons id ids ih =>
    rw [List.flatMap_cons, List.append_assoc, List.length_cons, parseAcks,
      if_neg (by rw [List.length_append, length_putPacketID]; omega),
      List.drop_left' (length_putPacketID id), ih, readPacketID_put]

theorem parseRemoteSID_put (p : ControlPacket) (rest : Bytes) :
    parseRemoteSID p.acks.length
      ((if p.acks.length > 0 then p.remoteSessionID.bytes else []) ++ rest)
      = .ok (if p.acks.length > 0 then p.remoteSessionID else .zero, rest) := by
  unfold parseRemoteSID
  by_cases h : p.acks.length > 0
  · have hsize := p.remoteSessionID.size
    simp only [if_pos h]
    rw [dif_neg (by rw [List.length_append]; omega)]
    simp only [List.take_left' hsize, List.drop_left' hsize]
  · simp only [if_neg h, List.nil_append]

theorem parseOwnID_put (p : ControlPacket) :
    parseOwnID p.opcode ((if p.opcode != opAckV1 then putPacketID p.packetID else []) ++ p.payload)
      = .ok (if p.opcode != opAckV1 then p.packetID else 0, p.payload) := by
  unfold parseOwnID
  by_cases h : (p.opcode != opAckV1) = true
  · simp only [if_pos h]
    rw [if_neg (by rw [List.length_append, length_putPacketID]; omega), readPacketID_put,
      List.drop_left' (length_putPacketID _)]
  · simp only [if_neg h, List.nil_append]

/-- The fields a packet has once it was on the wire: those it does not carry are zero. -/
def ControlPacket.carried (p : ControlPacket) (hdr : Header) : ControlPacket :=
  { p with
    keyID := hdr.keyID, sessionID := hdr.sessionID
    remoteSessionID := if p.acks.length > 0 then p.remoteSessionID else .zero
    packetID := if p.opcode != opAckV1 then p.packetID else 0 }

variable {p : ControlPacket}

theorem ackCount (h : p.acks.length ≤ maxAcks) :
    (UInt8.ofNat p.acks.length).toNat = p.acks.length := by
  rw [UInt8.toNat_ofNat']; unfold maxAcks at h; omega

/-- **What is written is read.** -/
theorem parse_plaintext {hdr : Header} (hacks : p.acks.length ≤ maxAcks)
    (hop : hdr.opcode = p.opcode) (hvalid : validOpcode p.opcode = true) :
    parseControlPacket p.plaintext hdr = .ok (ControlPacket.carried p hdr) := by
  unfold parseControlPacket ControlPacket.plaintext
  rw [hop, if_neg (by simp [hvalid])]
  simp only [ackCount hacks, if_neg (Nat.not_lt.mpr hacks), List.append_assoc, parseAcks_put,
    bind, Except.bind, parseRemoteSID_put, parseOwnID_put, pure, Except.pure]
  rfl

/-- Whatever opcode it is read under, a packet that parses has the acknowledgements it was given. -/
theorem parse_acks {cp : ControlPacket} {hdr : Header} (hacks : p.acks.length ≤ maxAcks)
    (h : parseControlPacket p.plaintext hdr = .ok cp) : cp.acks = p.acks := by
  unfold parseControlPacket ControlPacket.plaintext at h
  split at h
  · cases h
  simp only [ackCount hacks, if_neg (Nat.not_lt.mpr hacks), List.append_assoc, parseAcks_put,
    bind, Except.bind, parseRemoteSID_put, pure, Except.pure] at h
  split at h
  · cases h
  · cases h; rfl

theorem parseHeaderByte_headerByte {op : Opcode} (h : validOpcode op = true) (keyID : UInt8) :
    (parseHeaderByte (headerByte op keyID)).1 = op := by
  have key : ∀ (a : Fin 32) (b : Fin 8),
      (UInt8.ofNat a.val <<< 3 ||| UInt8.ofNat b.val) >>> 3 = UInt8.ofNat a.val := by decide
  simp only [validOpcode, firstOpcode, lastOpcode, Bool.and_eq_true, decide_eq_true_eq,
    UInt8.le_iff_toNat_le] at h
  have hop : op.toNat < 32 := by have := h.2; simp at this; omega
  have hk : (keyID &&& 7).toNat < 8 := by
    rw [UInt8.toNat_and]; exact Nat.and_lt_two_pow _ (show (7 : UInt8).toNat < 2 ^ 3 by decide)
  have := key ⟨op.toNat, hop⟩ ⟨(keyID &&& 7).toNat, hk⟩
  simpa [parseHeaderByte, headerByte] using this

theorem length_header (cp : ControlPacket) : cp.header.length = offPID := by
  simp [ControlPacket.header, cp.sessionID.size, sessionIDSize, offPID]

/-- What a packet's header says. -/
def headerOf (cp : ControlPacket) : Header :=
  { opcode := (parseHeaderByte (headerByte cp.opcode cp.keyID)).1
    keyID := (parseHeaderByte (headerByte cp.opcode cp.keyID)).2
    sessionID := cp.sessionID }

theorem ofBytes_header (cp : ControlPacket) : Header.ofBytes cp.header = some (headerOf cp) := by
  unfold ControlPacket.header Header.ofBytes
  dsimp only
  rw [dif_pos cp.sessionID.size]
  rfl

theorem parseUnwrapped_acks {cp : ControlPacket} (hacks : p.acks.length ≤ maxAcks)
    (h : parseUnwrapped p.header p.plaintext = some cp) : cp.acks = p.acks := by
  unfold parseUnwrapped at h
  rw [ofBytes_header] at h
  dsimp only at h
  cases hp : parseControlPacket p.plaintext (headerOf p) with
  | error e => rw [hp] at h; exact absurd h (by simp [Except.toOption])
  | ok cp' =>
    rw [hp] at h
    obtain rfl : cp' = cp := by simpa [Except.toOption] using h
    exact parse_acks hacks hp

/-- **A packet survives the wire**, but for the fields its kind does not carry. -/
theorem parseUnwrapped_packet (hacks : p.acks.length ≤ maxAcks)
    (hvalid : validOpcode p.opcode = true) :
    parseUnwrapped p.header p.plaintext = some (ControlPacket.carried p (headerOf p)) := by
  unfold parseUnwrapped
  rw [ofBytes_header]
  dsimp only
  rw [parse_plaintext hacks (parseHeaderByte_headerByte hvalid _) hvalid]
  rfl


end GoVpn.Proof
