import GoVpn.Control.Wire

/-!
# The tls-crypt layer

Authentication and encryption of control packets (`tlscrypt.go`). A packet is

    header (9) | packet ID (8) | tag (32) | ciphertext

where the packet ID is a sequence number and a timestamp, the tag authenticates everything
before it and the plaintext, and its upper half is the counter-mode IV.

HMAC-SHA256 and AES-256-CTR are a parameter: a tag has 32 bytes, and the key stream is
applied by exclusive or, so applying it twice gives the data back. The clock is an argument.
-/

namespace GoVpn.Control

def tagSize : Nat := 32
def blockSize : Nat := 16
def pidSize : Nat := 8
def offPID : Nat := 9
def offTag : Nat := 17
def offCT : Nat := 49

/-- The primitives: a keyed hash, and a stream cipher under a key and an IV. -/
structure Crypto where
  hmac : Bytes → Bytes → Bytes
  ctr : Bytes → Bytes → Bytes → Bytes
  hmac_length : ∀ key msg, (hmac key msg).length = tagSize
  ctr_length : ∀ key iv data, (ctr key iv data).length = data.length
  ctr_ctr : ∀ key iv data, ctr key iv (ctr key iv data) = data

structure KeySlot where
  cipher : Bytes
  hmac : Bytes
  deriving DecidableEq

/-! ## The replay window -/

def replayWindowSize : Nat := 64

/-- `replayWindow`: bit `i` of `seen` says that `highest - i` was taken. -/
structure ReplayWindow where
  init : Bool := false
  highest : BitVec 32 := 0
  seen : BitVec 64 := 0
  deriving DecidableEq

/-- `accept`: the window after taking `seq`, or `none` when `seq` is refused. -/
def ReplayWindow.accept (r : ReplayWindow) (seq : BitVec 32) : Option ReplayWindow :=
  if !r.init then some { init := true, highest := seq, seen := 1 }
  else if seq > r.highest then
    let shift := (seq - r.highest).toNat
    some { r with
      seen := if shift ≥ replayWindowSize then 1 else (r.seen <<< shift) ||| 1
      highest := seq }
  else
    let diff := (r.highest - seq).toNat
    if diff ≥ replayWindowSize then none
    else if r.seen &&& ((1 : BitVec 64) <<< diff) ≠ 0 then none
    else some { r with seen := r.seen ||| ((1 : BitVec 64) <<< diff) }

/-! ## Wrapping -/

structure Wrapper where
  encrypt : KeySlot
  decrypt : KeySlot
  sendSeq : BitVec 32 := 0
  sendTime : Int := 0
  sendRolloverAt : Int := 0
  replay : ReplayWindow := {}
  deriving DecidableEq

/-- `NewWrapper`, from the 256 bytes of a static key. -/
def newWrapper (key256 : Bytes) (server : Bool) : Option Wrapper :=
  if key256.length ≠ 256 then none
  else
    let slot (i : Nat) : KeySlot :=
      { cipher := (key256.drop (128 * i)).take 32, hmac := (key256.drop (128 * i + 64)).take 32 }
    if server then some { encrypt := slot 0, decrypt := slot 1 }
    else some { encrypt := slot 1, decrypt := slot 0 }

/-- The eight bytes of a packet ID; the timestamp keeps its low 32 bits. -/
def pidBytes (seq : BitVec 32) (ts : Int) : Bytes :=
  BigEndian.put 4 seq.toNat ++ BigEndian.put 4 (BitVec.ofInt 32 ts).toNat

inductive WrapErr
  | badHeader | rollOver
  deriving DecidableEq

/-- The locked section of `Wrap`: the sequence number and timestamp of the next packet. -/
def Wrapper.nextPID (w : Wrapper) (now : Int) : Except WrapErr Wrapper :=
  let w := if w.sendTime = 0 then { w with sendTime := now } else w
  if w.sendSeq = 0xFFFFFFFF then
    if w.sendRolloverAt ≠ 0 ∧ now ≤ w.sendRolloverAt then .error .rollOver
    else .ok { w with sendRolloverAt := now, sendTime := now, sendSeq := 0 + 1 }
  else .ok { w with sendSeq := w.sendSeq + 1 }

def wrapWithPID (K : Crypto) (key : KeySlot) (header pid plaintext : Bytes) : Bytes :=
  let aad := header ++ pid
  let tag := K.hmac key.hmac (aad ++ plaintext)
  aad ++ tag ++ K.ctr key.cipher (tag.take blockSize) plaintext

/--
`Wrap`. The timestamp is frozen before the rollover gate is looked at, so a
refused packet may still leave it set: the wrapper is returned either way.
-/
def Wrapper.wrap (K : Crypto) (w : Wrapper) (now : Int) (header plaintext : Bytes) :
    Wrapper × Except WrapErr Bytes :=
  if header.length ≠ offPID then (w, .error .badHeader)
  else
    match w.nextPID now with
    | .error e => (if w.sendTime = 0 then { w with sendTime := now } else w, .error e)
    | .ok w' =>
      (w', .ok (wrapWithPID K w'.encrypt header (pidBytes w'.sendSeq w'.sendTime) plaintext))

/-! ## Unwrapping -/

inductive UnwrapErr
  | short | auth | replay
  deriving DecidableEq

/-- The sequence number a packet carries. -/
def packetSeq (packet : Bytes) : BitVec 32 :=
  BitVec.ofNat 32 (BigEndian.get ((packet.drop offPID).take 4))

/-- The plaintext a packet decrypts to under `key`. -/
def decrypted (K : Crypto) (key : KeySlot) (packet : Bytes) : Bytes :=
  K.ctr key.cipher (((packet.drop offTag).take tagSize).take blockSize) (packet.drop offCT)

/-- The tag a packet must carry. -/
def expectedTag (K : Crypto) (key : KeySlot) (packet : Bytes) : Bytes :=
  K.hmac key.hmac (packet.take offTag ++ decrypted K key packet)

/-- `Unwrap`: the header and the plaintext, and the wrapper with the packet marked taken. -/
def Wrapper.unwrap (K : Crypto) (w : Wrapper) (packet : Bytes) :
    Except UnwrapErr (Bytes × Bytes × Wrapper) :=
  if packet.length < offCT then .error .short
  else if (packet.drop offTag).take tagSize ≠ expectedTag K w.decrypt packet then .error .auth
  else
    match w.replay.accept (packetSeq packet) with
    | none => .error .replay
    | some r => .ok (packet.take offPID, decrypted K w.decrypt packet, { w with replay := r })

/-! ## What they leave alone -/

variable {K : Crypto} {header plaintext : Bytes} {w w' : Wrapper}

/-- The next packet ID changes neither the keys nor the replay window. -/
theorem nextPID_frame {now : Int} (h : w.nextPID now = .ok w') :
    w'.encrypt = w.encrypt ∧ w'.decrypt = w.decrypt ∧ w'.replay = w.replay := by
  unfold Wrapper.nextPID at h
  by_cases h0 : w.sendTime = 0
  all_goals
    simp only [h0, if_true, if_false] at h
    split at h
    · split at h
      · cases h
      · cases h; exact ⟨rfl, rfl, rfl⟩
    · cases h; exact ⟨rfl, rfl, rfl⟩

theorem wrap_error {now : Int} {e : WrapErr} (h : w.wrap K now header plaintext = (w', .error e)) :
    w'.sendSeq = w.sendSeq ∧ (w'.sendTime = w.sendTime ∨ w.sendTime = 0)
      ∧ w'.encrypt = w.encrypt ∧ w'.decrypt = w.decrypt ∧ w'.replay = w.replay := by
  unfold Wrapper.wrap at h
  split at h
  · cases h; exact ⟨rfl, .inl rfl, rfl, rfl, rfl⟩
  · split at h
    · simp only [Prod.mk.injEq] at h
      obtain ⟨rfl, -⟩ := h
      split
      · rename_i h0; exact ⟨rfl, .inr h0, rfl, rfl, rfl⟩
      · exact ⟨rfl, .inl rfl, rfl, rfl, rfl⟩
    · cases h

theorem wrap_ok {now : Int} {wire : Bytes} (h : w.wrap K now header plaintext = (w', .ok wire)) :
    w.nextPID now = .ok w'
      ∧ wire = wrapWithPID K w'.encrypt header (pidBytes w'.sendSeq w'.sendTime) plaintext := by
  unfold Wrapper.wrap at h
  split at h
  · cases h
  · split at h
    · cases h
    · rename_i hn
      obtain ⟨rfl, rfl⟩ := h
      exact ⟨hn, rfl⟩

/-- A packet that is taken marks the replay window, and that is all. -/
theorem unwrap_frame {datagram : Bytes} (h : w.unwrap K datagram = .ok (header, plaintext, w')) :
    ∃ r, w.replay.accept (packetSeq datagram) = some r ∧ w' = { w with replay := r } := by
  unfold Wrapper.unwrap at h
  split at h
  · cases h
  · split at h
    · cases h
    · split at h
      · cases h
      · rename_i r hr
        simp only [Except.ok.injEq, Prod.mk.injEq] at h
        exact ⟨r, hr, h.2.2.symm⟩

end GoVpn.Control
