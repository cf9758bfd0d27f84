import GoVpn.Control.TlsCrypt

/-!
# The data channel

Authenticated encryption of tunnel packets (`datachan.go`). A packet is

    opcode and key ID (1) | peer ID (3) | packet ID (4) | tag (16) | ciphertext

where everything before the tag is authenticated and the nonce is the packet ID followed by
the eight implicit bytes of the key. The AEAD puts the tag after the ciphertext, the wire
before it, so both ends reorder.

AES-GCM is a parameter: sealing adds sixteen bytes and opening undoes it. The replay window
is a copy of the tls-crypt layer's; the two count different packet IDs and never meet.
-/

namespace GoVpn.Data

open GoVpn.Control (Bytes ReplayWindow)

def tagSize : Nat := 16
def offPacketID : Nat := 4
def offTag : Nat := 8
def offCiphertext : Nat := offTag + tagSize
def headerSize : Nat := offTag

def opDataV2 : UInt8 := 9

/-- The AEAD: key, nonce, plaintext or ciphertext with its tag, and additional data. -/
structure Aead where
  aeadSeal : Bytes → Bytes → Bytes → Bytes → Bytes
  aeadOpen : Bytes → Bytes → Bytes → Bytes → Option Bytes
  length_aeadSeal : ∀ key nonce plaintext aad,
    (aeadSeal key nonce plaintext aad).length = plaintext.length + tagSize
  aeadOpen_aeadSeal : ∀ key nonce plaintext aad,
    aeadOpen key nonce (aeadSeal key nonce plaintext aad) aad = some plaintext

/-- An AEAD without secrecy, whose tag is sixteen zero bytes. -/
def zeroTagAead : Aead where
  aeadSeal _ _ plaintext _ := plaintext ++ List.replicate tagSize 0
  aeadOpen _ _ sealed _ :=
    if sealed.drop (sealed.length - tagSize) = List.replicate tagSize 0 then
      some (sealed.take (sealed.length - tagSize))
    else none
  length_aeadSeal := by simp
  aeadOpen_aeadSeal := by simp

structure DataKeys where
  encryptCipher : Bytes
  encryptImplicitIV : Bytes
  decryptCipher : Bytes
  decryptImplicitIV : Bytes
  cipherKeyLen : Nat
  deriving DecidableEq

/-- `keyDirection`: which halves of the expansion a side encrypts and decrypts with. -/
def keyDirection (server : Bool) : Nat × Nat := if server then (1, 0) else (0, 1)

/-- `ServerSlots`, from the 256 bytes of a key expansion. -/
def serverSlots (raw : Bytes) (cipherKeyLen : Nat) : DataKeys :=
  let (encIdx, decIdx) := keyDirection true
  let cipher (i : Nat) := (raw.drop (128 * i)).take 32
  let hmac (i : Nat) := (raw.drop (128 * i + 64)).take 8
  { encryptCipher := cipher encIdx
    encryptImplicitIV := hmac encIdx
    decryptCipher := cipher decIdx
    decryptImplicitIV := hmac decIdx
    cipherKeyLen := cipherKeyLen }

/-- `Wrapper`: one key generation of one session. -/
structure Wrapper where
  peerID : BitVec 32
  keyID : UInt8
  encryptKey : Bytes
  encryptIV : Bytes
  decryptKey : Bytes
  decryptIV : Bytes
  sendSeq : BitVec 32 := 0
  replay : ReplayWindow := {}
  deriving DecidableEq

/-- `NewWrapper`; it fails on a key length that is neither cipher's. -/
def newWrapper (keys : DataKeys) (peerID : BitVec 32) (keyID : UInt8) : Option Wrapper :=
  if keys.cipherKeyLen ≠ 16 ∧ keys.cipherKeyLen ≠ 32 then none
  else
    some {
      peerID := peerID
      keyID := keyID
      encryptKey := keys.encryptCipher.take keys.cipherKeyLen
      encryptIV := keys.encryptImplicitIV
      decryptKey := keys.decryptCipher.take keys.cipherKeyLen
      decryptIV := keys.decryptImplicitIV }

/-! ## Keepalive pings -/

def pingMagic : Bytes :=
  [0x2a, 0x18, 0x7b, 0xf3, 0x64, 0x1e, 0xb4, 0xcb,
   0x07, 0xed, 0x2d, 0x0a, 0x98, 0x1f, 0xc7, 0x48]

def isPing (plaintext : Bytes) : Bool := plaintext == pingMagic

/-! ## Sealing -/

inductive SealErr
  | packetIDExhausted
  deriving DecidableEq

/-- `nextPacketID`: the wrapper after it assigned `sendSeq`, or the error at the ceiling. -/
def Wrapper.nextPacketID (w : Wrapper) : Except SealErr Wrapper :=
  if w.sendSeq = 0xFFFFFFFF then .error .packetIDExhausted
  else .ok { w with sendSeq := w.sendSeq + 1 }

/-- The eight header bytes. -/
def Wrapper.header (w : Wrapper) (seq : BitVec 32) : Bytes :=
  [opDataV2 <<< 3 ||| (w.keyID &&& 0x07)] ++ BigEndian.put 3 w.peerID.toNat
    ++ BigEndian.put 4 seq.toNat

/-- The nonce: the packet ID and the implicit IV, one after the other. -/
def nonce (seq : BitVec 32) (iv : Bytes) : Bytes := BigEndian.put 4 seq.toNat ++ iv

def Wrapper.sealWithSeq (A : Aead) (w : Wrapper) (seq : BitVec 32) (plaintext : Bytes) : Bytes :=
  let header := w.header seq
  let sealed := A.aeadSeal w.encryptKey (nonce seq w.encryptIV) plaintext header
  let ciphertext := sealed.take (sealed.length - tagSize)
  let tag := sealed.drop (sealed.length - tagSize)
  header ++ tag ++ ciphertext

def Wrapper.seal (A : Aead) (w : Wrapper) (plaintext : Bytes) : Wrapper × Except SealErr Bytes :=
  match w.nextPacketID with
  | .error e => (w, .error e)
  | .ok w' => (w', .ok (w'.sealWithSeq A w'.sendSeq plaintext))

/-! ## Opening -/

inductive OpenErr
  | short | auth | replay | pingAbsorbed
  deriving DecidableEq

/-- The packet ID a packet carries. -/
def packetSeq (packet : Bytes) : BitVec 32 :=
  BitVec.ofNat 32 (BigEndian.get ((packet.drop offPacketID).take 4))

/-- What the AEAD says of a packet that is long enough. -/
def Wrapper.decrypt (A : Aead) (w : Wrapper) (packet : Bytes) : Option Bytes :=
  let tag := (packet.drop offTag).take tagSize
  let ciphertext := packet.drop offCiphertext
  A.aeadOpen w.decryptKey (nonce (packetSeq packet) w.decryptIV) (ciphertext ++ tag)
    (packet.take headerSize)

/-- `Open`. The window is consulted once the AEAD has accepted the packet, and not before. -/
def Wrapper.open (A : Aead) (w : Wrapper) (packet : Bytes) : Wrapper × Except OpenErr Bytes :=
  if packet.length < offCiphertext then (w, .error .short)
  else
    match w.decrypt A packet with
    | none => (w, .error .auth)
    | some plaintext =>
      match w.replay.accept (packetSeq packet) with
      | none => (w, .error .replay)
      | some r =>
        ({ w with replay := r },
          if isPing plaintext then .error .pingAbsorbed else .ok plaintext)

end GoVpn.Data
