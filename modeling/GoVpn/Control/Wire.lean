import GoVpn.Lib.BigEndian

/-!
# Control packets on the wire

The header byte, and the plaintext body of a control packet: the array of
acknowledged packet IDs, the peer's session ID when there are any, the packet's
own ID unless it is a bare acknowledgement, and the payload (`wire.go`).

A packet ID here is the reliability layer's. The tls-crypt layer has a packet ID
of its own, in `TlsCrypt`, and the two are never compared.
-/

namespace GoVpn.Control

abbrev Bytes := List UInt8

/-- `Opcode`, the upper five bits of a header byte. -/
abbrev Opcode := UInt8

def opControlSoftResetV1 : Opcode := 3
def opControlV1 : Opcode := 4
def opAckV1 : Opcode := 5
def opControlHardResetClientV2 : Opcode := 7
def opControlHardResetServerV2 : Opcode := 8

def firstOpcode : Opcode := 3
def lastOpcode : Opcode := 11
def sessionIDSize : Nat := 8
def maxAcks : Nat := 8
def packetIDSize : Nat := 4

/-- `SessionID`: eight bytes. -/
structure SessionID where
  bytes : Bytes
  size : bytes.length = sessionIDSize
  deriving DecidableEq

/-- The zero value a session ID has until it is copied into. -/
def SessionID.zero : SessionID := ⟨List.replicate sessionIDSize 0, by simp⟩

/-- The reliability layer's packet ID. -/
abbrev PacketID := BitVec 32

structure Header where
  opcode : Opcode
  keyID : UInt8
  sessionID : SessionID

structure ControlPacket where
  opcode : Opcode
  keyID : UInt8
  sessionID : SessionID
  acks : List PacketID
  remoteSessionID : SessionID
  packetID : PacketID
  payload : Bytes
  deriving DecidableEq

/-- The sentinel parse errors. -/
inductive WireErr
  | tooShort | tooManyAcks | badOpcode
  deriving DecidableEq

def parseHeaderByte (b : UInt8) : Opcode × UInt8 := (b >>> 3, b &&& 7)

def headerByte (opcode : Opcode) (keyID : UInt8) : UInt8 := opcode <<< 3 ||| keyID &&& 7

def validOpcode (op : Opcode) : Bool := firstOpcode ≤ op && op ≤ lastOpcode

/-- A four-byte packet ID at the front of `buf`. -/
def readPacketID (buf : Bytes) : PacketID := BitVec.ofNat 32 (BigEndian.get (buf.take packetIDSize))

def putPacketID (id : PacketID) : Bytes := BigEndian.put packetIDSize id.toNat

/-- The loop of `ParseControlPacket` over the ack array. -/
def parseAcks : Nat → Bytes → Except WireErr (List PacketID × Bytes)
  | 0, buf => .ok ([], buf)
  | n + 1, buf =>
    if buf.length < packetIDSize then .error .tooShort
    else
      match parseAcks n (buf.drop packetIDSize) with
      | .error e => .error e
      | .ok (ids, rest) => .ok (readPacketID buf :: ids, rest)

/-- The peer's session ID, present only behind a non-empty ack array. -/
def parseRemoteSID (ackCount : Nat) (buf : Bytes) : Except WireErr (SessionID × Bytes) :=
  if ackCount > 0 then
    if h : buf.length < sessionIDSize then .error .tooShort
    else
      .ok (⟨buf.take sessionIDSize, by rw [List.length_take]; omega⟩, buf.drop sessionIDSize)
  else .ok (SessionID.zero, buf)

/-- The packet's own ID, absent from a bare acknowledgement. -/
def parseOwnID (opcode : Opcode) (buf : Bytes) : Except WireErr (PacketID × Bytes) :=
  if opcode != opAckV1 then
    if buf.length < packetIDSize then .error .tooShort
    else .ok (readPacketID buf, buf.drop packetIDSize)
  else .ok (0, buf)

def parseControlPacket (plaintext : Bytes) (hdr : Header) : Except WireErr ControlPacket :=
  if !validOpcode hdr.opcode then .error .badOpcode
  else
    match plaintext with
    | [] => .error .tooShort
    | count :: buf =>
      if count.toNat > maxAcks then .error .tooManyAcks
      else do
        let (acks, buf) ← parseAcks count.toNat buf
        let (remote, buf) ← parseRemoteSID count.toNat buf
        let (id, payload) ← parseOwnID hdr.opcode buf
        return { opcode := hdr.opcode, keyID := hdr.keyID, sessionID := hdr.sessionID,
                 acks := acks, remoteSessionID := remote, packetID := id, payload := payload }

/-- `AppendPlaintext` onto an empty buffer. -/
def ControlPacket.plaintext (p : ControlPacket) : Bytes :=
  UInt8.ofNat p.acks.length :: (p.acks.flatMap putPacketID
    ++ (if p.acks.length > 0 then p.remoteSessionID.bytes else [])
    ++ (if p.opcode != opAckV1 then putPacketID p.packetID else [])
    ++ p.payload)

end GoVpn.Control
