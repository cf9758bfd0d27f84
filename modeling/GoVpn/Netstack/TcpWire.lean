import GoVpn.Netstack.Frame

/-!
# TCP segments on the wire

`parseTCP` and `buildTCP` (`tcp_segment.go`). Every read of `parseTCP` is one that may fail: a
byte or a slice outside the string it is read from is `none`, where Go would panic. So is a walk
over the options that has not ended within its fuel. That neither happens is a theorem and not
part of the model.
-/

namespace GoVpn.Netstack

def tcpHeaderMinLen : Nat := 20
def mssOptionKind : UInt8 := 2
def mssOptionLen : Nat := 4
def optionKindEnd : UInt8 := 0
def optionKindNop : UInt8 := 1

inductive TcpParseErr
  | tooShort | badDataOffset | badOption
  deriving DecidableEq

/-! ## Reads that may be out of range -/

/-- `b[i:j]`, or a panic. -/
def sliceOf (b : Bytes) (i j : Nat) : Option Bytes :=
  if i ≤ j ∧ j ≤ b.length then some (slice b i j) else none

/-- A big-endian number of `n` bytes at `i`, or a panic. -/
def numberAt (b : Bytes) (i n : Nat) : Option Nat := (sliceOf b i (i + n)).map BigEndian.get

/-! ## Parsing -/

/-- The loop over the options; `mss` is what has been found so far. -/
def walkOptions :
    Nat → Bytes → Option (BitVec 16) → Option (Except TcpParseErr (Option (BitVec 16)))
  | 0, _, _ => none
  | fuel + 1, opts, mss =>
    if opts.length = 0 then some (.ok mss)
    else do
      let kind ← opts[0]?
      if kind = optionKindEnd then return .ok mss
      else if kind = optionKindNop then
        let rest ← sliceOf opts 1 opts.length
        walkOptions fuel rest mss
      else if opts.length < 2 then return .error .badOption
      else
        let optLen := (← opts[1]?).toNat
        if optLen < 2 ∨ optLen > opts.length then return .error .badOption
        else if kind = mssOptionKind then
          if optLen ≠ mssOptionLen then return .error .badOption
          else
            let value ← numberAt opts 2 2
            let rest ← sliceOf opts optLen opts.length
            walkOptions fuel rest (some (BitVec.ofNat 16 value))
        else
          let rest ← sliceOf opts optLen opts.length
          walkOptions fuel rest mss

/-- `parseTCP`. Each turn of the loop takes a byte at least, so the length is fuel enough. -/
def parseTCP (payload : Bytes) : Option (Except TcpParseErr TcpSegment) :=
  if payload.length < tcpHeaderMinLen then some (.error .tooShort)
  else do
    let dataOffset := ((← payload[12]?) >>> 4).toNat * 4
    if dataOffset < tcpHeaderMinLen ∨ dataOffset > payload.length then
      return .error .badDataOffset
    else
      let srcPort ← numberAt payload 0 2
      let dstPort ← numberAt payload 2 2
      let seq ← numberAt payload 4 4
      let ack ← numberAt payload 8 4
      let flags ← payload[13]?
      let window ← numberAt payload 14 2
      let opts ← sliceOf payload tcpHeaderMinLen dataOffset
      match ← walkOptions (opts.length + 1) opts none with
      | .error e => return .error e
      | .ok mss =>
        let rest ← sliceOf payload dataOffset payload.length
        return .ok
          { srcPort := BitVec.ofNat 16 srcPort
            dstPort := BitVec.ofNat 16 dstPort
            seq := BitVec.ofNat 32 seq
            ack := BitVec.ofNat 32 ack
            flags := BitVec.ofNat 8 flags.toNat
            window := BitVec.ofNat 16 window
            hasMSS := mss.isSome
            mss := mss.getD 0
            payload := rest }

/-! ## Building -/

/-- The length of the header `buildTCP` writes. -/
def TcpSegment.headerLen (seg : TcpSegment) : Nat :=
  tcpHeaderMinLen + if seg.hasMSS then mssOptionLen else 0

/-- `buildTCP`'s segment, its checksum still zero. The urgent pointer is unused. -/
def blankTCP (seg : TcpSegment) : Bytes :=
  BigEndian.put 2 seg.srcPort.toNat ++ BigEndian.put 2 seg.dstPort.toNat
    ++ BigEndian.put 4 seg.seq.toNat ++ BigEndian.put 4 seg.ack.toNat
    ++ [UInt8.ofNat (seg.headerLen / 4) <<< 4, UInt8.ofNat seg.flags.toNat]
    ++ BigEndian.put 2 seg.window.toNat ++ [0, 0] ++ [0, 0]
    ++ (if seg.hasMSS then
        [mssOptionKind, UInt8.ofNat mssOptionLen] ++ BigEndian.put 2 seg.mss.toNat
        else [])
    ++ seg.payload

def buildTCP (seg : TcpSegment) (src dst : Addr) : Bytes :=
  let full := blankTCP seg
  putUint16 full 16 (transportChecksum src dst protocolTCP full).toNat

/-- The packet `sendOne` and the RST generator hand to `writePacket`. -/
def tcpPacket (seg : TcpSegment) (localIP remoteIP : Addr) : Bytes :=
  buildIPv4 localIP remoteIP protocolTCP (buildTCP seg localIP remoteIP)

theorem length_blankTCP (seg : TcpSegment) :
    (blankTCP seg).length = seg.headerLen + seg.payload.length := by
  unfold blankTCP TcpSegment.headerLen tcpHeaderMinLen mssOptionLen
  cases seg.hasMSS <;> simp <;> omega

theorem length_buildTCP (seg : TcpSegment) (src dst : Addr) :
    (buildTCP seg src dst).length = seg.headerLen + seg.payload.length := by
  rw [buildTCP, length_putUint16, length_blankTCP]

theorem length_tcpPacket (seg : TcpSegment) (localIP remoteIP : Addr) :
    (tcpPacket seg localIP remoteIP).length =
      minIPv4HeaderLen + (seg.headerLen + seg.payload.length) := by
  rw [tcpPacket, length_buildIPv4, length_buildTCP]

end GoVpn.Netstack
