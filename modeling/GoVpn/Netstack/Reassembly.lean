import Mathlib.Data.List.AList
import GoVpn.Lib.HoleList
import GoVpn.Lib.Overlay
import GoVpn.Netstack.Ipv4

/-!
# Reassembly

One session's half-reassembled datagrams (`reassembly.go`). A fragment is added to
the buffer of its datagram, which is made when the first fragment arrives and dropped
when the datagram is complete, contradicts itself or has waited too long. The clock is
an argument: Go injects it as well.

`add` is cut into the steps of the source. Each of them is a function, so that a
proof can speak about one at a time.
-/

namespace GoVpn.Netstack

open HoleList (Hole)

def maxReassemblyBuffersPerSession : Nat := 16
def maxReassemblyBytesPerSession : Nat := 256 * 1024
/-- Thirty seconds, in the nanoseconds of `time.Duration`. -/
def reassemblyTimeout : Nat := 30 * 1000000000
def holeOpenEnd : Nat := maxIPv4Datagram - 1

structure ReassemblyKey where
  src : Addr
  dst : Addr
  protocol : UInt8
  id : BitVec 16
  deriving DecidableEq

/-- The datagram a fragment belongs to. -/
def Ipv4Header.key (hdr : Ipv4Header) : ReassemblyKey :=
  { src := hdr.src, dst := hdr.dst, protocol := hdr.protocol, id := hdr.id }

/-- `reassemblyBuffer`; a nil `header` and a `totalLen` of -1 are `none`. -/
structure ReassemblyBuffer where
  header : Option Bytes := none
  data : Bytes := []
  holes : List Hole := [{ first := 0, last := holeOpenEnd }]
  totalLen : Option Nat := none
  expires : Int
  deriving DecidableEq

/-- `ReassemblyLimits`; zero stands for the default. -/
structure ReassemblyLimits where
  maxBufs : Nat := 0
  maxBytes : Nat := 0
  timeout : Nat := 0

structure Reassembler where
  bufs : AList (fun _ : ReassemblyKey => ReassemblyBuffer) := ∅
  bytes : Int := 0
  closed : Bool := false
  limits : ReassemblyLimits := {}

inductive ReasmOutcome
  | buffered | complete | duplicate | conflict | boundExceeded | closed
  deriving DecidableEq

/-- What `add` returns. -/
structure Added where
  datagram : Option Bytes := none
  outcome : ReasmOutcome
  expired : Nat
  deriving DecidableEq

/-- The offset of a fragment's last byte. -/
def Ipv4Header.lastByte (hdr : Ipv4Header) (payload : Bytes) : Nat :=
  hdr.fragOffset + payload.length - 1

namespace ReassemblyBuffer

/--
The consistency checks: `none` is a contradiction. A final fragment fixes the
datagram's length, also when it is refused for its size afterwards.
-/
def declareEnd (b : ReassemblyBuffer) (more : Bool) (last : Nat) : Option ReassemblyBuffer :=
  if b.totalLen.any fun t => last ≥ t then none
  else if !more then
    if b.totalLen.any fun t => t ≠ last + 1 then none
    else some { b with totalLen := some (last + 1) }
  else some b

/-- The hole update, the copy of the payload and, for the first fragment, of the header. -/
def absorb (b : ReassemblyBuffer) (hdr : Ipv4Header) (pkt payload : Bytes) : ReassemblyBuffer :=
  { b with
    holes := HoleList.fill hdr.fragOffset (hdr.lastByte payload) hdr.moreFragments b.holes
    data := Overlay.paste 0 b.data hdr.fragOffset payload
    header := if hdr.fragOffset = 0 then some (pkt.take hdr.ihl) else b.header }

/-- The completion test: the header and the payload of a datagram that is all there. -/
def finished (b : ReassemblyBuffer) : Option (Bytes × Bytes) :=
  match b.totalLen, b.header with
  | some t, some header =>
    if b.holes = [] ∧ t ≤ b.data.length then some (header, b.data.take t) else none
  | _, _ => none

end ReassemblyBuffer

/-- The reassembled packet: its length is rewritten, its flags and offset are cleared. -/
def rebuild (header payload : Bytes) : Bytes :=
  let out := header ++ payload
  let out := putUint16 out 2 out.length
  let out := putUint16 out 6 0
  setChecksum out header.length

/-- The header bytes a reassembled packet does not take from its first fragment. -/
def rewritten (i : Nat) : Bool := i = 2 || i = 3 || i = 6 || i = 7 || i = 10 || i = 11

theorem length_rebuild (header payload : Bytes) :
    (rebuild header payload).length = header.length + payload.length := by
  simp [rebuild]

theorem drop_rebuild {header : Bytes} (payload : Bytes) (h : minIPv4HeaderLen ≤ header.length) :
    (rebuild header payload).drop header.length = payload := by
  unfold minIPv4HeaderLen at h
  rw [rebuild, drop_setChecksum _ _ (by omega), drop_putUint16 _ _ (by omega),
    drop_putUint16 _ _ (by omega), List.drop_left]

theorem byteAt_rebuild {header : Bytes} (payload : Bytes) {i : Nat} (hi : i < header.length)
    (h : rewritten i = false) : byteAt (rebuild header payload) i = byteAt header i := by
  simp only [rewritten, Bool.or_eq_false_iff, decide_eq_false_iff_not] at h
  rw [rebuild, byteAt_setChecksum_ne _ _ (by omega) (by omega),
    byteAt_putUint16_ne _ _ (by omega) (by omega), byteAt_putUint16_ne _ _ (by omega) (by omega),
    byteAt_append_left hi]

namespace Reassembler

def resolveLimits (r : Reassembler) : ReassemblyLimits :=
  { maxBufs := if r.limits.maxBufs = 0 then maxReassemblyBuffersPerSession else r.limits.maxBufs
    maxBytes := if r.limits.maxBytes = 0 then maxReassemblyBytesPerSession else r.limits.maxBytes
    timeout := if r.limits.timeout = 0 then reassemblyTimeout else r.limits.timeout }

def dropLocked (r : Reassembler) (key : ReassemblyKey) (b : ReassemblyBuffer) : Reassembler :=
  { r with bytes := r.bytes - b.data.length, bufs := r.bufs.erase key }

/-- The loop at the head of `add` that drops what has waited too long. -/
def sweep (r : Reassembler) (now : Int) : Reassembler × Nat :=
  r.bufs.entries.foldl
    (fun (s : Reassembler × Nat) e =>
      if ¬ now < e.2.expires then (s.1.dropLocked e.1 e.2, s.2 + 1) else s) (r, 0)

/-- `r.bufs[key] = b`. -/
def put (r : Reassembler) (key : ReassemblyKey) (b : ReassemblyBuffer) : Reassembler :=
  { r with bufs := r.bufs.insert key b }

/-- The rest of `add`, with the fragment's buffer `b` at hand. -/
def addTo (r : Reassembler) (maxBytes expired : Nat) (hdr : Ipv4Header) (pkt : Bytes)
    (b : ReassemblyBuffer) : Reassembler × Added :=
  let payload := slice pkt hdr.payloadOff hdr.totalLen
  let last := hdr.lastByte payload
  match b.declareEnd hdr.moreFragments last with
  | none => (r.dropLocked hdr.key b, { outcome := .conflict, expired := expired })
  | some b =>
    let grow := last + 1 - b.data.length
    if r.bytes + grow > maxBytes then
      (r.put hdr.key b, { outcome := .boundExceeded, expired := expired })
    else
      let met := HoleList.intersects hdr.fragOffset last hdr.moreFragments b.holes
      let r := { r with bytes := r.bytes + grow }
      let b := b.absorb hdr pkt payload
      -- the bytes are copied either way, so a duplicate still overwrites
      if !met then (r.put hdr.key b, { outcome := .duplicate, expired := expired })
      else
        match b.finished with
        | none => (r.put hdr.key b, { outcome := .buffered, expired := expired })
        | some (header, payload) =>
          if header.length + payload.length > maxIPv4Datagram then
            (r.dropLocked hdr.key b, { outcome := .conflict, expired := expired })
          else
            (r.dropLocked hdr.key b,
              { datagram := some (rebuild header payload), outcome := .complete,
                expired := expired })

/-- `add`, for a header that `parseIPv4` accepted and that is a fragment's. -/
def add (r : Reassembler) (now : Int) (hdr : Ipv4Header) (pkt : Bytes) : Reassembler × Added :=
  if r.closed then (r, { outcome := .closed, expired := 0 })
  else
    let limits := r.resolveLimits
    let swept := r.sweep now
    match swept.1.bufs.lookup hdr.key with
    | some b => swept.1.addTo limits.maxBytes swept.2 hdr pkt b
    | none =>
      if swept.1.bufs.keys.length ≥ limits.maxBufs then
        (swept.1, { outcome := .boundExceeded, expired := swept.2 })
      else swept.1.addTo limits.maxBytes swept.2 hdr pkt { expires := now + limits.timeout }

def discardAll (r : Reassembler) : Reassembler := { r with closed := true, bufs := ∅, bytes := 0 }

end Reassembler

end GoVpn.Netstack
