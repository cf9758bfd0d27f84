import GoVpn.Lib.BigEndian
import GoVpn.Ovpn.Server

/-!
# The configured network

`Config.Network` is a `*net.IPNet`: an address and a mask, as byte slices of 4 or of 16
bytes that need not agree with each other. `newIPPool` makes a pool of what it accepts
(`ippool.go`), and `Contains` of package `net` says which addresses are in the network.
The functions of package `net` that the two need are here as well.
-/

namespace GoVpn.Ovpn

open GoVpn.Control (Bytes)

def ipv4Len : Nat := 4
def ipv6Len : Nat := 16

structure IPNet where
  ip : Bytes
  mask : Bytes
  deriving DecidableEq

/-- `binary.BigEndian.Uint32`, of four bytes. -/
def uint32 (b : Bytes) : BitVec 32 := BitVec.ofNat 32 (BigEndian.get b)

def offsetToIP (v : BitVec 32) : Bytes := BigEndian.put ipv4Len v.toNat

/-! ## Package `net` -/

/-- `IP.To4`: four bytes, or the sixteen of an IPv4-mapped address. -/
def to4 (ip : Bytes) : Option Bytes :=
  if ip.length = ipv4Len then some ip
  else if ip.length = ipv6Len ∧ ip.take 12 = List.replicate 10 0 ++ [0xFF, 0xFF] then
    some (ip.drop 12)
  else none

/-- The inner loop of `simpleMaskLength`: the ones a byte starts with, and what is left of it. -/
def shiftOnes : Nat → UInt8 → Nat × UInt8
  | 0, v => (0, v)
  | k + 1, v =>
    if v &&& 0x80 ≠ 0 then
      let (n, v) := shiftOnes k (v <<< 1)
      (n + 1, v)
    else (0, v)

/-- `simpleMaskLength`; -1 is `none`. -/
def simpleMaskLength : Bytes → Option Nat
  | [] => some 0
  | v :: rest =>
    if v = 0xFF then (simpleMaskLength rest).map (· + 8)
    else
      let (n, v) := shiftOnes 8 v
      if v ≠ 0 then none else if rest.all (· == 0) then some n else none

/-- `IPMask.Size`: the number of ones and of bits. -/
def maskSize (mask : Bytes) : Nat × Nat :=
  match simpleMaskLength mask with
  | none => (0, 0)
  | some ones => (ones, mask.length * 8)

/-- `networkNumberAndMask`. -/
def IPNet.numberAndMask (n : IPNet) : Bytes × Bytes :=
  match to4 n.ip with
  | some ip =>
    if n.mask.length = ipv4Len then (ip, n.mask)
    else if n.mask.length = ipv6Len then (ip, n.mask.drop 12)
    else ([], [])
  | none =>
    if n.ip.length = ipv6Len ∧ n.mask.length = ipv6Len then (n.ip, n.mask) else ([], [])

def IPNet.contains (n : IPNet) (ip : Bytes) : Bool :=
  let (nn, m) := n.numberAndMask
  let ip := (to4 ip).getD ip
  if ip.length ≠ nn.length then false
  else List.zipWith (· &&& ·) nn m == List.zipWith (· &&& ·) ip m

/-! ## The pool of a network -/

def normalizeIPv4Mask (mask : Bytes) : Bytes := if mask.length = ipv6Len then mask.drop 12 else mask

def errNetworkUnset : String := "ovpn: Config.Network must be set"
def errNetworkNotIPv4 : String := "ovpn: Config.Network must be an IPv4 network"
def errNetworkTooSmall : String :=
  "ovpn: Config.Network is too small — at least a /30 is required "
    ++ "(network + server + one client + broadcast)"

def IPNet.newIPPool : Option IPNet → Except String IpPool
  | none => .error errNetworkUnset
  | some network =>
    match to4 network.ip with
    | none => .error errNetworkNotIPv4
    | some ip4 =>
      let mask := normalizeIPv4Mask network.mask
      if mask.length ≠ ipv4Len then .error errNetworkNotIPv4
      else if (maskSize mask).2 ≠ 32 then .error errNetworkNotIPv4
      else
        match Ovpn.newIPPool (uint32 ip4) (maskSize mask).1 with
        | none => .error errNetworkTooSmall
        | some p => .ok p

namespace IpPool

def serverIP (p : IpPool) : IPv4 := p.base + 1

/-- `reserve` of an address as the hook returns it. -/
def reserveIP (p : IpPool) (ip : Bytes) : ReserveErr ⊕ (PeerID × IpPool) :=
  p.reserve ((to4 ip).map uint32)

/-- `release` of an address as a session keeps it; one that is not IPv4 frees no offset. -/
def releaseIP (p : IpPool) (ip : Bytes) (peerID : PeerID) : IpPool :=
  match to4 ip with
  | some ip4 => p.release { ip := uint32 ip4, peerID := peerID }
  | none => { p with usedPeerIDs := p.usedPeerIDs.filter fun id => decide (id ≠ peerID) }

end IpPool

end GoVpn.Ovpn
