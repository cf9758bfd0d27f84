import GoVpn.Lib.Utf8
import GoVpn.Control.Wire

/-!
# Cipher negotiation

The functions of `cipher.go`, and the part of `performKeyMethod2Exchange` that chooses the
session's cipher with them: the server's allow-list is resolved once from the configuration,
and against it stand the tokens the client offers in its peer-info and in its options string.
Neither is validated before a name of it is compared. Strings are their bytes, and comparison
is `strings.EqualFold`, of which `U` is the part of the folding tables beyond ASCII.
-/

namespace GoVpn.Ovpn

open GoVpn.Control (Bytes)
open Utf8 (ascii equalFold)

/-! ## Packages `strings` and `strconv` -/

def cutPrefix (s pre : Bytes) : Option Bytes :=
  if pre.isPrefixOf s then some (s.drop pre.length) else none

/-- The spellings of the runes that `unicode.IsSpace` holds of. -/
def spaces : List Bytes :=
  [[0x09], [0x0A], [0x0B], [0x0C], [0x0D], [0x20], [0xC2, 0x85], [0xC2, 0xA0], [0xE1, 0x9A, 0x80],
    [0xE2, 0x80, 0x80], [0xE2, 0x80, 0x81], [0xE2, 0x80, 0x82], [0xE2, 0x80, 0x83],
    [0xE2, 0x80, 0x84], [0xE2, 0x80, 0x85], [0xE2, 0x80, 0x86], [0xE2, 0x80, 0x87],
    [0xE2, 0x80, 0x88], [0xE2, 0x80, 0x89], [0xE2, 0x80, 0x8A], [0xE2, 0x80, 0xA8],
    [0xE2, 0x80, 0xA9], [0xE2, 0x80, 0xAF], [0xE2, 0x81, 0x9F], [0xE3, 0x80, 0x80]]

/-- A string without the leading ones of the given spellings, at most so many. -/
def trimLeft (sp : List Bytes) : Nat → Bytes → Bytes
  | 0, s => s
  | n + 1, s =>
    match sp.findSome? (cutPrefix s) with
    | some rest => trimLeft sp n rest
    | none => s

/-- `strings.TrimSpace`; from the right it is the same on the reversed strings. -/
def trimSpace (s : Bytes) : Bytes :=
  let s := trimLeft spaces s.length s
  (trimLeft (spaces.map List.reverse) s.length s.reverse).reverse

def isDigit (b : UInt8) : Bool := 0x30 ≤ b && b ≤ 0x39

/-- `strconv.Atoi`, on a platform of 64 bits: digits after at most one sign. -/
def atoi (s : Bytes) : Option Int :=
  let neg := s.head? == some 0x2D
  let digits := if neg || s.head? == some 0x2B then s.drop 1 else s
  if digits.isEmpty || !digits.all isDigit then none
  else
    let n : Nat := digits.foldl (fun n d => n * 10 + (d.toNat - 0x30)) 0
    if neg then if n ≤ 9223372036854775808 then some (-(n : Int)) else none
    else if n < 9223372036854775808 then some n else none

/-! ## The allow-list -/

def maxCipherNameLen : Nat := 63

def supportedDataCiphers : List Bytes := [ascii "AES-256-GCM", ascii "AES-128-GCM"]

/-- `isCipherNameByteSet`. -/
def isCipherNameByte (c : UInt8) : Bool :=
  (0x41 ≤ c && c ≤ 0x5A) || (0x61 ≤ c && c ≤ 0x7A) || (0x30 ≤ c && c ≤ 0x39) || c == 0x2D

def isCipherNameByteSet (name : Bytes) : Bool := name.all isCipherNameByte

/-- An error text with a quoted name in it. -/
structure NameError where
  before : String
  name : Bytes
  after : String
  deriving DecidableEq

/-- The reason a client is given when no cipher is shared. -/
def cipherNegotiationFailedReason : String :=
  "Data channel cipher negotiation failed (no shared cipher)"

/-- The `authFailure` of a refused negotiation, with what its error text lists. -/
structure NoSharedCipher where
  clientReason : String
  allowList : List Bytes
  client : List Bytes
  occ : Bytes
  deriving DecidableEq

/-- What the client sends in Key Method 2 that negotiation reads. -/
structure ClientOptions where
  options : Bytes
  peerInfo : Bytes
  deriving DecidableEq

section Names

variable (U : Nat → Nat)

def canonicalCipherName (name : Bytes) : Option Bytes :=
  if name.length = 0 ∨ maxCipherNameLen < name.length then none
  else if !isCipherNameByteSet name then none
  else supportedDataCiphers.find? fun candidate => equalFold U candidate name

/-- The loop of `resolveDataCiphers`; `out` is also what it has seen. -/
def resolveLoop : List Bytes → List Bytes → Except NameError (List Bytes)
  | [], out => .ok out
  | name :: rest, out =>
    match canonicalCipherName U name with
    | none => .error
        ⟨"ovpn: Config.DataCiphers entry ", name, " is not a supported data-channel cipher"⟩
    | some canonical =>
      if canonical ∈ out then
        .error ⟨"ovpn: Config.DataCiphers contains ", canonical, " more than once"⟩
      else resolveLoop rest (out ++ [canonical])

def resolveDataCiphers (dataCiphers : List Bytes) (cipher : Bytes) :
    Except NameError (List Bytes) :=
  if dataCiphers.length = 0 then
    if cipher = [] then .ok supportedDataCiphers
    else
      match canonicalCipherName U cipher with
      | none => .error ⟨"ovpn: Config.Cipher ", cipher, " is not a supported data-channel cipher"⟩
      | some canonical => .ok [canonical]
  else resolveLoop U dataCiphers []

/-! ## What the client offers -/

/-- `peerInfoValue`: the rest of the first line that starts with the key. -/
def peerInfoValue (peerInfo key : Bytes) : Option Bytes :=
  (peerInfo.splitOn 0x0A).findSome? fun line => cutPrefix line key

def ivCiphers : Bytes := ascii "IV_CIPHERS="
def ivNCP : Bytes := ascii "IV_NCP="

def peerNCPVersion (peerInfo : Bytes) : Int :=
  match peerInfoValue peerInfo ivNCP with
  | none => 0
  | some value => (atoi (trimSpace value)).getD 0

def peerSupportsNCP (peerInfo : Bytes) : Bool :=
  if 2 ≤ peerNCPVersion peerInfo then true else (peerInfoValue peerInfo ivCiphers).isSome

/-- `peerCipherList`; the nil slice is the empty list, as it is for what reads it. -/
def peerCipherList (peerInfo : Bytes) : List Bytes :=
  match peerInfoValue peerInfo ivCiphers with
  | some value => if value = [] then [] else value.splitOn 0x3A
  | none =>
    if 2 ≤ peerNCPVersion peerInfo then [ascii "AES-256-GCM", ascii "AES-128-GCM"] else []

/-- `parseOCCCipher`: the first token that names a cipher decides, whatever it holds. -/
def parseOCCCipher (options : Bytes) : Bytes :=
  match (options.splitOn 0x2C).findSome? fun token => cutPrefix token (ascii "cipher ") with
  | some value => if value = [] ∨ maxCipherNameLen < value.length then [] else value
  | none => []

/-! ## The choice -/

def containsFold (list : List Bytes) (s : Bytes) : Bool := list.any fun item => equalFold U item s

/-- `selectCipher`; the error is `errCipherNegotiationFailed`. -/
def selectCipher (allowList peerCiphers : List Bytes) (occCipher : Bytes) : Except String Bytes :=
  match allowList.find? fun candidate =>
      containsFold U peerCiphers candidate || equalFold U candidate occCipher with
  | some candidate => .ok candidate
  | none => .error "ovpn: no shared data-channel cipher"

/-- The OCC cipher as `performKeyMethod2Exchange` uses it: a client that sent `IV_CIPHERS=` at
all has none. -/
def occCipher (o : ClientOptions) : Bytes :=
  if (peerInfoValue o.peerInfo ivCiphers).isSome then [] else parseOCCCipher o.options

/-- The choice in `performKeyMethod2Exchange`. -/
def negotiate (dataCiphers : List Bytes) (o : ClientOptions) : Except NoSharedCipher Bytes :=
  match selectCipher U dataCiphers (peerCipherList o.peerInfo) (occCipher o) with
  | .ok selected => .ok selected
  | .error _ =>
    .error ⟨cipherNegotiationFailedReason, dataCiphers, peerCipherList o.peerInfo, occCipher o⟩

end Names

end GoVpn.Ovpn
