import GoVpn.Control.Wire
import GoVpn.Lib.Armor

/-!
# Static key files

`ParseStaticKeyV1` (`keyfile.go`): the 256 bytes of the key that tls-crypt is set up with, as hex
digits between a BEGIN and an END line. The body is read rune by rune.
-/

namespace GoVpn.Control

open Utf8 (ascii)

def staticKeyHead : Bytes := ascii "-----BEGIN OpenVPN Static key V1-----"
def staticKeyFoot : Bytes := ascii "-----END OpenVPN Static key V1-----"
def staticKeyBodyLen : Nat := 256

/-- `ErrBadEnvelope` and `ErrBadBodyLen`. -/
inductive KeyFileErr
  | badEnvelope | badBodyLen
  deriving DecidableEq

def isHexRune (r : Nat) : Bool :=
  (0x30 ≤ r && r ≤ 0x39) || (0x61 ≤ r && r ≤ 0x66) || (0x41 ≤ r && r ≤ 0x46)

def isBlankRune (r : Nat) : Bool := r == 0x0A || r == 0x0D || r == 0x20 || r == 0x09

/-- What the loop over the body has written to `hexDigits`; `none` is its error. -/
def hexDigits : List Nat → Option Bytes
  | [] => some []
  | r :: rs =>
    if isHexRune r then (hexDigits rs).map (UInt8.ofNat r :: ·)
    else if isBlankRune r then hexDigits rs
    else none

def parseStaticKeyV1 (data : Bytes) : Except KeyFileErr Bytes :=
  match Armor.index staticKeyHead data with
  | none => .error .badEnvelope
  | some headIdx =>
    let rest := data.drop (headIdx + staticKeyHead.length)
    match Armor.index staticKeyFoot rest with
    | none => .error .badEnvelope
    | some footIdx =>
      let body := rest.take footIdx
      match (hexDigits (Utf8.runes body)).bind Armor.decode with
      | none => .error .badEnvelope
      | some raw => if raw.length ≠ staticKeyBodyLen then .error .badBodyLen else .ok raw

end GoVpn.Control
