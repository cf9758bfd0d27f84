import GoVpn.Control.Wire
import GoVpn.Lib.Overlay
import Mathlib.Data.UInt

/-!
# Key derivation

`pHash` and `PRF` (`prf.go`). HMAC-MD5 and HMAC-SHA1 are parameters: all the code relies on is
how many bytes they return.
-/

namespace GoVpn.Data

open GoVpn.Control (Bytes)

/-- An HMAC, of a key and a message. -/
structure Hmac (size : Nat) where
  sum : Bytes → Bytes → Bytes
  length_sum : ∀ key msg, (sum key msg).length = size

/-- `copy(out[pos:], block)`. -/
def copyAt (out : Bytes) (pos : Nat) (block : Bytes) : Bytes :=
  Overlay.paste 0 out pos (block.take (out.length - pos))

theorem length_copyAt {out : Bytes} {pos : Nat} (h : pos ≤ out.length) (block : Bytes) :
    (copyAt out pos block).length = out.length := by
  rw [copyAt, Overlay.length_paste, List.length_take]
  omega

/-- The loop of `pHash`; a turn writes at least one byte. -/
def pHashLoop {size : Nat} [NeZero size] (mac : Hmac size) (secret seed a : Bytes) (pos : Nat)
    (out : Bytes) : Bytes :=
  if pos < out.length then
    let block := mac.sum secret (a ++ seed)
    let n := min (out.length - pos) block.length
    pHashLoop mac secret seed (mac.sum secret a) (pos + n) (copyAt out pos block)
  else out
termination_by out.length - pos
decreasing_by
  rw [length_copyAt (by omega), mac.length_sum]
  have hsize : 0 < size := Nat.pos_of_neZero size
  omega

def pHash {size : Nat} [NeZero size] (mac : Hmac size) (secret seed out : Bytes) : Bytes :=
  pHashLoop mac secret seed (mac.sum secret seed) 0 out

section PRF

variable (md5 : Hmac 16) (sha1 : Hmac 20)

def prf (secret seed : Bytes) (n : Nat) : Bytes :=
  let slen := secret.length
  let half := if slen % 2 ≠ 0 then slen / 2 + 1 else slen / 2
  let s1 := secret.take half
  let s2 := secret.drop (slen - half)
  let out1 := pHash md5 s1 seed (List.replicate n 0)
  let out2 := pHash sha1 s2 seed (List.replicate n 0)
  List.zipWith (· ^^^ ·) out1 out2

end PRF

end GoVpn.Data
