import GoVpn.Data.Prf

/-!
# The PRF of TLS 1.0

RFC 2246 defines the PRF by two streams without an end, each made of the sums of one HMAC over a
chain of its own. The loop of `pHash` writes such a stream block by block and cuts the last block
off where its buffer ends, so what it has written does not depend on where that is.
-/

namespace GoVpn.Proof

open GoVpn.Control (Bytes)
open Data

section Stream

variable {size : Nat} (mac : Hmac size) (secret seed : Bytes)

/-- `A(i)`. -/
def chainA : Nat → Bytes
  | 0 => seed
  | i + 1 => mac.sum secret (chainA i)

/-- Byte `i` of `HMAC(secret, A(1) + seed) + HMAC(secret, A(2) + seed) + ...`. -/
def pStream (i : Nat) : UInt8 :=
  (mac.sum secret (chainA mac secret seed (i / size + 1) ++ seed)).getD (i % size) 0

end Stream

def firstHalf (secret : Bytes) : Bytes := secret.take ((secret.length + 1) / 2)

def lastHalf (secret : Bytes) : Bytes := secret.drop (secret.length - (secret.length + 1) / 2)

/-- `PRF` is the PRF of TLS 1.0, for every length. -/
structure TlsPRF (md5 : Hmac 16) (sha1 : Hmac 20) : Prop where
  length : ∀ secret seed n, (prf md5 sha1 secret seed n).length = n
  bytes : ∀ secret seed n i, i < n → (prf md5 sha1 secret seed n)[i]? =
    some (pStream md5 (firstHalf secret) seed i ^^^ pStream sha1 (lastHalf secret) seed i)
  grows : ∀ secret seed m n, m ≤ n → prf md5 sha1 secret seed m <+: prf md5 sha1 secret seed n

/-! ## One stream -/

variable {size : Nat} [NeZero size] {mac : Hmac size} {secret seed : Bytes}

omit [NeZero size] in
theorem getElem?_block {j y : Nat} (hy : y < size) :
    (mac.sum secret (chainA mac secret seed (j + 1) ++ seed))[y]?
      = some (pStream mac secret seed (j * size + y)) := by
  have hdiv : (j * size + y) / size = j := by
    rw [Nat.mul_comm, Nat.mul_add_div (Nat.zero_lt_of_lt hy), Nat.div_eq_of_lt hy, Nat.add_zero]
  have hmod : (j * size + y) % size = y := by
    rw [Nat.mul_comm, Nat.mul_add_mod, Nat.mod_eq_of_lt hy]
  rw [pStream, hdiv, hmod, List.getD_eq_getElem?_getD]
  have hlen : y < (mac.sum secret (chainA mac secret seed (j + 1) ++ seed)).length := by
    rwa [mac.length_sum]
  rw [List.getElem?_eq_getElem hlen]
  rfl

theorem pHashLoop_stream {a out : Bytes} {pos : Nat} (j : Nat)
    (ha : a = chainA mac secret seed (j + 1)) (hpos : pos = min (j * size) out.length)
    (hout : ∀ x < pos, out[x]? = some (pStream mac secret seed x)) :
    (pHashLoop mac secret seed a pos out).length = out.length
      ∧ ∀ x < out.length, (pHashLoop mac secret seed a pos out)[x]? =
        some (pStream mac secret seed x) := by
  fun_induction pHashLoop mac secret seed a pos out generalizing j with
  | case1 a pos out hlt block n ih =>
    have hstart : pos = j * size := by omega
    have hblock : block.length = size := mac.length_sum _ _
    have hlen : (copyAt out pos block).length = out.length := length_copyAt (Nat.le_of_lt hlt) block
    have hn : (block.take (out.length - pos)).length = n := List.length_take
    rw [← hlen]
    refine ih (j + 1) (by rw [ha]; rfl) ?_ ?_
    · rw [hlen, Nat.succ_mul]
      omega
    · intro x hx
      refine Overlay.getElem?_paste_of_eq 0 hout (fun y hy => ?_) x (by rwa [hn])
      rw [List.getElem?_take_of_lt (by omega), hstart, ← getElem?_block (by omega), ← ha]
  | case2 a pos out hge =>
    exact ⟨rfl, fun x hx => hout x (by omega)⟩

theorem pHash_stream (out : Bytes) : (pHash mac secret seed out).length = out.length
    ∧ ∀ i < out.length, (pHash mac secret seed out)[i]? = some (pStream mac secret seed i) :=
  pHashLoop_stream 0 rfl (by rw [Nat.zero_mul, Nat.zero_min]) fun x hx =>
    absurd hx (Nat.not_lt_zero x)

/-! ## Both streams -/

variable (md5 : Hmac 16) (sha1 : Hmac 20)

theorem prf_eq (secret seed : Bytes) (n : Nat) : prf md5 sha1 secret seed n =
    List.zipWith (· ^^^ ·) (pHash md5 (firstHalf secret) seed (List.replicate n 0))
      (pHash sha1 (lastHalf secret) seed (List.replicate n 0)) := by
  have hhalf : (if secret.length % 2 ≠ 0 then secret.length / 2 + 1 else secret.length / 2)
      = (secret.length + 1) / 2 := by
    split <;> omega
  rw [prf, hhalf]
  rfl

theorem length_prf (secret seed : Bytes) (n : Nat) : (prf md5 sha1 secret seed n).length = n := by
  rw [prf_eq, List.length_zipWith, (pHash_stream _).1, (pHash_stream _).1, Nat.min_self,
    List.length_replicate]

theorem getElem?_prf (secret seed : Bytes) {n i : Nat} (hi : i < n) :
    (prf md5 sha1 secret seed n)[i]? =
      some (pStream md5 (firstHalf secret) seed i ^^^ pStream sha1 (lastHalf secret) seed i) := by
  have hi' : i < (List.replicate n (0 : UInt8)).length := by rwa [List.length_replicate]
  rw [prf_eq, List.getElem?_zipWith, (pHash_stream _).2 i hi', (pHash_stream _).2 i hi']

/-- **The PRF is that of TLS 1.0**, and a longer output goes on where a shorter one ends. -/
theorem prf_tls : TlsPRF md5 sha1 where
  length := length_prf md5 sha1
  bytes secret seed n i := getElem?_prf md5 sha1 secret seed
  grows secret seed m n hmn := by
    refine List.prefix_iff_getElem?.mpr fun i hi => ?_
    rw [length_prf] at hi
    rw [← List.getElem?_eq_getElem, getElem?_prf md5 sha1 secret seed hi,
      getElem?_prf md5 sha1 secret seed (Nat.lt_of_lt_of_le hi hmn)]

end GoVpn.Proof
