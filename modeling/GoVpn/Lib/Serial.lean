import Mathlib.Algebra.Group.Nat.Defs

/-!
# Serial-number arithmetic

Positions in an unbounded stream are carried on the wire modulo `2 ^ w`. A
comparison of two such numbers is a statement about the sign of their difference,
and it is right as long as the two positions are less than half the space apart.

The lemmas here move between the three readings of one wrapped number: the
bit-vector itself, its distance from a base as a natural number, and its signed
difference.
-/

namespace Serial

variable {w : Nat}

theorem toInt_pos_iff (x : BitVec w) : 0 < x.toInt ↔ 0 < x.toNat ∧ 2 * x.toNat < 2 ^ w := by
  rw [BitVec.toInt_eq_toNat_cond]
  split <;> omega

variable {m n : Nat}

theorem toNat_add_ofNat_sub (b : BitVec w) (h : n < 2 ^ w) :
    (b + BitVec.ofNat w n - b).toNat = n := by
  rw [BitVec.add_comm, BitVec.add_sub_cancel, BitVec.toNat_ofNat, Nat.mod_eq_of_lt h]

theorem base_add_distance (a b : BitVec w) : b + BitVec.ofNat w (a - b).toNat = a := by
  rw [BitVec.ofNat_toNat, BitVec.setWidth_eq]
  exact (BitVec.add_comm _ _).trans (BitVec.sub_add_cancel a b)

theorem add_ofNat_inj (b : BitVec w) :
    b + BitVec.ofNat w m = b + BitVec.ofNat w n ↔ m % 2 ^ w = n % 2 ^ w := by
  constructor
  · intro h
    have h' := congrArg (fun x => (x - b).toNat) h
    simpa [BitVec.add_comm b, BitVec.add_sub_cancel] using h'
  · intro h
    congr 1
    apply BitVec.eq_of_toNat_eq
    rw [BitVec.toNat_ofNat, BitVec.toNat_ofNat, h]

theorem add_ofNat_add (b : BitVec w) (m n : Nat) :
    b + BitVec.ofNat w m + BitVec.ofNat w n = b + BitVec.ofNat w (m + n) := by
  rw [BitVec.add_assoc, BitVec.ofNat_add]

theorem add_ofNat_sub_add_ofNat (b : BitVec w) (h : n ≤ m) :
    b + BitVec.ofNat w m - (b + BitVec.ofNat w n) = BitVec.ofNat w (m - n) := by
  have hm : m = n + (m - n) := by omega
  rw [hm, ← add_ofNat_add, BitVec.add_comm (b + BitVec.ofNat w n), BitVec.add_sub_cancel]
  congr 1
  omega

theorem eq_of_ofNat_eq (h : BitVec.ofNat w m = BitVec.ofNat w n) (hm : m < n + 2 ^ w)
    (hn : n < m + 2 ^ w) : m = n := by
  have h' : m % 2 ^ w = n % 2 ^ w := by simpa using congrArg BitVec.toNat h
  have hdvd : ∀ {a b : Nat}, a ≤ b → b < a + 2 ^ w → a % 2 ^ w = b % 2 ^ w → a = b := by
    intro a b hab hlt he
    have h0 : (b - a) % 2 ^ w = 0 := Nat.sub_mod_eq_zero_of_mod_eq he.symm
    rw [Nat.mod_eq_of_lt (by omega)] at h0
    omega
  rcases Nat.le_total m n with hle | hle
  · exact hdvd hle hn h'
  · exact (hdvd hle hm h'.symm).symm

theorem toNat_ofNat_sub_ofNat (h : n ≤ m) (hlt : m - n < 2 ^ w) :
    (BitVec.ofNat w m - BitVec.ofNat w n).toNat = m - n := by
  have := add_ofNat_sub_add_ofNat (0#w) h
  simp only [BitVec.zero_add] at this
  rw [this, BitVec.toNat_ofNat, Nat.mod_eq_of_lt hlt]

end Serial
