import Mathlib.Algebra.Group.Nat.Defs
import Mathlib.Data.List.Induction

/-!
# Big-endian numbers

A number as a fixed count of bytes, most significant first, and back. A number
too large for its field loses its high part, as a conversion to a narrower
integer type does.
-/

namespace BigEndian

/-- The low `n` bytes of `x`, most significant first. -/
def put : Nat → Nat → List UInt8
  | 0, _ => []
  | n + 1, x => put n (x / 256) ++ [UInt8.ofNat x]

/-- The number a byte string spells. -/
def get (bs : List UInt8) : Nat := bs.foldl (fun acc b => acc * 256 + b.toNat) 0

@[simp] theorem length_put (n x : Nat) : (put n x).length = n := by
  induction n generalizing x with
  | zero => rfl
  | succ n ih => simp [put, ih]

theorem get_append_singleton (bs : List UInt8) (b : UInt8) :
    get (bs ++ [b]) = get bs * 256 + b.toNat := by
  unfold get; rw [List.foldl_append]; rfl

theorem get_cons (b : UInt8) (bs : List UInt8) :
    get (b :: bs) = b.toNat * 256 ^ bs.length + get bs := by
  induction bs using List.reverseRecOn with
  | nil => simp [get]
  | append_singleton bs c ih =>
    rw [← List.cons_append, get_append_singleton, get_append_singleton, ih, List.length_append,
      List.length_singleton, Nat.pow_succ, Nat.add_mul, Nat.mul_assoc, Nat.add_assoc]

theorem get_zeros {bs : List UInt8} (h : bs.all (· == 0) = true) : get bs = 0 := by
  induction bs with
  | nil => rfl
  | cons b bs ih =>
    simp only [List.all_cons, Bool.and_eq_true, beq_iff_eq] at h
    rw [get_cons, h.1, ih h.2]
    simp

theorem get_put (n x : Nat) : get (put n x) = x % 256 ^ n := by
  induction n generalizing x with
  | zero => rw [Nat.pow_zero, Nat.mod_one]; rfl
  | succ n ih =>
    have hpow : 256 ^ (n + 1) = 256 * 256 ^ n := by rw [Nat.pow_succ, Nat.mul_comm]
    rw [put, get_append_singleton, ih, UInt8.toNat_ofNat', hpow, Nat.mod_mul]
    omega

theorem get_take_put (n x : Nat) (rest : List UInt8) :
    get ((put n x ++ rest).take n) = x % 256 ^ n := by
  rw [List.take_left' (length_put n x), get_put]

theorem get_lt (bs : List UInt8) : get bs < 256 ^ bs.length := by
  induction bs using List.reverseRecOn with
  | nil => exact Nat.one_pos
  | append_singleton bs b ih =>
    have hb : b.toNat < 256 := b.toNat_lt
    rw [get_append_singleton, List.length_append, List.length_singleton, Nat.pow_succ]
    omega

theorem put_get (bs : List UInt8) : put bs.length (get bs) = bs := by
  induction bs using List.reverseRecOn with
  | nil => rfl
  | append_singleton bs b ih =>
    have hb : b.toNat < 256 := b.toNat_lt
    have hdiv : (get bs * 256 + b.toNat) / 256 = get bs := by omega
    have hlow : UInt8.ofNat (get bs * 256 + b.toNat) = b := by
      refine UInt8.toNat_inj.mp ?_
      rw [UInt8.toNat_ofNat']
      omega
    rw [get_append_singleton, List.length_append, List.length_singleton, put, hdiv, ih, hlow]

theorem get_inj {xs ys : List UInt8} (hlen : xs.length = ys.length) (h : get xs = get ys) :
    xs = ys := by
  rw [← put_get xs, ← put_get ys, hlen, h]

theorem and_digits {a b c d : Nat} (hb : b < 256) (hd : d < 256) :
    (a * 256 + b) &&& (c * 256 + d) = (a &&& c) * 256 + (b &&& d) := by
  have hand : b &&& d < 2 ^ 8 := Nat.lt_of_le_of_lt Nat.and_le_left hb
  refine Nat.eq_of_testBit_eq fun i => ?_
  rw [Nat.testBit_and, Nat.mul_comm a, Nat.mul_comm c, Nat.mul_comm (a &&& c)]
  have hshift : ∀ x {y : Nat}, y < 2 ^ 8 →
      (256 * x + y).testBit i = if i < 8 then y.testBit i else x.testBit (i - 8) :=
    fun x _ hy => Nat.testBit_two_pow_mul_add x hy i
  rw [hshift a hb, hshift c hd, hshift _ hand]
  split
  · rw [Nat.testBit_and]
  · rw [Nat.testBit_and]

theorem get_zipWith_and {xs ys : List UInt8} (hlen : xs.length = ys.length) :
    get (List.zipWith (· &&& ·) xs ys) = get xs &&& get ys := by
  induction xs using List.reverseRecOn generalizing ys with
  | nil => simp [get]
  | append_singleton xs x ih =>
    rcases List.eq_nil_or_concat ys with rfl | ⟨ys, y, rfl⟩
    · simp at hlen
    · rw [List.concat_eq_append] at hlen ⊢
      have hlen' : xs.length = ys.length := by simpa using hlen
      rw [List.zipWith_append hlen', List.zipWith_cons_cons, List.zipWith_nil_left,
        get_append_singleton, get_append_singleton, get_append_singleton, ih hlen', UInt8.toNat_and,
        and_digits x.toNat_lt y.toNat_lt]

end BigEndian
