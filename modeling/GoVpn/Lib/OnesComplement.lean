import Mathlib.Algebra.GroupWithZero.Nat

/-!
# One's-complement sums

The sum of a string of bytes, taken as 16-bit words, where a carry out of the top bit is added
in again at the bottom. The complement of the sum over everything but the checksum makes the
sum over all of it `0xFFFF`.

This is addition modulo 65535, except that zero has two representations, `0` and `0xFFFF`, and
only sums of zeros are `0`. `residue` says which one a plain sum ends up as. Adding up in a
wider integer and folding the carries in afterwards gives the same, if that does not overflow.
-/

namespace OnesComplement

/-- The words of a string; an odd last byte is a high byte. -/
def words : List UInt8 → List Nat
  | a :: b :: rest => (a.toNat * 256 + b.toNat) :: words rest
  | [a] => [a.toNat * 256]
  | [] => []

/-- Addition with an end-around carry. -/
def add (x y : Nat) : Nat := if x + y < 65536 then x + y else x + y - 65535

/-- The one's-complement sum of a string. -/
def sum (b : List UInt8) : Nat := (words b).foldl add 0

/-- The plain sum of a string's words. -/
def total (b : List UInt8) : Nat := (words b).sum

/-- The number from 1 to 65535 that is the same modulo 65535, or zero for zero. -/
def residue (n : Nat) : Nat := if n = 0 then 0 else (n - 1) % 65535 + 1

/-! ## Residues -/

theorem residue_of_le {n : Nat} (h : n ≤ 65535) : residue n = n := by
  unfold residue
  split <;> omega

theorem residue_of_pos {n : Nat} (h : 0 < n) : residue n = (n - 1) % 65535 + 1 := if_neg (by omega)

theorem residue_eq_full_iff (n : Nat) : residue n = 65535 ↔ 0 < n ∧ n % 65535 = 0 := by
  unfold residue
  split <;> omega

theorem residue_carry (n : Nat) : residue (n % 65536 + n / 65536) = residue n := by
  unfold residue
  split <;> split <;> omega

theorem add_residue (m : Nat) {w : Nat} (h : w ≤ 65535) : add (residue m) w = residue (m + w) := by
  by_cases hm : m = 0
  · subst hm
    rw [Nat.zero_add, residue_of_le h, show residue 0 = 0 from rfl, add, if_pos (by omega),
      Nat.zero_add]
  · rw [residue_of_pos (by omega), residue_of_pos (by omega), add]
    split <;> omega

theorem residue_complement (n : Nat) : residue (n + (65535 - residue n)) = 65535 := by
  rw [residue_eq_full_iff]
  unfold residue
  split <;> omega

theorem residue_add_eq_full_iff {n w : Nat} (hn : 0 < n) (hw : 0 < w) (hw' : w ≤ 65535) :
    residue (n + w) = 65535 ↔ (if 65535 - residue n = 0 then 65535 else 65535 - residue n) = w := by
  rw [residue_eq_full_iff, residue_of_pos hn]
  split <;> omega

/-! ## Sums of words -/

theorem words_le (b : List UInt8) : ∀ w ∈ words b, w ≤ 65535 := by
  fun_induction words b with
  | case1 a b rest ih =>
    intro w hw
    have ha := a.toNat_lt
    have hb := b.toNat_lt
    rcases List.mem_cons.mp hw with rfl | hw
    · omega
    · exact ih w hw
  | case2 a =>
    intro w hw
    have ha := a.toNat_lt
    rw [List.mem_singleton.mp hw]
    omega
  | case3 => intro w hw; cases hw

theorem foldl_add (ws : List Nat) (h : ∀ w ∈ ws, w ≤ 65535) (m : Nat) :
    ws.foldl add (residue m) = residue (m + ws.sum) := by
  induction ws generalizing m with
  | nil => rfl
  | cons w ws ih =>
    rw [List.foldl_cons, add_residue m (h w List.mem_cons_self),
      ih (fun x hx => h x (List.mem_cons_of_mem _ hx)), List.sum_cons, Nat.add_assoc]

theorem sum_eq (b : List UInt8) : sum b = residue (total b) := by
  have h := foldl_add (words b) (words_le b) 0
  rw [Nat.zero_add] at h
  exact h

theorem words_append {a : List UInt8} (h : a.length % 2 = 0) (b : List UInt8) :
    words (a ++ b) = words a ++ words b := by
  fun_induction words a with
  | case1 x y rest ih =>
    rw [List.cons_append, List.cons_append, words, ih (by simp at h; omega), List.cons_append]
  | case2 x => simp at h
  | case3 => rfl

theorem total_append {a : List UInt8} (h : a.length % 2 = 0) (b : List UInt8) :
    total (a ++ b) = total a + total b := by
  rw [total, words_append h, List.sum_append]
  rfl

theorem total_le (b : List UInt8) : 2 * total b ≤ 65535 * (b.length + 1) := by
  unfold total
  fun_induction words b with
  | case1 x y rest ih =>
    have hx := x.toNat_lt
    have hy := y.toNat_lt
    simp only [List.sum_cons, List.length_cons] at ih ⊢
    omega
  | case2 x =>
    have hx := x.toNat_lt
    simp only [List.sum_cons, List.sum_nil, List.length_cons, List.length_nil]
    omega
  | case3 => simp

theorem total_set {b : List UInt8} {i : Nat} (hi : i % 2 = 0) (h : i + 1 < b.length) (p q : UInt8) :
    total ((b.set i p).set (i + 1) q)
      = total ((b.set i 0).set (i + 1) 0) + (p.toNat * 256 + q.toNat) := by
  induction i using Nat.strongRecOn generalizing b with
  | ind i ih =>
    match b with
    | [] | [x] => simp at h
    | x :: y :: rest =>
      rcases i with _ | _ | j
      · simp only [List.set_cons_zero, List.set_cons_succ, total, words, List.sum_cons]
        simp only [UInt8.toNat_zero]
        omega
      · simp at hi
      · have hrec := ih j (by omega) (b := rest) (by omega) (by simp at h; omega)
        simp only [List.set_cons_succ, total, words, List.sum_cons] at hrec ⊢
        omega

end OnesComplement
