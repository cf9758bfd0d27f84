import GoVpn.Lib.Utf8
import Mathlib.Data.List.Infix

/-!
# Armored text

Binary data as text: hex digits between two marks, with anything before the first and after the
second. Here are the search for a mark and the digits. A text spells some data if it is the digits
of that data but for their case, and decoding returns the data that a text spells.
-/

namespace Armor

open Utf8 (lower toNat_lower Caseless)

/-! ## The first occurrence -/

section Search

variable {α : Type} {sub text : List α} {i : Nat}

/-- Go's `strings.Index`. -/
def index [DecidableEq α] (sub text : List α) : Option Nat := text.tails.findIdx? sub.isPrefixOf

/-- `sub` occurs in `text` at `i`, and not before. -/
def FirstAt (sub text : List α) (i : Nat) : Prop :=
  sub <+: text.drop i ∧ ∀ j < i, ¬ sub <+: text.drop j

theorem index_eq_some_iff [DecidableEq α] : index sub text = some i ↔
    ∃ pre suf, text = pre ++ sub ++ suf ∧ pre.length = i ∧ FirstAt sub text i := by
  have hfirst : index sub text = some i ↔ i ≤ text.length ∧ FirstAt sub text i := by
    rw [index, List.findIdx?_eq_some_iff_getElem]
    simp only [List.length_tails, List.getElem_tails, List.isPrefixOf_iff_prefix, Nat.lt_succ_iff,
      exists_prop]
    rfl
  rw [hfirst]
  constructor
  · rintro ⟨hi, ⟨suf, hsuf⟩, hj⟩
    refine ⟨text.take i, suf, ?_, List.length_take_of_le hi, ⟨suf, hsuf⟩, hj⟩
    rw [List.append_assoc, hsuf, List.take_append_drop]
  · rintro ⟨pre, suf, rfl, rfl, h⟩
    exact ⟨by simp, h⟩

theorem firstAt_append {a : α} {body suf : List α} (ha : a ∉ body) :
    FirstAt (a :: sub) (body ++ a :: sub ++ suf) body.length := by
  rw [List.append_assoc]
  refine ⟨by simp, fun j hj hpre => ha ?_⟩
  rw [List.drop_append_of_le_length (Nat.le_of_lt hj), List.drop_eq_getElem_cons hj] at hpre
  rw [(List.cons_prefix_cons.mp hpre).1]
  exact List.getElem_mem hj

end Search

/-! ## Hex digits -/

def digit (n : Nat) : UInt8 := UInt8.ofNat (if n < 10 then 0x30 + n else 0x57 + n)

/-- The digits of some data, in lower case. -/
def encode (bs : List UInt8) : List UInt8 :=
  bs.flatMap fun b => [digit (b.toNat / 16), digit (b.toNat % 16)]

theorem length_encode (bs : List UInt8) : (encode bs).length = 2 * bs.length := by
  simp [encode, List.length_flatMap, Nat.mul_comm]

/-- The value of a digit in either case. -/
def value (c : UInt8) : Option UInt8 :=
  if 0x30 ≤ c ∧ c ≤ 0x39 then some (c - 0x30)
  else if 0x61 ≤ c ∧ c ≤ 0x66 then some (c - 0x57)
  else if 0x41 ≤ c ∧ c ≤ 0x46 then some (c - 0x37)
  else none

/-- Go's `hex.DecodeString`; `none` is an error. -/
def decode : List UInt8 → Option (List UInt8)
  | [] => some []
  | [_] => none
  | p :: q :: src =>
    match value p, value q with
    | some a, some b => (decode src).map ((a <<< 4 ||| b) :: ·)
    | _, _ => none

theorem value_iff {c a : UInt8} : value c = some a ↔ a.toNat < 16 ∧ lower c = digit a.toNat := by
  rw [← UInt8.toNat_inj, toNat_lower, digit, UInt8.toNat_ofNat']
  simp only [value, UInt8.le_iff_toNat_le, UInt8.reduceToNat]
  repeat' split
  all_goals
    simp only [Option.some.injEq, reduceCtorEq, false_iff, ← UInt8.toNat_inj, UInt8.toNat_sub,
      UInt8.reduceToNat]
    omega

theorem byte_eq_iff {a b x : UInt8} (ha : a.toNat < 16) (hb : b.toNat < 16) :
    a <<< 4 ||| b = x ↔ a = x / 16 ∧ b = x % 16 := by
  have hshift : (a <<< 4).toNat = a.toNat <<< 4 := by
    rw [UInt8.toNat_shiftLeft]
    exact Nat.mod_eq_of_lt
      (by rw [show (4 : UInt8).toNat % 8 = 4 from rfl, Nat.shiftLeft_eq]; omega)
  rw [← UInt8.toNat_inj, ← UInt8.toNat_inj, ← UInt8.toNat_inj, UInt8.toNat_or, hshift,
    ← Nat.shiftLeft_add_eq_or_of_lt hb, Nat.shiftLeft_eq, UInt8.toNat_div, UInt8.toNat_mod]
  simp only [UInt8.reduceToNat]
  omega

theorem lower_digit {n : Nat} (h : n < 16) : lower (digit n) = digit n := by
  rw [← UInt8.toNat_inj, toNat_lower, digit, UInt8.toNat_ofNat']
  split <;> split <;> omega

theorem caseless_encode_cons {p q x : UInt8} {src bs : List UInt8} :
    Caseless (p :: q :: src) (encode (x :: bs)) ↔
      value p = some (x / 16) ∧ value q = some (x % 16) ∧ Caseless src (encode bs) := by
  have hx : x.toNat < 256 := x.toNat_lt
  have hhigh : x.toNat / 16 < 16 := by omega
  have hlow : x.toNat % 16 < 16 := by omega
  rw [value_iff, value_iff, UInt8.toNat_div, UInt8.toNat_mod]
  simp only [Caseless, encode, List.flatMap_cons, List.cons_append, List.nil_append, List.map_cons,
    List.cons.injEq, lower_digit hhigh, lower_digit hlow, UInt8.reduceToNat, hhigh, hlow, true_and]

theorem decode_eq_some_iff {ds bs : List UInt8} :
    decode ds = some bs ↔ Caseless ds (encode bs) := by
  fun_induction decode ds generalizing bs with
  | case1 => cases bs <;> simp [Caseless, encode]
  | case2 c => cases bs <;> simp [Caseless, encode]
  | case3 p q src a b hq hp ih =>
    cases bs with
    | nil => simp [Caseless, encode]
    | cons x bs =>
      have ha := (value_iff.mp hp).1
      have hb := (value_iff.mp hq).1
      rw [caseless_encode_cons, hp, hq, ← ih]
      simp only [Option.map_eq_some_iff, List.cons.injEq, byte_eq_iff ha hb, Option.some.injEq]
      constructor
      · rintro ⟨bs', hsrc, ⟨hxa, hxb⟩, rfl⟩
        exact ⟨hxa, hxb, hsrc⟩
      · rintro ⟨hxa, hxb, hsrc⟩
        exact ⟨bs, hsrc, ⟨hxa, hxb⟩, rfl⟩
  | case4 p q src h =>
    refine ⟨fun hnone => (by cases hnone), fun hs => ?_⟩
    cases bs with
    | nil => cases hs
    | cons x bs =>
      obtain ⟨hp, hq, -⟩ := caseless_encode_cons.mp hs
      exact (h _ _ hp hq).elim

theorem value_ne_none {ds bs : List UInt8} (h : Caseless ds (encode bs)) :
    ∀ c ∈ ds, value c ≠ none := by
  have hd := decode_eq_some_iff.mpr h
  clear h
  fun_induction decode ds generalizing bs with
  | case1 => simp
  | case2 c => cases hd
  | case3 p q src a b hq hp ih =>
    obtain ⟨bs', hsrc, -⟩ := Option.map_eq_some_iff.mp hd
    simpa [hp, hq] using ih hsrc
  | case4 p q src h => cases hd

end Armor
