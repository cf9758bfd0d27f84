import Mathlib.Algebra.GroupWithZero.Nat
import Mathlib.Data.List.AList

/-!
# Tallies

The sum of a weight over a list. A list that changes in one place changes its
tally by the difference of two weights, which is what arguments that count tokens
across a table of processes need. Who stands where after such a change is said first.
-/

/-- The sum of the weights of the elements of `l`. -/
def tally {α : Type} (wt : α → Nat) (l : List α) : Nat := (l.map wt).sum

namespace Tally

variable {α : Type} {wt wt' : α → Nat}

variable {l : List α}

theorem getElem?_set_cases {id i : Nat} {a x : α} (h : (l.set id a)[i]? = some x) :
    i = id ∧ x = a ∨ i ≠ id ∧ l[i]? = some x := by
  by_cases hi : i = id
  · subst hi
    have hlt : i < l.length := by
      have := (List.getElem?_eq_some_iff.mp h).1
      rwa [List.length_set] at this
    rw [List.getElem?_set_self hlt] at h
    exact .inl ⟨rfl, (Option.some.inj h).symm⟩
  · rw [List.getElem?_set_ne (Ne.symm hi)] at h
    exact .inr ⟨hi, h⟩

theorem getElem?_concat_cases {i : Nat} {a x : α} (h : (l ++ [a])[i]? = some x) :
    i = l.length ∧ x = a ∨ l[i]? = some x := by
  by_cases hi : i < l.length
  · rw [List.getElem?_append_left hi] at h
    exact .inr h
  · rw [List.getElem?_append_right (by omega)] at h
    have hlt := (List.getElem?_eq_some_iff.mp h).1
    rw [List.length_singleton] at hlt
    obtain rfl : i = l.length := by omega
    rw [Nat.sub_self] at h
    exact .inl ⟨rfl, (Option.some.inj h).symm⟩

@[simp] theorem tally_nil : tally wt [] = 0 := rfl

@[simp] theorem tally_cons (x : α) (l : List α) : tally wt (x :: l) = wt x + tally wt l := by
  unfold tally; simp

@[simp] theorem tally_append (l l' : List α) : tally wt (l ++ l') = tally wt l + tally wt l' := by
  unfold tally; simp

theorem tally_perm (wt : α → Nat) {l' : List α} (h : l.Perm l') : tally wt l = tally wt l' :=
  (h.map wt).sum_nat

theorem tally_indicator (p : α → Bool) (l : List α) :
    tally (fun x => if p x then 1 else 0) l = l.countP p := by
  induction l with
  | nil => rfl
  | cons x l ih => rw [tally_cons, ih, List.countP_cons, Nat.add_comm]

theorem tally_set (wt : α → Nat) {i : Nat} {x y : α} (h : l[i]? = some x) :
    tally wt (l.set i y) + wt x = tally wt l + wt y := by
  induction l generalizing i with
  | nil => simp at h
  | cons z l ih =>
    cases i with
    | zero =>
      obtain rfl : z = x := by simpa using h
      rw [List.set_cons_zero, tally_cons, tally_cons]; omega
    | succ i =>
      have := ih (i := i) (by simpa using h)
      rw [List.set_cons_succ, tally_cons, tally_cons]; omega

theorem tally_modify (wt : α → Nat) {f : α → α} {i : Nat} {x : α} (h : l[i]? = some x) :
    tally wt (l.modify i f) + wt x = tally wt l + wt (f x) := by
  have : Inhabited α := ⟨x⟩
  rw [List.modify_eq_set, h]
  exact tally_set wt h

theorem tally_mono (h : ∀ x ∈ l, wt x ≤ wt' x) : tally wt l ≤ tally wt' l := by
  induction l with
  | nil => exact Nat.le_refl _
  | cons x l ih =>
    have := h x (by simp)
    have := ih fun y hy => h y (by simp [hy])
    rw [tally_cons, tally_cons]; omega

theorem tally_filter_le (wt : α → Nat) (p : α → Bool) (l : List α) :
    tally wt (l.filter p) ≤ tally wt l := by
  induction l with
  | nil => exact Nat.le_refl _
  | cons x l ih =>
    rw [List.filter_cons, tally_cons]
    split
    · rw [tally_cons]
      omega
    · omega

theorem tally_drop (wt wt' : α → Nat) (h : ∀ y ∈ l, wt y ≤ wt' y) {x : α} (hx : x ∈ l)
    (hx0 : wt x = 0) : tally wt l + wt' x ≤ tally wt' l := by
  induction l with
  | nil => simp at hx
  | cons y l ih =>
    have hy := h y (by simp)
    have hl : ∀ z ∈ l, wt z ≤ wt' z := fun z hz => h z (by simp [hz])
    rw [tally_cons, tally_cons]
    rcases List.mem_cons.mp hx with rfl | hm
    · have := tally_mono hl; omega
    · have := ih hl hm; omega

theorem tally_pos : 0 < tally wt l ↔ ∃ x ∈ l, 0 < wt x := by
  induction l with
  | nil => simp
  | cons y l ih =>
    rw [tally_cons]
    constructor
    · intro h
      by_cases hy : 0 < wt y
      · exact ⟨y, by simp, hy⟩
      · obtain ⟨x, hx, hw⟩ := ih.mp (by omega)
        exact ⟨x, by simp [hx], hw⟩
    · rintro ⟨x, hx, hw⟩
      rcases List.mem_cons.mp hx with rfl | hm
      · omega
      · have := ih.mpr ⟨x, hm, hw⟩; omega

theorem tally_eq_zero (h : ∀ x ∈ l, wt x = 0) : tally wt l = 0 := by
  apply Nat.eq_zero_of_not_pos
  intro hp
  obtain ⟨x, hx, hw⟩ := tally_pos.mp hp
  have := h x hx
  omega

/-! ## Tables -/

variable {κ : Type} [DecidableEq κ] {β : κ → Type}

/-- What the entry under `k` weighs, if there is one. -/
def weightAt (wt : Sigma β → Nat) (m : AList β) (k : κ) : Nat :=
  (m.lookup k).elim 0 fun b => wt ⟨k, b⟩

theorem tally_kerase (wt : Sigma β → Nat) {l : List (Sigma β)} {k : κ} {b : β k}
    (h : l.dlookup k = some b) : tally wt (l.kerase k) + wt ⟨k, b⟩ = tally wt l := by
  induction l with
  | nil => cases h
  | cons s l ih =>
    by_cases hk : k = s.1
    · obtain ⟨k', b'⟩ := s
      obtain rfl : k = k' := hk
      rw [List.dlookup_cons_eq] at h
      obtain rfl := Option.some.inj h
      rw [List.kerase_cons_eq (s := ⟨k, b'⟩) rfl, tally_cons, Nat.add_comm]
    · rw [List.dlookup_cons_ne l s hk] at h
      rw [List.kerase_cons_ne hk, tally_cons, tally_cons, Nat.add_assoc, ih h]

theorem tally_erase (wt : Sigma β → Nat) (m : AList β) (k : κ) :
    tally wt (m.erase k).entries + weightAt wt m k = tally wt m.entries := by
  unfold weightAt
  cases h : m.lookup k with
  | some b => exact tally_kerase wt h
  | none =>
    show tally wt (m.entries.kerase k) + 0 = _
    rw [List.kerase_of_notMem_keys (AList.lookup_eq_none.mp h), Nat.add_zero]

theorem tally_insert (wt : Sigma β → Nat) (m : AList β) (k : κ) (b : β k) :
    tally wt (m.insert k b).entries + weightAt wt m k = tally wt m.entries + wt ⟨k, b⟩ := by
  have herase := tally_erase wt m k
  have hinsert : tally wt (m.insert k b).entries = wt ⟨k, b⟩ + tally wt (m.erase k).entries := by
    rw [AList.entries_insert, tally_cons]
    rfl
  omega

theorem length_keys_erase_le (m : AList β) (k : κ) : (m.erase k).keys.length ≤ m.keys.length := by
  rw [AList.keys_erase]
  exact List.length_erase_le

theorem length_keys_insert (m : AList β) (k : κ) (b : β k) :
    (m.insert k b).keys.length = m.keys.length + if (m.lookup k).isSome then 0 else 1 := by
  rw [AList.keys_insert, List.length_cons]
  by_cases h : k ∈ m
  · have hpos := List.length_pos_of_mem h
    rw [if_pos (AList.lookup_isSome.mpr h), List.length_erase_of_mem h]
    omega
  · rw [if_neg (fun hs => h (AList.lookup_isSome.mp hs)), List.erase_of_not_mem h]

end Tally
