/-!
# Who holds what

Holders take things out of a common stock and give them back; the stock keeps a list
of the keys that are out, and asks no one. A ledger says that this list and the
holders agree: a key is out exactly when someone holds a thing with that key, and no
two hold things with the same one.
-/

/-- The keys that are out, and who holds what. -/
structure Ledger {ι γ κ : Type} (key : γ → κ) (out : List κ) (held : ι → Option γ) : Prop where
  mem_iff : ∀ k, k ∈ out ↔ ∃ i g, held i = some g ∧ key g = k
  holder_unique : ∀ i j g h, held i = some g → held j = some h → key g = key h → i = j

namespace Ledger

variable {ι γ κ : Type} {key : γ → κ} {out : List κ} {held held' : ι → Option γ}

theorem empty (key : γ → κ) (h : ∀ i, held i = none) : Ledger key [] held where
  mem_iff k := by simp [h]
  holder_unique i j g g' hi := by rw [h i] at hi; cases hi

theorem congr (hl : Ledger key out held) (h : ∀ i, held' i = held i) : Ledger key out held' := by
  rw [show held' = held from funext h]; exact hl

theorem grant (hl : Ledger key out held) {i : ι} {g : γ} (hfree : key g ∉ out)
    (hnone : held i = none) (hi : held' i = some g) (hother : ∀ j, j ≠ i → held' j = held j) :
    Ledger key (key g :: out) held' := by
  have hold : ∀ j h, held j = some h → held' j = some h := by
    intro j h hj
    rw [hother j fun hji => by rw [hji, hnone] at hj; cases hj]
    exact hj
  have hnew : ∀ j h, held' j = some h → j = i ∧ h = g ∨ held j = some h := by
    intro j h hj
    by_cases hji : j = i
    · rw [hji, hi, Option.some.injEq] at hj
      exact .inl ⟨hji, hj.symm⟩
    · exact .inr (by rw [← hother j hji]; exact hj)
  have hout : ∀ j h, held j = some h → key h ≠ key g := by
    intro j h hj hk
    exact hfree (hk ▸ (hl.mem_iff (key h)).mpr ⟨j, h, hj, rfl⟩)
  refine ⟨fun k => ?_, fun j j' h h' hj hj' hk => ?_⟩
  · rw [List.mem_cons, hl.mem_iff]
    constructor
    · rintro (rfl | ⟨j, h, hj, hk⟩)
      · exact ⟨i, g, hi, rfl⟩
      · exact ⟨j, h, hold j h hj, hk⟩
    · rintro ⟨j, h, hj, hk⟩
      rcases hnew j h hj with ⟨_, rfl⟩ | hj
      · exact .inl hk.symm
      · exact .inr ⟨j, h, hj, hk⟩
  · rcases hnew j h hj with ⟨rfl, rfl⟩ | hj <;> rcases hnew j' h' hj' with ⟨rfl, rfl⟩ | hj'
    · rfl
    · exact absurd hk.symm (hout j' h' hj')
    · exact absurd hk (hout j h hj)
    · exact hl.holder_unique j j' h h' hj hj' hk

theorem release (hl : Ledger key out held) {i : ι} {g : γ} (hi : held i = some g)
    (hi' : held' i = none) (hother : ∀ j, j ≠ i → held' j = held j) {out' : List κ}
    (hout : ∀ k, k ∈ out' ↔ k ∈ out ∧ k ≠ key g) : Ledger key out' held' := by
  have hold : ∀ j h, held' j = some h → j ≠ i ∧ held j = some h := by
    intro j h hj
    have hne : j ≠ i := fun hji => by rw [hji, hi'] at hj; cases hj
    exact ⟨hne, by rw [← hother j hne]; exact hj⟩
  refine ⟨fun k => ?_,
    fun j j' h h' hj hj' => hl.holder_unique j j' h h' (hold j h hj).2 (hold j' h' hj').2⟩
  rw [hout, hl.mem_iff]
  constructor
  · rintro ⟨⟨j, h, hj, hk⟩, hne⟩
    have hji : j ≠ i := fun hji => by
      rw [hji, hi, Option.some.injEq] at hj
      exact hne (by rw [← hk, hj])
    exact ⟨j, h, by rw [hother j hji]; exact hj, hk⟩
  · rintro ⟨j, h, hj, hk⟩
    obtain ⟨hji, hj⟩ := hold j h hj
    refine ⟨⟨j, h, hj, hk⟩, fun hkg => hji ?_⟩
    exact hl.holder_unique j i h g hj hi (hk.trans hkg)

theorem out_eq_nil (hl : Ledger key out held) (h : ∀ i, held i = none) : out = [] := by
  refine List.eq_nil_iff_forall_not_mem.mpr fun k hk => ?_
  obtain ⟨i, g, hi, _⟩ := (hl.mem_iff k).mp hk
  rw [h i] at hi; cases hi

end Ledger
