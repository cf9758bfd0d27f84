/-!
# Two windows over a lossy channel

A sender keeps what is not acknowledged, a receiver what has come early. Whatever was sent
may arrive late, in any order, again and again or never, and so may every acknowledgement:
a step may use any position sent and any acknowledgement given so far.

The sender's window spans at most `s` positions. Nothing in it lies beyond the receiver's `r`
places, as long as one of the next `r - s + 1` positions the receiver waits for is missing:
that one is not acknowledged, so it holds the sender back.
-/

namespace LossyWindow

/-- A sender and a receiver. -/
structure State where
  /-- The position to be sent next. -/
  next : Nat
  /-- The positions the sender holds as unacknowledged. -/
  window : Nat → Prop
  /-- The position the receiver gives up next. -/
  floor : Nat
  /-- The positions the receiver holds. -/
  held : Nat → Prop
  /-- The positions the receiver has acknowledged. -/
  acked : Nat → Prop

/-- What can happen, with a window of `s` and `r` places. -/
inductive Step (s r : Nat) : State → State → Prop
  | quiet {p p' : State} (hnext : p'.next = p.next) (hwin : ∀ i, p'.window i ↔ p.window i)
      (hfloor : p'.floor = p.floor) (hheld : ∀ i, p'.held i ↔ p.held i)
      (hack : ∀ i, p'.acked i ↔ p.acked i) : Step s r p p'
  /-- A position is sent, everything unacknowledged being less than `s` behind it. -/
  | send {p p' : State} (hnear : ∀ i, p.window i → p.next < i + s) (hnext : p'.next = p.next + 1)
      (hwin : ∀ i, p'.window i ↔ p.window i ∨ i = p.next) (hfloor : p'.floor = p.floor)
      (hheld : ∀ i, p'.held i ↔ p.held i) (hack : ∀ i, p'.acked i ↔ p.acked i) : Step s r p p'
  /-- A position that was sent arrives, is held from now on, and is acknowledged. -/
  | accept {p p' : State} (n : Nat) (hsent : n < p.next) (hnew : p.floor ≤ n)
      (hroom : n < p.floor + r) (hnext : p'.next = p.next) (hwin : ∀ i, p'.window i ↔ p.window i)
      (hfloor : p'.floor = p.floor) (hheld : ∀ i, p'.held i ↔ p.held i ∨ i = n)
      (hack : ∀ i, p'.acked i ↔ p.acked i ∨ i = n) :
      Step s r p p'
  /-- The receiver gives up the next position in order. -/
  | consume {p p' : State} (hthere : p.held p.floor) (hnext : p'.next = p.next)
      (hwin : ∀ i, p'.window i ↔ p.window i) (hfloor : p'.floor = p.floor + 1)
      (hheld : ∀ i, p'.held i ↔ p.held i ∧ i ≠ p.floor) (hack : ∀ i, p'.acked i ↔ p.acked i) :
      Step s r p p'
  /-- Acknowledgements arrive. -/
  | acknowledge {p p' : State} (A : Nat → Prop) (hgiven : ∀ i, A i → p.acked i)
      (hnext : p'.next = p.next) (hwin : ∀ i, p'.window i ↔ p.window i ∧ ¬ A i)
      (hfloor : p'.floor = p.floor) (hheld : ∀ i, p'.held i ↔ p.held i)
      (hack : ∀ i, p'.acked i ↔ p.acked i) : Step s r p p'

structure Inv (s r : Nat) (p : State) : Prop where
  /-- The window spans the last `s` positions at most. -/
  window : ∀ i, p.window i → i < p.next ∧ p.next ≤ i + s
  /-- What is sent stays with the sender until it is acknowledged. -/
  covered : ∀ i, i < p.next → p.window i ∨ p.acked i
  /-- What is acknowledged was taken. -/
  acked : ∀ i, p.acked i → i < p.floor ∨ p.held i
  held : ∀ i, p.held i → p.floor ≤ i ∧ i < p.floor + r ∧ i < p.next
  floor_le : p.floor ≤ p.next

variable {s r : Nat} {p p' : State}

theorem inv_start (hnext : p.next = 0) (hwin : ∀ i, ¬ p.window i) (hfloor : p.floor = 0)
    (hheld : ∀ i, ¬ p.held i) (hack : ∀ i, ¬ p.acked i) : Inv s r p where
  window i hi := absurd hi (hwin i)
  covered i hi := by omega
  acked i hi := absurd hi (hack i)
  held i hi := absurd hi (hheld i)
  floor_le := by omega

/-- **Every step keeps the invariant.** -/
theorem inv_step (hs : 0 < s) (h : Inv s r p) (hstep : Step s r p p') : Inv s r p' := by
  have hle := h.floor_le
  cases hstep with
  | quiet hnext hwin hfloor hheld hack =>
    constructor <;> simp only [hnext, hwin, hfloor, hheld, hack]
    · exact h.window
    · exact h.covered
    · exact h.acked
    · exact h.held
    · exact h.floor_le
  | send hnear hnext hwin hfloor hheld hack =>
    constructor <;> simp only [hnext, hwin, hfloor, hheld, hack]
    · rintro i (hi | rfl)
      · have := hnear i hi
        have := h.window i hi
        omega
      · omega
    · intro i hi
      by_cases hlast : i = p.next
      · exact .inl (.inr hlast)
      · exact (h.covered i (by omega)).imp_left .inl
    · exact h.acked
    · intro i hi
      have := h.held i hi
      omega
    · omega
  | accept n hsent hnew hroom hnext hwin hfloor hheld hack =>
    constructor <;> simp only [hnext, hwin, hfloor, hheld, hack]
    · exact h.window
    · intro i hi
      exact (h.covered i hi).imp_right .inl
    · rintro i (hi | rfl)
      · exact (h.acked i hi).imp_right .inl
      · exact .inr (.inr rfl)
    · rintro i (hi | rfl)
      · exact h.held i hi
      · exact ⟨hnew, hroom, hsent⟩
    · exact hle
  | consume hthere hnext hwin hfloor hheld hack =>
    have hfirst := h.held _ hthere
    constructor <;> simp only [hnext, hwin, hfloor, hheld, hack]
    · exact h.window
    · exact h.covered
    · intro i hi
      by_cases hfl : i = p.floor
      · exact .inl (by omega)
      · rcases h.acked i hi with hlt | hheld'
        · exact .inl (by omega)
        · exact .inr ⟨hheld', hfl⟩
    · rintro i ⟨hi, hne⟩
      have := h.held i hi
      omega
    · omega
  | acknowledge A hgiven hnext hwin hfloor hheld hack =>
    constructor <;> simp only [hnext, hwin, hfloor, hheld, hack]
    · intro i hi
      exact h.window i hi.1
    · intro i hi
      by_cases ha : A i
      · exact .inr (hgiven i ha)
      · exact (h.covered i hi).imp_left fun hw => ⟨hw, ha⟩
    · exact h.acked
    · exact h.held
    · exact hle

/-- A position that is missing at the receiver is still with the sender. -/
theorem Inv.window_of_missing (h : Inv s r p) {i : Nat} (hi : i < p.next) (hfloor : p.floor ≤ i)
    (hmissing : ¬ p.held i) : p.window i := by
  rcases h.covered i hi with hw | ha
  · exact hw
  · rcases h.acked i ha with hlt | hheld
    · omega
    · exact absurd hheld hmissing

/-- **The windows fit**, as long as one of the next `r - s + 1` positions is missing. -/
theorem Inv.fits (h : Inv s r p) {i j : Nat} (hi : i < p.next) (hj : j + s ≤ r)
    (hmissing : ¬ p.held (p.floor + j)) : i < p.floor + r := by
  by_cases hsent : p.floor + j < p.next
  · -- the missing position is unacknowledged, and the window spans no more than `s` from it
    have := (h.window _ (h.window_of_missing hsent (by omega) hmissing)).2
    omega
  · omega

end LossyWindow
