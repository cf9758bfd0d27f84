import GoVpn.Netstack.Deadline

/-!
# What a late callback can do to a deadline

A callback captures a channel when it is armed and looks at the shared `expired` flag when it runs.
As long as no callback misused the difference, the flag says exactly whether the current channel is
closed, and every other channel a callback may still hold is closed already. So there are two ways
to go wrong: a callback runs with the flag down and a channel that was replaced (it closes it
again), or with the current channel of a deadline that is not its own and has not been reached (it
closes it early).
-/

namespace GoVpn.Proof

open GoVpn.Netstack

/-- The deadline last set has been reached. The zero time is never reached. -/
def Reached (w : DeadlineWorld) : Prop := ∃ t, w.want = some t ∧ t ≤ w.now

/-- The flag, the channels, the timer and the callbacks on their way agree. -/
structure DeadlineSound (w : DeadlineWorld) : Prop where
  current : w.d.ch < w.made
  closes_made : ∀ c ∈ w.closes, c < w.made
  once : w.closes.Nodup
  /-- The flag is about the current channel. -/
  expired_iff : w.d.expired = true ↔ w.d.ch ∈ w.closes
  /-- A running timer is the last `set`'s own. -/
  timer : ∀ t, w.d.timer = some t → t.ch = w.d.ch ∧ t.gen = w.gen ∧ w.want = some t.due
  /-- Channels that were replaced are closed. -/
  late_ch : ∀ cb ∈ w.late, cb.ch = w.d.ch ∨ cb.ch ∈ w.closes
  late_gen : ∀ cb ∈ w.late, cb.gen ≤ w.gen
  /-- A timer does not fire before it is due. -/
  late_due : ∀ cb ∈ w.late, cb.gen = w.gen → Reached w

theorem deadlineSound_new (now : Int) : DeadlineSound (.new now) where
  current := by simp [DeadlineWorld.new]
  closes_made := by simp [DeadlineWorld.new]
  once := by simp [DeadlineWorld.new]
  expired_iff := by simp [DeadlineWorld.new]
  timer := by simp [DeadlineWorld.new]
  late_ch := by simp [DeadlineWorld.new]
  late_gen := by simp [DeadlineWorld.new]
  late_due := by simp [DeadlineWorld.new]

/-! ## The steps that are always harmless -/

variable {w : DeadlineWorld} {a : DeadlineAct}

section

variable (h : DeadlineSound w)

include h

theorem deadlineSound_stop : DeadlineSound w.stop :=
  { h with timer := by simp [DeadlineWorld.stop] }

theorem deadlineSound_elapse (ns : Nat) : DeadlineSound { w with now := w.now + ns } := by
  refine { h with late_due := ?_ }
  intro cb hcb hg
  obtain ⟨t, ht, hle⟩ := h.late_due cb hcb hg
  exact ⟨t, ht, by dsimp only; omega⟩

/-- The timer going off keeps the agreement. -/
theorem deadlineSound_fire : DeadlineSound w.fire := by
  unfold DeadlineWorld.fire
  cases ht : w.d.timer with
  | none => exact h
  | some t =>
    obtain ⟨hch, hgen, hwant⟩ := h.timer t ht
    dsimp only
    split
    · rename_i hdue
      refine { h with timer := ?_, late_ch := ?_, late_gen := ?_, late_due := ?_ }
      · rintro t' ⟨⟩
        exact ⟨hch, hgen, hwant⟩
      · intro cb hcb
        rcases List.mem_append.mp hcb with hcb | hcb
        · exact h.late_ch cb hcb
        · obtain rfl := List.mem_singleton.mp hcb
          exact .inl hch
      · intro cb hcb
        rcases List.mem_append.mp hcb with hcb | hcb
        · exact h.late_gen cb hcb
        · obtain rfl := List.mem_singleton.mp hcb
          exact Nat.le_of_eq hgen
      · intro cb hcb hg
        rcases List.mem_append.mp hcb with hcb | hcb
        · exact h.late_due cb hcb hg
        · exact ⟨t.due, hwant, hdue.2⟩
    · exact h

theorem deadlineSound_close (hexp : w.d.expired = false) :
    DeadlineSound ({ w with d := { w.d with expired := true } }.closeChan w.d.ch)
      ∧ ({ w with d := { w.d with expired := true } }.closeChan w.d.ch).panicked = w.panicked := by
  have hopen : w.d.ch ∉ w.closes := by
    intro hm
    simp [h.expired_iff.mpr hm] at hexp
  refine ⟨?_, by simp [DeadlineWorld.closeChan, hopen]⟩
  unfold DeadlineWorld.closeChan
  refine { h with closes_made := ?_, once := ?_, expired_iff := ?_, late_ch := ?_ }
  · intro c hc
    rcases List.mem_append.mp hc with hc | hc
    · exact h.closes_made c hc
    · obtain rfl := List.mem_singleton.mp hc
      exact h.current
  · refine List.nodup_append.mpr ⟨h.once, by simp, ?_⟩
    rintro c hc b hb rfl
    exact hopen (List.mem_singleton.mp hb ▸ hc)
  · simp
  · intro cb hcb
    exact (h.late_ch cb hcb).imp id fun hm => List.mem_append_left _ hm

theorem deadlineSound_renew (htimer : w.d.timer = none) :
    DeadlineSound w.renew ∧ w.renew.d.expired = false ∧ w.renew.d.timer = none := by
  unfold DeadlineWorld.renew
  by_cases hexp : w.d.expired = true
  · rw [if_pos hexp]
    have hclosed : w.d.ch ∈ w.closes := h.expired_iff.mp hexp
    refine ⟨{ h with
      current := Nat.lt_succ_self _, closes_made := ?_, expired_iff := ?_, timer := ?_,
      late_ch := ?_ }, rfl, htimer⟩
    · intro c hc
      exact Nat.lt_succ_of_lt (h.closes_made c hc)
    · constructor
      · intro hf; cases hf
      · intro hm; exact absurd (h.closes_made _ hm) (Nat.lt_irrefl _)
    · intro t ht
      cases htimer.symm.trans ht
    · intro cb hcb
      rcases h.late_ch cb hcb with heq | hm
      · exact .inr (heq ▸ hclosed)
      · exact .inr hm
  · rw [if_neg hexp]
    exact ⟨h, by simpa using hexp, htimer⟩

theorem deadlineSound_want (htimer : w.d.timer = none) (t : Option Int) :
    DeadlineSound { w with want := t, gen := w.gen + 1 } := by
  refine { h with timer := ?_, late_gen := ?_, late_due := ?_ }
  · intro t' ht'
    cases htimer.symm.trans ht'
  · intro cb hcb
    exact Nat.le_succ_of_le (h.late_gen cb hcb)
  · intro cb hcb hg
    have := h.late_gen cb hcb
    dsimp only at hg
    omega

end

theorem renew_now (w : DeadlineWorld) : w.renew.now = w.now := by
  unfold DeadlineWorld.renew; split <;> rfl

theorem renew_gen (w : DeadlineWorld) : w.renew.gen = w.gen := by
  unfold DeadlineWorld.renew; split <;> rfl

theorem renew_panicked (w : DeadlineWorld) : w.renew.panicked = w.panicked := by
  unfold DeadlineWorld.renew; split <;> rfl

theorem deadlineSound_set (h : DeadlineSound w) (hp : w.panicked = false) (t : Option Int) :
    DeadlineSound (w.set t) ∧ (w.set t).panicked = false
      ∧ ((w.set t).d.expired = true → Reached (w.set t)) := by
  obtain ⟨hr, hexp, htimer⟩ := deadlineSound_renew (deadlineSound_stop h) rfl
  have hw := deadlineSound_want hr htimer t
  have hp' : w.stop.renew.panicked = false := by rw [renew_panicked]; exact hp
  rw [renew_gen] at hw
  unfold DeadlineWorld.set
  cases t with
  | none =>
    refine ⟨hw, hp', ?_⟩
    intro he
    cases hexp.symm.trans he
  | some t =>
    dsimp only
    split
    · rename_i hdur
      obtain ⟨hc, hpc⟩ := deadlineSound_close hw hexp
      refine ⟨hc, hpc.trans hp', fun _ => ?_⟩
      refine ⟨t, rfl, ?_⟩
      simp only [DeadlineWorld.closeChan, renew_now] at hdur ⊢
      omega
    · refine ⟨{ hw with timer := ?_ }, hp', ?_⟩
      · rintro t' ⟨⟩
        exact ⟨rfl, rfl, by simp only [Option.some.injEq]; omega⟩
      · intro he
        cases hexp.symm.trans he

/-! ## The callback -/

theorem callback_none {i : Nat} (hi : w.late[i]? = none) : w.callback i = w := by
  unfold DeadlineWorld.callback; rw [hi]

theorem deadlineSound_erase (h : DeadlineSound w) (i : Nat) :
    DeadlineSound { w with late := w.late.eraseIdx i } :=
  { h with
    late_ch := fun cb hcb => h.late_ch cb (List.mem_of_mem_eraseIdx hcb)
    late_gen := fun cb hcb => h.late_gen cb (List.mem_of_mem_eraseIdx hcb)
    late_due := fun cb hcb => h.late_due cb (List.mem_of_mem_eraseIdx hcb) }

theorem callback_expired {i : Nat} {cb : LateCallback}
    (hi : w.late[i]? = some cb) (hexp : w.d.expired = true) :
    w.callback i = { w with late := w.late.eraseIdx i } := by
  unfold DeadlineWorld.callback; rw [hi]; dsimp only; rw [if_pos hexp]

theorem callback_closes {i : Nat} {cb : LateCallback}
    (hi : w.late[i]? = some cb) (hexp : w.d.expired = false) :
    w.callback i =
      { w with late := w.late.eraseIdx i, d := { w.d with expired := true } }.closeChan cb.ch := by
  unfold DeadlineWorld.callback; rw [hi]; dsimp only; rw [if_neg (by simp [hexp])]

/-- The callback's step closes a channel that was replaced, with the flag down. -/
def ClosesReplaced (w : DeadlineWorld) : DeadlineAct → Prop
  | .callback i => ∃ cb, w.late[i]? = some cb ∧ w.d.expired = false ∧ cb.ch ≠ w.d.ch
  | _ => False

/-- Without that, a step keeps the timer sound and does not panic. -/
theorem deadlineSound_step (h : DeadlineSound w) (hp : w.panicked = false)
    (ha : ¬ ClosesReplaced w a) : DeadlineSound (w.step a) ∧ (w.step a).panicked = false := by
  unfold DeadlineWorld.step
  rw [if_neg (by simp [hp])]
  cases a with
  | set t =>
    obtain ⟨h1, h2, _⟩ := deadlineSound_set h hp t
    exact ⟨h1, h2⟩
  | stop => exact ⟨deadlineSound_stop h, hp⟩
  | fire =>
    refine ⟨deadlineSound_fire h, ?_⟩
    unfold DeadlineWorld.fire
    dsimp only
    split
    · exact hp
    · split <;> exact hp
  | elapse ns => exact ⟨deadlineSound_elapse h ns, hp⟩
  | callback i =>
    dsimp only
    cases hi : w.late[i]? with
    | none => rw [callback_none hi]; exact ⟨h, hp⟩
    | some cb =>
      cases hexp : w.d.expired with
      | true => rw [callback_expired hi hexp]; exact ⟨deadlineSound_erase h i, hp⟩
      | false =>
        have hch : cb.ch = w.d.ch :=
          Classical.byContradiction fun hne => ha ⟨cb, hi, hexp, hne⟩
        rw [callback_closes hi hexp, hch]
        obtain ⟨hc, hpc⟩ := deadlineSound_close (deadlineSound_erase h i) hexp
        exact ⟨hc, hpc.trans hp⟩

theorem closesReplaced_panics (h : DeadlineSound w)
    (hp : w.panicked = false) (ha : ClosesReplaced w a) :
    ¬ (w.step a).closes.Nodup ∧ (w.step a).panicked = true := by
  cases a with
  | set | stop | fire | elapse => exact ha.elim
  | callback i =>
    obtain ⟨cb, hi, hexp, hne⟩ := ha
    have hclosed : cb.ch ∈ w.closes :=
      (h.late_ch cb (List.mem_of_getElem? hi)).resolve_left hne
    unfold DeadlineWorld.step
    rw [if_neg (by simp [hp])]
    dsimp only
    rw [callback_closes hi hexp]
    refine ⟨?_, by simp [DeadlineWorld.closeChan, hclosed]⟩
    intro hnd
    exact (List.nodup_append.mp hnd).2.2 _ hclosed _ (List.mem_singleton_self _) rfl

/-! ## Closing twice -/

/-- No channel was closed a second time, so nothing panicked. -/
def ClosedOnce (w : DeadlineWorld) : Prop := w.closes.Nodup ∧ w.panicked = false

/--
**When a deadline timer panics.** For every schedule of `set`, `stop`, timers that
fire and callbacks that run late: no channel is ever closed twice exactly when no
callback runs, with the flag down, on a channel that was replaced since it was armed.
-/
theorem closed_once_iff (now : Int) (as : List DeadlineAct) :
    Machine.Always DeadlineWorld.step ClosedOnce (.new now) as
      ↔ Machine.Along DeadlineWorld.step (fun w a => ¬ ClosesReplaced w a) (.new now) as := by
  refine Machine.always_iff_along (I := DeadlineSound) ?_ ?_ (deadlineSound_new now) ?_
  · intro w a h hq ha
    obtain ⟨hs, hp⟩ := deadlineSound_step h hq.2 ha
    exact ⟨hs, hs.once, hp⟩
  · intro w a h hq ha hq'
    exact (closesReplaced_panics h hq.2 (Classical.not_not.mp ha)).1 hq'.1
  · exact ⟨(deadlineSound_new now).once, rfl⟩

/--
A deadline fires and its callback waits; then a past deadline is set, which closes
the channel, and cleared, which replaces it. The callback closes the old channel again.
-/
theorem past_then_clear_panics :
    let w := Machine.run DeadlineWorld.step (.new 0)
      [.set (some 5), .elapse 5, .fire, .set (some 1), .set none, .callback 0]
    w.closes = [0, 0] ∧ w.panicked = true ∧ ¬ ClosedOnce w := by
  intro w
  have h : w.closes = [0, 0] ∧ w.panicked = true := by decide
  refine ⟨h.1, h.2, ?_⟩
  rintro ⟨_, hp⟩
  cases h.2.symm.trans hp

/-! ## Closing early -/

/-- The channel `wait` returns is closed only once the deadline last set has been reached. -/
def NotEarly (w : DeadlineWorld) : Prop := w.d.wait ∈ w.closes → Reached w

/--
The callback of an earlier deadline runs while the flag is down and closes the
channel it still shares with the current deadline, which has not been reached.
-/
def FiresEarly (w : DeadlineWorld) : DeadlineAct → Prop
  | .callback i => w.panicked = false ∧ ∃ cb, w.late[i]? = some cb ∧ cb.gen ≠ w.gen
      ∧ w.d.expired = false ∧ cb.ch = w.d.ch ∧ ¬ Reached w
  | _ => False

theorem notEarly_panic (hp : w.panicked = false)
    (hq : NotEarly w) (ha : ClosesReplaced w a) : NotEarly (w.step a) := by
  cases a with
  | set | stop | fire | elapse => exact ha.elim
  | callback i =>
    obtain ⟨cb, hi, hexp, hne⟩ := ha
    unfold DeadlineWorld.step
    rw [if_neg (by simp [hp])]
    dsimp only
    rw [callback_closes hi hexp]
    intro hm
    rcases List.mem_append.mp hm with hm | hm
    · exact hq hm
    · exact absurd (List.mem_singleton.mp hm).symm hne

/-- Short of the two harmful callbacks, no step closes the channel early. -/
theorem notEarly_step (h : DeadlineSound w)
    (hp : w.panicked = false) (hq : NotEarly w) (hr : ¬ ClosesReplaced w a)
    (ha : ¬ FiresEarly w a) : NotEarly (w.step a) := by
  unfold DeadlineWorld.step
  rw [if_neg (by simp [hp])]
  cases a with
  | set t =>
    obtain ⟨h1, _, h3⟩ := deadlineSound_set h hp t
    exact fun hm => h3 (h1.expired_iff.mpr hm)
  | stop => exact hq
  | fire =>
    unfold DeadlineWorld.fire
    dsimp only
    split
    · exact hq
    · split <;> exact hq
  | elapse ns =>
    intro hm
    obtain ⟨t, ht, hle⟩ := hq hm
    exact ⟨t, ht, by dsimp only; omega⟩
  | callback i =>
    dsimp only
    cases hi : w.late[i]? with
    | none => rw [callback_none hi]; exact hq
    | some cb =>
      cases hexp : w.d.expired with
      | true => rw [callback_expired hi hexp]; exact hq
      | false =>
        have hch : cb.ch = w.d.ch :=
          Classical.byContradiction fun hne => hr ⟨cb, hi, hexp, hne⟩
        rw [callback_closes hi hexp]
        intro _
        -- its own deadline is due; an earlier one must not run before the current is
        by_cases hgen : cb.gen = w.gen
        · exact h.late_due cb (List.mem_of_getElem? hi) hgen
        · exact Classical.byContradiction fun hn => ha ⟨hp, cb, hi, hgen, hexp, hch, hn⟩

theorem firesEarly_breaks (ha : FiresEarly w a) : ¬ NotEarly (w.step a) := by
  cases a with
  | set | stop | fire | elapse => exact ha.elim
  | callback i =>
    obtain ⟨hp, cb, hi, _, hexp, hch, hn⟩ := ha
    unfold DeadlineWorld.step
    rw [if_neg (by simp [hp])]
    dsimp only
    rw [callback_closes hi hexp, hch]
    intro hq
    exact hn (hq (by simp [DeadlineWorld.closeChan, DeadlineTimer.wait]))

/--
**When a deadline fires early.** For every schedule: the channel `wait` returns is
closed only once the deadline last set has been reached, and never after the zero
time, exactly when no callback of an earlier deadline runs, with the flag down, on
the channel it still shares with a deadline that has not been reached.
-/
theorem not_early_iff (now : Int) (as : List DeadlineAct) :
    Machine.Always DeadlineWorld.step NotEarly (.new now) as
      ↔ Machine.Along DeadlineWorld.step (fun w a => ¬ FiresEarly w a) (.new now) as := by
  refine Machine.always_iff_along
    (I := fun w => w.panicked = true ∨ DeadlineSound w ∧ w.panicked = false) ?_ ?_
    (.inr ⟨deadlineSound_new now, rfl⟩) ?_
  · intro w a h hq ha
    rcases h with hp | ⟨h, hp⟩
    · have hw : w.step a = w := by unfold DeadlineWorld.step; rw [if_pos hp]
      rw [hw]; exact ⟨.inl hp, hq⟩
    by_cases hr : ClosesReplaced w a
    · exact ⟨.inl (closesReplaced_panics h hp hr).2, notEarly_panic hp hq hr⟩
    · exact ⟨.inr (deadlineSound_step h hp hr), notEarly_step h hp hq hr ha⟩
  · intro w a _ _ ha
    exact firesEarly_breaks (Classical.not_not.mp ha)
  · intro hm
    exact absurd hm (by simp [DeadlineWorld.new])

/--
A deadline fires and its callback waits; the deadline is cleared, and the callback
closes the channel all the same.
-/
theorem cleared_deadline_fires :
    let w := Machine.run DeadlineWorld.step (.new 0)
      [.set (some 5), .elapse 5, .fire, .set none, .callback 0]
    w.want = none ∧ w.d.wait ∈ w.closes ∧ ¬ NotEarly w := by
  intro w
  have h : w.want = none ∧ w.d.wait ∈ w.closes := by decide
  refine ⟨h.1, h.2, ?_⟩
  intro hq
  obtain ⟨t, ht, _⟩ := hq h.2
  cases ht

end GoVpn.Proof
