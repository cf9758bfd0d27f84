/-!
# Runs of a deterministic machine

A machine is a step function `step : σ → α → σ`. The environment (the network, the scheduler,
the application) chooses the list of inputs, so "for every interleaving" is "for every list".

`Always` is about the states of a run, and states safety. `Along` is about the state and input
pairs it goes through, and states what the environment did. The exact-condition rules turn a
per-step analysis of which step breaks a law into a statement about whole runs.
-/

namespace Machine

variable {σ α : Type} {step : σ → α → σ}

/-- The state after the inputs `as`. -/
def run (step : σ → α → σ) (s : σ) (as : List α) : σ := as.foldl step s

/-- `P` holds of every state and input the run goes through. -/
def Along (step : σ → α → σ) (P : σ → α → Prop) : σ → List α → Prop
  | _, [] => True
  | s, a :: as => P s a ∧ Along step P (step s a) as

/-- `Q` holds in every state the run visits, the first and the last included. -/
def Always (step : σ → α → σ) (Q : σ → Prop) : σ → List α → Prop
  | s, [] => Q s
  | s, a :: as => Q s ∧ Always step Q (step s a) as

instance decidableAlong {P : σ → α → Prop} [∀ s a, Decidable (P s a)] :
    ∀ (s : σ) (as : List α), Decidable (Along step P s as)
  | _, [] => .isTrue trivial
  | s, a :: as =>
    have := decidableAlong (P := P) (step s a) as
    inferInstanceAs (Decidable (P s a ∧ Along step P (step s a) as))

instance decidableAlways {Q : σ → Prop} [DecidablePred Q] :
    ∀ (s : σ) (as : List α), Decidable (Always step Q s as)
  | s, [] => inferInstanceAs (Decidable (Q s))
  | s, a :: as =>
    have := decidableAlways (Q := Q) (step s a) as
    inferInstanceAs (Decidable (Q s ∧ Always step Q (step s a) as))

theorem run_cons (s : σ) (a : α) (as : List α) :
    run step s (a :: as) = run step (step s a) as := rfl

theorem run_append (s : σ) (as bs : List α) :
    run step s (as ++ bs) = run step (run step s as) bs := by
  unfold run; exact List.foldl_append

theorem along_true (s : σ) (as : List α) : Along step (fun _ _ => True) s as := by
  induction as generalizing s with
  | nil => trivial
  | cons a as ih => exact ⟨trivial, ih _⟩

variable {P' : σ → α → Prop} {as : List α} {s : σ}

theorem along_of_mem {P : α → Prop} (s : σ) (h : ∀ a ∈ as, P a) :
    Along step (fun _ a => P a) s as := by
  induction as generalizing s with
  | nil => trivial
  | cons a as ih => exact ⟨h a (by simp), ih _ fun b hb => h b (by simp [hb])⟩

variable {P : σ → α → Prop} {I : σ → Prop}

/-- What an invariant and the condition give at every step. -/
theorem along_imp (hstep : ∀ s a, I s → P s a → I (step s a)) (h : ∀ s a, I s → P s a → P' s a)
    (hi : I s) (hp : Along step P s as) : Along step P' s as := by
  induction as generalizing s with
  | nil => trivial
  | cons a as ih => exact ⟨h s a hi hp.1, ih (hstep s a hi hp.1) hp.2⟩

theorem along_mono (h : ∀ s a, P s a → P' s a) (hp : Along step P s as) : Along step P' s as :=
  along_imp (I := fun _ => True) (fun _ _ _ _ => trivial) (fun s a _ => h s a) trivial hp

theorem along_and (h : Along step P s as) (h' : Along step P' s as) :
    Along step (fun s a => P s a ∧ P' s a) s as := by
  induction as generalizing s with
  | nil => trivial
  | cons a as ih => exact ⟨⟨h.1, h'.1⟩, ih h.2 h'.2⟩

/-- **The invariant rule.** What the start has and every permitted step keeps, the end has. -/
theorem run_invariant (hstep : ∀ s a, I s → P s a → I (step s a)) (hi : I s)
    (hp : Along step P s as) : I (run step s as) := by
  induction as generalizing s with
  | nil => exact hi
  | cons a as ih => exact ih (hstep s a hi hp.1) hp.2

theorem run_invariant' (hstep : ∀ s a, I s → I (step s a)) (hi : I s) (as : List α) :
    I (run step s as) :=
  run_invariant (P := fun _ _ => True) (fun s a h _ => hstep s a h) hi (along_true s as)

/-- An invariant holds wherever the run takes a step. -/
theorem along_of_invariant (hstep : ∀ s a, I s → I (step s a)) (as : List α) (hi : I s) :
    Along step (fun s _ => I s) s as :=
  along_imp (fun s a h _ => hstep s a h) (fun _ _ h _ => h) hi (along_true s as)

theorem along_append {bs : List α} :
    Along step P s (as ++ bs) ↔ Along step P s as ∧ Along step P (run step s as) bs := by
  induction as generalizing s with
  | nil => exact ⟨fun h => ⟨trivial, h⟩, And.right⟩
  | cons a as ih =>
    rw [List.cons_append, Along, Along, ih, run_cons]
    exact and_assoc.symm

/-- The invariant rule for what is said of a state and the inputs that led to it. -/
theorem run_history_along {I : List α → σ → Prop} (h0 : I [] s)
    (hstep : ∀ pre a, I pre (run step s pre) → P (run step s pre) a →
      I (pre ++ [a]) (step (run step s pre) a)) (as : List α) (hp : Along step P s as) :
    I as (run step s as) := by
  have key : ∀ (as pre : List α), Along step P (run step s pre) as → I pre (run step s pre) →
      I (pre ++ as) (run step s (pre ++ as)) := by
    intro as
    induction as with
    | nil => intro pre _ h; rw [List.append_nil]; exact h
    | cons a as ih =>
      intro pre hp h
      have hsnoc : run step s (pre ++ [a]) = step (run step s pre) a := by rw [run_append]; rfl
      have h' := ih (pre ++ [a]) (hsnoc ▸ hp.2) (hsnoc ▸ hstep pre a h hp.1)
      rw [List.append_assoc] at h'
      exact h'
  exact key as [] hp h0

theorem run_history (step : σ → α → σ) {I : List α → σ → Prop} (h0 : I [] s)
    (hstep : ∀ pre a, I pre (run step s pre) → I (pre ++ [a]) (step (run step s pre) a))
    (as : List α) : I as (run step s as) :=
  run_history_along (P := fun _ _ => True) h0 (fun pre a h _ => hstep pre a h) as (along_true s as)

theorem always_mono {Q Q' : σ → Prop} (h : ∀ s, Q s → Q' s) (hq : Always step Q s as) :
    Always step Q' s as := by
  induction as generalizing s with
  | nil => exact h _ hq
  | cons a as ih => exact ⟨h _ hq.1, ih hq.2⟩

theorem always_run {Q : σ → Prop} (hq : Always step Q s as) : Q (run step s as) := by
  induction as generalizing s with
  | nil => exact hq
  | cons a as ih => exact ih hq.2

/-- An invariant holds in every state of the run, not only the last. -/
theorem always_invariant (hstep : ∀ s a, I s → P s a → I (step s a)) (hi : I s)
    (hp : Along step P s as) : Always step I s as := by
  induction as generalizing s with
  | nil => exact hi
  | cons a as ih => exact ⟨hi, ih (hstep s a hi hp.1) hp.2⟩

/--
**The exact-condition rule.** Under an invariant `I`, if a step from a lawful
state leads to a lawful one exactly when it meets `P`, then a run is lawful
throughout exactly when all its steps meet `P`.
-/
theorem always_iff_along {Q : σ → Prop}
    (hgood : ∀ s a, I s → Q s → P s a → I (step s a) ∧ Q (step s a))
    (hbad : ∀ s a, I s → Q s → ¬ P s a → ¬ Q (step s a)) (hi : I s) (hq : Q s) :
    Always step Q s as ↔ Along step P s as := by
  induction as generalizing s with
  | nil => exact ⟨fun _ => trivial, fun _ => hq⟩
  | cons a as ih =>
    constructor
    · rintro ⟨_, h2⟩
      have hq' : Q (step s a) := by
        cases as with
        | nil => exact h2
        | cons b bs => exact h2.1
      have hp : P s a :=
        Classical.byContradiction fun hn => hbad s a hi hq hn hq'
      have hg := hgood s a hi hq hp
      exact ⟨hp, (ih hg.1 hg.2).mp h2⟩
    · rintro ⟨hp, h2⟩
      have hg := hgood s a hi hq hp
      exact ⟨hq, (ih hg.1 hg.2).mpr h2⟩

/--
**Good runs and bad ones.** If permitted steps keep `I`, a step that is not
permitted leads from `I` into `B`, and nothing leads out of `B`, then a run ends in
`I` or in `B` according to whether all its steps were permitted.
-/
theorem run_dichotomy (step : σ → α → σ) {B : σ → Prop}
    (hgood : ∀ s a, I s → P s a → I (step s a)) (hbad : ∀ s a, I s → ¬ P s a → B (step s a))
    (hstuck : ∀ s a, B s → B (step s a)) (s : σ) (as : List α) (hi : I s) :
    (Along step P s as → I (run step s as)) ∧ (¬ Along step P s as → B (run step s as)) := by
  induction as generalizing s with
  | nil => exact ⟨fun _ => hi, fun hn => absurd trivial hn⟩
  | cons a as ih =>
    by_cases hp : P s a
    · obtain ⟨h1, h2⟩ := ih _ (hgood s a hi hp)
      exact ⟨fun h => h1 h.2, fun hn => h2 fun h => hn ⟨hp, h⟩⟩
    · refine ⟨fun h => absurd h.1 hp, fun _ => ?_⟩
      exact run_invariant' hstuck (hbad s a hi hp) as

/--
**The erasure rule.** If the inputs that are kept do to a view of the state what the
view alone decides, and the others leave it alone, then the others can be left out
of a run without changing the view at its end.
-/
theorem view_run_filter {τ : Type} (view : σ → τ) (keep : α → Bool)
    (hkeep : ∀ s t a, keep a = true → view s = view t → view (step s a) = view (step t a))
    (hskip : ∀ s a, keep a = false → P s a → view (step s a) = view s) {t : σ}
    (hp : Along step P s as) (h : view s = view t) :
    view (run step s as) = view (run step t (as.filter keep)) := by
  induction as generalizing s t with
  | nil => exact h
  | cons a as ih =>
    obtain ⟨hp, ha⟩ := hp
    cases hk : keep a with
    | true =>
      rw [List.filter_cons, hk]
      exact ih ha (hkeep s t a hk h)
    | false =>
      rw [List.filter_cons, hk]
      exact ih ha ((hskip s a hk hp).trans h)

/--
**The record rule.** A machine that runs another and keeps a record beside it goes
through the states of the other.
-/
theorem along_view {τ : Type} {step' : τ → α → τ} (view : σ → τ) {P : τ → α → Prop}
    (h : ∀ s a, view (step s a) = step' (view s) a) :
    Along step (fun s a => P (view s) a) s as ↔ Along step' P (view s) as := by
  induction as generalizing s with
  | nil => exact Iff.rfl
  | cons a as ih => rw [Along, Along, ih, h]

/-- The same rule for a law about steps: the two conditions agree on every step an invariant
allows. -/
theorem along_iff_along (hiff : ∀ s a, I s → (P s a ↔ P' s a))
    (hstep : ∀ s a, I s → P' s a → I (step s a)) (hi : I s) :
    Along step P s as ↔ Along step P' s as := by
  constructor
  · intro h
    exact along_imp (fun s a hi hp => hstep s a hi ((hiff s a hi).mp hp))
      (fun s a hi => (hiff s a hi).mp) hi h
  · intro h
    exact along_imp hstep (fun s a hi => (hiff s a hi).mpr) hi h

/-! ## Machines that answer -/

section Trace

variable {β : Type} {step : σ → α → σ × β}

/-- What a machine answers to each input of a run. -/
def trace (step : σ → α → σ × β) : σ → List α → List (α × β)
  | _, [] => []
  | s, a :: as => (a, (step s a).2) :: trace step (step s a).1 as

theorem mem_trace {x : α × β} {s : σ} {as : List α} (h : x ∈ trace step s as) :
    ∃ pre post, as = pre ++ x.1 :: post
      ∧ x.2 = (step (run (fun s a => (step s a).1) s pre) x.1).2 := by
  induction as generalizing s with
  | nil => cases h
  | cons a as ih =>
    rcases List.mem_cons.mp h with rfl | h
    · exact ⟨[], as, rfl, rfl⟩
    · obtain ⟨pre, post, has, hx⟩ := ih h
      exact ⟨a :: pre, post, by rw [has]; rfl, hx⟩

theorem trace_filter (keep : α → Bool) {I : σ → Prop} (hstep : ∀ s a, I s → I (step s a).1)
    {s : σ} {as : List α} (hI : I s)
    (hquiet : ∀ a ∈ as, keep a = false → ∀ s, I s → (step s a).1 = s) :
    (trace step s as).filter (fun x => keep x.1) = trace step s (as.filter keep) := by
  induction as generalizing s with
  | nil => rfl
  | cons a as ih =>
    have ih' := ih (hstep s a hI) fun b hb => hquiet b (List.mem_cons_of_mem _ hb)
    cases hk : keep a with
    | true =>
      simp only [trace, List.filter_cons, hk, if_true]
      rw [ih']
    | false =>
      simp only [trace, List.filter_cons, hk, Bool.false_eq_true, if_false]
      rw [ih', hquiet a List.mem_cons_self hk s hI]

theorem countP_trace_le_one [DecidableEq α] {I : σ → Prop} {a : α} (yes : β → Bool)
    (hkeep : ∀ s b, I s → I (step s b).1) (hno : ∀ s, I s → yes (step s a).2 = false)
    (hin : ∀ s, yes (step s a).2 = true → I (step s a).1) (s : σ) (as : List α) :
    (trace step s as).countP (fun x => decide (x.1 = a) && yes x.2) ≤ 1 := by
  have hnone : ∀ (as : List α) (s : σ), I s →
      (trace step s as).countP (fun x => decide (x.1 = a) && yes x.2) = 0 := by
    intro as
    induction as with
    | nil => intro s _; rfl
    | cons b as ih =>
      intro s hI
      rw [trace, List.countP_cons, ih _ (hkeep s b hI), if_neg]
      rw [Bool.and_eq_true, decide_eq_true_eq]
      rintro ⟨rfl, hy⟩
      exact absurd (hy.symm.trans (hno s hI)) (by simp)
  induction as generalizing s with
  | nil => exact Nat.zero_le _
  | cons b as ih =>
    rw [trace, List.countP_cons]
    split
    · rename_i hy
      rw [Bool.and_eq_true, decide_eq_true_eq] at hy
      obtain ⟨rfl, hy⟩ := hy
      have hzero := hnone as _ (hin s hy)
      exact Nat.succ_le_succ (Nat.le_of_eq hzero)
    · exact ih _

end Trace

end Machine
