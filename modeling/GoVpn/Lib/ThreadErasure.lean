import GoVpn.Lib.Tally
import GoVpn.Lib.Threads

/-!
# Threads that nobody notices

Some of the threads of a run are to be left out. The run without them makes the same
moves, but in the place of each event that starts such a thread nothing happens. The two
runs are compared move by move: they agree on a view of the shared state and on every
other thread, and what the threads in question have still to run is known to leave that
view alone.
-/

namespace Threads

variable {σ τ ε χ ν : Type}

/--
The same moves, with `idle` in the place of the events whose threads are in `drop`; `n` is
the number of the next thread.
-/
def without (idle : ε) (drop : Nat → Bool) : Nat → List (Move ε χ) → List (Move ε χ)
  | _, [] => []
  | n, .start e :: ms => .start (if drop n then idle else e) :: without idle drop (n + 1) ms
  | n, .run i choice :: ms => .run i choice :: without idle drop n ms

/--
What is asked of the threads in `drop`: `E` of an event that starts one, and `R` of a
section of one when it is about to run.
-/
def Dropped (drop : Nat → Bool) (E : σ → ε → Prop) (R : σ → τ → Prop) (s : Sys σ τ) :
    Move ε χ → Prop
  | .start e => drop s.threads.length = true → E s.shared e
  | .run i _ => drop i = true → ∀ sec rest, s.threads[i]? = some (sec :: rest) → R s.shared sec

instance decidableDropped {drop : Nat → Bool} {E : σ → ε → Prop} {R : σ → τ → Prop}
    [∀ s e, Decidable (E s e)] [∀ s x, Decidable (R s x)] (s : Sys σ τ) :
    ∀ m : Move ε χ, Decidable (Dropped drop E R s m)
  | .start e => inferInstanceAs (Decidable (drop s.threads.length = true → E s.shared e))
  | .run i _ =>
    decidable_of_iff (drop i = true → ∀ sec ∈ s.threads[i]?.bind List.head?, R s.shared sec) <| by
      simp only [Dropped, Option.mem_def, Option.bind_eq_some_iff, List.head?_eq_some_iff]
      exact ⟨fun h hd sec rest hi => h hd sec ⟨_, hi, rest, rfl⟩,
        fun h hd sec hi => by obtain ⟨_, hi, rest, rfl⟩ := hi; exact h hd sec rest hi⟩

/--
A thread that starts with `E` and whose sections run with `R` does not touch the view
`V`, and `Q` is what is known of its sections meanwhile.
-/
structure Unnoticed (p : Program σ τ ε χ) (idle : ε) (V : σ → ν) (E : σ → ε → Prop)
    (R : σ → τ → Prop) (Q : ν → τ → Prop) : Prop where
  idle (s : σ) : V (p.start s idle).1 = V s ∧ (p.start s idle).2 = []
  -- everybody else sees the view only
  start_view {s s' : σ} (e : ε) (h : V s' = V s) :
    V (p.start s' e).1 = V (p.start s e).1 ∧ (p.start s' e).2 = (p.start s e).2
  exec_view {s s' : σ} (sec : τ) (choice : χ) (h : V s' = V s) :
    V (p.exec s' sec choice).1 = V (p.exec s sec choice).1
      ∧ (p.exec s' sec choice).2 = (p.exec s sec choice).2
  start_drop {s : σ} {e : ε} (h : E s e) :
    V (p.start s e).1 = V s ∧ ∀ sec ∈ (p.start s e).2, Q (V s) sec
  exec_drop {s : σ} {sec : τ} (choice : χ) (hq : Q (V s) sec) (hr : R s sec) :
    V (p.exec s sec choice).1 = V s ∧ ∀ x ∈ (p.exec s sec choice).2, Q (V s) x
  -- what is known stays true whatever anybody does
  start_keeps (s : σ) (e : ε) {x : τ} (h : Q (V s) x) : Q (V (p.start s e).1) x
  exec_keeps (s : σ) (sec : τ) (choice : χ) {x : τ} (h : Q (V s) x) : Q
    (V (p.exec s sec choice).1) x

/-- The run and the run without, at one moment. -/
structure Blanked (V : σ → ν) (Q : ν → τ → Prop) (drop : Nat → Bool) (s s' : Sys σ τ) : Prop where
  view : V s'.shared = V s.shared
  length : s'.threads.length = s.threads.length
  kept : ∀ i, drop i = false → s'.threads[i]? = s.threads[i]?
  blank : ∀ i l, drop i = true → s'.threads[i]? = some l → l = []
  known : ∀ i l, drop i = true → s.threads[i]? = some l → ∀ sec ∈ l, Q (V s.shared) sec

theorem Blanked.refl (V : σ → ν) (Q : ν → τ → Prop) {drop : Nat → Bool} {s : Sys σ τ}
    (h : ∀ i < s.threads.length, drop i = false) : Blanked V Q drop s s := by
  have none_dropped : ∀ (i : Nat) (l : List τ), drop i = true → s.threads[i]? ≠ some l := by
    intro i l hi hl
    rw [h i (List.getElem?_eq_some_iff.mp hl).1] at hi
    cases hi
  exact ⟨rfl, rfl, fun _ _ => rfl, fun i l hi hl => absurd hl (none_dropped i l hi),
    fun i l hi hl => absurd hl (none_dropped i l hi)⟩

variable {p : Program σ τ ε χ} {idle : ε} {V : σ → ν} {E : σ → ε → Prop} {R : σ → τ → Prop}
  {Q : ν → τ → Prop} {drop : Nat → Bool} {s s' : Sys σ τ}

variable {i : Nat}

theorem getElem?_concat_congr {ls ls' : List (List τ)} {l : List τ} (hlen : ls'.length = ls.length)
    (h : ls'[i]? = ls[i]?) : (ls' ++ [l])[i]? = (ls ++ [l])[i]? := by
  rcases Nat.lt_or_ge i ls.length with hi | hi
  · rw [List.getElem?_append_left (hlen ▸ hi), List.getElem?_append_left hi, h]
  · rw [List.getElem?_append_right (hlen ▸ hi), List.getElem?_append_right hi, hlen]

/-- A start that both runs make. -/
theorem Blanked.start (hp : Unnoticed p idle V E R Q) (h : Blanked V Q drop s s') {e : ε}
    (hd : drop s.threads.length = false) :
    Blanked V Q drop (step p s (.start e)) (step p s' (.start e)) := by
  obtain ⟨hv, hnext⟩ := hp.start_view e h.view
  refine ⟨hv, by simp [step, h.length], ?_, ?_, ?_⟩
  · intro i hi
    simp only [step, hnext]
    exact getElem?_concat_congr h.length (h.kept i hi)
  · intro i l hi hl
    rcases Tally.getElem?_concat_cases hl with ⟨rfl, -⟩ | hl
    · rw [h.length, hd] at hi
      cases hi
    · exact h.blank i l hi hl
  · intro i l hi hl sec hsec
    rcases Tally.getElem?_concat_cases hl with ⟨rfl, -⟩ | hl
    · rw [hd] at hi
      cases hi
    · exact hp.start_keeps _ e (h.known i l hi hl sec hsec)

/-- A start that the second run does not make. -/
theorem Blanked.start_dropped (hp : Unnoticed p idle V E R Q) (h : Blanked V Q drop s s') {e : ε}
    (hd : drop s.threads.length = true) (he : E s.shared e) :
    Blanked V Q drop (step p s (.start e)) (step p s' (.start idle)) := by
  obtain ⟨hv, hq⟩ := hp.start_drop he
  obtain ⟨hv', hnext⟩ := hp.idle s'.shared
  refine ⟨hv'.trans (h.view.trans hv.symm), by simp [step, h.length], ?_, ?_, ?_⟩
  · intro i hi
    have hne : i ≠ s.threads.length := by
      rintro rfl
      rw [hd] at hi
      cases hi
    simp only [step]
    rcases Nat.lt_or_gt_of_ne hne with hlt | hgt
    · rw [List.getElem?_append_left (h.length ▸ hlt), List.getElem?_append_left hlt]
      exact h.kept i hi
    · rw [List.getElem?_eq_none (by simp [h.length]; omega), List.getElem?_eq_none (by simp; omega)]
  · intro i l hi hl
    rcases Tally.getElem?_concat_cases hl with ⟨-, rfl⟩ | hl
    · exact hnext
    · exact h.blank i l hi hl
  · intro i l hi hl sec hsec
    rcases Tally.getElem?_concat_cases hl with ⟨-, rfl⟩ | hl
    · exact hp.start_keeps _ e (hq sec hsec)
    · exact hp.start_keeps _ e (h.known i l hi hl sec hsec)

theorem step_run_of_nil (s : Sys σ τ) (choice : χ)
    (h : ∀ sec rest, s.threads[i]? ≠ some (sec :: rest)) : step p s (.run i choice) = s := by
  unfold step
  dsimp only
  split
  · rename_i sec rest hi
    exact absurd hi (h sec rest)
  · rfl

theorem step_run_of_cons (s : Sys σ τ) {sec : τ} {rest : List τ} (choice : χ)
    (h : s.threads[i]? = some (sec :: rest)) :
    step p s (.run i choice) =
      { shared := (p.exec s.shared sec choice).1
        threads := s.threads.set i ((p.exec s.shared sec choice).2 ++ rest) } := by
  unfold step
  dsimp only
  rw [h]

/-- A thread that both runs have runs. -/
theorem Blanked.run (hp : Unnoticed p idle V E R Q) (h : Blanked V Q drop s s') (choice : χ)
    (hd : drop i = false) :
    Blanked V Q drop (step p s (.run i choice)) (step p s' (.run i choice)) := by
  by_cases hi : ∃ sec rest, s.threads[i]? = some (sec :: rest)
  · obtain ⟨sec, rest, hi⟩ := hi
    obtain ⟨hv, hnext⟩ := hp.exec_view sec choice h.view
    rw [step_run_of_cons s choice hi, step_run_of_cons s' choice ((h.kept i hd).trans hi)]
    refine ⟨hv, by simp [h.length], ?_, ?_, ?_⟩
    · intro j hj
      rw [hnext, List.getElem?_set, List.getElem?_set, h.kept j hj, h.length]
    · intro j l hj hl
      rcases Tally.getElem?_set_cases hl with ⟨rfl, -⟩ | ⟨-, hl⟩
      · rw [hd] at hj
        cases hj
      · exact h.blank j l hj hl
    · intro j l hj hl x hx
      rcases Tally.getElem?_set_cases hl with ⟨rfl, -⟩ | ⟨-, hl⟩
      · rw [hd] at hj
        cases hj
      · exact hp.exec_keeps _ sec choice (h.known j l hj hl x hx)
  · have hi' : ∀ sec rest, s.threads[i]? ≠ some (sec :: rest) := fun sec rest h => hi ⟨sec, rest, h⟩
    rw [step_run_of_nil s choice hi',
      step_run_of_nil s' choice fun sec rest hs => hi' sec rest ((h.kept i hd).symm.trans hs)]
    exact h

/-- A thread that only the first run has runs. -/
theorem Blanked.run_dropped (hp : Unnoticed p idle V E R Q) (h : Blanked V Q drop s s') (choice : χ)
    (hd : drop i = true) (hr : ∀ sec rest, s.threads[i]? = some (sec :: rest) → R s.shared sec) :
    Blanked V Q drop (step p s (.run i choice)) (step p s' (.run i choice)) := by
  have hs' : step p s' (.run i choice) = s' := step_run_of_nil s' choice fun sec rest hi => by
    cases h.blank i _ hd hi
  rw [hs']
  by_cases hi : ∃ sec rest, s.threads[i]? = some (sec :: rest)
  · obtain ⟨sec, rest, hi⟩ := hi
    obtain ⟨hv, hq⟩ := hp.exec_drop choice (h.known i _ hd hi sec (by simp)) (hr sec rest hi)
    rw [step_run_of_cons s choice hi]
    refine ⟨h.view.trans hv.symm, by simp [h.length], ?_, h.blank, ?_⟩
    · intro j hj
      have hne : i ≠ j := by
        rintro rfl
        rw [hd] at hj
        cases hj
      rw [List.getElem?_set_ne hne]
      exact h.kept j hj
    · intro j l hj hl x hx
      rw [hv]
      rcases Tally.getElem?_set_cases hl with ⟨rfl, rfl⟩ | ⟨-, hl⟩
      · rcases List.mem_append.mp hx with hx | hx
        · exact hq x hx
        · exact h.known j _ hd hi x (List.mem_cons_of_mem _ hx)
      · exact h.known j l hj hl x hx
  · rw [step_run_of_nil s choice fun sec rest hi' => hi ⟨sec, rest, hi'⟩]
    exact h

/--
**Nobody notices.** The run and the run without the threads in question agree on the view
and on all other threads.
-/
theorem run_without (hp : Unnoticed p idle V E R Q) (h : Blanked V Q drop s s')
    {ms : List (Move ε χ)} (hms : Machine.Along (step p) (Dropped drop E R) s ms) :
    Blanked V Q drop (Machine.run (step p) s ms)
      (Machine.run (step p) s' (without idle drop s.threads.length ms)) := by
  -- the next thread has the same number in both runs, so `without` replaces the right events
  induction ms generalizing s s' with
  | nil => exact h
  | cons m ms ih =>
    obtain ⟨hm, hms⟩ := hms
    cases m with
    | start e =>
      have hlen : (step p s (.start e)).threads.length = s.threads.length + 1 := by simp [step]
      rw [without, ← hlen]
      cases hd : drop s.threads.length with
      | true => exact ih (h.start_dropped hp hd (hm hd)) hms
      | false => exact ih (h.start hp hd) hms
    | run i choice =>
      have hlen : (step p s (.run i choice)).threads.length = s.threads.length := by
        unfold step
        dsimp only
        split <;> simp
      rw [without, ← hlen]
      cases hd : drop i with
      | true => exact ih (h.run_dropped hp choice hd (hm hd)) hms
      | false => exact ih (h.run hp choice hd) hms

end Threads
