import GoVpn.Lib.Run

/-!
# Threads made of critical sections

A thread is the list of the critical sections it has still to run. Running the first of them
changes the shared state and may put further sections in front of the rest. The scheduler picks
a thread at every step, and the environment starts new ones: "for every interleaving" is "for
every list of moves".

An invariant speaks of the shared state and of the sections still to come, whichever thread
they belong to, so it is proved one section at a time.
-/

namespace Threads

variable {σ τ ε χ : Type}

/--
What an event of the environment starts, and what a section does. A section that has
a choice, such as a `select` with two ready cases, is told which.
-/
structure Program (σ τ ε χ : Type) where
  start : σ → ε → σ × List τ
  exec : σ → τ → χ → σ × List τ

/-- The shared state, and what each thread has still to run. -/
structure Sys (σ τ : Type) where
  shared : σ
  threads : List (List τ) := []

inductive Move (ε χ : Type)
  | start (e : ε)
  | run (i : Nat) (choice : χ)

/-- The sections that are still to come. -/
def Sys.pending (s : Sys σ τ) : List τ := s.threads.flatten

/-- One move. Running a thread that has nothing left to do changes nothing. -/
def step (p : Program σ τ ε χ) (s : Sys σ τ) : Move ε χ → Sys σ τ
  | .start e =>
    let r := p.start s.shared e
    { shared := r.1, threads := s.threads ++ [r.2] }
  | .run i choice =>
    match s.threads[i]? with
    | some (sec :: rest) =>
      let r := p.exec s.shared sec choice
      { shared := r.1, threads := s.threads.set i (r.2 ++ rest) }
    | _ => s

/-- The section a move runs, if it runs one. -/
def Sys.next (s : Sys σ τ) : Move ε χ → Option τ
  | .start _ => none
  | .run i _ => s.threads[i]?.bind List.head?

/-- The sections a run executes, in order. -/
def executed (p : Program σ τ ε χ) : Sys σ τ → List (Move ε χ) → List τ
  | _, [] => []
  | s, m :: ms => (s.next m).toList ++ executed p (step p s m) ms

/-- The moves keep to what `P` permits the environment. -/
def Allowed (P : σ → List τ → ε → Prop) (s : Sys σ τ) (m : Move ε χ) : Prop :=
  ∀ e, m = .start e → P s.shared s.pending e

instance decidableAllowed {P : σ → List τ → ε → Prop} [∀ s l e, Decidable (P s l e)] (s : Sys σ τ) :
    ∀ m : Move ε χ, Decidable (Allowed P s m)
  | .start e => decidable_of_iff (P s.shared s.pending e)
      ⟨fun h _ he => Move.start.inj he ▸ h, fun h => h e rfl⟩
  | .run _ _ => .isTrue fun _ he => (by cases he)

variable {p : Program σ τ ε χ}

theorem pending_start (s : Sys σ τ) (e : ε) :
    ((step p s (.start e)).pending).Perm ((p.start s.shared e).2 ++ s.pending) := by
  simp only [step, Sys.pending, List.flatten_append, List.flatten_singleton]
  exact List.perm_append_comm

theorem flatten_set_perm {ls : List (List τ)} {i : Nat} {x : τ} {rest : List τ}
    (h : ls[i]? = some (x :: rest)) :
    ∃ others, ls.flatten.Perm (x :: others)
      ∧ ∀ more, (ls.set i (more ++ rest)).flatten.Perm (more ++ others) := by
  induction ls generalizing i with
  | nil => cases h
  | cons l ls ih =>
    cases i with
    | zero =>
      obtain rfl : l = x :: rest := Option.some.inj h
      refine ⟨rest ++ ls.flatten, by simp, fun more => ?_⟩
      rw [List.set_cons_zero, List.flatten_cons, List.append_assoc]
    | succ i =>
      obtain ⟨others, h1, h2⟩ := ih h
      refine ⟨l ++ others, ?_, fun more => ?_⟩
      · rw [List.flatten_cons]
        exact (List.Perm.append_left l h1).trans List.perm_middle
      · rw [List.set_cons_succ, List.flatten_cons]
        refine (List.Perm.append_left l (h2 more)).trans ?_
        rw [← List.append_assoc, ← List.append_assoc]
        exact List.Perm.append_right _ List.perm_append_comm

variable {I : σ → List τ → Prop} {s : Sys σ τ}

theorem mem_pending_of_next {m : Move ε χ} {sec : τ} (h : s.next m = some sec) :
    sec ∈ s.pending := by
  cases m with
  | start e => cases h
  | run i choice =>
    obtain ⟨l, hl, hhead⟩ := Option.bind_eq_some_iff.mp h
    exact List.mem_flatten.mpr ⟨l, List.mem_of_getElem? hl, List.mem_of_head? hhead⟩

/-- A thread that is run does nothing, or takes its next section from those to come. -/
theorem run_next (s : Sys σ τ) (i : Nat) (choice : χ) :
    s.next (.run i choice : Move ε χ) = none ∧ step p s (.run i choice) = s
      ∨ ∃ sec others, s.next (.run i choice : Move ε χ) = some sec ∧ s.pending.Perm (sec :: others)
        ∧ (step p s (.run i choice)).shared = (p.exec s.shared sec choice).1
        ∧ (step p s (.run i choice)).pending.Perm ((p.exec s.shared sec choice).2 ++ others) := by
  simp only [step, Sys.next]
  cases hi : s.threads[i]? with
  | none => exact .inl ⟨rfl, rfl⟩
  | some l =>
    cases l with
    | nil => exact .inl ⟨rfl, rfl⟩
    | cons sec rest =>
      obtain ⟨others, h1, h2⟩ := flatten_set_perm hi
      exact .inr ⟨sec, others, rfl, h1, rfl, h2 _⟩

theorem run_cases (s : Sys σ τ) (i : Nat) (choice : χ) :
    step p s (.run i choice) = s
      ∨ ∃ sec others, s.pending.Perm (sec :: others)
        ∧ (step p s (.run i choice)).shared = (p.exec s.shared sec choice).1
        ∧ (step p s (.run i choice)).pending.Perm ((p.exec s.shared sec choice).2 ++ others) := by
  rcases run_next (p := p) s i choice with ⟨-, hid⟩ | ⟨sec, others, -, h⟩
  · exact .inl hid
  · exact .inr ⟨sec, others, h⟩

/--
**The rule for invariants of threads.** What every event that is permitted and every
section keep, every move keeps.
-/
theorem step_keeps {P : σ → List τ → ε → Prop} (hperm : ∀ s l l', l.Perm l' → I s l → I s l')
    (hstart : ∀ s l e, I s l → P s l e → I (p.start s e).1 ((p.start s e).2 ++ l))
    (hexec : ∀ s sec choice l, I s (sec :: l) →
      I (p.exec s sec choice).1 ((p.exec s sec choice).2 ++ l)) (s : Sys σ τ) (m : Move ε χ)
    (h : I s.shared s.pending) (hm : Allowed P s m) :
    I (step p s m).shared (step p s m).pending := by
  cases m with
  | start e => exact hperm _ _ _ (pending_start s e).symm (hstart _ _ e h (hm e rfl))
  | run i choice =>
    rcases run_cases (p := p) s i choice with hid | ⟨sec, others, h1, h2, h3⟩
    · rw [hid]
      exact h
    · rw [h2]
      exact hperm _ _ _ h3.symm (hexec _ sec choice others (hperm _ _ _ h1 h))

/-- The rule for whole runs. -/
theorem run_keeps {P : σ → List τ → ε → Prop} (hperm : ∀ s l l', l.Perm l' → I s l → I s l')
    (hstart : ∀ s l e, I s l → P s l e → I (p.start s e).1 ((p.start s e).2 ++ l))
    (hexec : ∀ s sec choice l, I s (sec :: l) →
      I (p.exec s sec choice).1 ((p.exec s sec choice).2 ++ l)) {ms : List (Move ε χ)}
    (h : I s.shared s.pending) (hms : Machine.Along (step p) (Allowed P) s ms) :
    I (Machine.run (step p) s ms).shared (Machine.run (step p) s ms).pending :=
  Machine.run_invariant (I := fun s => I s.shared s.pending) (P := Allowed P)
    (fun s m hs hm => step_keeps hperm hstart hexec s m hs hm) h hms

theorem run_keeps' (hperm : ∀ s l l', l.Perm l' → I s l → I s l')
    (hstart : ∀ s l e, I s l → I (p.start s e).1 ((p.start s e).2 ++ l))
    (hexec : ∀ s sec choice l, I s (sec :: l) →
      I (p.exec s sec choice).1 ((p.exec s sec choice).2 ++ l)) (ms : List (Move ε χ))
    (h : I s.shared s.pending) :
    I (Machine.run (step p) s ms).shared (Machine.run (step p) s ms).pending :=
  Machine.run_invariant' (I := fun s => I s.shared s.pending)
    (fun s m hs =>
      step_keeps (P := fun _ _ _ => True) hperm (fun s l e h _ => hstart s l e h) hexec s m
      hs fun _ _ => trivial) h ms

/-- The section that is run meets `C`. -/
def Runs (C : σ → τ → Prop) (s : Sys σ τ) (m : Move ε χ) : Prop :=
  ∀ sec, s.next m = some sec → C s.shared sec

instance decidableRuns {C : σ → τ → Prop} [∀ s x, Decidable (C s x)] (s : Sys σ τ) (m : Move ε χ) :
    Decidable (Runs C s m) :=
  match h : s.next m with
  | none => .isTrue fun sec hs => by cases h.symm.trans hs
  | some x => decidable_of_iff (C s.shared x)
      ⟨fun hc sec hs => Option.some.inj (h.symm.trans hs) ▸ hc, fun hr => hr x h⟩

/-- The rule when something is asked of the sections that are run, and the way out of it: from a
state of `I` a section that meets `C` stays in `I`, one that does not leads to `B`. -/
theorem step_dichotomy {B : σ → List τ → Prop} {C : σ → τ → Prop}
    (hI : ∀ s l l', l.Perm l' → I s l → I s l') (hB : ∀ s l l', l.Perm l' → B s l → B s l')
    (hstart : ∀ s l e, I s l → I (p.start s e).1 ((p.start s e).2 ++ l))
    (hgood : ∀ s sec choice l, I s (sec :: l) → C s sec →
      I (p.exec s sec choice).1 ((p.exec s sec choice).2 ++ l))
    (hbad : ∀ s sec choice l, I s (sec :: l) → ¬ C s sec →
      B (p.exec s sec choice).1 ((p.exec s sec choice).2 ++ l)) (s : Sys σ τ) (m : Move ε χ)
    (h : I s.shared s.pending) :
    (Runs C s m → I (step p s m).shared (step p s m).pending)
      ∧ (¬ Runs C s m → B (step p s m).shared (step p s m).pending) := by
  cases m with
  | start e =>
    have hnone : s.next (.start e : Move ε χ) = none := rfl
    refine ⟨fun _ => hI _ _ _ (pending_start s e).symm (hstart _ _ e h), fun hn => ?_⟩
    exact absurd (fun sec hs => by rw [hnone] at hs; cases hs) hn
  | run i choice =>
    rcases run_next (p := p) s i choice with ⟨hnone, hid⟩ | ⟨sec, others, hnext, h1, h2, h3⟩
    · rw [hid]
      exact ⟨fun _ => h, fun hn => absurd (fun sec hs => by rw [hnone] at hs; cases hs) hn⟩
    · rw [h2]
      have hsec := hI _ _ _ h1 h
      refine ⟨fun hr => hI _ _ _ h3.symm (hgood _ sec choice others hsec (hr sec hnext)),
        fun hn => ?_⟩
      refine hB _ _ _ h3.symm (hbad _ sec choice others hsec fun hc => hn ?_)
      intro sec' hs
      rw [hnext] at hs
      cases hs
      exact hc

/--
**The rule for a part of the shared state.** If every section changes the part by `f` and
no event touches it, then a run changes it by the sections it executes.
-/
theorem run_part {β : Type} {V : σ → β → Prop} {f : β → τ → β}
    (hstart : ∀ s b e, V s b → V (p.start s e).1 b)
    (hexec : ∀ s b sec choice, V s b → V (p.exec s sec choice).1 (f b sec)) :
    ∀ (ms : List (Move ε χ)) {s : Sys σ τ} {b : β}, V s.shared b →
      V (Machine.run (step p) s ms).shared ((executed p s ms).foldl f b) := by
  intro ms
  induction ms with
  | nil => exact fun h => h
  | cons m ms ih =>
    intro s b h
    rw [Machine.run_cons, executed, List.foldl_append]
    refine ih ?_
    cases m with
    | start e => exact hstart _ _ e h
    | run i choice =>
      simp only [step, Sys.next]
      split
      · rename_i sec rest hi
        rw [hi]
        exact hexec _ _ sec choice h
      · rename_i hnone
        have hhead : s.threads[i]?.bind List.head? = none := by
          cases hi : s.threads[i]? with
          | none => rfl
          | some l =>
            cases l with
            | nil => rfl
            | cons sec rest => exact absurd hi (hnone sec rest)
        rw [hhead]
        exact h

end Threads
