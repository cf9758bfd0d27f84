import GoVpn.Ovpn.CallbackWait

/-!
# Who wakes a call of `Close`

There is one field for the channel a waiter listens on. With one waiter at a time the
field is its channel until the last callback ends, and that callback closes it. A
second waiter overwrites the field, and with it the only reference by which the first
one's channel could ever be closed: the first waiter never returns.
-/

namespace GoVpn.Proof

open GoVpn.Ovpn Threads

/-- A caller is in the receive of `cbWait`, and its channel is open. -/
def Blocked (s : Sys CallbackWait CallbackSection) (ch : Chan) : Prop :=
  .receive ch ∈ s.pending ∧ ch ∉ s.shared.closed

/-- With no callback in flight no call of `Close` is blocked. -/
def NoneBlocked (s : Sys CallbackWait CallbackSection) : Prop :=
  s.shared.cbCount = 0 → ∀ ch, ¬ Blocked s ch

/-- A caller that has to wait finds no other one waiting. -/
def WaitsAlone (w : CallbackWait) (x : CallbackSection) : Prop :=
  x = .cbWait → w.cbCount ≠ 0 → w.cbDone = none

instance (w : CallbackWait) (x : CallbackSection) : Decidable (WaitsAlone w x) :=
  inferInstanceAs (Decidable (_ → _ → _))

/-! ## While there is one waiter -/

/-- The counter is the number of callbacks in flight, and the open channel is in the field. -/
structure WaitInv (w : CallbackWait) (l : List CallbackSection) : Prop where
  count : w.cbCount = l.count .cbEnd
  /-- While the field is set, there is a callback to clear it. -/
  inFlight : ∀ ch, w.cbDone = some ch → w.cbCount ≠ 0 ∧ .receive ch ∈ l ∧ ch ∉ w.closed
  waiting : ∀ ch, .receive ch ∈ l → ch ∈ w.closed ∨ w.cbDone = some ch
  fresh : (∀ ch ∈ w.closed, ch < w.made) ∧ ∀ ch, .receive ch ∈ l → ch < w.made

/-- A caller waits on a channel nobody can close. -/
structure Stranded (ch : Chan) (w : CallbackWait) (l : List CallbackSection) : Prop where
  waits : .receive ch ∈ l
  isOpen : ch ∉ w.closed
  lost : w.cbDone ≠ some ch
  made : ch < w.made

section Sections

variable {w : CallbackWait} {l : List CallbackSection}

theorem WaitInv.perm {l' : List CallbackSection} (h : WaitInv w l) (hp : l.Perm l') :
    WaitInv w l' where
  count := by rw [← hp.count_eq]; exact h.count
  inFlight ch hch := by
    obtain ⟨hne, hmem, hopen⟩ := h.inFlight ch hch
    exact ⟨hne, hp.mem_iff.mp hmem, hopen⟩
  waiting ch hch := h.waiting ch (hp.mem_iff.mpr hch)
  fresh := ⟨h.fresh.1, fun ch hch => h.fresh.2 ch (hp.mem_iff.mpr hch)⟩

theorem waitInv_empty : WaitInv {} [] where
  count := rfl
  inFlight _ h := by cases h
  waiting _ h := by cases h
  fresh := ⟨by simp, by simp⟩

variable {x : CallbackSection}

theorem waitInv_cons (hend : x ≠ .cbEnd) (hreceive : ∀ ch, x ≠ .receive ch) :
    WaitInv w (x :: l) ↔ WaitInv w l := by
  have hcount : (x :: l).count .cbEnd = l.count .cbEnd := List.count_cons_of_ne hend
  have hmem : ∀ ch, CallbackSection.receive ch ∈ x :: l ↔ .receive ch ∈ l := by
    intro ch
    rw [List.mem_cons]
    exact or_iff_right fun he => hreceive ch he.symm
  constructor
  · rintro ⟨hc, hf, hw, hn⟩
    simp only [hcount, hmem] at hc hf hw hn
    exact ⟨hc, hf, hw, hn⟩
  · rintro ⟨hc, hf, hw, hn⟩
    refine ⟨?_, ?_, ?_, ?_⟩
    all_goals simp only [hcount, hmem]
    · exact hc
    · exact hf
    · exact hw
    · exact hn

/-- A call that starts disturbs no waiter. -/
theorem WaitInv.start (h : WaitInv w l) (e : CallbackEvent) :
    WaitInv (w.start e).1 ((w.start e).2 ++ l) := by
  cases e with
  | sessionClosed | serverClose => exact (waitInv_cons (by simp) (by simp)).mpr h

theorem WaitInv.cbBegin (h : WaitInv w (.cbBegin :: l)) :
    WaitInv (w.exec .cbBegin).1 ((w.exec .cbBegin).2 ++ l) := by
  have h' := (waitInv_cons (by simp) (by simp)).mp h
  have hcount := h'.count
  refine ⟨?_, fun ch hch => ?_, ?_, ?_⟩
  · show w.cbCount + 1 = (.cbEnd :: l).count .cbEnd
    rw [List.count_cons_self]
    omega
  · obtain ⟨-, hmem, hopen⟩ := h'.inFlight ch hch
    refine ⟨?_, List.mem_cons_of_mem _ hmem, hopen⟩
    show w.cbCount + 1 ≠ 0
    omega
  · intro ch hch
    exact h'.waiting ch (by simpa [CallbackWait.exec] using hch)
  · exact ⟨h'.fresh.1, fun ch hch => h'.fresh.2 ch (by simpa [CallbackWait.exec] using hch)⟩

theorem WaitInv.cbEnd (h : WaitInv w (.cbEnd :: l)) :
    WaitInv (w.exec .cbEnd).1 ((w.exec .cbEnd).2 ++ l) := by
  have hcount : w.cbCount - 1 = l.count .cbEnd := by
    have := h.count
    rw [List.count_cons_self] at this
    omega
  have hmem : ∀ ch, CallbackSection.receive ch ∈ l → .receive ch ∈ CallbackSection.cbEnd :: l :=
    fun ch hch => List.mem_cons_of_mem _ hch
  cases hdone : w.cbDone with
  | none =>
    simp only [CallbackWait.exec, hdone, List.nil_append]
    refine ⟨hcount, fun ch hch => ?_, fun ch hch => .inl ?_, h.fresh.1,
      fun ch hch => h.fresh.2 ch (hmem ch hch)⟩
    · cases hch
    · exact (h.waiting ch (hmem ch hch)).resolve_right (by simp [hdone])
  | some ch₀ =>
    obtain ⟨-, hmem₀, hopen⟩ := h.inFlight ch₀ hdone
    have hthere : .receive ch₀ ∈ l := by simpa using hmem₀
    simp only [CallbackWait.exec, hdone, List.nil_append]
    split
    · refine ⟨hcount, by simp, fun ch hch => .inl ?_, ?_, fun ch hch => h.fresh.2 ch (hmem ch hch)⟩
      · rcases h.waiting ch (hmem ch hch) with hclosed | hsome
        · exact List.mem_cons_of_mem _ hclosed
        · rw [hdone] at hsome
          rw [Option.some.inj hsome]
          exact List.mem_cons_self
      · exact List.forall_mem_cons.mpr ⟨h.fresh.2 ch₀ hmem₀, h.fresh.1⟩
    · rename_i hne
      refine ⟨hcount, fun ch hch => ?_, fun ch hch => ?_, h.fresh.1,
        fun ch hch => h.fresh.2 ch (hmem ch hch)⟩
      · obtain rfl := Option.some.inj hch
        exact ⟨hne, hthere, hopen⟩
      · show ch ∈ w.closed ∨ some ch₀ = some ch
        rw [← hdone]
        exact h.waiting ch (hmem ch hch)

theorem WaitInv.cbWait (h : WaitInv w (.cbWait :: l)) (halone : w.cbCount ≠ 0 → w.cbDone = none) :
    WaitInv (w.exec .cbWait).1 ((w.exec .cbWait).2 ++ l) := by
  have h' := (waitInv_cons (by simp) (by simp)).mp h
  simp only [CallbackWait.exec]
  split
  · exact h'
  · rename_i hne
    have hnone := halone hne
    refine ⟨?_, fun ch hch => ?_, fun ch hch => ?_, ?_, fun ch hch => ?_⟩
    · simpa using h'.count
    · obtain rfl := Option.some.inj hch
      exact ⟨hne, List.mem_cons_self, fun hmem => Nat.lt_irrefl _ (h'.fresh.1 _ hmem)⟩
    · rcases List.mem_cons.mp hch with he | hch
      · cases he
        exact .inr rfl
      · exact .inl ((h'.waiting ch hch).resolve_right (by simp [hnone]))
    · exact fun ch hch => Nat.lt_succ_of_lt (h'.fresh.1 ch hch)
    · rcases List.mem_cons.mp hch with he | hch
      · cases he
        exact Nat.lt_succ_self _
      · exact Nat.lt_succ_of_lt (h'.fresh.2 ch hch)

theorem WaitInv.receive {ch₀ : Chan} (h : WaitInv w (.receive ch₀ :: l)) :
    WaitInv (w.exec (.receive ch₀)).1 ((w.exec (.receive ch₀)).2 ++ l) := by
  simp only [CallbackWait.exec]
  split
  · rename_i hclosed
    have hmem : ∀ ch, CallbackSection.receive ch ∈ l →
        .receive ch ∈ CallbackSection.receive ch₀ :: l :=
      fun ch hch => List.mem_cons_of_mem _ hch
    refine ⟨by
      simpa using h.count, fun ch hch => ?_, fun ch hch => h.waiting ch (hmem ch hch), h.fresh.1,
      fun ch hch => h.fresh.2 ch (hmem ch hch)⟩
    obtain ⟨hne, hthere, hopen⟩ := h.inFlight ch hch
    rcases List.mem_cons.mp hthere with he | hthere
    · cases he
      exact absurd (by simpa using hclosed) hopen
    · exact ⟨hne, hthere, hopen⟩
  · exact h

/-- A section keeps the invariant, unless a second call begins to wait. -/
theorem WaitInv.exec (h : WaitInv w (x :: l)) (halone : WaitsAlone w x) :
    WaitInv (w.exec x).1 ((w.exec x).2 ++ l) := by
  cases x with
  | cbBegin => exact h.cbBegin
  | cbEnd => exact h.cbEnd
  | cbWait => exact h.cbWait (halone rfl)
  | receive ch => exact h.receive

/-! ## A second waiter -/

theorem Stranded.perm {ch : Chan} {l' : List CallbackSection} (h : Stranded ch w l)
    (hp : l.Perm l') : Stranded ch w l' :=
  ⟨hp.mem_iff.mp h.waits, h.isOpen, h.lost, h.made⟩

theorem stranded_of_second (h : WaitInv w (x :: l)) (hsecond : ¬ WaitsAlone w x) :
    ∃ ch, Stranded ch (w.exec x).1 ((w.exec x).2 ++ l) := by
  simp only [WaitsAlone, Classical.not_imp] at hsecond
  obtain ⟨rfl, hne, hsome⟩ := hsecond
  obtain ⟨ch, hch⟩ := Option.ne_none_iff_exists'.mp hsome
  obtain ⟨-, hmem, hopen⟩ := h.inFlight ch hch
  have hmade := h.fresh.2 ch hmem
  refine ⟨ch, ?_⟩
  simp only [CallbackWait.exec, if_neg hne]
  refine ⟨List.mem_cons_of_mem _ (by simpa using hmem), hopen, ?_, Nat.lt_succ_of_lt hmade⟩
  intro he
  exact Nat.lt_irrefl _ (Option.some.inj he ▸ hmade)

/-- Nothing gets a stranded caller out. -/
theorem Stranded.exec {ch : Chan} (h : Stranded ch w (x :: l)) :
    Stranded ch (w.exec x).1 ((w.exec x).2 ++ l) := by
  obtain ⟨hwaits, hopen, hlost, hmade⟩ := h
  cases x with
  | cbBegin => exact ⟨List.mem_cons_of_mem _ (by simpa using hwaits), hopen, hlost, hmade⟩
  | cbEnd =>
    have hthere : .receive ch ∈ l := by simpa using hwaits
    cases hdone : w.cbDone with
    | none =>
      simp only [CallbackWait.exec, hdone, List.nil_append]
      exact ⟨hthere, hopen, by simp, hmade⟩
    | some ch₀ =>
      rw [hdone] at hlost
      simp only [CallbackWait.exec, hdone, List.nil_append]
      split
      · refine ⟨hthere, ?_, by simp, hmade⟩
        rw [List.mem_cons, not_or]
        exact ⟨fun he => hlost (he ▸ rfl), hopen⟩
      · exact ⟨hthere, hopen, by simpa [hdone] using hlost, hmade⟩
  | cbWait =>
    have hthere : .receive ch ∈ l := by simpa using hwaits
    simp only [CallbackWait.exec]
    split
    · exact ⟨hthere, hopen, hlost, hmade⟩
    · refine ⟨List.mem_cons_of_mem _ hthere, hopen, ?_, Nat.lt_succ_of_lt hmade⟩
      intro he
      exact Nat.lt_irrefl _ (Option.some.inj he ▸ hmade)
  | receive ch₀ =>
    simp only [CallbackWait.exec]
    split
    · rename_i hclosed
      refine ⟨?_, hopen, hlost, hmade⟩
      rcases List.mem_cons.mp hwaits with he | hmem
      · cases he
        exact absurd (by simpa using hclosed) hopen
      · exact hmem
    · exact ⟨hwaits, hopen, hlost, hmade⟩

/-- A call that starts does not wake a stranded waiter. -/
theorem Stranded.start {ch : Chan} (h : Stranded ch w l) (e : CallbackEvent) :
    Stranded ch (w.start e).1 ((w.start e).2 ++ l) := by
  cases e with
  | sessionClosed | serverClose => exact ⟨List.mem_cons_of_mem _ h.waits, h.isOpen, h.lost, h.made⟩

end Sections

/-! ## Runs -/

def callbackSteps :
    Sys CallbackWait CallbackSection → Move CallbackEvent Unit → Sys CallbackWait CallbackSection :=
  step callbackProgram

/-- A second waiter strands the first; short of that the invariant is kept. -/
theorem waitInv_step (s : Sys CallbackWait CallbackSection) (m : Move CallbackEvent Unit)
    (h : WaitInv s.shared s.pending) :
    (Runs WaitsAlone s m → WaitInv (callbackSteps s m).shared (callbackSteps s m).pending)
      ∧ (¬ Runs WaitsAlone s m →
        ∃ ch, Stranded ch (callbackSteps s m).shared (callbackSteps s m).pending) :=
  step_dichotomy (p := callbackProgram) (I := WaitInv) (B := fun w l => ∃ ch, Stranded ch w l)
    (fun _ _ _ hp h => h.perm hp) (fun _ _ _ hp h => h.imp fun _ h => h.perm hp)
    (fun _ _ e h => h.start e) (fun _ _ _ _ h hc => h.exec hc)
      (fun _ _ _ _ h hc => stranded_of_second h hc)
    s m h

/-- Who is stranded stays so. -/
theorem stranded_run {ch : Chan} {s : Sys CallbackWait CallbackSection}
    (h : Stranded ch s.shared s.pending) (ms : List (Move CallbackEvent Unit)) :
    Stranded ch (Machine.run callbackSteps s ms).shared (Machine.run callbackSteps s ms).pending :=
  run_keeps' (p := callbackProgram) (I := Stranded ch) (fun _ _ _ hp h => h.perm hp)
    (fun _ _ e h => h.start e) (fun _ _ _ _ h => h.exec) ms h

theorem WaitInv.noneBlocked {s : Sys CallbackWait CallbackSection}
    (h : WaitInv s.shared s.pending) : NoneBlocked s := by
  rintro hzero ch ⟨hmem, hopen⟩
  rcases h.waiting ch hmem with hclosed | hsome
  · exact hopen hclosed
  · exact (h.inFlight ch hsome).1 hzero

/-- **`Close` waits for callbacks in flight and for nothing else, exactly as long as one call waits
at a time.** In every run in which a call that has to wait finds no other waiting, no call is
blocked in any state without a callback in flight. In every other run some call is blocked at the
end, and whatever happens after it. -/
theorem close_wakes_iff (ms : List (Move CallbackEvent Unit)) :
    (Machine.Along callbackSteps (Runs WaitsAlone) { shared := {} } ms →
        Machine.Always callbackSteps NoneBlocked { shared := {} } ms)
      ∧ (¬ Machine.Along callbackSteps (Runs WaitsAlone) { shared := {} } ms →
        ∃ ch, ∀ more, Blocked (Machine.run callbackSteps { shared := {} } (ms ++ more)) ch) := by
  constructor
  · intro halone
    refine Machine.always_mono (fun _ h => WaitInv.noneBlocked h) (Machine.always_invariant
      (I := fun s => WaitInv s.shared s.pending)
        (fun s m h hm => (waitInv_step s m h).1 hm) waitInv_empty halone)
  · intro hsecond
    obtain ⟨ch, hch⟩ :=
      (Machine.run_dichotomy callbackSteps (I := fun s => WaitInv s.shared s.pending)
      (B := fun s => ∃ ch, Stranded ch s.shared s.pending)
        (fun s m h hm => (waitInv_step s m h).1 hm)
      (fun s m h hm => (waitInv_step s m h).2 hm)
        (fun s m h => h.imp fun ch h => stranded_run h [m])
      { shared := {} } ms waitInv_empty).2 hsecond
    refine ⟨ch, fun more => ?_⟩
    rw [Machine.run_append]
    have h := stranded_run hch more
    exact ⟨h.waits, h.isOpen⟩

/-- One callback, and one call of `Close` that waits for it. -/
def oneClose : List (Move CallbackEvent Unit) :=
  [.start .sessionClosed, .run 0 (), .start .serverClose, .run 1 (), .run 0 (), .run 1 ()]

/-- Two calls of `Close` wait for the same callback, which then ends. -/
def twoCloses : List (Move CallbackEvent Unit) :=
  [.start .sessionClosed, .run 0 (), .start .serverClose, .run 1 (), .start .serverClose, .run 2 (),
    .run 0 ()]

instance (s : Sys CallbackWait CallbackSection) (ch : Chan) : Decidable (Blocked s ch) :=
  inferInstanceAs (Decidable (_ ∧ _))

/-- The callback ends, and both goroutines have nothing left to run. -/
theorem one_close_returns :
    Machine.Always callbackSteps NoneBlocked { shared := {} } oneClose
      ∧ (Machine.run callbackSteps { shared := {} } oneClose).pending = [] :=
  ⟨(close_wakes_iff oneClose).1 (by decide), by decide⟩

/-- No callback is in flight any more, and the first call waits for ever. -/
theorem first_close_hangs :
    (Machine.run callbackSteps { shared := {} } twoCloses).shared.cbCount = 0
      ∧ Blocked (Machine.run callbackSteps { shared := {} } twoCloses) 0 := by
  decide

end GoVpn.Proof
