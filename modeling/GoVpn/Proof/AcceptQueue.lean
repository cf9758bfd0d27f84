import Mathlib.Data.List.Nodup
import GoVpn.Lib.Tally
import GoVpn.Netstack.TcpListener

/-!
# No connection is lost between `enqueue`, `Accept` and `Close`

A connection that was passed to `enqueue` is in the backlog, with an `Accept` that
returned it, or aborted, or a call is still on its way to put it there. `Close` sets
`closed` under the mutex that `enqueue` holds when it looks, so nothing is sent to the
backlog any more when the drain loop starts, and what the loop leaves is empty.
-/

namespace GoVpn.Netstack

namespace AcceptQueue

variable {γ : Type}

/-- The connection a call is still to place. -/
def inFlight : QueueSection γ → Option γ
  | .enqueue c => some c
  | .abort c => some c
  | _ => none

/-- A step that only the `Close` that shuts the listener down takes. -/
def closes : QueueSection γ → Bool
  | .removeListener | .closeCh | .drain => true
  | _ => false

/-- What holds of a listener `q` while the steps `todo` are still to come. -/
structure Conserved (q : AcceptQueue γ) (todo : List (QueueSection γ)) : Prop where
  places : (q.listener.backlog ++ q.returned ++ q.aborted ++ todo.filterMap inFlight).Perm q.passed
  bounded : q.listener.backlog.length ≤ defaultBacklog
  closing : ∀ sec ∈ todo, closes sec = true → q.listener.closed = true
  drained : q.shutDown = true → q.listener.closed = true ∧ q.listener.backlog = []

theorem Conserved.perm (q : AcceptQueue γ) (l l' : List (QueueSection γ)) (h : l.Perm l')
    (hc : Conserved q l) : Conserved q l' where
  places := (List.Perm.append_left _ (h.symm.filterMap inFlight)).trans hc.places
  bounded := hc.bounded
  closing := fun sec hsec => hc.closing sec (h.mem_iff.mpr hsec)
  drained := hc.drained

variable {l : List (QueueSection γ)} {q : AcceptQueue γ} {sec : QueueSection γ}

theorem closing_cons (hsec : closes sec = false)
    (h : ∀ s ∈ l, closes s = true → q.listener.closed = true) :
    ∀ s ∈ sec :: l, closes s = true → q.listener.closed = true := by
  intro s hs hcl
  rcases List.mem_cons.mp hs with rfl | hs
  · cases hsec.symm.trans hcl
  · exact h s hs hcl

/-- A call loses no connection when it starts. -/
theorem Conserved.start (h : Conserved q l) (call : QueueCall γ) :
    Conserved (q.start call).1 ((q.start call).2 ++ l) := by
  cases call with
  | enqueue c =>
    refine ⟨?_, h.bounded, closing_cons rfl h.closing, h.drained⟩
    show (_ ++ c :: l.filterMap inFlight).Perm (q.passed ++ [c])
    refine List.perm_middle.trans ?_
    exact (List.Perm.cons c h.places).trans (List.perm_append_singleton c q.passed).symm
  | accept | close => exact ⟨h.places, h.bounded, closing_cons rfl h.closing, h.drained⟩

/-- Nor does any critical section. -/
theorem Conserved.exec (takes : Bool) (h : Conserved q (sec :: l)) :
    Conserved (q.exec sec takes).1 ((q.exec sec takes).2 ++ l) := by
  have hclosing : ∀ s ∈ l, closes s = true → q.listener.closed = true := fun s hs =>
    h.closing s (List.mem_cons_of_mem _ hs)
  cases sec with
  | enqueue c =>
    have hplaces : (q.listener.backlog ++ q.returned ++ q.aborted ++ c :: l.filterMap inFlight).Perm
        q.passed := h.places
    dsimp only [AcceptQueue.exec, Listener.enqueue]
    split
    · exact ⟨hplaces, h.bounded, closing_cons rfl hclosing, h.drained⟩
    rename_i hopen
    split
    · rename_i hroom
      refine ⟨?_, ?_, hclosing, fun hs => absurd (h.drained hs).1 hopen⟩
      · refine List.Perm.trans ?_ hplaces
        simp only [Bool.false_eq_true, if_false, List.nil_append, List.append_assoc,
          List.singleton_append]
        refine List.Perm.append_left _ ?_
        rw [← List.append_assoc, ← List.append_assoc]
        exact List.perm_middle.symm
      · rw [List.length_append]
        exact hroom
    · exact ⟨hplaces, h.bounded, closing_cons rfl hclosing, h.drained⟩
  | abort c =>
    refine ⟨?_, h.bounded, hclosing, h.drained⟩
    have hplaces := h.places
    simpa [AcceptQueue.exec, inFlight] using hplaces
  | accept =>
    have hplaces : (q.listener.backlog ++ q.returned ++ q.aborted ++ l.filterMap inFlight).Perm
        q.passed := h.places
    dsimp only [AcceptQueue.exec, Listener.receive]
    split
    · exact ⟨hplaces, h.bounded, hclosing, h.drained⟩
    cases hb : q.listener.backlog with
    | nil =>
      dsimp only
      split
      · exact ⟨hplaces, h.bounded, hclosing, h.drained⟩
      · exact ⟨hplaces, h.bounded, closing_cons rfl hclosing, h.drained⟩
    | cons c rest =>
      rw [hb] at hplaces
      have hbound := h.bounded
      rw [hb, List.length_cons] at hbound
      refine ⟨?_, Nat.le_of_succ_le hbound, hclosing, fun hs => ?_⟩
      · refine List.Perm.trans ?_ hplaces
        show ((rest ++ (q.returned ++ [c]) ++ q.aborted) ++ l.filterMap inFlight).Perm _
        simp only [List.append_assoc, List.cons_append, List.nil_append]
        rw [← List.append_assoc]
        refine List.perm_middle.trans ?_
        rw [List.append_assoc]
      · cases hb.symm.trans (h.drained hs).2
  | close =>
    have hplaces : (q.listener.backlog ++ q.returned ++ q.aborted ++ l.filterMap inFlight).Perm
        q.passed := h.places
    dsimp only [AcceptQueue.exec]
    split
    · exact ⟨hplaces, h.bounded, hclosing, h.drained⟩
    · exact ⟨hplaces, h.bounded, fun _ _ _ => rfl, fun hs => ⟨rfl, (h.drained hs).2⟩⟩
  | removeListener | closeCh => exact ⟨h.places, h.bounded, hclosing, h.drained⟩
  | drain =>
    have hplaces : (q.listener.backlog ++ q.returned ++ q.aborted ++ l.filterMap inFlight).Perm
        q.passed := h.places
    have hclosed : q.listener.closed = true := h.closing _ List.mem_cons_self rfl
    dsimp only [AcceptQueue.exec, Listener.receive]
    cases hb : q.listener.backlog with
    | nil =>
      refine ⟨hplaces, h.bounded, hclosing, fun _ => ⟨hclosed, hb⟩⟩
    | cons c rest =>
      rw [hb] at hplaces
      have hbound := h.bounded
      rw [hb, List.length_cons] at hbound
      refine ⟨?_, Nat.le_of_succ_le hbound, fun _ _ _ => hclosed, fun hs => ?_⟩
      · exact List.perm_middle.trans hplaces
      · cases hb.symm.trans (h.drained hs).2

/-- So none is lost in any run. -/
theorem Conserved.after (ms : List (Threads.Move (QueueCall γ) Bool)) :
    Conserved (AcceptQueue.after ms).shared (AcceptQueue.after ms).pending :=
  Threads.run_keeps' (p := program) Conserved.perm (fun _ _ call h => h.start call)
    (fun _ _ takes _ h => h.exec takes) ms
    ⟨List.Perm.refl _, Nat.zero_le _, fun _ hs => (by cases hs), fun hs => (by cases hs)⟩

/-! ## Every call but a waiting `Accept` comes to an end -/

/-- How many steps a section can still lead to. -/
def sectionWork : QueueSection γ → Nat
  | .enqueue _ => 3
  | .abort _ => 1
  | .accept => 1
  | .close => 4
  | .removeListener => 1
  | .closeCh => 1
  | .drain => 1

/-- The steps that are left, those for what is in the backlog included. -/
def work (q : AcceptQueue γ) (todo : List (QueueSection γ)) : Nat :=
  2 * q.listener.backlog.length + tally sectionWork todo

/-- An `Accept` that finds neither a connection nor a closed channel. -/
def Waits (q : AcceptQueue γ) (sec : QueueSection γ) : Prop :=
  sec = .accept ∧ q.listener.backlog = [] ∧ q.listener.closeCh = false

/-- Every section that does not wait leaves less to do. -/
theorem work_exec (l : List (QueueSection γ)) (takes : Bool) (h : ¬ Waits q sec) :
    work (q.exec sec takes).1 ((q.exec sec takes).2 ++ l) < work q (sec :: l) := by
  cases sec with
  | enqueue c =>
    dsimp only [exec, Listener.enqueue]
    split
    · simp [work, sectionWork]
    split
    · simp [work, sectionWork]
      omega
    · simp [work, sectionWork]
  | abort c => simp [exec, work, sectionWork]
  | accept =>
    dsimp only [exec, Listener.receive]
    split
    · simp [work, sectionWork]
    cases hb : q.listener.backlog with
    | cons c rest =>
      simp [work, sectionWork, hb]
      omega
    | nil =>
      cases hch : q.listener.closeCh with
      | true => simp [work, sectionWork]
      | false => exact absurd ⟨rfl, hb, hch⟩ h
  | close =>
    dsimp only [exec]
    split
    · simp [work, sectionWork]
    · simp [work, sectionWork]
      omega
  | removeListener | closeCh => simp [exec, work, sectionWork]
  | drain =>
    dsimp only [exec, Listener.receive]
    cases hb : q.listener.backlog with
    | nil => simp [work, sectionWork, hb]
    | cons c rest =>
      simp [work, sectionWork, hb]
      omega

/-- A listener that is shut down stays so. -/
theorem shutDown_exec (sec : QueueSection γ) (takes : Bool) (h : q.shutDown = true) :
    (q.exec sec takes).1.shutDown = true := by
  cases sec with
  | enqueue c | abort c => exact h
  | accept =>
    dsimp only [exec]
    split
    · exact h
    · split <;> exact h
  | close =>
    dsimp only [exec]
    split <;> exact h
  | removeListener | closeCh => exact h
  | drain =>
    dsimp only [exec]
    split
    · exact h
    · rfl

/-- So it does in a run. -/
theorem shutDown_after {s : Threads.Sys (AcceptQueue γ) (QueueSection γ)}
    (h : s.shared.shutDown = true) (ms : List (Threads.Move (QueueCall γ) Bool)) :
    (Machine.run (Threads.step program) s ms).shared.shutDown = true := by
  refine Threads.run_keeps' (p := program) (I := fun q _ => q.shutDown = true)
    (fun _ _ _ _ hq => hq) ?_ (fun _ sec takes _ hq => shutDown_exec sec takes hq) ms h
  intro q l call hq
  cases call <;> exact hq

/--
**Nothing is lost.** In every interleaving of calls, a connection passed to `enqueue` is in
one place: the backlog, the hands of one `Accept`, the aborted ones, or a call that is
still to abort or queue it. Every step but that of an `Accept` that has to wait brings
the calls nearer to their end, and with no connection on its way the first three places
are all there is. The backlog keeps to its capacity; once the `Close` that shuts the
listener down has returned it is empty, whatever follows.
-/
theorem accept_queue_conserves (ms : List (Threads.Move (QueueCall γ) Bool)) :
    let s := after ms
    let q := s.shared
    (q.listener.backlog ++ q.returned ++ q.aborted ++ s.pending.filterMap inFlight).Perm q.passed
      ∧ (q.passed.Nodup →
          (q.listener.backlog ++ q.returned ++ q.aborted ++ s.pending.filterMap inFlight).Nodup)
      ∧ ((∀ sec ∈ s.pending, inFlight sec = none) →
          (q.listener.backlog ++ q.returned ++ q.aborted).Perm q.passed)
      ∧ (∀ sec rest takes, s.pending.Perm (sec :: rest) → ¬ Waits q sec →
          work (q.exec sec takes).1 ((q.exec sec takes).2 ++ rest) < work q s.pending)
      ∧ q.listener.backlog.length ≤ defaultBacklog
      ∧ (q.shutDown = true → ∀ ms', (after (ms ++ ms')).shared.listener.backlog = []) := by
  intro s q
  have h : Conserved q s.pending := Conserved.after ms
  refine ⟨h.places, h.places.nodup_iff.mpr, ?_, ?_, h.bounded, ?_⟩
  · intro hnone
    have hplaces := h.places
    rw [List.filterMap_eq_nil_iff.mpr hnone, List.append_nil] at hplaces
    exact hplaces
  · intro sec rest takes hperm hwaits
    have hsame : work q s.pending = work q (sec :: rest) := by
      unfold work
      rw [Tally.tally_perm sectionWork hperm]
    rw [hsame]
    exact work_exec rest takes hwaits
  · intro hdown ms'
    have hlater : (after (ms ++ ms')).shared.shutDown = true := by
      unfold after
      rw [Machine.run_append]
      exact shutDown_after hdown ms'
    exact ((Conserved.after (ms ++ ms')).drained hlater).2

end AcceptQueue

end GoVpn.Netstack
