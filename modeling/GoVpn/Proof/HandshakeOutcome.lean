import GoVpn.Proof.Callbacks

/-!
# Handshake outcomes and close reasons

The window timer and the handshake race for the latch on the outcome, but the loser
goes on: the handshake may publish a session counted as timed out, and the timer may
close an established session with the reason reserved for sessions never handed over.
Short of these races, the counters and the reasons say what happened.
-/

namespace GoVpn.Ovpn

/-- The outcomes counted, in order. -/
def outcomes (hist : List Event) : List Outcome :=
  hist.filterMap fun
    | .counted o => some o
    | _ => none

/-- The reasons `OnSessionClosed` was called with. -/
def reasonsTold (hist : List Event) : List CloseReason :=
  hist.filterMap fun
    | .onSessionClosed r => some r
    | _ => none

/-- What the verdict on a handshake depends on. -/
structure Verdict where
  hs : HandshakePc
  recorded : Bool
  established : Bool
  looked : Bool
  callback : Option CloseReason
  outcomes : List Outcome
  told : List CloseReason

def Life.verdict (l : Life) : Verdict where
  hs := l.hs
  recorded := l.outcomeRecorded
  established := l.established
  looked := l.stopOnce.isDone
  callback := l.callback
  outcomes := Ovpn.outcomes l.events
  told := reasonsTold l.events

def Session.verdict (s : Session) : Verdict := s.life.verdict

theorem verdict_outcomes (s : Session) : s.verdict.outcomes = outcomes s.hist := by
  show outcomes (s.hist.filter Event.ofLife) = _
  unfold outcomes
  rw [List.filterMap_filter]
  exact congrArg (fun f => s.hist.filterMap f) (funext fun e => by cases e <;> rfl)

theorem verdict_told (s : Session) : s.verdict.told = reasonsTold s.hist := by
  show reasonsTold (s.hist.filter Event.ofLife) = _
  unfold reasonsTold
  rw [List.filterMap_filter]
  exact congrArg (fun f => s.hist.filterMap f) (funext fun e => by cases e <;> rfl)

/-- The handshake has called `recordHandshakeOutcome`. -/
def HandshakePc.recorded : HandshakePc → Bool
  | .establish | .publish | .callOnSession | .failDone _ | .close _ _ | .returned => true
  | _ => false

/-- `established` is stored. -/
def HandshakePc.pastEstablish : HandshakePc → Bool
  | .publish | .callOnSession => true
  | _ => false

/-- `established` may be stored. -/
def HandshakePc.mayBeEstablished : HandshakePc → Bool
  | .publish | .callOnSession | .returned => true
  | _ => false

/-- Between the last `closing` check and the store of `established`. -/
def HandshakePc.completing : HandshakePc → Bool
  | .recordCompleted | .establish => true
  | _ => false

/-- `recordHandshakeOutcome`. -/
def Verdict.record (v : Verdict) (o : Outcome) : Verdict :=
  if v.recorded then v else { v with recorded := true, outcomes := v.outcomes ++ [o] }

/-- What a step does to the verdict: the steps that a race can spoil have names. -/
inductive VerdictLabel
  | quiet
  | pass
  | timeout
  | look (r : CloseReason) (told : Bool)

/-- The handshake passes its check, or loses the latch after it; an `unknown` close is told. -/
def VerdictLabel.spoils : VerdictLabel → Verdict → Prop
  | .quiet, _ => False
  | .pass, v => v.recorded = true
  | .timeout, v => v.recorded = false ∧ v.hs = .recordCompleted
  | .look r told, _ => r = .unknown ∧ told = true

/-- The race for the verdict as a protocol of its own. -/
inductive VerdictStep (v : Verdict) : VerdictLabel → Verdict → Prop
  | same : VerdictStep v .quiet v
  | move {pc : HandshakePc} (hs : v.hs.completing = false) (hs' : pc.completing = false)
      (hr : pc.recorded = true → v.hs.recorded = true)
      (hp : pc.pastEstablish = true → v.hs.pastEstablish = true)
      (he : v.hs.mayBeEstablished = true → pc.mayBeEstablished = true)
      (hf : ∀ o r, pc = .fail o r → o ≠ .completed) : VerdictStep v .quiet { v with hs := pc }
  | pass (hs : v.hs = .checkClosing) : VerdictStep v .pass { v with hs := .recordCompleted }
  | record {o : Outcome} {pc : HandshakePc} (hs : HandshakeRecord v.hs o pc) :
      VerdictStep v .quiet { v.record o with hs := pc }
  | timeout : VerdictStep v .timeout (v.record .timedOut)
  | establish (hs : v.hs = .establish) :
      VerdictStep v .quiet { v with established := true, hs := .publish }
  | look (r : CloseReason) (told : Bool) (hk : v.looked = false) :
      VerdictStep v (.look r told)
        { v with looked := true, callback := if told then some r else v.callback }
  | tell {r : CloseReason} (hc : v.callback = some r) :
      VerdictStep v .quiet { v with callback := none, told := v.told ++ [r] }

/-- One outcome, and the handshake's own by the time it moves on. -/
structure Verdict.Counted (v : Verdict) : Prop where
  once : v.recorded = false ∧ v.outcomes = [] ∨ v.recorded = true ∧ ∃ o, v.outcomes = [o]
  recorded : v.hs.recorded = true → v.recorded = true
  failing : ∀ o r, v.hs = .fail o r → o ≠ .completed
  past : v.hs.pastEstablish = true → v.established = true
  notYet : v.established = true → v.hs.mayBeEstablished = true

/-- The counters and the reasons say what happened, so far. -/
structure Verdict.InOrder (v : Verdict) : Prop where
  latch : v.hs = .recordCompleted → v.recorded = false
  completed : .completed ∈ v.outcomes ↔ v.hs = .establish ∨ v.established = true
  callback : v.callback ≠ some .unknown
  told : .unknown ∉ v.told

/-- They never will. -/
inductive Verdict.Wrong (v : Verdict) : Prop
  | uncounted (hr : v.recorded = true) (hc : .completed ∉ v.outcomes)
      (hs : v.hs.completing = true ∨ v.established = true)
  | unknown (hk : v.looked = true) (hc : v.callback = some .unknown ∨ .unknown ∈ v.told)

end GoVpn.Ovpn

namespace GoVpn.Proof

open GoVpn.Data (Aead zeroTagAead)
open GoVpn.Ovpn

variable {A : Aead} {cfg : Config} {s : Session} {v v' : Verdict} {l : VerdictLabel}

/-! ## The protocol -/

theorem record_eq (v : Verdict) (o : Outcome) :
    (v.recorded = true ∧ v.record o = v)
      ∨ v.recorded = false ∧
      v.record o = { v with recorded := true, outcomes := v.outcomes ++ [o] } := by
  unfold Verdict.record
  cases h : v.recorded
  · exact .inr ⟨rfl, rfl⟩
  · exact .inl ⟨rfl, rfl⟩

theorem counted_record (h : v.Counted) (o : Outcome) : (v.record o).recorded = true
    ∧ ∃ p, (v.record o).outcomes = [p] := by
  rcases record_eq v o with ⟨hr, heq⟩ | ⟨hr, heq⟩
  · rw [heq]
    rcases h.once with ⟨hn, _⟩ | ho
    · cases hr.symm.trans hn
    · exact ho
  · rw [heq]
    rcases h.once with ⟨_, ho⟩ | ⟨hn, _⟩
    · exact ⟨rfl, o, by simp [ho]⟩
    · cases hr.symm.trans hn

/-- Recording an outcome changes nothing else. -/
theorem record_frame (v : Verdict) (o : Outcome) : (v.record o).hs = v.hs
    ∧ (v.record o).established = v.established ∧ (v.record o).looked = v.looked
    ∧ (v.record o).callback = v.callback ∧ (v.record o).told = v.told := by
  rcases record_eq v o with ⟨_, heq⟩ | ⟨_, heq⟩ <;> rw [heq] <;> exact ⟨rfl, rfl, rfl, rfl, rfl⟩

theorem completed_mem_record {o : Outcome} (ho : o ≠ .completed) :
    .completed ∈ (v.record o).outcomes ↔ .completed ∈ v.outcomes := by
  rcases record_eq v o with ⟨_, heq⟩ | ⟨_, heq⟩
  · rw [heq]
  · rw [heq]
    simp [ho.symm]

/-- Every step keeps the count. -/
theorem counted_step (h : v.Counted) (hstep : VerdictStep v l v') : v'.Counted := by
  cases hstep with
  | same => exact h
  | move _ _ hr hp he hf =>
    exact ⟨h.once, fun hx => h.recorded (hr hx), hf, fun hx => h.past (hp hx),
      fun hx => he (h.notYet hx)⟩
  | pass hs =>
    refine ⟨h.once, nofun, nofun, nofun, fun hx => ?_⟩
    have := h.notYet hx
    rw [hs] at this; cases this
  | @record o pc hs =>
    obtain ⟨hr, ho⟩ := counted_record h o
    have hnot : (v.record o).established = true → v.hs.mayBeEstablished = true := by
      rw [(record_frame v o).2.1]; exact h.notYet
    generalize v.hs = p at hs hnot
    refine ⟨.inr ⟨hr, ho⟩, fun _ => hr, ?_, ?_, ?_⟩
    · intro o' r' hx; cases hs <;> cases hx
    · intro hx; cases hs <;> cases hx
    · intro hx; cases hs <;> cases hnot hx
  | timeout =>
    obtain ⟨hr, ho⟩ := counted_record h .timedOut
    obtain ⟨hh, he, _⟩ := record_frame v .timedOut
    exact ⟨.inr ⟨hr, ho⟩, fun _ => hr, by rw [hh]; exact h.failing, by rw [hh, he]; exact h.past,
      by rw [hh, he]; exact h.notYet⟩
  | establish hs =>
    refine ⟨h.once, fun _ => h.recorded (by rw [hs]; rfl), ?_, fun _ => rfl, fun _ => rfl⟩
    intro o r hx; cases hx
  | look r told | tell => exact ⟨h.once, h.recorded, h.failing, h.past, h.notYet⟩

variable {pc : HandshakePc}

theorem not_completing (h : pc.completing = false) : pc ≠ .recordCompleted ∧ pc ≠ .establish := by
  constructor <;> (rintro rfl; cases h)

/-- A step that does not spoil the verdict keeps it in order. -/
theorem inOrder_step (hc : v.Counted) (h : v.InOrder) (hstep : VerdictStep v l v')
    (hl : ¬ l.spoils v) : v'.InOrder := by
  cases hstep with
  | same => exact h
  | move hs hs' =>
    refine ⟨fun hx => absurd hx (not_completing hs').1, ?_, h.callback, h.told⟩
    rw [h.completed]
    simp [(not_completing hs).2, (not_completing hs').2]
  | pass hs =>
    refine ⟨fun _ => ?_, ?_, h.callback, h.told⟩
    · exact Bool.eq_false_iff.mpr hl
    · rw [h.completed, hs]; simp
  | @record o pc hs =>
    obtain ⟨_, he, _, hcb, ht⟩ := record_frame v o
    refine ⟨?_, ?_, by rw [hcb]; exact h.callback, by rw [ht]; exact h.told⟩
    · intro hx
      generalize v.hs = p at hs
      cases hs <;> cases hx
    · generalize hp : v.hs = p at hs
      cases hs with
      | completed =>
        rcases record_eq v .completed with ⟨hr, _⟩ | ⟨_, heq⟩
        · rw [h.latch hp] at hr; cases hr
        · rw [heq]; simp
      | fail =>
        rw [completed_mem_record (hc.failing _ _ hp), h.completed, hp, he]; simp
      | late =>
        rw [completed_mem_record (by simp), h.completed, hp, he]; simp
  | timeout =>
    obtain ⟨hh, he, _, hcb, ht⟩ := record_frame v .timedOut
    refine ⟨?_, ?_, by rw [hcb]; exact h.callback, by rw [ht]; exact h.told⟩
    · rw [hh]
      intro hx
      exact absurd ⟨h.latch hx, hx⟩ hl
    · rw [completed_mem_record (by simp), h.completed, hh, he]
  | establish hs =>
    refine ⟨fun hx => (by cases hx), ?_, h.callback, h.told⟩
    rw [h.completed, hs]; simp
  | look r told hk =>
    refine ⟨h.latch, h.completed, ?_, h.told⟩
    split
    · rename_i htold
      intro hx
      exact hl ⟨Option.some.inj hx, htold⟩
    · exact h.callback
  | @tell r hcb =>
    refine ⟨h.latch, h.completed, by simp, ?_⟩
    intro hx
    rcases List.mem_append.mp hx with hx | hx
    · exact h.told hx
    · rw [← List.mem_singleton.mp hx] at hcb
      exact h.callback hcb

theorem uncounted_of_inOrder (hc : v.Counted) (h : v.InOrder) (hs : v.hs ≠ .establish)
    (hno : v.hs.mayBeEstablished = false) : .completed ∉ v.outcomes := by
  rw [h.completed]
  rintro (hx | hx)
  · exact hs hx
  · cases hno.symm.trans (hc.notYet hx)

theorem spoils_wrong (hc : v.Counted) (h : v.InOrder) (hstep : VerdictStep v l v')
    (hl : l.spoils v) : v'.Wrong := by
  cases hstep with
  | same | move | record | establish | tell => exact hl.elim
  | pass hs =>
    have hno : .completed ∉ v.outcomes := uncounted_of_inOrder hc h (hs ▸ nofun) (hs ▸ rfl)
    exact .uncounted hl hno (.inl rfl)
  | timeout =>
    obtain ⟨hr, hs⟩ := hl
    obtain ⟨hh, _⟩ := record_frame v .timedOut
    refine .uncounted (counted_record hc .timedOut).1 ?_ (.inl (by rw [hh, hs]; rfl))
    rw [completed_mem_record (by simp)]
    exact uncounted_of_inOrder hc h (hs ▸ nofun) (hs ▸ rfl)
  | look r told hk =>
    obtain ⟨rfl, rfl⟩ := hl
    exact .unknown rfl (.inl rfl)

/-- What is wrong stays wrong. -/
theorem wrong_step (h : v.Wrong) (hstep : VerdictStep v l v') : v'.Wrong := by
  cases h with
  | uncounted hr hc hs =>
    cases hstep with
    | same => exact .uncounted hr hc hs
    | move hs2 =>
      rcases hs with hs | hs
      · cases hs2.symm.trans hs
      · exact .uncounted hr hc (.inr hs)
    | pass hs2 => exact .uncounted hr hc (.inl rfl)
    | @record o pc hs2 =>
      rcases record_eq v o with ⟨_, heq⟩ | ⟨hn, _⟩
      · rw [heq]
        refine .uncounted hr hc ?_
        rcases hs with hs | hs
        · left
          generalize v.hs = p at hs hs2
          cases hs2 <;> first | rfl | cases hs
        · exact .inr hs
      · cases hr.symm.trans hn
    | timeout =>
      rcases record_eq v .timedOut with ⟨_, heq⟩ | ⟨hn, _⟩
      · rw [heq]; exact .uncounted hr hc hs
      · cases hr.symm.trans hn
    | establish => exact .uncounted hr hc (.inr rfl)
    | look | tell => exact .uncounted hr hc hs
  | unknown hk hc =>
    cases hstep with
    | same | move | pass | establish => exact .unknown hk hc
    | @record o _ _ =>
      obtain ⟨_, _, h1, h2, h3⟩ := record_frame v o
      exact .unknown (h1.trans hk) (by rw [h2, h3]; exact hc)
    | timeout =>
      obtain ⟨_, _, h1, h2, h3⟩ := record_frame v .timedOut
      exact .unknown (h1.trans hk) (by rw [h2, h3]; exact hc)
    | look _ _ hk2 => cases hk.symm.trans hk2
    | tell hcb =>
      refine .unknown hk (.inr ?_)
      rcases hc with hc | hc
      · rw [hc] at hcb
        rw [← Option.some.inj hcb]
        exact List.mem_append_right _ (List.mem_singleton_self _)
      · exact List.mem_append_left _ hc

/-! ## The goroutines follow the protocol -/

theorem verdict_log (s : Session) (e : Event) :
    (s.log e).verdict =
      { s.verdict with
        outcomes := s.verdict.outcomes ++ outcomes [e]
        told := s.verdict.told ++ reasonsTold [e] } := by
  have ho := verdict_outcomes (s.log e)
  have ht := verdict_told (s.log e)
  rw [show (s.log e).hist = s.hist ++ [e] from rfl, outcomes, List.filterMap_append] at ho
  rw [show (s.log e).hist = s.hist ++ [e] from rfl, reasonsTold, List.filterMap_append] at ht
  rw [verdict_outcomes, verdict_told, outcomes, outcomes, reasonsTold, reasonsTold, ← ho, ← ht]
  rfl

theorem verdict_log_other (s : Session) {e : Event} (ho : outcomes [e] = [])
    (ht : reasonsTold [e] = []) : (s.log e).verdict = s.verdict := by
  rw [verdict_log, ho, ht, List.append_nil, List.append_nil]

theorem verdict_record (s : Session) (o : Outcome) :
    (s.recordHandshakeOutcome o).verdict = s.verdict.record o := by
  unfold Session.recordHandshakeOutcome Verdict.record
  show _ = if s.outcomeRecorded then _ else _
  split
  · rfl
  · rw [verdict_log, show reasonsTold [.counted o] = [] from rfl, List.append_nil]; rfl

theorem verdict_callClose (s : Session) (r : CloseReason) (pc : ClosePc) :
    (s.callClose r pc).1.verdict = s.verdict := by
  rcases s.callClose_cases r pc with h | ⟨ho, h⟩ | ⟨_, h⟩
  · rw [h]
  · rw [h]
    simp [Session.verdict, Life.verdict, Session.life, ho, Once.isDone]
  · rw [h]
    exact verdict_log_other _ rfl rfl

theorem verdict_waits {inp : Input} (h : inp.waits = true) (hcb : inp ≠ .callback)
    (hw : ∀ x, inp = .handshakeWindow x → s.window ≠ .record) :
    (s.step A cfg inp).verdict = s.verdict :=
  waits_rule (P := fun t => t.verdict = s.verdict) (fun _ => rfl)
    (fun x hx hr => absurd hr (hw x hx)) (fun r pc _ _ => verdict_callClose s r pc)
    (fun he => absurd he hcb) h

theorem verdict_teardown (h : s.stopOnce.aboutToLook = false) :
    (s.teardown cfg).verdict = s.verdict := by
  have hdone : ∀ {r : CloseReason} {pc : TeardownPc}, s.stopOnce = .running r pc →
      s.verdict = { s.verdict with looked := false } := by
    intro r pc hs
    simp [Session.verdict, Life.verdict, Session.life, hs, Once.isDone]
  unfold Session.teardown
  cases hs : s.stopOnce with
  | fresh | done => rfl
  | running r pc =>
    rw [hdone hs]
    cases pc with
    | loadPublished => rw [hs] at h; cases h
    | release ip peerID conns =>
      cases ip with
      | none => rfl
      | some ip => exact verdict_log_other _ rfl rfl
    | closeConns cs => cases cs <;> rfl
    | storeReason | closeStopCh | snapshot | remove => rfl

theorem verdict_look {r : CloseReason} (h : s.stopOnce = .running r .loadPublished) :
    (s.teardown cfg).verdict =
      { s.verdict with
        looked := true
        callback := if cfg.onSessionClosed && s.published then some r else s.callback } := by
  unfold Session.teardown
  rw [h]
  rfl

/-- A move of the handshake that decides nothing about the verdict. -/
structure Undecided (pc pc' : HandshakePc) : Prop where
  completing : pc.completing = false ∧ pc'.completing = false
  recorded : pc'.recorded = true → pc.recorded = true
  past : pc'.pastEstablish = true → pc.pastEstablish = true
  may : pc.mayBeEstablished = true → pc'.mayBeEstablished = true
  failing : ∀ o r, pc' = .fail o r → o ≠ .completed

theorem undecided_known {pc' : HandshakePc}
    (h : (!pc.completing && !pc'.completing && (!pc'.recorded || pc.recorded)
      && (!pc'.pastEstablish || pc.pastEstablish)
      && (!pc.mayBeEstablished || pc'.mayBeEstablished)
      && (match pc' with
        | .fail .completed _ => false
        | _ => true)) = true) : Undecided pc pc' := by
  simp only [Bool.and_eq_true, Bool.not_eq_true', Bool.or_eq_true] at h
  obtain ⟨⟨⟨⟨⟨h1, h2⟩, h3⟩, h4⟩, h5⟩, h6⟩ := h
  refine ⟨⟨h1, h2⟩, ?_, ?_, ?_, ?_⟩
  · intro hx; rw [hx] at h3; simpa using h3
  · intro hx; rw [hx] at h4; simpa using h4
  · intro hx; rw [hx] at h5; simpa using h5
  · rintro o r rfl rfl; cases h6

theorem fresh_undecided (h : pc.fresh = true) :
    pc.completing = false ∧ pc.recorded = false ∧ pc.pastEstablish = false
      ∧ pc.mayBeEstablished = false ∧ ∀ o r, pc ≠ .fail o r := by
  cases pc <;> first | (cases h; done) | exact ⟨rfl, rfl, rfl, rfl, by simp⟩

/-- Only passing the last check decides anything. -/
theorem undecided_move (hm : HandshakeMove cfg s pc)
    (hpass : ¬ (s.hs = .checkClosing ∧ s.stopped = false)) : Undecided s.hs pc := by
  cases hm with
  | fresh h h' =>
    obtain ⟨h1, _, _, h4, _⟩ := fresh_undecided h
    obtain ⟨h1', h2', h3', _, h5'⟩ := fresh_undecided h'
    exact ⟨⟨h1, h1'⟩, by simp [h2'], by simp [h3'], by simp [h4], fun o r hx => absurd hx (h5' o r)⟩
  | @fail o r ho h =>
    have hf : ∀ o' r', HandshakePc.fail o r = .fail o' r' → o' ≠ .completed := by
      rintro _ _ ⟨⟩; exact ho
    rcases h with h | h | h
    · obtain ⟨h1, _, _, h4, _⟩ := fresh_undecided h
      exact ⟨⟨h1, rfl⟩, nofun, nofun, by simp [h4], hf⟩
    · rw [h]; exact ⟨⟨rfl, rfl⟩, nofun, nofun, nofun, hf⟩
    · rw [h]; exact ⟨⟨rfl, rfl⟩, nofun, nofun, nofun, hf⟩
  | pass h hstop => exact absurd ⟨h, hstop⟩ hpass
  | returned h => rw [h]; exact undecided_known rfl
  | request h | assign h | again h | more h | pushed h | refuse h | closeDone h | closing h
    | failDone h | noCallback h => exact h ▸ undecided_known rfl

theorem verdict_undecided (h : Undecided s.hs pc) :
    VerdictStep s.verdict .quiet { s.verdict with hs := pc } :=
  .move h.completing.1 h.completing.2 h.recorded h.past h.may h.failing

theorem verdict_handshake {e : Env} (hpass : ¬ (s.hs = .checkClosing ∧ s.stopped = false)) :
    VerdictStep s.verdict .quiet (s.handshake cfg e).verdict := by
  have hstep := handshake_cases cfg s e
  generalize s.handshake cfg e = s' at hstep
  cases hstep with
  | move hm => exact verdict_undecided (undecided_move hm hpass)
  | @record o pc hr =>
    have heq : ({ s.recordHandshakeOutcome o with hs := pc } : Session).verdict
        = { s.verdict.record o with hs := pc } := by
      rw [← verdict_record s o]; rfl
    rw [heq]
    exact .record hr
  | @grant g h =>
    rw [verdict_log_other _ rfl rfl]
    obtain ⟨h1, _, _, h4, _⟩ := fresh_undecided (HandshakePc.fresh_of_asking h)
    have hun : Undecided s.hs (.publishKeys g) := ⟨⟨h1, rfl⟩, nofun, nofun, by simp [h4], nofun⟩
    exact verdict_undecided hun
  | release h =>
    rw [verdict_log_other _ rfl rfl]
    exact verdict_undecided (h ▸ undecided_known rfl)
  | publishKeys h => exact verdict_undecided (h ▸ undecided_known rfl)
  | establish h => exact .establish h
  | publish h => exact verdict_undecided (h ▸ undecided_known rfl)
  | callOnSession h =>
    rw [verdict_log_other _ rfl rfl]
    exact verdict_undecided (h ▸ undecided_known rfl)
  | @close r pc h =>
    have heq : ∀ q : HandshakePc, ({ (s.callClose r pc).1 with hs := q } : Session).verdict
        = { s.verdict with hs := q } := by
      intro q
      rw [← verdict_callClose s r pc]; rfl
    rw [heq]
    refine verdict_undecided ?_
    split <;> exact h ▸ undecided_known rfl

/-! ## Whole runs -/

/--
The steps a race can spoil the verdict with: the handshake passes its last `closing`
check although the timer has recorded the outcome, or the timer records it right
after; the body of a `closeWithReason(Unknown)` finds `published` stored.
-/
def Misjudges (cfg : Config) (s : Session) : Input → Prop
  | .handshake _ => s.hs = .checkClosing ∧ s.stopped = false ∧ s.outcomeRecorded = true
  | .handshakeWindow _ => s.window = .record ∧ s.outcomeRecorded = false ∧ s.hs = .recordCompleted
  | .teardown => s.stopOnce = .running .unknown .loadPublished
      ∧ cfg.onSessionClosed = true ∧ s.published = true
  | _ => False

instance (cfg : Config) (s : Session) : (inp : Input) → Decidable (Misjudges cfg s inp)
  | .handshake _ => inferInstanceAs (Decidable (_ ∧ _ ∧ _))
  | .handshakeWindow _ => inferInstanceAs (Decidable (_ ∧ _ ∧ _))
  | .teardown => inferInstanceAs (Decidable (_ ∧ _ ∧ _))
  | .callback | .close _ | .closer _ | .softReset _ | .beginRenegotiation _
  | .runRenegotiation _ _ | .renegotiationWindow _ _ | .runReneg _ | .packet _ | .data _ _
  | .write _ | .sealWrite _ | .elapse _ => inferInstanceAs (Decidable False)

/-- **The session refines the race**, and misjudges exactly where the label says so. -/
theorem step_verdict (A : Aead) (cfg : Config) (s : Session) (inp : Input) :
    ∃ l, VerdictStep s.verdict l (s.step A cfg inp).verdict
      ∧ (Misjudges cfg s inp ↔ l.spoils s.verdict) := by
  cases hof : inp.ofLife with
  | false =>
    refine ⟨.quiet, ?_, ?_⟩
    · unfold Session.verdict
      rw [Session.life_step A cfg s hof]
      exact .same
    · cases inp <;> first | (cases hof; done) | exact Iff.rfl
  | true =>
    cases inp with
    | handshake e =>
      show ∃ l, VerdictStep _ l (s.handshake cfg e).verdict ∧ _
      by_cases hpass : s.hs = .checkClosing ∧ s.stopped = false
      · have heq : s.handshake cfg e = { s with hs := .recordCompleted } := by
          unfold Session.handshake
          rw [hpass.1]
          dsimp only
          rw [if_neg (by simp [hpass.2])]
        refine ⟨.pass, ?_, ⟨fun h => h.2.2, fun h => ⟨hpass.1, hpass.2, h⟩⟩⟩
        rw [heq]
        exact .pass hpass.1
      · exact ⟨.quiet, verdict_handshake hpass, ⟨fun h => hpass ⟨h.1, h.2.1⟩, False.elim⟩⟩
    | handshakeWindow x =>
      by_cases hw : s.window = .record
      · refine ⟨.timeout, ?_, ⟨fun h => h.2, fun h => ⟨hw, h⟩⟩⟩
        have heq : (s.handshakeWindow x).verdict = s.verdict.record .timedOut := by
          rw [← verdict_record]
          unfold Session.handshakeWindow
          rw [hw]
          rfl
        show VerdictStep _ _ (s.handshakeWindow x).verdict
        rw [heq]
        exact .timeout
      · refine ⟨.quiet, ?_, ⟨fun h => hw h.1, False.elim⟩⟩
        rw [verdict_waits]
        · exact .same
        · rfl
        · nofun
        · exact fun _ _ => hw
    | closer i =>
      refine ⟨.quiet, ?_, Iff.rfl⟩
      rw [verdict_waits]
      · exact .same
      · rfl
      · nofun
      · nofun
    | teardown =>
      show ∃ l, VerdictStep _ l (s.teardown cfg).verdict ∧ _
      cases hlook : s.stopOnce.aboutToLook with
      | false =>
        rw [verdict_teardown hlook]
        refine ⟨.quiet, .same, ⟨fun h => ?_, False.elim⟩⟩
        rw [h.1] at hlook; cases hlook
      | true =>
        obtain ⟨r, hr⟩ := aboutToLook_iff.mp hlook
        rw [verdict_look hr]
        refine ⟨_, .look r (cfg.onSessionClosed && s.published) ?_, ?_⟩
        · show s.stopOnce.isDone = false
          rw [hr]; rfl
        · show _ ↔ r = .unknown ∧ _ = true
          unfold Misjudges
          rw [hr]
          simp
    | callback =>
      show ∃ l, VerdictStep _ l s.callOnSessionClosed.verdict ∧ _
      refine ⟨.quiet, ?_, Iff.rfl⟩
      unfold Session.callOnSessionClosed
      cases hc : s.callback with
      | none => exact .same
      | some r =>
        rw [verdict_log, show outcomes [.onSessionClosed r] = [] from rfl, List.append_nil]
        exact .tell hc
    | _ => cases hof

/-- The counters and the reasons told agree with what happened. -/
structure OutcomeAgrees (s : Session) : Prop where
  counted : s.established = true → .completed ∈ outcomes s.hist
  established : s.hs = .returned → .completed ∈ outcomes s.hist → s.established = true
  told : .unknown ∉ reasonsTold s.hist

theorem outcomeAgrees_of_inOrder (h : s.verdict.InOrder) : OutcomeAgrees s := by
  refine ⟨?_, ?_, ?_⟩
  · intro he
    rw [← verdict_outcomes]
    exact h.completed.mpr (.inr he)
  · intro hs hm
    rw [← verdict_outcomes] at hm
    rcases h.completed.mp hm with hx | hx
    · rw [show s.verdict.hs = .returned from hs] at hx; cases hx
    · exact hx
  · rw [← verdict_told]; exact h.told

theorem not_outcomeAgrees_of_wrong (hdown : TornDown s) (h : s.verdict.Wrong) :
    ¬ OutcomeAgrees s := by
  intro hag
  cases h with
  | uncounted _ hc hs =>
    rcases hs with hs | hs
    · rw [show s.verdict.hs = .returned from hdown.hs] at hs; cases hs
    · rw [verdict_outcomes] at hc
      exact hc (hag.counted hs)
  | unknown _ hc =>
    rcases hc with hc | hc
    · rw [show s.verdict.callback = none from hdown.callback] at hc; cases hc
    · rw [verdict_told] at hc
      exact hag.told hc

/--
**Outcomes and close reasons.** In every run of a session's goroutines: once
`runHandshake` has returned, exactly one outcome was counted. If no step of the run
misjudges the race between the handshake and its window, then in every state
`Completed` is counted if and only if the session became established, and
`OnSessionClosed` is never called with `CloseReasonUnknown`; and a run that ends with
the session torn down has this at its end only if none did.
-/
theorem handshake_outcome_agrees (A : Aead) (cfg : Config) (self : Nat) (now : Int)
    (ins : List Input) :
    Machine.Always (Session.step A cfg)
        (fun s => s.hs = .returned → ∃ o, outcomes s.hist = [o]) (.new self now) ins
      ∧ (Machine.Along (Session.step A cfg) (fun s inp => ¬ Misjudges cfg s inp)
        (.new self now) ins →
          Machine.Always (Session.step A cfg) OutcomeAgrees (.new self now) ins)
      ∧ (TornDown (Machine.run (Session.step A cfg) (.new self now) ins) →
          (OutcomeAgrees (Machine.run (Session.step A cfg) (.new self now) ins)
            ↔ Machine.Along (Session.step A cfg) (fun s inp => ¬ Misjudges cfg s inp)
                (.new self now) ins)) := by
  have hc0 : (Session.new self now).verdict.Counted :=
    ⟨.inl ⟨rfl, rfl⟩, nofun, nofun, nofun, nofun⟩
  have h0 : (Session.new self now).verdict.InOrder :=
    ⟨nofun, ⟨nofun, fun h => by rcases h with h | h <;> cases h⟩, nofun, nofun⟩
  have hcount : ∀ (s : Session) inp, s.verdict.Counted → (s.step A cfg inp).verdict.Counted := by
    intro s inp hc
    obtain ⟨l, hstep, _⟩ := step_verdict A cfg s inp
    exact counted_step hc hstep
  have hgood : ∀ (s : Session) inp, s.verdict.Counted ∧ s.verdict.InOrder → ¬ Misjudges cfg s inp →
      (s.step A cfg inp).verdict.Counted ∧ (s.step A cfg inp).verdict.InOrder := by
    rintro s inp ⟨hc, h⟩ hp
    obtain ⟨l, hstep, hiff⟩ := step_verdict A cfg s inp
    exact ⟨counted_step hc hstep, inOrder_step hc h hstep fun hl => hp (hiff.mpr hl)⟩
  refine ⟨?_, ?_, ?_⟩
  · refine Machine.always_mono ?_
      (Machine.always_invariant (fun s inp hc _ => hcount s inp hc) hc0 (Machine.along_true _ ins))
    intro s hc hs
    rcases hc.once with ⟨hn, _⟩ | ⟨_, o, ho⟩
    · rw [hc.recorded (by rw [show s.verdict.hs = .returned from hs]; rfl)] at hn; cases hn
    · exact ⟨o, by rw [← verdict_outcomes]; exact ho⟩
  · intro ha
    exact Machine.always_mono (fun s h => outcomeAgrees_of_inOrder h.2)
      (Machine.always_invariant hgood ⟨hc0, h0⟩ ha)
  · intro hdown
    have hrun := Machine.run_dichotomy (Session.step A cfg)
      (I := fun s => s.verdict.Counted ∧ s.verdict.InOrder) (B := fun s => s.verdict.Wrong)
      (P := fun s inp => ¬ Misjudges cfg s inp) hgood ?_ ?_
      (.new self now) ins ⟨hc0, h0⟩
    · constructor
      · intro hag
        refine Classical.byContradiction fun hn => ?_
        exact not_outcomeAgrees_of_wrong hdown (hrun.2 hn) hag
      · intro ha
        exact outcomeAgrees_of_inOrder (hrun.1 ha).2
    · rintro s inp ⟨hc, h⟩ hp
      obtain ⟨l, hstep, hiff⟩ := step_verdict A cfg s inp
      exact spoils_wrong hc h hstep (hiff.mp (Classical.not_not.mp hp))
    · intro s inp hw
      obtain ⟨l, hstep, _⟩ := step_verdict A cfg s inp
      exact wrong_step hw hstep

/-- A session that comes up and is closed by its embedder is counted and closed as what it was. -/
theorem embedder_close_agrees :
    let cfg : Config := { renegSec := 3600, renegMinInterval := 60 }
    let s := Machine.run (Session.step zeroTagAead cfg) (.new 0 0)
      (List.replicate 14 (.handshake { grant := some ⟨10, 0⟩ })
        ++ [.handshakeWindow false, .close .embedder, .closer 0]
        ++ List.replicate 8 .teardown ++ [.closer 0, .closer 0, .callback])
    TornDown s ∧ OutcomeAgrees s := by
  intro cfg s
  have hdown : TornDown s := by decide +kernel
  exact ⟨hdown,
    ((handshake_outcome_agrees zeroTagAead cfg 0 0 _).2.2 hdown).mpr (by decide +kernel)⟩

/--
The window expires just as the handshake is about to finish: the timer takes the
latch, the handshake passes its check before the timer has closed `stopCh`, and the
timer then closes the session it handed over.
-/
theorem window_races_completion :
    let cfg : Config := { renegSec := 3600, renegMinInterval := 60 }
    let hs : Input := .handshake { grant := some ⟨10, 0⟩ }
    let timer : Input := .handshakeWindow true
    let s := Machine.run (Session.step zeroTagAead cfg) (.new 0 0)
      (List.replicate 9 hs ++ [timer, timer] ++ List.replicate 5 hs ++ [timer]
        ++ List.replicate 8 .teardown ++ [timer, timer, .callback])
    TornDown s ∧ s.established = true ∧ outcomes s.hist = [.timedOut]
      ∧ reasonsTold s.hist = [.unknown] ∧ ¬ OutcomeAgrees s := by
  intro cfg hs timer s
  have h : TornDown s ∧ s.established = true ∧ outcomes s.hist = [.timedOut]
      ∧ reasonsTold s.hist = [.unknown] := by decide +kernel
  refine ⟨h.1, h.2.1, h.2.2.1, h.2.2.2, ?_⟩
  intro hag
  have hc := hag.counted h.2.1
  rw [h.2.2.1] at hc
  simp at hc

end GoVpn.Proof
