import GoVpn.Proof.SessionLife

/-!
# `OnSession` and `OnSessionClosed` in pairs

`runHandshake` decides to hand the session over by looking at `stopCh`; the teardown
decides whether it owes a callback by looking at `published`. A teardown that looks
after the first decision and before `published` is stored owes nothing, and the
embedder is never told; one whose callback goroutine overtakes the call of
`OnSession` tells the embedder too early. There is no other way to break the pairing.
-/

namespace GoVpn.Ovpn

open GoVpn.Data (Aead)

def Event.isCallback : Event → Bool
  | .onSession | .onSessionClosed _ => true
  | _ => false

/-- The calls of the two callbacks, in order. -/
def callbacks (hist : List Event) : List Event := hist.filter Event.isCallback

def Once.isDone : Once → Bool
  | .done => true
  | .fresh | .running _ _ => false

/-- The body is about to look at `published`. -/
def Once.aboutToLook : Once → Bool
  | .running _ .loadPublished => true
  | _ => false

/-- What the pairing depends on. -/
structure Handoff where
  hs : HandshakePc
  published : Bool
  /-- The body of `stopOnce` has looked at `published`. -/
  looked : Bool
  callback : Option CloseReason
  calls : List Event

def Life.handoff (l : Life) : Handoff where
  hs := l.hs
  published := l.published
  looked := l.stopOnce.isDone
  callback := l.callback
  calls := callbacks l.events

def Session.handoff (s : Session) : Handoff := s.life.handoff

theorem handoff_calls (s : Session) : s.handoff.calls = callbacks s.hist := by
  show callbacks (s.hist.filter Event.ofLife) = _
  unfold callbacks
  rw [List.filter_filter]
  refine List.filter_congr fun e _ => ?_
  cases e <;> rfl

/-- The handshake found `stopCh` open and has not stored `published` yet. -/
def HandshakePc.passedCheck : HandshakePc → Bool
  | .recordCompleted | .establish | .publish => true
  | _ => false

/-- The handshake will still hand the session over, or is about to. -/
def HandshakePc.handing : HandshakePc → Bool
  | .recordCompleted | .establish | .publish | .callOnSession => true
  | _ => false

/-- What a step does to the handoff: nothing to decide, the teardown looks, the embedder is told. -/
inductive HandoffLabel
  | quiet | look | tell

/-- The two steps that may come too early. -/
def HandoffLabel.overtakes : HandoffLabel → HandshakePc → Prop
  | .quiet, _ => False
  | .look, pc => pc.passedCheck = true
  | .tell, pc => pc = .callOnSession

/-- The handoff as a protocol of its own, with both callbacks configured. -/
inductive HandoffStep (h : Handoff) : HandoffLabel → Handoff → Prop
  | same : HandoffStep h .quiet h
  | move {pc : HandshakePc} (hs : h.hs.handing = false) (hr : h.hs ≠ .returned)
      (hs' : pc.handing = false) : HandoffStep h .quiet { h with hs := pc }
  | pass (hs : h.hs = .checkClosing) (hk : h.looked = false) :
      HandoffStep h .quiet { h with hs := .recordCompleted }
  | on {pc : HandshakePc} (hs : h.hs.passedCheck = true) (hs' : pc.passedCheck = true) :
      HandoffStep h .quiet { h with hs := pc }
  | store (hs : h.hs = .publish) :
      HandoffStep h .quiet { h with published := true, hs := .callOnSession }
  | call (hs : h.hs = .callOnSession) :
      HandoffStep h .quiet { h with hs := .returned, calls := h.calls ++ [.onSession] }
  | look (r : CloseReason) (hk : h.looked = false) :
      HandoffStep h .look
        { h with looked := true, callback := if h.published then some r else h.callback }
  | tell {r : CloseReason} (hc : h.callback = some r) :
      HandoffStep h .tell { h with callback := none, calls := h.calls ++ [.onSessionClosed r] }

/-- A callback is owed and either not asked for yet or on its way. -/
def Handoff.Owed (h : Handoff) : Prop :=
  h.looked = false ∧ h.callback = none ∨ h.looked = true ∧ h.callback.isSome = true

/-- How far a handoff in order has come. -/
inductive Handoff.OnTrack (h : Handoff) : Prop
  | notYet (hs : h.hs.handing = false) (hp : h.published = false) (hc : h.callback = none)
      (hl : h.calls = [])
  | passed (hs : h.hs.passedCheck = true) (hp : h.published = false) (hk : h.looked = false)
      (hc : h.callback = none) (hl : h.calls = [])
  | stored (hs : h.hs = .callOnSession) (hp : h.published = true) (ho : h.Owed) (hl : h.calls = [])
  | handed (hs : h.hs = .returned) (hp : h.published = true) (ho : h.Owed)
      (hl : h.calls = [.onSession])
  | closed {r : CloseReason} (hs : h.hs = .returned) (hk : h.looked = true) (hc : h.callback = none)
      (hl : h.calls = [.onSession, .onSessionClosed r])

/-- A handoff that cannot be put in order any more. -/
inductive Handoff.Broken (h : Handoff) : Prop
  | lost (hs : h.hs.handing = true) (hk : h.looked = true) (hc : h.callback = none)
      (hl : h.calls = [])
  | never (hs : h.hs = .returned) (hk : h.looked = true) (hc : h.callback = none)
      (hl : h.calls = [.onSession])
  | early (r : CloseReason) (rest : List Event) (hl : h.calls = .onSessionClosed r :: rest)

/-- `stopCh` is closed before the body of `stopOnce` gets any further. -/
def Life.StopClosed (l : Life) : Prop :=
  match l.stopOnce with
  | .fresh | .running _ .storeReason | .running _ .closeStopCh => True
  | .running _ _ | .done => l.stopped = true

end GoVpn.Ovpn

namespace GoVpn.Proof

open GoVpn.Data (Aead zeroTagAead)
open GoVpn.Ovpn

variable {A : Aead} {cfg : Config} {s : Session}

/-! ## The protocol -/

variable {h h' : Handoff} {l : HandoffLabel} {pc : HandshakePc}

theorem handing_of_passedCheck (h : pc.passedCheck = true) : pc.handing = true := by
  cases pc <;> first | rfl | cases h

/-- A handoff in order stays so, unless a step overtakes. -/
theorem onTrack_step (ht : h.OnTrack) (hstep : HandoffStep h l h') (hl : ¬ l.overtakes h.hs) :
    h'.OnTrack := by
  cases ht with
  | notYet hs hp hc hc' =>
    cases hstep with
    | same => exact .notYet hs hp hc hc'
    | move _ _ hs' => exact .notYet hs' hp hc hc'
    | pass _ hk => exact .passed rfl hp hk hc hc'
    | on hs2 => rw [handing_of_passedCheck hs2] at hs; cases hs
    | store hs2 | call hs2 => rw [hs2] at hs; cases hs
    | look r hk => exact .notYet hs hp (by simp [hp, hc]) hc'
    | tell hc2 => cases hc.symm.trans hc2
  | passed hs hp hk hc hc' =>
    cases hstep with
    | same => exact .passed hs hp hk hc hc'
    | move hs2 => rw [handing_of_passedCheck hs] at hs2; cases hs2
    | pass hs2 | call hs2 => rw [hs2] at hs; cases hs
    | on _ hs' => exact .passed hs' hp hk hc hc'
    | store => exact .stored rfl rfl (.inl ⟨hk, hc⟩) hc'
    | look r => exact absurd hs hl
    | tell hc2 => cases hc.symm.trans hc2
  | stored hs hp ho hc' =>
    cases hstep with
    | same => exact .stored hs hp ho hc'
    | move hs2 | on hs2 | pass hs2 | store hs2 => rw [hs] at hs2; cases hs2
    | call => exact .handed rfl hp ho (by simp [hc'])
    | look r hk => exact .stored hs hp (.inr ⟨rfl, by simp [hp]⟩) hc'
    | tell => exact absurd hs hl
  | handed hs hp ho hc' =>
    cases hstep with
    | same => exact .handed hs hp ho hc'
    | move _ hr => exact absurd hs hr
    | on hs2 | pass hs2 | store hs2 | call hs2 => rw [hs] at hs2; cases hs2
    | look r hk => exact .handed hs hp (.inr ⟨rfl, by simp [hp]⟩) hc'
    | tell hc2 =>
      rcases ho with ⟨_, hn⟩ | ⟨hk, _⟩
      · cases hn.symm.trans hc2
      · exact .closed hs hk rfl (by simp [hc']; rfl)
  | closed hs hk hc hc' =>
    cases hstep with
    | same => exact .closed hs hk hc hc'
    | move _ hr => exact absurd hs hr
    | on hs2 | pass hs2 | store hs2 | call hs2 => rw [hs] at hs2; cases hs2
    | look r hk2 => cases hk.symm.trans hk2
    | tell hc2 => cases hc.symm.trans hc2

theorem overtakes_breaks (ht : h.OnTrack) (hstep : HandoffStep h l h') (hl : l.overtakes h.hs) :
    h'.Broken := by
  cases hstep with
  | same | move | pass | on | store | call => exact hl.elim
  | look r hk =>
    have hpass : h.hs.passedCheck = true := hl
    cases ht with
    | notYet hs => rw [handing_of_passedCheck hpass] at hs; cases hs
    | passed hs hp _ hc hc' =>
      exact .lost (handing_of_passedCheck hs) rfl (by simp [hp, hc]) hc'
    | stored hs | handed hs | closed hs => rw [hs] at hpass; cases hpass
  | @tell r hc2 =>
    have hcall : h.hs = .callOnSession := hl
    cases ht with
    | notYet hs _ hc | passed _ _ _ hc | closed _ _ hc => cases hc.symm.trans hc2
    | stored _ _ _ hc' => exact .early r [] (by simp [hc'])
    | handed hs => cases hcall.symm.trans hs

/-- What is broken stays broken. -/
theorem broken_step (ht : h.Broken) (hstep : HandoffStep h l h') : h'.Broken := by
  cases ht with
  | lost hs hk hc hc' =>
    cases hstep with
    | same => exact .lost hs hk hc hc'
    | move hs2 => cases hs.symm.trans hs2
    | pass hs2 => rw [hs2] at hs; cases hs
    | on _ hs' => exact .lost (handing_of_passedCheck hs') hk hc hc'
    | store => exact .lost rfl hk hc hc'
    | call => exact .never rfl hk hc (by simp [hc'])
    | look r hk2 => cases hk.symm.trans hk2
    | tell hc2 => cases hc.symm.trans hc2
  | never hs hk hc hc' =>
    cases hstep with
    | same => exact .never hs hk hc hc'
    | move _ hr => exact absurd hs hr
    | on hs2 | pass hs2 | store hs2 | call hs2 => rw [hs] at hs2; cases hs2
    | look r hk2 => cases hk.symm.trans hk2
    | tell hc2 => cases hc.symm.trans hc2
  | early r rest hc' =>
    cases hstep with
    | same | move | pass | on | store | look => exact .early r rest hc'
    | call => exact .early r (rest ++ [.onSession]) (by simp [hc'])
    | @tell r' _ => exact .early r (rest ++ [.onSessionClosed r']) (by simp [hc'])

/-! ## What the goroutines do to it -/

theorem handoff_log (s : Session) (e : Event) :
    (s.log e).handoff = { s.handoff with calls := s.handoff.calls ++ callbacks [e] } := by
  have hcalls := handoff_calls (s.log e)
  rw [show (s.log e).hist = s.hist ++ [e] from rfl, callbacks, List.filter_append] at hcalls
  rw [handoff_calls, callbacks, callbacks, ← hcalls]
  rfl

theorem handoff_callClose (s : Session) (r : CloseReason) (pc : ClosePc) :
    (s.callClose r pc).1.handoff = s.handoff := by
  rcases s.callClose_cases r pc with h | ⟨ho, h⟩ | ⟨_, h⟩
  · rw [h]
  · rw [h]
    simp [Session.handoff, Life.handoff, Session.life, ho, Once.isDone]
  · rw [h, handoff_log, show callbacks [.closeReturned] = [] from rfl, List.append_nil]
    rfl

theorem handoff_record (s : Session) (o : Outcome) :
    (s.recordHandshakeOutcome o).handoff = s.handoff := by
  rcases s.record_cases o with h | ⟨_, h⟩
  · rw [h]
  · rw [h, handoff_log, show callbacks [.counted o] = [] from rfl, List.append_nil]
    rfl

theorem handoff_waits {inp : Input} (h : inp.waits = true) (hcb : inp ≠ .callback) :
    (s.step A cfg inp).handoff = s.handoff :=
  waits_rule (P := fun t => t.handoff = s.handoff) (fun _ => rfl)
    (fun _ _ _ _ => handoff_record s .timedOut) (fun r pc _ _ => handoff_callClose s r pc)
      (fun he => absurd he hcb) h

theorem handoff_look {r : CloseReason} (h : s.stopOnce = .running r .loadPublished)
    (hcb : cfg.onSessionClosed = true) :
    (s.teardown cfg).handoff =
      { s.handoff with
        looked := true
        callback := if s.published then some r else s.callback } := by
  unfold Session.teardown
  rw [h]
  rw [hcb, Bool.true_and]
  rfl

theorem handoff_teardown (h : ∀ r, s.stopOnce ≠ .running r .loadPublished) :
    (s.teardown cfg).handoff = s.handoff := by
  unfold Session.teardown
  cases hs : s.stopOnce with
  | fresh | done => rfl
  | running r pc =>
    cases pc with
    | loadPublished => exact absurd hs (h r)
    | release ip peerID conns =>
      cases ip <;> simp [Session.handoff, Life.handoff, Session.life, Session.log, hs,
        Once.isDone, callbacks, Event.ofLife, Event.isCallback]
    | closeConns cs =>
      cases cs <;> simp [Session.handoff, Life.handoff, Session.life, Session.closeConn, hs,
        Once.isDone]
    | storeReason | closeStopCh | snapshot | remove =>
      simp [Session.handoff, Life.handoff, Session.life, hs, Once.isDone]

theorem handoff_looked (hs : s.life.StopClosed) (hstop : s.stopped = false) :
    s.handoff.looked = false := by
  show s.stopOnce.isDone = false
  cases h : s.stopOnce with
  | fresh | running => rfl
  | done =>
    simp only [Life.StopClosed, Session.life, h] at hs
    cases hstop.symm.trans hs

theorem handing_of_fresh (h : pc.fresh = true) : pc.handing = false ∧ pc ≠ .returned := by
  cases pc <;> first | (cases h; done) | exact ⟨rfl, by simp⟩

theorem handoff_other {p : HandshakePc} (hp : s.hs = p) (h1 : p.handing = false)
    (h2 : p ≠ .returned) (h3 : pc.handing = false) :
    HandoffStep s.handoff .quiet { s.handoff with hs := pc } := by
  subst hp
  exact .move h1 h2 h3

/-- A move of the handshake is a quiet step of the handoff. -/
theorem handoff_move (hcb : cfg.onSession = true) (hs : s.life.StopClosed)
    (hm : HandshakeMove cfg s pc) : HandoffStep s.handoff .quiet { s.handoff with hs := pc } := by
  cases hm with
  | fresh h h' => exact .move (handing_of_fresh h).1 (handing_of_fresh h).2 (handing_of_fresh h').1
  | fail _ h =>
    rcases h with h | h | h
    · exact .move (handing_of_fresh h).1 (handing_of_fresh h).2 rfl
    · exact handoff_other h rfl (by simp) rfl
    · exact handoff_other h rfl (by simp) rfl
  | pass h hstop => exact .pass h (handoff_looked hs hstop)
  | noCallback _ hn => cases hcb.symm.trans hn
  | returned h =>
    have heq : { s.handoff with hs := .returned } = s.handoff := by
      show { s.handoff with hs := .returned } = { s.handoff with hs := s.hs }
      rw [h]
    rw [heq]; exact .same
  | request h | assign h | again h | more h | pushed h | refuse h | closeDone h | closing h
    | failDone h => exact handoff_other h rfl (by simp) rfl

theorem handoff_handshake {e : Env} (hcb : cfg.onSession = true) (hs : s.life.StopClosed) :
    HandoffStep s.handoff .quiet (s.handshake cfg e).handoff := by
  have hstep := handshake_cases cfg s e
  generalize s.handshake cfg e = s' at hstep
  cases hstep with
  | move hm => exact handoff_move hcb hs hm
  | @record o pc hr =>
    have heq : ({ s.recordHandshakeOutcome o with hs := pc } : Session).handoff
        = { s.handoff with hs := pc } := by
      rw [← handoff_record s o]; rfl
    rw [heq]
    generalize hpc : s.hs = p at hr
    cases hr with
    | completed =>
      exact .on (show s.hs.passedCheck = true by rw [hpc]; rfl) rfl
    | fail | late =>
      exact handoff_other hpc rfl (by simp) rfl
  | grant h =>
    rw [handoff_log, show callbacks [.granted _] = [] from rfl, List.append_nil]
    have hf := handing_of_fresh (HandshakePc.fresh_of_asking h)
    exact .move hf.1 hf.2 rfl
  | release h =>
    rw [handoff_log, show callbacks [.released _] = [] from rfl, List.append_nil]
    exact handoff_other h rfl (by simp) rfl
  | publishKeys h => exact handoff_other h rfl (by simp) rfl
  | establish h => exact .on (show s.hs.passedCheck = true by rw [h]; rfl) rfl
  | publish h => exact .store h
  | callOnSession h =>
    rw [handoff_log]
    exact .call h
  | @close r pc h =>
    have heq : ∀ q : HandshakePc, ({ (s.callClose r pc).1 with hs := q } : Session).handoff
        = { s.handoff with hs := q } := by
      intro q
      rw [← handoff_callClose s r pc]; rfl
    rw [heq]
    refine handoff_other h rfl (by simp) ?_
    split <;> rfl

/-! ## Whole runs -/

/-- The teardown looks at `published` between the handshake's check and its store, or the
embedder hears of the end before it heard of the session. -/
def Overtakes (s : Session) : Input → Prop
  | .teardown => s.stopOnce.aboutToLook = true ∧ s.hs.passedCheck = true
  | .callback => s.callback.isSome = true ∧ s.hs = .callOnSession
  | _ => False

instance (s : Session) : (inp : Input) → Decidable (Overtakes s inp)
  | .teardown => inferInstanceAs (Decidable (_ ∧ _))
  | .callback => inferInstanceAs (Decidable (_ ∧ _))
  | .handshake _ | .handshakeWindow _ | .close _ | .closer _ | .softReset _ | .beginRenegotiation _
  | .runRenegotiation _ _ | .renegotiationWindow _ _ | .runReneg _ | .packet _ | .data _ _
  | .write _ | .sealWrite _ | .elapse _ => inferInstanceAs (Decidable False)

theorem aboutToLook_iff {o : Once} : o.aboutToLook = true ↔ ∃ r, o = .running r .loadPublished := by
  constructor
  · intro h
    cases o with
    | fresh | done => cases h
    | running r pc => cases pc <;> first | exact ⟨r, rfl⟩ | cases h
  · rintro ⟨r, rfl⟩; rfl

/-- **The session refines the handoff**, and overtakes exactly where the label says so. -/
theorem step_handoff (hcfg : cfg.onSession = true ∧ cfg.onSessionClosed = true)
    (hs : s.life.StopClosed) (inp : Input) :
    ∃ l, HandoffStep s.handoff l (s.step A cfg inp).handoff ∧
    (Overtakes s inp ↔ l.overtakes s.hs) := by
  cases hof : inp.ofLife with
  | false =>
    refine ⟨.quiet, ?_, ?_⟩
    · unfold Session.handoff
      rw [Session.life_step A cfg s hof]
      exact .same
    · cases inp <;> first | (cases hof; done) | exact Iff.rfl
  | true =>
    cases inp with
    | handshake e => exact ⟨.quiet, handoff_handshake hcfg.1 hs, Iff.rfl⟩
    | handshakeWindow | closer =>
      refine ⟨.quiet, ?_, Iff.rfl⟩
      rw [handoff_waits]
      · exact .same
      · rfl
      · nofun
    | teardown =>
      by_cases hlook : s.stopOnce.aboutToLook = true
      · obtain ⟨r, hr⟩ := aboutToLook_iff.mp hlook
        have hk : s.handoff.looked = false := by
          show s.stopOnce.isDone = false
          rw [hr]; rfl
        refine ⟨.look, ?_, ⟨fun h => h.2, fun h => ⟨hlook, h⟩⟩⟩
        show HandoffStep _ _ (s.teardown cfg).handoff
        rw [handoff_look hr hcfg.2]
        exact .look r hk
      · refine ⟨.quiet, ?_, ⟨fun h => hlook h.1, False.elim⟩⟩
        show HandoffStep _ _ (s.teardown cfg).handoff
        rw [handoff_teardown fun r hr => hlook (aboutToLook_iff.mpr ⟨r, hr⟩)]
        exact .same
    | callback =>
      show ∃ l, HandoffStep _ l s.callOnSessionClosed.handoff ∧ _
      unfold Session.callOnSessionClosed
      cases hc : s.callback with
      | none =>
        refine ⟨.quiet, .same, ⟨?_, False.elim⟩⟩
        rintro ⟨hsome, _⟩
        rw [hc] at hsome; cases hsome
      | some r =>
        refine ⟨.tell, ?_, ⟨fun h => h.2, fun h => ⟨by rw [hc]; rfl, h⟩⟩⟩
        rw [handoff_log]
        exact .tell hc
    | _ => cases hof

/-! The body closes `stopCh` before it snapshots, releases, closes or looks. -/

theorem stopClosed_new (self : Nat) (now : Int) : (Session.new self now).life.StopClosed := trivial

theorem stopClosed_mono {l l' : Life} (h : l.StopClosed) (hstop : l'.stopped = l.stopped)
    (honce : l'.stopOnce = l.stopOnce ∨ ∃ r, l'.stopOnce = .running r .storeReason) :
    l'.StopClosed := by
  unfold Life.StopClosed at h ⊢
  rcases honce with ho | ⟨r, ho⟩
  · rw [ho, hstop]; exact h
  · rw [ho]; trivial

theorem stopClosed_teardown (h : s.life.StopClosed) : (s.teardown cfg).life.StopClosed := by
  unfold Session.teardown
  cases hs : s.stopOnce with
  | fresh | done => exact h
  | running r pc =>
    have h' : s.life.StopClosed := h
    simp only [Life.StopClosed, Session.life, hs] at h'
    cases pc with
    | storeReason => trivial
    | closeStopCh => rfl
    | snapshot | remove | loadPublished => exact h'
    | release ip => cases ip <;> exact h'
    | closeConns cs => cases cs <;> exact h'

/-- `stopCh` is closed in time, whatever the goroutines do. -/
theorem stopClosed_step (h : s.life.StopClosed) (inp : Input) :
    (s.step A cfg inp).life.StopClosed := by
  by_cases ht : inp = .teardown
  · subst ht
    exact stopClosed_teardown h
  · obtain ⟨hstop, honce⟩ := bodyKept_step (s := s) A cfg ht
    exact stopClosed_mono h hstop (honce.imp_right And.right)

/-- Every goroutine of bring-up and teardown has finished, and the session is torn down. -/
structure TornDown (s : Session) : Prop where
  hs : s.hs = .returned
  window : s.window = .returned
  stopOnce : s.stopOnce = .done
  closers : ∀ c ∈ s.closers, c.2 = .returned
  callback : s.callback = none

instance (s : Session) : Decidable (TornDown s) :=
  decidable_of_iff (s.hs = .returned ∧ s.window = .returned ∧ s.stopOnce = .done
      ∧ (∀ c ∈ s.closers, c.2 = .returned) ∧ s.callback = none)
    ⟨fun ⟨h1, h2, h3, h4, h5⟩ => ⟨h1, h2, h3, h4, h5⟩,
      fun ⟨h1, h2, h3, h4, h5⟩ => ⟨h1, h2, h3, h4, h5⟩⟩

/-- `OnSession` and one `OnSessionClosed` after it, or neither. -/
def Paired (hist : List Event) : Prop :=
  callbacks hist = [] ∨ ∃ r, callbacks hist = [.onSession, .onSessionClosed r]

theorem paired_of_onTrack (h : TornDown s) (ht : s.handoff.OnTrack) : Paired s.hist := by
  have hlook : s.handoff.looked = true := by
    show s.stopOnce.isDone = true
    rw [h.stopOnce]; rfl
  have hnot : ¬ s.handoff.Owed := by
    rintro (⟨hk, _⟩ | ⟨_, hc⟩)
    · cases hlook.symm.trans hk
    · rw [show s.handoff.callback = none from h.callback] at hc; cases hc
  unfold Paired
  rw [← handoff_calls]
  cases ht with
  | notYet _ _ _ hl => exact .inl hl
  | passed hs =>
    rw [show s.handoff.hs = .returned from h.hs] at hs; cases hs
  | stored _ _ ho | handed _ _ ho => exact absurd ho hnot
  | closed _ _ _ hl => exact .inr ⟨_, hl⟩

theorem not_paired_of_broken (h : TornDown s) (hb : s.handoff.Broken) : ¬ Paired s.hist := by
  unfold Paired
  rw [← handoff_calls]
  cases hb with
  | lost hs =>
    rw [show s.handoff.hs = .returned from h.hs] at hs; cases hs
  | never _ _ _ hl | early r rest hl => rw [hl]; simp

/--
**When the callbacks come in pairs.** With both callbacks configured, in every run of
a session's goroutines that ends with the session torn down: `OnSession` and exactly
one `OnSessionClosed` after it, or neither, exactly when no step of the run was the
teardown looking at `published` between the handshake's `closing` check and its store,
or the callback goroutine calling before `OnSession` was called.
-/
theorem callbacks_paired_iff (A : Aead) (cfg : Config) (self : Nat) (now : Int) (ins : List Input)
    (hcfg : cfg.onSession = true ∧ cfg.onSessionClosed = true)
    (hdown : TornDown (Machine.run (Session.step A cfg) (.new self now) ins)) :
    Paired (Machine.run (Session.step A cfg) (.new self now) ins).hist
      ↔ Machine.Along (Session.step A cfg) (fun s inp => ¬ Overtakes s inp)
        (.new self now) ins := by
  have hrun := Machine.run_dichotomy (Session.step A cfg)
    (I := fun s => s.life.StopClosed ∧ s.handoff.OnTrack)
    (B := fun s => s.life.StopClosed ∧ s.handoff.Broken)
    (P := fun s inp => ¬ Overtakes s inp) ?_ ?_ ?_
    (.new self now) ins ⟨stopClosed_new self now, .notYet rfl rfl rfl rfl⟩
  · constructor
    · intro hp
      refine Classical.byContradiction fun hn => ?_
      exact not_paired_of_broken hdown (hrun.2 hn).2 hp
    · intro ha
      exact paired_of_onTrack hdown (hrun.1 ha).2
  · rintro s inp ⟨hs, ht⟩ hp
    obtain ⟨l, hstep, hiff⟩ := step_handoff (A := A) hcfg hs inp
    exact ⟨stopClosed_step hs inp, onTrack_step ht hstep fun hl => hp (hiff.mpr hl)⟩
  · rintro s inp ⟨hs, ht⟩ hp
    obtain ⟨l, hstep, hiff⟩ := step_handoff (A := A) hcfg hs inp
    exact ⟨stopClosed_step hs inp, overtakes_breaks ht hstep (hiff.mp (Classical.not_not.mp hp))⟩
  · rintro s inp ⟨hs, hb⟩
    obtain ⟨l, hstep, _⟩ := step_handoff (A := A) hcfg hs inp
    exact ⟨stopClosed_step hs inp, broken_step hb hstep⟩

/-- A session that comes up, is closed by its embedder and reports both. -/
theorem embedder_close_paired :
    let cfg : Config := { renegSec := 3600, renegMinInterval := 60 }
    let s := Machine.run (Session.step zeroTagAead cfg) (.new 0 0)
      (List.replicate 14 (.handshake { grant := some ⟨10, 0⟩ })
        ++ [.handshakeWindow false, .close .embedder, .closer 0]
        ++ List.replicate 8 .teardown ++ [.closer 0, .closer 0, .callback])
    TornDown s ∧ Paired s.hist := by
  intro cfg s
  have hdown : TornDown s := by decide +kernel
  exact ⟨hdown,
    (callbacks_paired_iff zeroTagAead cfg 0 0 _ ⟨rfl, rfl⟩ hdown).mpr (by decide +kernel)⟩

/--
The server closes the session just after the handshake's last `closing` check: the
embedder is handed a session whose end it will never hear of.
-/
theorem close_after_check_loses_callback :
    let cfg : Config := { renegSec := 3600, renegMinInterval := 60 }
    let hs : Input := .handshake { grant := some ⟨10, 0⟩ }
    let s := Machine.run (Session.step zeroTagAead cfg) (.new 0 0)
      (List.replicate 10 hs ++ [.close .serverClose, .closer 0] ++ List.replicate 8 .teardown
        ++ [.closer 0, .closer 0] ++ List.replicate 4 hs ++ [.handshakeWindow false])
    TornDown s ∧ callbacks s.hist = [.onSession] ∧ ¬ Paired s.hist := by
  intro cfg hs s
  have h : TornDown s ∧ callbacks s.hist = [.onSession] := by decide +kernel
  refine ⟨h.1, h.2, ?_⟩
  unfold Paired
  rw [h.2]
  simp

end GoVpn.Proof
