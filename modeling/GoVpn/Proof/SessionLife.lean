import GoVpn.Ovpn.SessionFrames

/-!
# The part of a session its bring-up and teardown work on

`runHandshake`, its window, the callers of `closeWithReason`, the body of `stopOnce`
and the callback goroutine share a handful of flags. Renegotiations and data traffic
leave all of them alone, so what is proved about the former holds whatever the
latter do in between.
-/

namespace GoVpn.Ovpn

open GoVpn.Control (Bytes)
open GoVpn.Data (Aead)

/-- The events of bring-up and teardown. -/
def Event.ofLife : Event → Bool
  | .demoted _ _ | .queued _ _ _ => false
  | _ => true

/-- What bring-up and teardown read and write. -/
structure Life where
  self : Nat
  stopped : Bool
  doneClosed : Bool
  outcomeRecorded : Bool
  established : Bool
  published : Bool
  assignedIP : Option IPv4
  peerID : PeerID
  stopOnce : Once
  hs : HandshakePc
  window : WindowPc
  callback : Option CloseReason
  events : List Event

def Session.life (s : Session) : Life where
  self := s.self
  stopped := s.stopped
  doneClosed := s.doneClosed
  outcomeRecorded := s.outcomeRecorded
  established := s.established
  published := s.published
  assignedIP := s.assignedIP
  peerID := s.peerID
  stopOnce := s.stopOnce
  hs := s.hs
  window := s.window
  callback := s.callback
  events := s.hist.filter Event.ofLife

/-- The goroutines of bring-up and teardown. -/
def Input.ofLife : Input → Bool
  | .handshake _ | .handshakeWindow _ | .closer _ | .teardown | .callback => true
  | _ => false

namespace Session

theorem life_append {q : Event → Bool} {es : List Event} (hes : es.all q = true)
    (hq : ∀ e, q e = true → e.ofLife = false) (s : Session) :
    ({ s with hist := s.hist ++ es } : Session).life = s.life := by
  unfold life
  rw [filter_append_of_all hes hq]

/-- What renegotiations and data traffic may do beside their own business. -/
structure Beside (s t : Session) : Prop where
  life : t.life = s.life
  /-- They may call `closeWithReason`. -/
  closers : ∃ cs, (∀ x ∈ cs, x.2 = .enter) ∧ t.closers = s.closers ++ cs

/-- **The inversion of the other inputs.** -/
theorem beside_step (A : Aead) (cfg : Config) (s : Session) {inp : Input} (h : inp.ofLife = false) :
    Beside s (s.step A cfg inp) := by
  have same : ∀ {t t' : Session}, t = t' → t'.life = s.life → t'.closers = s.closers →
      Beside s t := by
    rintro t _ rfl hlife hclosers
    exact ⟨hlife, [], by simp, by rw [hclosers, List.append_nil]⟩
  cases inp with
  | handshake | handshakeWindow | closer | teardown | callback => cases h
  | close c => exact ⟨rfl, [(c.reason, .enter)], by simp, rfl⟩
  | packet | elapse => exact same rfl rfl rfl
  | softReset | beginRenegotiation | renegotiationWindow | runReneg | write =>
    refine books_rule s (P := Beside s) ?_ rfl
    intros
    exact same rfl rfl rfl
  | runRenegotiation i e =>
    obtain ⟨_, _, _, _, _, _, _, _, cs, es, _, hcs, hes, h⟩ := runRenegotiation_frame s i e
    refine ⟨(congrArg life h).trans (life_append hes ?_ s), cs, hcs, congrArg Session.closers h⟩
    intro e he
    cases e <;> first | rfl | cases he
  | data i e =>
    obtain ⟨_, _, cs, es, _, hcs, hes, h⟩ := dataStep_frame A s i e
    refine ⟨(congrArg life h).trans (life_append hes ?_ s), cs, hcs, congrArg Session.closers h⟩
    intro e he
    cases e <;> first | rfl | cases he
  | sealWrite i =>
    obtain ⟨_, _, _, h⟩ := sealWrite_frame A s i
    exact same h rfl rfl

/-- Everything else leaves bring-up and teardown alone. -/
theorem life_step (A : Aead) (cfg : Config) (s : Session) {inp : Input} (h : inp.ofLife = false) :
    (s.step A cfg inp).life = s.life :=
  (beside_step A cfg s h).life

end Session

/-! ## A step of `runHandshake` -/

/-- Before the pool has granted anything; `pushRead` can be on either side. -/
def HandshakePc.fresh : HandshakePc → Bool
  | .tls | .keyMethod2 | .pushStart | .assign | .allocate | .reserve _ _ | .sessionByIP _
  | .lookup _ _ | .evict _ _ | .evicting _ _ _ => true
  | _ => false

/-- Asking the pool for an address. -/
def HandshakePc.asking : HandshakePc → Bool
  | .allocate | .reserve _ _ => true
  | _ => false

theorem HandshakePc.fresh_of_asking {pc : HandshakePc} (h : pc.asking = true) :
    pc.fresh = true := by
  cases pc <;> first | rfl | cases h

/-- The moves of the program counter that change no shared state. -/
inductive HandshakeMove (cfg : Config) (s : Session) : HandshakePc → Prop
  | fresh {pc : HandshakePc} (h : s.hs.fresh = true) (h' : pc.fresh = true) : HandshakeMove cfg s pc
  | request (h : s.hs = .pushStart) : HandshakeMove cfg s .pushRead
  | assign (h : s.hs = .pushRead) (hip : s.assignedIP = none) : HandshakeMove cfg s .assign
  | again (h : s.hs = .pushRead) (hip : s.assignedIP.isSome = true) : HandshakeMove cfg s .pushReply
  | more (h : s.hs = .pushReply) : HandshakeMove cfg s .pushRead
  | pushed (h : s.hs = .pushReply) : HandshakeMove cfg s .closeDone
  | fail {o : Outcome} {r : CloseReason} (ho : o ≠ .completed)
      (h : s.hs.fresh = true ∨ s.hs = .pushRead ∨ s.hs = .pushReply) :
      HandshakeMove cfg s (.fail o r)
  | refuse {g : Grant} (h : s.hs = .publishKeys g) : HandshakeMove cfg s (.releaseGrant g)
  | closeDone (h : s.hs = .closeDone) : HandshakeMove cfg s .checkClosing
  | closing (h : s.hs = .checkClosing) (hstop : s.stopped = true) : HandshakeMove cfg s .failLate
  | pass (h : s.hs = .checkClosing) (hstop : s.stopped = false) :
      HandshakeMove cfg s .recordCompleted
  | failDone {r : CloseReason} (h : s.hs = .failDone r) : HandshakeMove cfg s (.close r .enter)
  | noCallback (h : s.hs = .publish) (hcb : cfg.onSession = false) : HandshakeMove cfg s .returned
  | returned (h : s.hs = .returned) : HandshakeMove cfg s .returned

/-- Where the handshake records which outcome, and what it does next. -/
inductive HandshakeRecord : HandshakePc → Outcome → HandshakePc → Prop
  | completed : HandshakeRecord .recordCompleted .completed .establish
  | fail {o : Outcome} {r : CloseReason} : HandshakeRecord (.fail o r) o (.failDone r)
  | late : HandshakeRecord .failLate .failed (.close .unknown .enter)

/-- Everything a step of `runHandshake` can do. -/
inductive HandshakeStep (cfg : Config) (s : Session) : Session → Prop
  | move {pc : HandshakePc} {c : Option Cipher} {k : Bytes} {d : Bool}
      (h : HandshakeMove cfg s pc) :
      HandshakeStep cfg s { s with hs := pc, cipher := c, dataKeys := k, doneClosed := d }
  | record {o : Outcome} {pc : HandshakePc} (h : HandshakeRecord s.hs o pc) :
      HandshakeStep cfg s { s.recordHandshakeOutcome o with hs := pc }
  | grant {g : Grant} (h : s.hs.asking = true) :
      HandshakeStep cfg s ({ s with hs := .publishKeys g }.log (.granted g))
  | release {g : Grant} (h : s.hs = .releaseGrant g) :
      HandshakeStep cfg s ({ s with hs := .fail .failed .unknown }.log (.released g))
  | publishKeys {g : Grant} {w : Data.Wrapper} (h : s.hs = .publishKeys g)
      (hstop : s.stopped = false) :
      HandshakeStep cfg s
        { s with
          assignedIP := some g.ip
          peerID := g.peerID
          primary :=
            { keyID := 0, conn := some 0, wrapper := some s.gens.length,
              established := some s.clock }
          gens := s.gens ++ [w]
          poll := .idle
          hs := .pushReply }
  | establish (h : s.hs = .establish) :
      HandshakeStep cfg s { s with established := true, hs := .publish }
  | publish (h : s.hs = .publish) :
      HandshakeStep cfg s { s with published := true, hs := .callOnSession }
  | callOnSession (h : s.hs = .callOnSession) :
      HandshakeStep cfg s ({ s with hs := .returned }.log .onSession)
  | close {r : CloseReason} {pc : ClosePc} (h : s.hs = .close r pc) :
      HandshakeStep cfg s { (s.callClose r pc).1 with
        hs := if (s.callClose r pc).2 = .returned then
        .returned else .close r (s.callClose r pc).2 }

theorem HandshakeStep.of_move {cfg : Config} {s : Session} {pc : HandshakePc}
    (h : HandshakeMove cfg s pc) : HandshakeStep cfg s { s with hs := pc } :=
  .move (c := s.cipher) (k := s.dataKeys) (d := s.doneClosed) h

/-- **The inversion of `runHandshake`.** -/
theorem handshake_cases (cfg : Config) (s : Session) (e : Env) :
    HandshakeStep cfg s (s.handshake cfg e) := by
  unfold Session.handshake
  cases h : s.hs with
  | tls =>
    refine .of_move ?_
    split
    · exact .fresh (by rw [h]; rfl) rfl
    · exact .fail (by simp) (.inl (by rw [h]; rfl))
  | keyMethod2 =>
    have hf : s.hs.fresh = true := by rw [h]; rfl
    dsimp only
    split
    · exact .move (.fresh hf rfl)
    · exact .move (.fail (by simp) (.inl hf))
    · exact .of_move (.fail (by simp) (.inl hf))
    · exact .of_move (.fail (by simp) (.inl hf))
  | pushStart =>
    refine .of_move ?_
    split
    · exact .request h
    · exact .fail (by simp) (.inl (by rw [h]; rfl))
  | pushRead =>
    dsimp only
    split
    · refine .of_move ?_
      split
      · rename_i hip; exact .again h hip
      · rename_i hip; exact .assign h (by simpa using hip)
    · exact .of_move (.fail (by simp) (.inr (.inl h)))
  | assign =>
    have hf : s.hs.fresh = true := by rw [h]; rfl
    dsimp only
    split
    · exact .of_move (.fresh hf rfl)
    · exact .of_move (.fresh hf rfl)
    · exact .of_move (.fail (by simp) (.inl hf))
    · exact .of_move (.fresh hf rfl)
  | allocate =>
    have hf : s.hs.fresh = true := by rw [h]; rfl
    dsimp only
    split
    · exact .grant (by rw [h]; rfl)
    · exact .of_move (.fail (by simp) (.inl hf))
  | reserve want again =>
    have hf : s.hs.fresh = true := by rw [h]; rfl
    dsimp only
    split
    · exact .grant (by rw [h]; rfl)
    · refine .of_move ?_
      split
      · exact .fail (by simp) (.inl hf)
      · exact .fresh hf rfl
    · exact .of_move (.fail (by simp) (.inl hf))
  | sessionByIP want => exact .of_move (.fresh (by rw [h]; rfl) rfl)
  | lookup want cands =>
    have hf : s.hs.fresh = true := by rw [h]; rfl
    cases cands with
    | nil => exact .of_move (.fresh hf rfl)
    | cons j js =>
      dsimp only
      split
      · refine .of_move ?_
        split <;> exact .fresh hf rfl
      · exact .of_move (.fresh hf rfl)
  | evict want old => exact .of_move (.fresh (by rw [h]; rfl) rfl)
  | evicting want old caller =>
    have hf : s.hs.fresh = true := by rw [h]; rfl
    dsimp only
    split
    · exact .of_move (.fresh hf rfl)
    · exact .of_move (.fresh hf hf)
  | publishKeys g =>
    dsimp only
    unfold Session.publishKeys
    split
    · exact .of_move (.refuse h)
    · split
      · exact .of_move (.refuse h)
      · rename_i hstop; exact .publishKeys h (by simpa using hstop)
  | releaseGrant g => exact .release h
  | pushReply =>
    dsimp only
    split
    · refine .of_move ?_
      split
      · exact .more h
      · exact .pushed h
    · exact .of_move (.fail (by simp) (.inr (.inr h)))
  | closeDone => exact .move (.closeDone h)
  | checkClosing =>
    refine .of_move ?_
    split
    · rename_i hstop; exact .closing h hstop
    · rename_i hstop; exact .pass h (by simpa using hstop)
  | recordCompleted => exact .record (by rw [h]; exact .completed)
  | establish => exact .establish h
  | publish =>
    dsimp only
    split
    · exact .publish h
    · rename_i hcb; exact .of_move (.noCallback h (by simpa using hcb))
  | callOnSession => exact .callOnSession h
  | fail o r => exact .record (by rw [h]; exact .fail)
  | failDone r => exact .move (.failDone h)
  | failLate => exact .record (by rw [h]; exact .late)
  | close r pc => exact .close h
  | returned =>
    have hmove : HandshakeMove cfg s s.hs := by rw [h]; exact .returned h
    exact HandshakeStep.of_move hmove

/-! ## `stopOnce` -/

section StopOnce

variable {s : Session}

/-- `stopCh` is as it was, and the body of `stopOnce` is where it was or has been started. -/
def BodyKept (s t : Session) : Prop :=
  t.stopped = s.stopped
    ∧ (t.stopOnce = s.stopOnce ∨ s.stopOnce = .fresh ∧ ∃ r, t.stopOnce = .running r .storeReason)

theorem bodyKept_callClose (s : Session) (r : CloseReason) (pc : ClosePc) :
    BodyKept s (s.callClose r pc).1 := by
  rcases s.callClose_cases r pc with h | ⟨ho, h⟩ | ⟨_, h⟩ <;> rw [h]
  · exact ⟨rfl, .inl rfl⟩
  · exact ⟨rfl, .inr ⟨ho, r, rfl⟩⟩
  · exact ⟨rfl, .inl rfl⟩

theorem bodyKept_record (s : Session) (o : Outcome) : BodyKept s (s.recordHandshakeOutcome o) := by
  obtain ⟨_, _, h⟩ := s.record_frame o
  rw [h]
  exact ⟨rfl, .inl rfl⟩

/-- Only the body of `stopOnce` takes `stopOnce` further; everyone else can start it. -/
theorem bodyKept_step (A : Aead) (cfg : Config) {inp : Input} (h : inp ≠ .teardown) :
    BodyKept s (s.step A cfg inp) := by
  cases hof : inp.ofLife with
  | false =>
    have hlife := Session.life_step A cfg s hof
    exact ⟨congrArg Life.stopped hlife, .inl (congrArg Life.stopOnce hlife)⟩
  | true =>
    cases inp with
    | handshake e =>
      show BodyKept s (s.handshake cfg e)
      have hstep := handshake_cases cfg s e
      generalize s.handshake cfg e = t at hstep
      cases hstep with
      | @record o _ _ => exact bodyKept_record s o
      | @close r pc _ => exact bodyKept_callClose s r pc
      | _ => exact ⟨rfl, .inl rfl⟩
    | handshakeWindow | closer | callback =>
      exact waits_rule (P := BodyKept s) (fun _ => ⟨rfl, .inl rfl⟩)
        (fun _ _ _ _ => bodyKept_record s _) (fun r pc _ _ => bodyKept_callClose s r pc)
        (fun _ _ => ⟨rfl, .inl rfl⟩) rfl
    | teardown => exact absurd rfl h
    | _ => cases hof

/-- Once the body of `stopOnce` has run, it has. -/
theorem done_step (A : Aead) (cfg : Config) (inp : Input) (h : s.stopOnce = .done) :
    (s.step A cfg inp).stopOnce = .done := by
  by_cases hinp : inp = .teardown
  · subst hinp
    simp only [Session.step, Session.teardown, h]
  · rcases (bodyKept_step A cfg hinp).2 with heq | ⟨hfresh, -⟩
    · exact heq.trans h
    · rw [h] at hfresh
      cases hfresh

end StopOnce

end GoVpn.Ovpn
