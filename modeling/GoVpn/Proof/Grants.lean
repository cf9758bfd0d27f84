import GoVpn.Proof.Callbacks

/-!
# A session and the address granted to it

A grant is in the hands of `runHandshake` until the keys are published, and then in
the fields of the session until the teardown has read them and given it back. What
the session does with the pool is, whatever else its goroutines do, at most one grant
and at most one release of it.
-/

namespace GoVpn.Ovpn

open GoVpn.Data (Aead)

/-- The events the pool takes part in. -/
def Event.ofPool : Event → Bool
  | .granted _ | .released _ => true
  | _ => false

/-- What the pool did for the session, in order. -/
def poolEvents (hist : List Event) : List Event := hist.filter Event.ofPool

/-- The grant `runHandshake` has not put into the session yet. -/
def HandshakePc.inHand : HandshakePc → Option Grant
  | .publishKeys g | .releaseGrant g => some g
  | _ => none

/-- The keys are not published yet; `pushRead` can be on either side. -/
def HandshakePc.unpublished (pc : HandshakePc) : Bool := pc.fresh || pc.inHand.isSome

/-- The body of `stopOnce` has called `release`. -/
def Once.gaveBack : Once → Bool
  | .running _ (.remove _) | .running _ (.closeConns _) | .running _ .loadPublished | .done => true
  | _ => false

/-- The body of `stopOnce` has taken the session out of `dataSessions`. -/
def Once.unrouted : Once → Bool
  | .running _ (.release _ _ _) => true
  | o => o.gaveBack

/-- The tunnel address and peer-id a session has, in hand or in its fields. -/
def Life.holds (l : Life) : Option Grant :=
  match l.hs.inHand with
  | some g => some g
  | none => l.assignedIP.map fun ip => { ip := ip, peerID := l.peerID }

/-- What it has and did not give back. -/
def Life.held (l : Life) : Option Grant :=
  match l.hs.inHand with
  | some g => some g
  | none => if l.stopOnce.gaveBack then none else l.holds

def Session.holds (s : Session) : Option Grant := s.life.holds

/-- A session as the pool sees it. -/
structure Holding where
  held : Option Grant
  log : List Event

def Life.holding (l : Life) : Holding := { held := l.held, log := poolEvents l.events }

def Session.holding (s : Session) : Holding := s.life.holding

/-- What the pool is asked for. -/
inductive PoolOp
  | none
  | grant (g : Grant)
  | release (g : Grant)

/-- What a step asks of the pool. -/
def Session.poolOp (s : Session) : Input → PoolOp
  | .handshake e =>
    match s.hs with
    | .allocate =>
      match e.grant with
      | some g => .grant g
      | none => .none
    | .reserve (some ip) _ =>
      match e.reserved with
      | .inr peerID => .grant { ip := ip, peerID := peerID }
      | .inl _ => .none
    | .releaseGrant g => .release g
    | _ => .none
  | .teardown =>
    match s.stopOnce with
    | .running _ (.release (some ip) peerID _) => .release { ip := ip, peerID := peerID }
    | _ => .none
  | _ => .none

/-- The dealings with the pool as a protocol of their own. -/
inductive HoldStep (h : Holding) : PoolOp → Holding → Prop
  | none : HoldStep h .none h
  | grant (g : Grant) (hn : h.held = none) (hl : h.log = []) :
      HoldStep h (.grant g) { held := some g, log := [.granted g] }
  | release (g : Grant) (hg : h.held = some g) :
      HoldStep h (.release g) { held := none, log := h.log ++ [.released g] }

/-- Nothing yet; granted; granted and given back. -/
inductive Holding.Lawful (h : Holding) : Prop
  | nothing (hh : h.held = none) (hl : h.log = [])
  | granted (g : Grant) (hh : h.held = some g) (hl : h.log = [.granted g])
  | released (g : Grant) (hh : h.held = none) (hl : h.log = [.granted g, .released g])

/-- Where in a session's life its address can be. -/
structure Life.Grants (l : Life) : Prop where
  /-- The fields are empty while the keys are not published. -/
  unassigned : l.hs.unpublished = true → l.assignedIP = none
  /-- The reply is sent after they are. -/
  replying : l.hs = .pushReply → l.assignedIP.isSome = true
  /-- The pool is asked once. -/
  ungranted : l.hs.fresh = true ∨ l.hs = .pushRead ∧ l.assignedIP = none → poolEvents l.events = []
  /-- The body of `stopOnce` gives back what the fields hold. -/
  releasing : ∀ r ip peerID conns, l.stopOnce = .running r (.release ip peerID conns) →
    ip = l.assignedIP ∧ peerID = l.peerID
  stopClosed : l.StopClosed

end GoVpn.Ovpn

namespace GoVpn.Proof

open GoVpn.Data (Aead)
open GoVpn.Ovpn

variable {A : Aead} {cfg : Config} {s : Session}

/-- The pool's events come in order. -/
theorem lawful_step {h h' : Holding} {op : PoolOp} (hl : h.Lawful) (hs : HoldStep h op h') :
    h'.Lawful := by
  cases hs with
  | none => exact hl
  | grant g => exact .granted g rfl rfl
  | release g hg =>
    cases hl with
    | nothing hh | released _ hh => cases hh.symm.trans hg
    | granted g' hh hl =>
      rw [hh, Option.some.injEq] at hg
      subst hg
      exact .released g' rfl (by simp [hl])

theorem poolEvents_life (s : Session) : s.holding.log = poolEvents s.hist := by
  show poolEvents (s.hist.filter Event.ofLife) = _
  unfold poolEvents
  rw [List.filter_filter]
  refine List.filter_congr fun e _ => ?_
  cases e <;> rfl

theorem poolEvents_log (s : Session) (e : Event) :
    poolEvents (s.log e).life.events = poolEvents s.life.events ++ poolEvents [e] := by
  show (s.log e).holding.log = s.holding.log ++ _
  rw [poolEvents_life, poolEvents_life]
  exact List.filter_append ..

variable {l l' : Life} {pc : HandshakePc}

theorem inHand_of_fresh (h : pc.fresh = true) : pc.inHand = none := by
  cases pc <;> first | rfl | cases h

theorem unpublished_of_fresh (h : pc.fresh = true) : pc.unpublished = true := by
  rw [HandshakePc.unpublished, h]; rfl

theorem held_of_inHand_none (h : l.hs.inHand = none) :
    l.held = if l.stopOnce.gaveBack then none
      else l.assignedIP.map fun ip => { ip := ip, peerID := l.peerID } := by
  unfold Life.held Life.holds
  rw [h]

theorem held_of_inHand {g : Grant} (h : l.hs.inHand = some g) : l.held = some g := by
  unfold Life.held
  rw [h]

theorem unrouted_of_gaveBack {o : Once} (h : o.gaveBack = true) : o.unrouted = true := by
  unfold Once.unrouted
  split
  · rfl
  · exact h

theorem unrouted_stopped (h : s.life.StopClosed) (ho : s.stopOnce.unrouted = true) :
    s.stopped = true := by
  unfold Life.StopClosed at h
  rw [show s.life.stopOnce = s.stopOnce from rfl] at h
  cases hs : s.stopOnce with
  | fresh => rw [hs] at ho; cases ho
  | done => rw [hs] at h; exact h
  | running r pc => cases pc <;> rw [hs] at h ho <;> first | exact h | cases ho

/-! ## The invariant -/

/-- The fields, the pool's events and the teardown are as they were, but for its start. -/
structure Undisturbed (l l' : Life) : Prop where
  assignedIP : l'.assignedIP = l.assignedIP
  peerID : l'.peerID = l.peerID
  stopped : l'.stopped = l.stopped
  stopOnce : l'.stopOnce = l.stopOnce
    ∨ l.stopOnce = .fresh ∧ ∃ r, l'.stopOnce = .running r .storeReason
  events : poolEvents l'.events = poolEvents l.events

theorem Undisturbed.refl (l : Life) : Undisturbed l l := ⟨rfl, rfl, rfl, Or.inl rfl, rfl⟩

theorem Undisturbed.holding (h : Undisturbed l l')
    (hs : l'.hs.inHand = l.hs.inHand) : l'.holding = l.holding := by
  have ho : l'.stopOnce.gaveBack = l.stopOnce.gaveBack := by
    rcases h.stopOnce with ho | ⟨ho, _, ho'⟩
    · rw [ho]
    · rw [ho, ho']; rfl
  unfold Life.holding Life.held Life.holds
  rw [hs, h.assignedIP, h.peerID, ho, h.events]

theorem Undisturbed.aside (h : Undisturbed l l') {pc : HandshakePc} {w : WindowPc} {b b' : Bool}
    {r : Option CloseReason} :
    Undisturbed l
      { l' with hs := pc, window := w, outcomeRecorded := b, established := b', callback := r } :=
  ⟨h.assignedIP, h.peerID, h.stopped, h.stopOnce, h.events⟩

theorem grants_new (self : Nat) (now : Int) : (Session.new self now).life.Grants :=
  ⟨fun _ => rfl, nofun, fun _ => rfl, nofun, stopClosed_new self now⟩

theorem Undisturbed.grants (hu : Undisturbed l l') (h : l.Grants)
    (hun : l'.hs.unpublished = true → l.assignedIP = none)
    (hrep : l'.hs = .pushReply → l.assignedIP.isSome = true)
    (hfr : l'.hs.fresh = true ∨ l'.hs = .pushRead ∧ l.assignedIP = none →
      poolEvents l.events = []) : l'.Grants := by
  have honce : l'.stopOnce = l.stopOnce ∨ ∃ r, l'.stopOnce = .running r .storeReason :=
    hu.stopOnce.imp id And.right
  refine ⟨?_, ?_, ?_, ?_, stopClosed_mono h.stopClosed hu.stopped honce⟩
  · rw [hu.assignedIP]; exact hun
  · rw [hu.assignedIP]; exact hrep
  · rw [hu.assignedIP, hu.events]; exact hfr
  · intro r ip peerID conns hr
    rcases honce with ho | ⟨r', ho⟩
    · rw [hu.assignedIP, hu.peerID]
      exact h.releasing r ip peerID conns (ho ▸ hr)
    · cases ho.symm.trans hr

/-- Past the exchange of requests and replies, or failed. -/
def settled : HandshakePc → Bool
  | .pushRead | .pushReply => false
  | pc => !pc.unpublished

theorem Undisturbed.grants_settled (hu : Undisturbed l l') (h : l.Grants)
    (hset : settled l'.hs = true) : l'.Grants := by
  refine hu.grants h ?_ ?_ ?_
  · intro hun
    generalize l'.hs = pc at hset hun
    cases pc <;> first | (cases hset; done) | cases hun
  · intro hrep
    rw [hrep] at hset; cases hset
  · rintro (hf | ⟨hr, _⟩)
    · generalize l'.hs = pc at hset hf
      cases pc <;> first | (cases hset; done) | cases hf
    · rw [hr] at hset; cases hset

theorem undisturbed_log (s : Session) {e : Event} (h : e.ofPool = false) :
    Undisturbed s.life (s.log e).life := by
  refine ⟨rfl, rfl, rfl, .inl rfl, (poolEvents_log s e).trans ?_⟩
  rw [show poolEvents [e] = [] by simp [poolEvents, h], List.append_nil]

theorem undisturbed_callClose (s : Session) (r : CloseReason) (pc : ClosePc) :
    Undisturbed s.life (s.callClose r pc).1.life := by
  rcases s.callClose_cases r pc with h | ⟨ho, h⟩ | ⟨_, h⟩
  · rw [h]; exact .refl _
  · rw [h]; exact ⟨rfl, rfl, rfl, .inr ⟨ho, r, rfl⟩, rfl⟩
  · rw [h]; exact undisturbed_log (s.closeConn 0 .teardown) rfl

theorem undisturbed_record (s : Session) (o : Outcome) :
    Undisturbed s.life (s.recordHandshakeOutcome o).life := by
  rcases s.record_cases o with h | ⟨_, h⟩
  · rw [h]; exact .refl _
  · rw [h]; exact (undisturbed_log s (e := .counted o) rfl).aside

/-! ## The handshake -/

/-- A move of the handshake keeps the account of the grants. -/
theorem grants_move (h : s.life.Grants) (hm : HandshakeMove cfg s pc)
    (hu : Undisturbed s.life l') (hl : l'.hs = pc) : l'.Grants := by
  have hnew : pc.fresh = false → pc ≠ .pushRead →
      l'.hs.fresh = true ∨ l'.hs = .pushRead ∧ s.life.assignedIP = none →
      poolEvents s.life.events = [] := by
    rw [hl]
    rintro hf hr (hf' | ⟨hr', _⟩)
    · cases hf.symm.trans hf'
    · exact absurd hr' hr
  cases hm with
  | fresh hf hf' =>
    refine hu.grants h (fun _ => h.unassigned (unpublished_of_fresh hf)) ?_
      fun _ => h.ungranted (.inl hf)
    rw [hl]
    rintro rfl; cases hf'
  | request hpc =>
    refine hu.grants h (by rw [hl]; nofun) (by rw [hl]; nofun) fun _ => h.ungranted (.inl ?_)
    show s.hs.fresh = true
    rw [hpc]; rfl
  | assign hpc hip =>
    exact hu.grants h (fun _ => hip) (by rw [hl]; nofun) fun _ => h.ungranted (.inr ⟨hpc, hip⟩)
  | again hpc hip => exact hu.grants h (by rw [hl]; nofun) (fun _ => hip) (hnew rfl (by simp))
  | more hpc =>
    refine hu.grants h (by rw [hl]; nofun) (by rw [hl]; nofun) ?_
    rw [hl]
    rintro (hf | ⟨_, hip⟩)
    · cases hf
    · have hsome := h.replying hpc
      rw [hip] at hsome; cases hsome
  | refuse hpc =>
    refine hu.grants h (fun _ => h.unassigned ?_) (by rw [hl]; nofun) (hnew rfl (by simp))
    show s.hs.unpublished = true
    rw [hpc]; rfl
  | pushed | fail | closeDone | closing | pass | failDone | noCallback
    | returned => exact hu.grants_settled h (by rw [hl]; rfl)

theorem grants_handshake (h : s.life.Grants) (e : Env) : (s.handshake cfg e).life.Grants := by
  have hstep := handshake_cases cfg s e
  generalize s.handshake cfg e = s' at hstep
  cases hstep with
  | move hm => exact grants_move h hm ⟨rfl, rfl, rfl, .inl rfl, rfl⟩ rfl
  | @record o pc hr =>
    refine (undisturbed_record s o).aside.grants_settled h ?_
    generalize s.hs = p at hr
    cases hr <;> rfl
  | @grant g ha =>
    have hf := HandshakePc.fresh_of_asking ha
    refine ⟨fun _ => h.unassigned (unpublished_of_fresh hf), nofun, ?_, h.releasing, h.stopClosed⟩
    rintro (hf' | ⟨hr, _⟩)
    · cases hf'
    · cases hr
  | release hpc =>
    refine ⟨nofun, nofun, ?_, h.releasing, h.stopClosed⟩
    rintro (hf | ⟨hr, _⟩)
    · cases hf
    · cases hr
  | publishKeys hpc hstop =>
    refine ⟨nofun, fun _ => rfl, ?_, ?_, h.stopClosed⟩
    · rintro (hf | ⟨hr, _⟩)
      · cases hf
      · cases hr
    · -- `stopCh` is open, so the body of `stopOnce` is not that far
      intro r ip peerID conns hr
      have hun : s.stopOnce.unrouted = true := by
        rw [show s.stopOnce = .running r (.release ip peerID conns) from hr]; rfl
      cases hstop.symm.trans (unrouted_stopped h.stopClosed hun)
  | establish | publish =>
    exact Undisturbed.grants_settled (l := s.life) ⟨rfl, rfl, rfl, .inl rfl, rfl⟩ h rfl
  | callOnSession =>
    exact (undisturbed_log s (e := .onSession) rfl).aside.grants_settled h rfl
  | @close r pc _ =>
    refine (undisturbed_callClose s r pc).aside.grants_settled h ?_
    split <;> rfl

/-- Moving on takes nothing in hand and drops nothing. -/
theorem inHand_move (hm : HandshakeMove cfg s pc) : pc.inHand = s.hs.inHand := by
  cases hm with
  | fresh h h' => rw [inHand_of_fresh h, inHand_of_fresh h']
  | fail _ h =>
    rcases h with h | h | h
    · exact (inHand_of_fresh h).symm
    · rw [h]; rfl
    · rw [h]; rfl
  | request h | assign h | again h | more h | pushed h | refuse h | closeDone h | closing h
    | pass h | failDone h | noCallback h | returned h =>
      exact (congrArg HandshakePc.inHand h).symm

theorem holding_handshake {e : Env} (h : s.life.Grants) (ha : s.hs.asking = false)
    (hr : ∀ g, s.hs ≠ .releaseGrant g) : (s.handshake cfg e).holding = s.holding := by
  have hstep := handshake_cases cfg s e
  generalize s.handshake cfg e = s' at hstep
  cases hstep with
  | move hm => exact Undisturbed.holding ⟨rfl, rfl, rfl, .inl rfl, rfl⟩ (inHand_move hm)
  | @record o pc hrec =>
    refine (undisturbed_record s o).aside.holding ?_
    show pc.inHand = s.hs.inHand
    generalize s.hs = p at hrec
    cases hrec <;> rfl
  | grant ha' => cases ha.symm.trans ha'
  | release hpc => exact absurd hpc (hr _)
  | @publishKeys g w hpc hstop =>
    -- the grant moves from the hand into the fields, which the body has not read yet
    have hback : s.stopOnce.gaveBack = false := by
      refine Bool.eq_false_iff.mpr fun hb => ?_
      cases hstop.symm.trans (unrouted_stopped h.stopClosed (unrouted_of_gaveBack hb))
    have hheld : s.life.held = some g := held_of_inHand (show s.hs.inHand = some g by rw [hpc]; rfl)
    unfold Session.holding Life.holding
    rw [hheld, held_of_inHand_none rfl]
    show Holding.mk (if s.stopOnce.gaveBack then none else _) _ = _
    rw [hback]
    rfl
  | establish hpc | publish hpc =>
    refine Undisturbed.holding ⟨rfl, rfl, rfl, .inl rfl, rfl⟩ ?_
    show _ = s.hs.inHand
    rw [hpc]; rfl
  | callOnSession hpc =>
    refine (undisturbed_log s (e := .onSession) rfl).aside.holding ?_
    show _ = s.hs.inHand
    rw [hpc]; rfl
  | @close r pc hpc =>
    refine (undisturbed_callClose s r pc).aside.holding ?_
    show _ = s.hs.inHand
    rw [hpc]
    split <;> rfl

/-! ## The other goroutines -/

/-- Only `runHandshake` and the body of `stopOnce` deal with the pool. -/
theorem undisturbed_step (A : Aead) (cfg : Config) (s : Session) {inp : Input}
    (hh : ∀ e, inp ≠ .handshake e) (ht : inp ≠ .teardown) :
    Undisturbed s.life (s.step A cfg inp).life ∧ (s.step A cfg inp).hs = s.hs := by
  cases hof : inp.ofLife with
  | false =>
    have hlife := Session.life_step A cfg s hof
    refine ⟨?_, show (s.step A cfg inp).life.hs = s.life.hs by rw [hlife]⟩
    rw [hlife]
    exact .refl _
  | true =>
    cases inp with
    | handshake e => exact absurd rfl (hh e)
    | teardown => exact absurd rfl ht
    | handshakeWindow | closer | callback =>
      exact waits_rule (P := fun t => Undisturbed s.life t.life ∧ t.hs = s.hs)
        (fun _ => ⟨(Undisturbed.refl s.life).aside, rfl⟩)
        (fun _ _ _ _ => ⟨(undisturbed_record s _).aside, (s.aside_record _).hs⟩)
        (fun r pc _ _ => ⟨(undisturbed_callClose s r pc).aside, (s.aside_callClose r pc).hs⟩)
        (fun _ r => ⟨(undisturbed_log s (e := .onSessionClosed r) rfl).aside, rfl⟩) rfl
    | _ => cases hof

theorem grants_teardown (h : s.life.Grants) : (s.teardown cfg).life.Grants := by
  have hc : (s.teardown cfg).life.StopClosed := stopClosed_teardown h.stopClosed
  unfold Session.teardown at hc ⊢
  cases ho : s.stopOnce with
  | fresh | done => exact h
  | running r pc =>
    rw [ho] at hc
    cases pc with
    | storeReason | closeStopCh | remove | loadPublished =>
      exact ⟨h.unassigned, h.replying, h.ungranted, nofun, hc⟩
    | snapshot =>
      refine ⟨h.unassigned, h.replying, h.ungranted, ?_, hc⟩
      intro r' ip peerID conns hr
      cases hr
      exact ⟨rfl, rfl⟩
    | closeConns cs =>
      cases cs <;> exact ⟨h.unassigned, h.replying, h.ungranted, nofun, hc⟩
    | release ip peerID conns =>
      cases ip with
      | none => exact ⟨h.unassigned, h.replying, h.ungranted, nofun, hc⟩
      | some ip =>
        refine ⟨h.unassigned, h.replying, fun hf => ?_, nofun, hc⟩
        -- there is an address to give back, so the pool was asked before
        have hip := (h.releasing r _ _ _ ho).1
        rcases hf with hf | ⟨_, hn⟩
        · exact absurd (h.unassigned (unpublished_of_fresh hf)) (by rw [← hip]; simp)
        · exact absurd (hip.trans hn) (by simp)

theorem grants_other (h : s.life.Grants) {inp : Input} (hh : ∀ e, inp ≠ .handshake e)
    (ht : inp ≠ .teardown) : (s.step A cfg inp).life.Grants := by
  obtain ⟨hu, (hs : (s.step A cfg inp).life.hs = s.life.hs)⟩ := undisturbed_step A cfg s hh ht
  exact hu.grants h (hs ▸ h.unassigned) (hs ▸ h.replying) (hs ▸ h.ungranted)

/-- Every step keeps the address where it can be. -/
theorem grants_step (h : s.life.Grants) (inp : Input) : (s.step A cfg inp).life.Grants := by
  cases inp with
  | handshake e => exact grants_handshake h e
  | teardown => exact grants_teardown h
  | _ => exact grants_other h (by simp) (by simp)

theorem holding_other {inp : Input} (hh : ∀ e, inp ≠ .handshake e) (ht : inp ≠ .teardown) :
    (s.step A cfg inp).holding = s.holding := by
  obtain ⟨hu, hs⟩ := undisturbed_step A cfg s hh ht
  exact hu.holding (congrArg HandshakePc.inHand hs)

theorem holding_release {r : CloseReason} {ip : IPv4} {peerID : PeerID} {conns : List Nat}
    (h : s.life.Grants) (ho : s.stopOnce = .running r (.release (some ip) peerID conns)) :
    HoldStep s.holding (.release { ip := ip, peerID := peerID }) (s.teardown cfg).holding := by
  obtain ⟨hip, hid⟩ := h.releasing r _ _ _ ho
  have hhand : s.life.hs.inHand = none := by
    cases hh : s.life.hs.inHand with
    | none => rfl
    | some g =>
      have hun : s.life.hs.unpublished = true := by
        rw [HandshakePc.unpublished, hh]; simp
      exact absurd (h.unassigned hun) (by rw [← hip]; simp)
  have hheld : s.holding.held = some { ip := ip, peerID := peerID } := by
    show s.life.held = _
    rw [held_of_inHand_none hhand, ← hip, ← hid]
    show (if s.stopOnce.gaveBack then _ else _) = _
    rw [ho]; rfl
  have hnew : (s.teardown cfg).holding
      = { held := none, log := s.holding.log ++ [.released { ip := ip, peerID := peerID }] } := by
    unfold Session.teardown
    rw [ho]
    let l : Life := { s.life with stopOnce := .running r (.remove conns) }
    have hgone : l.held = none := held_of_inHand_none (l := l) hhand
    show Holding.mk l.held _ = _
    rw [hgone]
    exact congrArg (Holding.mk none) (poolEvents_log s (.released { ip := ip, peerID := peerID }))
  rw [hnew]
  exact .release _ hheld

theorem holding_teardown (h : s.life.Grants)
    (ho : ∀ r ip peerID conns, s.stopOnce ≠ .running r (.release (some ip) peerID conns)) :
    (s.teardown cfg).holding = s.holding := by
  unfold Session.teardown
  cases hs : s.stopOnce with
  | fresh | done => rfl
  | running r pc =>
    have same : ∀ o : Once, o.gaveBack = s.stopOnce.gaveBack →
        ({ s.life with stopOnce := o } : Life).holding = s.holding := by
      intro o ho
      unfold Session.holding Life.holding Life.held
      rw [← show o.gaveBack = s.life.stopOnce.gaveBack from ho]
      rfl
    cases pc with
    | storeReason | closeStopCh | snapshot | remove | loadPublished =>
      exact same _ (by rw [hs]; rfl)
    | closeConns cs => cases cs <;> exact same _ (by rw [hs]; rfl)
    | release ip peerID conns =>
      cases ip with
      | some ip => exact absurd hs (ho r ip peerID conns)
      | none =>
        -- nothing in the fields, so giving back nothing changes nothing
        have hip : s.life.assignedIP = none := ((h.releasing r _ _ _ hs).1).symm
        let l : Life := { s.life with stopOnce := .running r (.remove conns) }
        have hheld : l.held = s.life.held := by
          cases hh : s.life.hs.inHand with
          | some g => exact (held_of_inHand (l := l) hh).trans (held_of_inHand hh).symm
          | none =>
            rw [held_of_inHand_none (l := l) hh, held_of_inHand_none hh,
              show l.assignedIP = none from hip]
            simp
        show Holding.mk l.held s.holding.log = Holding.mk s.life.held s.holding.log
        rw [hheld]

/-! ## Every step -/

theorem holding_asking (h : s.life.Grants) (ha : s.hs.asking = true) :
    s.holding = { held := none, log := [] } := by
  have hf := HandshakePc.fresh_of_asking ha
  have hip : s.life.assignedIP = none := h.unassigned (unpublished_of_fresh hf)
  have hheld : s.life.held = none := by
    rw [held_of_inHand_none (inHand_of_fresh hf), hip]
    simp
  have hlog : poolEvents s.life.events = [] := h.ungranted (.inl hf)
  unfold Session.holding Life.holding
  rw [hheld, hlog]

theorem holding_granted (h : s.life.Grants) (ha : s.hs.asking = true) (g : Grant) :
    HoldStep s.holding (.grant g) ({ s with hs := .publishKeys g }.log (.granted g)).holding := by
  have hbefore := holding_asking h ha
  have hafter : ({ s with hs := .publishKeys g }.log (.granted g)).holding
      = { held := some g, log := [.granted g] } := by
    have hlog : poolEvents (s.hist.filter Event.ofLife) = [] := congrArg Holding.log hbefore
    refine congrArg (Holding.mk (some g)) ((poolEvents_log s (.granted g)).trans ?_)
    rw [show poolEvents s.life.events = [] from hlog]
    rfl
  rw [hafter]
  exact .grant g (by rw [hbefore]) (by rw [hbefore])

theorem holding_refused (ha : s.hs.asking = true) (hpc : pc.inHand = none) :
    ({ s with hs := pc } : Session).holding = s.holding := by
  refine Undisturbed.holding ⟨rfl, rfl, rfl, .inl rfl, rfl⟩ ?_
  show pc.inHand = s.hs.inHand
  rw [hpc, inHand_of_fresh (HandshakePc.fresh_of_asking ha)]

theorem holding_releaseGrant {g : Grant} (h : s.life.Grants) (hpc : s.hs = .releaseGrant g) :
    HoldStep s.holding (.release g)
      ({ s with hs := .fail .failed .unknown }.log (.released g)).holding := by
  have hip : s.assignedIP = none := h.unassigned (show s.hs.unpublished = true by rw [hpc]; rfl)
  have hheld : s.holding.held = some g :=
    held_of_inHand (l := s.life) (show s.hs.inHand = some g by rw [hpc]; rfl)
  let l : Life := { s.life with hs := .fail .failed .unknown }
  have hgone : l.held = none := by
    rw [held_of_inHand_none (l := l) rfl, show l.assignedIP = none from hip]
    simp
  have hafter : ({ s with hs := .fail .failed .unknown }.log (.released g)).holding
      = { held := none, log := s.holding.log ++ [.released g] } := by
    show Holding.mk l.held _ = _
    rw [hgone]
    exact congrArg (Holding.mk none) (poolEvents_log s (.released g))
  rw [hafter]
  exact .release g hheld

theorem hold_handshake (h : s.life.Grants) (e : Env) :
    HoldStep s.holding (s.poolOp (.handshake e)) (s.handshake cfg e).holding := by
  have same : ∀ {t : Session}, t.holding = s.holding → HoldStep s.holding .none t.holding := by
    intro t ht
    rw [ht]; exact .none
  unfold Session.poolOp
  cases hpc : s.hs with
  | allocate =>
    have ha : s.hs.asking = true := by rw [hpc]; rfl
    unfold Session.handshake
    rw [hpc]
    dsimp only
    cases e.grant with
    | some g => exact holding_granted h ha g
    | none => exact same (holding_refused ha rfl)
  | reserve want again =>
    have ha : s.hs.asking = true := by rw [hpc]; rfl
    have refused : ∀ pc : HandshakePc, pc.inHand = none →
        HoldStep s.holding .none ({ s with hs := pc } : Session).holding := by
      intro pc hp
      exact same (holding_refused ha hp)
    unfold Session.handshake
    rw [hpc]
    cases want with
    | none =>
      cases e.reserved with
      | inl err => cases again <;> cases err <;> exact refused _ rfl
      | inr p => exact refused _ rfl
    | some ip =>
      dsimp only
      cases e.reserved with
      | inl err => cases again <;> cases err <;> exact refused _ rfl
      | inr p => exact holding_granted h ha _
  | releaseGrant g =>
    unfold Session.handshake
    rw [hpc]
    exact holding_releaseGrant h hpc
  | _ =>
    refine same (holding_handshake h ?_ ?_)
    · rw [hpc]; rfl
    · intro g hg
      cases hpc.symm.trans hg

/-- **A step of a session asks the pool for at most one thing**, and holds accordingly. -/
theorem hold_step (h : s.life.Grants) (inp : Input) :
    HoldStep s.holding (s.poolOp inp) (s.step A cfg inp).holding := by
  cases inp with
  | handshake e => exact hold_handshake h e
  | teardown =>
    show HoldStep s.holding (s.poolOp .teardown) (s.teardown cfg).holding
    unfold Session.poolOp
    dsimp only
    split
    · rename_i ho
      exact holding_release h ho
    · rename_i hno
      rw [holding_teardown h fun r ip peerID conns ho => hno r ip peerID conns ho]
      exact .none
  | _ =>
    rw [holding_other (by simp) (by simp)]
    exact .none

end GoVpn.Proof
