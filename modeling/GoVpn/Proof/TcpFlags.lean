import GoVpn.Proof.TcpSend

/-!
# Which FINs the state says were exchanged

Every state past the handshake says whether we have sent our FIN, whether it has been acknowledged,
and whether we have consumed the peer's. The connection also keeps the answers in flags. The two
agree as long as every consumed FIN changes the state, and it does not where it completes the
handshake: `handleSegment` ignores what data processing reports there.
-/

namespace GoVpn.Proof

open GoVpn.Netstack TcpConn

/-- What a state says about `finSent`, `finAcked` and `peerClosed`. -/
def FlagsOf (s : TcpState) (finSent finAcked peerClosed : Bool) : Prop :=
  match s with
  | .established => finSent = false ∧ peerClosed = false
  | .closeWait => finSent = false ∧ peerClosed = true
  | .finWait1 => finSent = true ∧ finAcked = false ∧ peerClosed = false
  | .finWait2 => finSent = true ∧ finAcked = true ∧ peerClosed = false
  | .closing | .lastAck => finSent = true ∧ finAcked = false ∧ peerClosed = true
  | .timeWait => finSent = true ∧ finAcked = true ∧ peerClosed = true
  | .listen | .synRcvd | .closed => True

/-- The part of it about our own FIN, which no transition gets wrong. -/
def OwnFIN (s : TcpState) (finSent finAcked : Bool) : Prop :=
  match s with
  | .established | .closeWait => finSent = false
  | .finWait1 | .closing | .lastAck => finSent = true ∧ finAcked = false
  | .finWait2 | .timeWait => finSent = true ∧ finAcked = true
  | .listen | .synRcvd | .closed => True

/-- The state of the connection agrees with its flags. -/
def FlagsAgree (w : World) : Prop :=
  FlagsOf w.conn.state w.conn.finSent w.conn.finAcked w.conn.peerClosed

/-- The acknowledgement that completes the handshake also carries the peer's FIN. -/
def CompletesWithFIN (w : World) : Action → Prop
  | .segment seg =>
    w.conn.state = .synRcvd ∧ seg.has flagRST = false ∧ seg.has flagACK = true
      ∧ seg.ack = w.conn.sndUna + 1 ∧ seg.has flagFIN = true ∧ seg.seq = w.conn.rcvNxt
      ∧ seg.payload.length ≤ defaultReceiveWindow
  | _ => False

/-- Nothing has been received or sent on this connection but the two SYNs. -/
structure Fresh (c : TcpConn) : Prop where
  finSent : c.finSent = false
  peerClosed : c.peerClosed = false
  recvBuf : c.recvBuf = []
  reorder : c.reorder = []
  pending : c.hasPendingFIN = false

/-- What the agreement rests on. -/
structure FlagsInv (isn : Seq) (w : World) : Prop where
  /-- The send side is in order. -/
  send : SendInv isn w
  /-- A half-open connection has received nothing. -/
  fresh : w.conn.state = .synRcvd → Fresh w.conn
  /-- Only a FIN that was sent is acknowledged. -/
  acked : w.conn.finAcked = true → w.conn.finSent = true
  /-- The state agrees with the flags of our own FIN. -/
  own : OwnFIN w.conn.state w.conn.finSent w.conn.finAcked

theorem flagsInv_init (p : SynParams) : FlagsInv p.isn (World.init p) where
  send := sendInv_init p
  fresh := by intro _; exact ⟨rfl, rfl, rfl, rfl, rfl⟩
  acked := by intro h; exact absurd h (by simp [World.init, newTCPConn])
  own := trivial

/-! ## What one step does to the flags -/

variable {c : TcpConn}

theorem fresh_finConsumed (h : Fresh c) (seg : TcpSegment) (toSend : List TcpSegment) :
    (c.handleEstablishedDataLocked seg toSend).2.2 = true
      ↔ seg.has flagFIN = true ∧ seg.seq = c.rcvNxt
          ∧ seg.payload.length ≤ defaultReceiveWindow := by
  have hroom : c.recvWindowRemainingLocked = defaultReceiveWindow := by
    unfold recvWindowRemainingLocked
    rw [h.recvBuf, h.reorder]
    decide
  unfold handleEstablishedDataLocked
  split
  · rename_i h0
    simp only [Bool.not_eq_true'] at h0
    simp [h0.2]
  split
  · rename_i hseq
    have hdrain : drainReorder (c.acceptInOrder seg.payload).reorder.length
        (c.acceptInOrder seg.payload) = c.acceptInOrder seg.payload := by
      rw [show (c.acceptInOrder seg.payload).reorder = [] from h.reorder]
      rfl
    dsimp only
    rw [hdrain]
    unfold admitted
    rw [hroom]
    split
    · rename_i hfit
      have hle : seg.payload.length ≤ defaultReceiveWindow := by omega
      have hnext : (c.acceptInOrder seg.payload).rcvNxt
          = seg.seq + BitVec.ofNat 32 seg.payload.length := by
        show c.rcvNxt + BitVec.ofNat 32 (c.admitted seg.payload.length) = _
        rw [admitted, hroom, hfit, hseq]
      unfold consumeFIN
      by_cases hf : seg.has flagFIN = true
      · rw [if_pos ⟨hf, hnext.symm⟩]
        simp [hf, hseq, hle]
      · have hp : (c.acceptInOrder seg.payload).hasPendingFIN = false := h.pending
        rw [if_neg (by simp [hf]), if_neg (by simp [hp])]
        simp [hf]
    · rename_i hfit
      have hle : ¬ seg.payload.length ≤ defaultReceiveWindow := by omega
      simp [hle]
  · rename_i hseq
    repeat' split
    all_goals simp [hseq]

theorem sync_flags (hb : c.sentBytes < 2 ^ 31) {seg : TcpSegment}
    {r : TcpConn × List TcpSegment × Bool} (h : SyncStep c seg r) :
    r.1.finSent = c.finSent
      ∧ r.1.finAcked = (c.finAcked || seg.has flagACK && acksFIN c seg.ack)
      ∧ r.1.peerClosed = (c.peerClosed || r.2.2) := by
  obtain ⟨u, segs, v, acks, hs⟩ := sync_shape hb h
  rw [hs.conn]
  exact ⟨rfl, hs.finAcked, hs.peerClosed⟩

theorem flagsOf_next {s : TcpState} (hs : Synchronized s) {sent acked closed : Bool}
    (hagree : FlagsOf s sent acked closed) (has ge fin : Bool) :
    FlagsOf (nextState s (acked || has && (sent && ge)) fin) sent
      (acked || has && (sent && ge)) (closed || fin) := by
  cases s with
  | listen | synRcvd | timeWait | closed => cases hs
  | established =>
    obtain ⟨rfl, rfl⟩ := hagree
    cases fin <;> simp [FlagsOf, nextState]
  | closeWait =>
    obtain ⟨rfl, rfl⟩ := hagree
    simp [FlagsOf, nextState]
  | finWait1 =>
    obtain ⟨rfl, rfl, rfl⟩ := hagree
    cases fin <;> cases has <;> cases ge <;> simp [FlagsOf, nextState]
  | finWait2 =>
    obtain ⟨rfl, rfl, rfl⟩ := hagree
    cases fin <;> simp [FlagsOf, nextState]
  | closing | lastAck =>
    obtain ⟨rfl, rfl, rfl⟩ := hagree
    cases has <;> cases ge <;> simp [FlagsOf, nextState]

theorem ownFIN_next {s : TcpState} (hs : Synchronized s) {sent acked : Bool}
    (hown : OwnFIN s sent acked) (has ge fin : Bool) :
    OwnFIN (nextState s (acked || has && (sent && ge)) fin) sent
      (acked || has && (sent && ge)) := by
  cases s with
  | listen | synRcvd | timeWait | closed => cases hs
  | established | closeWait =>
    subst hown
    cases fin <;> simp [OwnFIN, nextState]
  | finWait1 | closing | lastAck =>
    obtain ⟨rfl, rfl⟩ := hown
    cases fin <;> cases has <;> cases ge <;> simp [OwnFIN, nextState]
  | finWait2 =>
    obtain ⟨rfl, rfl⟩ := hown
    cases fin <;> simp [OwnFIN, nextState]

theorem enter_flags (s : TcpState) (c : TcpConn) :
    (enter s c).finSent = c.finSent ∧ (enter s c).finAcked = c.finAcked
      ∧ (enter s c).peerClosed = c.peerClosed := by
  cases s <;> exact ⟨rfl, rfl, rfl⟩

/-- The step leaves the three flags alone. -/
structure SameFlags (c c' : TcpConn) : Prop where
  finSent : c'.finSent = c.finSent
  finAcked : c'.finAcked = c.finAcked
  peerClosed : c'.peerClosed = c.peerClosed

theorem rto_flags {o : Outcome} (h : RtoStep c o) :
    SameFlags c o.conn ∧ (Fresh c → Fresh o.conn) := by
  obtain ⟨_, _, _, _, _, _, _, _, _, _, he, _⟩ := rto_shape h
  rw [he]
  exact ⟨⟨rfl, rfl, rfl⟩, fun hf => ⟨hf.1, hf.2, hf.3, hf.4, hf.5⟩⟩

theorem write_flags {call : WriteCall} {r : TcpConn × List TcpSegment × WriteResult}
    (h : WriteStep c call r) : SameFlags c r.1 := by
  cases h with
  | returned | full => exact ⟨rfl, rfl, rfl⟩
  | queued =>
    obtain ⟨_, _, _, _, _, _, he, _⟩ := sendPending_spec (enqueueBytes c call) [] false
    rw [he]
    exact ⟨rfl, rfl, rfl⟩

theorem flagsOf_same {c' : TcpConn} (h : SameFlags c c')
    (hs : c'.state = c.state ∨ c'.state = .closed)
    (hagree : FlagsOf c.state c.finSent c.finAcked c.peerClosed) :
    FlagsOf c'.state c'.finSent c'.finAcked c'.peerClosed := by
  rw [h.finSent, h.finAcked, h.peerClosed]
  rcases hs with hs | hs <;> rw [hs]
  · exact hagree
  · trivial

theorem ownFIN_same {c' : TcpConn} (h : SameFlags c c')
    (hs : c'.state = c.state ∨ c'.state = .closed) (hown : OwnFIN c.state c.finSent c.finAcked) :
    OwnFIN c'.state c'.finSent c'.finAcked := by
  rw [h.finSent, h.finAcked]
  rcases hs with hs | hs <;> rw [hs]
  · exact hown
  · trivial

theorem FlagsInv.unacked {isn : Seq} {w : World} (h : FlagsInv isn w)
    (hns : w.conn.finSent = false) : w.conn.finAcked = false := by
  rw [Bool.eq_false_iff]
  intro hc
  rw [h.acked hc] at hns
  cases hns

theorem handshake_flags (c : TcpConn) (seg : TcpSegment) :
    let r := (establish c seg).handleEstablishedDataLocked seg []
    r.1.state = .established ∧ r.1.finSent = c.finSent ∧ r.1.finAcked = c.finAcked
      ∧ r.1.peerClosed = (c.peerClosed || r.2.2) := by
  intro r
  obtain ⟨u, segs, fin, he, _, hp⟩ := handleData_shape (establish c seg) seg []
  have hr : r = (u.on (establish c seg), [] ++ segs, fin) := he
  rw [hr]
  exact ⟨rfl, rfl, rfl, hp⟩

/-! ## Runs -/

section Step

variable {isn : Seq} {w w' : World} {a : Action}

/-- What a step can do to the state and the flags. -/
inductive FlagStep (w : World) (a : Action) (c : TcpConn) : Prop
  | same (hf : SameFlags w.conn c) (hs : c.state = w.conn.state ∨ c.state = .closed)
  | handshake {seg : TcpSegment} (ha : a = .segment seg) (hst : w.conn.state = .synRcvd)
      (hrst : seg.has flagRST = false) (hack : seg.has flagACK = true)
      (hnum : seg.ack = w.conn.sndUna + 1)
      (hc : c = ((establish w.conn seg).handleEstablishedDataLocked seg []).1)
  | sync {has ge fin : Bool} (hs : Synchronized w.conn.state) (hsent : c.finSent = w.conn.finSent)
      (hacked : c.finAcked = (w.conn.finAcked || has && (w.conn.finSent && ge)))
      (hclosed : c.peerClosed = (w.conn.peerClosed || fin))
      (hst : c.state = nextState w.conn.state c.finAcked fin)
  /-- `CloseWrite` moves ESTABLISHED to FIN_WAIT_1 and CLOSE_WAIT to LAST_ACK. -/
  | fin (hs : w.conn.state = .established ∧ c.state = .finWait1
        ∨ w.conn.state = .closeWait ∧ c.state = .lastAck)
      (hsent : c.finSent = true) (hacked : c.finAcked = w.conn.finAcked)
      (hclosed : c.peerClosed = w.conn.peerClosed)

/-- **The inversion of a step** for the FIN flags. -/
theorem step_flags (hb : w.conn.sentBytes < 2 ^ 31) (hs : WorldStep w a w') :
    FlagStep w a w'.conn := by
  cases hs with
  | @segment seg o hseg =>
    cases hseg with
    | ignored | reAck => exact .same ⟨rfl, rfl, rfl⟩ (.inl rfl)
    | reset | refused => exact .same ⟨rfl, rfl, rfl⟩ (.inr rfl)
    | handshake h1 h2 h3 h4 => exact .handshake rfl h1 h2 h3 h4 rfl
    | @sync r hsync _ hr =>
      obtain ⟨h1, h2, h3⟩ := sync_flags hb hr
      obtain ⟨e1, e2, e3⟩ := enter_flags (nextState w.conn.state r.1.finAcked r.2.2) r.1
      refine .sync hsync (e1.trans h1) (e2.trans h2) (e3.trans h3) ((enter_state _ _).trans ?_)
      exact congrArg (nextState w.conn.state · r.2.2) e2.symm
  | rto hrto => exact .same (rto_flags hrto).1 (rto_state hrto)
  | teardown => exact .same ⟨rfl, rfl, rfl⟩ (.inr rfl)
  | write _ hw => exact .same (write_flags hw.step) (.inl (write_state hw.step))
  | @read n d _ =>
    obtain ⟨buf, out, e, he⟩ := read_shape w n d
    rw [he]
    exact .same ⟨rfl, rfl, rfl⟩ (.inl rfl)
  | closeWrite _ hc =>
    cases hc with
    | nothing => exact .same ⟨rfl, rfl, rfl⟩ (.inl rfl)
    | fin _ hfin => exact .fin hfin rfl rfl rfl
  | nothing => exact .same ⟨rfl, rfl, rfl⟩ (.inl rfl)

theorem FlagsInv.fresh_step (h : FlagsInv isn w) (hs : WorldStep w a w')
    (hsend : SendInv isn w') : w'.conn.state = .synRcvd → Fresh w'.conn := by
  intro hst
  cases hs with
  | @segment seg o hseg =>
    have hsr : w.conn.state = .synRcvd :=
      Classical.byContradiction fun hn => seg_opened hseg hn hst
    cases hseg with
    | ignored => exact h.fresh hsr
    | reset | refused =>
      exact absurd hst (by simp [World.apply, teardown, stopTimersLocked])
    | handshake =>
      have := (handshake_flags w.conn seg).1
      exact absurd (this.symm.trans hst) (by simp)
    | sync hsync => rw [hsr] at hsync; exact absurd hsync id
    | reAck h1 => cases hsr.symm.trans h1
  | rto hrto =>
    refine (rto_flags hrto).2 (h.fresh ?_)
    rcases rto_state hrto with h1 | h1
    · exact h1.symm.trans hst
    · cases h1.symm.trans hst
  | teardown => exact absurd hst (by simp [World.apply, teardown, stopTimersLocked])
  -- the application holds the connection, so it is past SYN_RCVD
  | write hacc => exact absurd hst (hsend.opened hacc)
  | @read n d hacc =>
    obtain ⟨buf, out, e, he⟩ := read_shape w n d
    rw [he] at hst
    exact absurd hst (h.send.opened hacc)
  | closeWrite hacc =>
    exact absurd hst (hsend.opened (by simp [World.apply, hacc]))
  | nothing => exact h.fresh hst

theorem FlagsInv.acked_step (h : FlagsInv isn w) (hs : WorldStep w a w') :
    w'.conn.finAcked = true → w'.conn.finSent = true := by
  intro hfa
  cases step_flags h.send.sent_lt hs with
  | same hf => exact hf.finSent.trans (h.acked (hf.finAcked.symm.trans hfa))
  | @handshake seg _ _ _ _ _ hc =>
    obtain ⟨_, h1, h2, _⟩ := handshake_flags w.conn seg
    rw [hc] at hfa ⊢
    exact h1.trans (h.acked (h2.symm.trans hfa))
  | sync _ hsent hacked =>
    -- the flag is set by an acknowledgement of a FIN that was sent
    rw [hacked] at hfa
    simp only [Bool.or_eq_true, Bool.and_eq_true] at hfa
    rw [hsent]
    rcases hfa with hfa | hfa
    · exact h.acked hfa
    · exact hfa.2.1
  | fin _ hsent => exact hsent

/-- A step keeps the state and the flags of our FIN in agreement. -/
theorem FlagsInv.own_step (h : FlagsInv isn w) (hs : WorldStep w a w') :
    OwnFIN w'.conn.state w'.conn.finSent w'.conn.finAcked := by
  have hown := h.own
  cases step_flags h.send.sent_lt hs with
  | same hf hs => exact ownFIN_same hf hs hown
  | @handshake seg _ hst _ _ _ hc =>
    obtain ⟨e1, e2, _⟩ := handshake_flags w.conn seg
    rw [hc, e1, e2]
    exact (h.fresh hst).finSent
  | sync hsync hsent hacked _ hst =>
    rw [hst, hsent, hacked]
    exact ownFIN_next hsync hown _ _ _
  | fin hs hsent hacked =>
    rcases hs with ⟨hst, hst'⟩ | ⟨hst, hst'⟩ <;> rw [hst] at hown <;> rw [hst', hsent, hacked]
    · exact ⟨rfl, h.unacked hown⟩
    · exact ⟨rfl, h.unacked hown⟩

/-- Every step keeps the flags in agreement with the state. -/
theorem flagsInv_step (h : FlagsInv isn w) (hs : WorldStep w a w') : FlagsInv isn w' :=
  have hsend := (sendInv_step h.send hs).1
  ⟨hsend, h.fresh_step hs hsend, h.acked_step hs, h.own_step hs⟩

end Step

/-- **Every other step keeps the agreement.** -/
theorem flagsAgree_step {isn : Seq} {w w' : World} {a : Action} (h : FlagsInv isn w)
    (hagree : FlagsAgree w) (hn : ¬ CompletesWithFIN w a) (hs : WorldStep w a w') :
    FlagsAgree w' := by
  unfold FlagsAgree at hagree ⊢
  cases step_flags h.send.sent_lt hs with
  | same hf hs => exact flagsOf_same hf hs hagree
  | @handshake seg ha h1 h2 h3 h4 hc =>
    subst ha
    have hfresh := h.fresh h1
    obtain ⟨e1, e2, e3, e4⟩ := handshake_flags w.conn seg
    have hfin : ((establish w.conn seg).handleEstablishedDataLocked seg []).2.2 = false := by
      rw [Bool.eq_false_iff]
      intro hc
      have hf : Fresh (establish w.conn seg) :=
        ⟨hfresh.1, hfresh.2, hfresh.3, hfresh.4, hfresh.5⟩
      exact hn ⟨h1, h2, h3, h4, (fresh_finConsumed hf seg []).mp hc⟩
    rw [hc, e1, e2, e4, hfin, hfresh.finSent, hfresh.peerClosed]
    exact ⟨rfl, rfl⟩
  | sync hsync hsent hacked hclosed hst =>
    rw [hst, hsent, hacked, hclosed]
    exact flagsOf_next hsync hagree _ _ _
  | fin hs hsent hacked hclosed =>
    rcases hs with ⟨hst, hst'⟩ | ⟨hst, hst'⟩ <;> rw [hst] at hagree <;>
      rw [hst', hsent, hacked, hclosed]
    · exact ⟨rfl, h.unacked hagree.1, hagree.2⟩
    · exact ⟨rfl, h.unacked hagree.1, hagree.2⟩

theorem completesWithFIN_breaks {isn : Seq} {w : World} {a : Action} (h : FlagsInv isn w)
    (hc : CompletesWithFIN w a) : ¬ FlagsAgree (w.act a) := by
  cases a with
  | segment seg =>
    obtain ⟨h1, h2, h3, h4, hfin⟩ := hc
    have hfresh := h.fresh h1
    have hf : Fresh (establish w.conn seg) := ⟨hfresh.1, hfresh.2, hfresh.3, hfresh.4, hfresh.5⟩
    obtain ⟨e1, _, _, e4⟩ := handshake_flags w.conn seg
    rw [(fresh_finConsumed hf seg []).mpr hfin, Bool.or_true] at e4
    intro hagree
    rw [World.act, handleSegment_handshake h1 h2 h3 h4] at hagree
    unfold FlagsAgree World.apply at hagree
    rw [e1, e4] at hagree
    exact absurd hagree.2 (by simp)
  | rtoFired | detached | abort | write | resumeWrite | read | closeWrite | close =>
    cases hc

/--
**When state and flags agree.** In a run of any inbound segments, application
calls and timer expiries, the state agrees with the FIN flags throughout exactly
when no segment completes the handshake and brings the peer's FIN with it.
-/
theorem state_agrees_with_flags_iff (p : SynParams) (as : List Action) :
    Machine.Always World.act FlagsAgree (World.init p) as
      ↔ Machine.Along World.act (fun w a => ¬ CompletesWithFIN w a) (World.init p) as := by
  refine Machine.always_iff_along (I := FlagsInv p.isn) ?_ ?_ (flagsInv_init p) trivial
  · intro w a hi hq hn
    exact ⟨flagsInv_step hi (act_step w a), flagsAgree_step hi hq hn (act_step w a)⟩
  · intro w a hi _ hc
    exact completesWithFIN_breaks hi (Classical.not_not.mp hc)

/-- A client whose handshake ACK already carries its FIN, and the connection it reaches. -/
theorem handshake_fin_stays_established :
    let p : SynParams := ⟨80, 4000, 1460, 100, 500, 1000, 1460⟩
    let seg : TcpSegment :=
      { srcPort := 4000, dstPort := 80, seq := 501, ack := 101, flags := flagFIN ||| flagACK,
        window := 1000 }
    let c := (World.after p [.segment seg]).conn
    c.state = .established ∧ c.peerClosed = true ∧ ¬ FlagsAgree (World.after p [.segment seg]) := by
  intro p seg c
  have hc : c.state = .established ∧ c.peerClosed = true := by decide
  refine ⟨hc.1, hc.2, ?_⟩
  intro h
  unfold FlagsAgree at h
  rw [show (World.after p [.segment seg]).conn = c from rfl, hc.1] at h
  cases hc.2.symm.trans h.2

end GoVpn.Proof
