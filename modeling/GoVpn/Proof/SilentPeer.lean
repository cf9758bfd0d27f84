import GoVpn.Proof.SessionIsolation
import GoVpn.Proof.TcpDemuxRuns
import GoVpn.Proof.TcpTimer

/-!
# A peer that falls silent

With the peer silent and the application idle, the timer alone moves a connection. A SYN-ACK, data
in flight and a FIN share the counter of retransmissions, which gives up after six. TIME_WAIT ends
with the first expiry. A probe of a closed window has a counter of its own, but only one probe is
ever counted: the byte it sends is data in flight from then on. So the expiries a connection still
has to wait for are at most eight, and every expiry takes one off.

Queued data with nothing in flight is behind a closed window, or the timer would have nothing to do
and stop. That is the invariant below.
-/

namespace GoVpn.Proof

open GoVpn.Netstack TcpConn

/-! ## What holds back queued data -/

/-- What is known of the send side whatever happens. -/
structure Attended (c : TcpConn) : Prop where
  /-- Where segments carry data, only a closed window holds back data with nothing in flight. -/
  window : 0 < c.sndMSS → c.sentBytes = 0 → c.outBuf ≠ [] → c.sndWnd = 0
  /-- A timer marked armed is running. -/
  runs : c.state ≠ .closed → c.timerArmed = true → c.rtoTimer ≠ .stopped

variable {c : TcpConn}

theorem attended_push (hrun : c.timerArmed = true → c.rtoTimer ≠ .stopped)
    (toSend : List TcpSegment) : Attended (c.sendPendingLocked toSend false).1 := by
  obtain ⟨m, segs, armed, op, rto, rc, he, -, hkeep, -, hwin⟩ := sendPending_spec c toSend false
  rw [he]
  refine ⟨fun hm h0 hne => hwin rfl hm ?_ h0, fun _ ha => ?_⟩
  · have := List.length_pos_iff.mpr hne
    simp only at h0 this
    omega
  · rcases hkeep with ⟨h1, h2⟩ | ⟨-, h2⟩
    · rw [h2]
      exact hrun (h1.symm.trans ha)
    · exact h2

theorem attended_ack (hb : c.sentBytes < 2 ^ 31) (h : Attended c) (hc : c.state ≠ .closed)
    (seg : TcpSegment) (toSend : List TcpSegment) : Attended (c.handleAckLocked seg toSend).1 := by
  unfold handleAckLocked
  split
  · exact h
  · obtain ⟨u, he, -, -, -, htimer⟩ := retire_spec hb seg
    rw [he]
    refine attended_push (fun ha => ?_) toSend
    cases htimer with
    | kept _ h1 h2 =>
      show u.op ≠ _
      rw [h2]
      exact h.runs hc (h1.symm.trans ha)
    | restarted _ _ _ h2 => exact h2
    | stopped _ _ h1 => cases h1.symm.trans ha

theorem attended_enter (h : Attended c) (hc : c.state ≠ .closed) (s : TcpState) :
    Attended (enter s c) := by
  obtain ⟨-, -, e3, e4⟩ := enter_timer s c
  obtain ⟨-, f2, f3, f4⟩ := enter_send s c
  refine ⟨by rw [f2, f3, f4, e3]; exact h.window, fun hs ha => ?_⟩
  rcases e4 with ⟨h1, h2⟩ | h1 | h1
  · rw [h2]
    exact h.runs hc (h1.symm.trans ha)
  · exact h1.2
  · rw [enter_state] at hs
    exact absurd h1 hs

variable {isn : Seq} {w : World}

theorem attended_segment (hsend : SendInv isn w) (h : Attended w.conn) {seg : TcpSegment}
    {o : Outcome} (hs : SegStep w.conn seg o) : Attended o.conn := by
  cases hs with
  | ignored => exact h
  | reset | refused => exact ⟨h.window, fun hc => absurd rfl hc⟩
  | handshake hst =>
    -- nothing is queued before the handshake, and the timer stops with it
    have hacc := (halfOpen_idle hsend hst).1
    obtain ⟨hbuf, -⟩ := sendInv_fresh hsend hacc
    obtain ⟨u, _, _, he, -⟩ := handleData_shape (establish w.conn seg) seg []
    simp only [he]
    exact ⟨fun _ _ hne => absurd hbuf hne,
      fun _ ha => absurd ha (by simp [RecvUpdate.on, establish])⟩
  | sync hsync _ hr =>
    have hst : w.conn.state ≠ .closed := by intro hc; rw [hc] at hsync; exact hsync
    have hack := attended_ack hsend.sent_lt h hst seg []
    have hst' : (w.conn.handleAckLocked seg []).1.state ≠ .closed := by
      rw [handleAck_state]; exact hst
    cases hr with
    | data =>
      obtain ⟨u, _, _, he, -⟩ := handleData_shape (w.conn.handleAckLocked seg []).1 seg
        (w.conn.handleAckLocked seg []).2
      rw [he]
      have hdata : Attended (u.on (w.conn.handleAckLocked seg []).1) := ⟨hack.window, hack.runs⟩
      exact attended_enter hdata hst' _
    | ackOnly => exact attended_enter hack hst' _
  | reAck => exact h

theorem attended_rto {o : Outcome} (h : Attended c) (hs : RtoStep c o) : Attended o.conn := by
  cases hs with
  | idle => exact h
  | timeWaitOver | probeGiveUp => exact ⟨h.window, fun hc => absurd rfl hc⟩
  | resendSynAck _ hr | resendData _ _ _ hr | resendFIN _ _ _ hr =>
    cases hr with
    | resend => exact ⟨h.window, fun _ _ => by simp⟩
    | giveUp hc => rw [hc]; exact ⟨h.window, fun hc => absurd rfl hc⟩
  | @probe probes _ _ _ hw _ =>
    obtain ⟨_, _, _, _, _, _, he, -⟩ :=
      sendPending_spec { c with persistProbeCount := probes } [] true
    rw [he]
    exact ⟨fun _ _ _ => hw, fun _ _ => by simp⟩
  | disarm => exact ⟨h.window, fun _ ha => absurd ha (by simp)⟩

/-- Every step keeps the send side attended. -/
theorem attended_step {w' : World} {a : Action} (hsend : SendInv isn w) (h : Attended w.conn)
    (hs : WorldStep w a w') : Attended w'.conn := by
  cases hs with
  | segment hseg => exact attended_segment hsend h hseg
  | rto hrto => exact attended_rto h hrto
  | teardown => exact ⟨h.window, fun hc => absurd rfl hc⟩
  | @write a call ws r _ hw =>
    show Attended r.1
    have hstep := hw.step
    cases hstep with
    | returned | full => exact h
    | queued _ herr =>
      by_cases hc : w.conn.state = .closed
      · obtain ⟨m, _, _, _, _, _, he, -, -, -, hwin⟩ :=
          sendPending_spec (enqueueBytes w.conn call) [] false
        rw [he]
        refine ⟨fun hm h0 hne => hwin rfl hm ?_ h0, fun hc' => absurd hc hc'⟩
        have := List.length_pos_iff.mpr hne
        simp only at h0 this
        omega
      · exact attended_push (c := enqueueBytes w.conn call) (fun ha => h.runs hc ha) []
  | @read n d _ =>
    obtain ⟨buf, out, e, he⟩ := read_shape w n d
    rw [he]
    exact ⟨h.window, h.runs⟩
  | closeWrite _ hc =>
    cases hc with
    | nothing => exact ⟨h.window, h.runs⟩
    | fin =>
      have hrun : TimerOp.reset initialRTO ≠ .stopped := by simp
      exact ⟨h.window, fun _ _ => hrun⟩
  | nothing => exact h

/-- So it is in every run. -/
theorem attended_after (p : SynParams) (as : List Action) : Attended (World.after p as).conn := by
  have hinv := Machine.run_invariant' (I := fun w => SendInv p.isn w ∧ Attended w.conn)
    (fun w a h => ⟨(sendInv_step h.1 (act_step w a)).1, attended_step h.1 h.2 (act_step w a)⟩)
    (s := World.init p)
    ⟨sendInv_init p, fun _ _ hne => absurd rfl hne, fun _ _ => by simp [World.init, newTCPConn]⟩ as
  exact hinv.2

/-! ## The expiries still to come -/

/-- The connection is gone, or it has nothing left to wait for. -/
def Settled (c : TcpConn) : Prop := c.state = .closed ∨ c.timerArmed = false ∧ ¬ Outstanding c

/-- How many expiries the connection can still have before it is settled. -/
def expiriesLeft (c : TcpConn) : Nat :=
  if c.state = .closed then 0
  else if c.inTimeWait then 1
  else if c.state = .synRcvd ∨ 0 < c.sentBytes ∨ (c.finSent = true ∧ c.finAcked = false) then
    maxRetransmits + 1 - min c.retransmitCount maxRetransmits
  else if c.outBuf = [] then 1
  else maxRetransmits + 2

theorem expiriesLeft_le (c : TcpConn) : expiriesLeft c ≤ 8 := by
  unfold expiriesLeft maxRetransmits
  repeat' split
  all_goals omega

theorem expiriesLeft_pos (h : c.state ≠ .closed) : 0 < expiriesLeft c := by
  unfold expiriesLeft maxRetransmits
  rw [if_neg h]
  repeat' split
  all_goals omega

theorem expiriesLeft_retransmits (hc : c.state ≠ .closed) (htw : c.inTimeWait = false)
    (hwork : c.state = .synRcvd ∨ 0 < c.sentBytes ∨ (c.finSent = true ∧ c.finAcked = false)) :
    expiriesLeft c = maxRetransmits + 1 - min c.retransmitCount maxRetransmits := by
  rw [expiriesLeft, if_neg hc, if_neg (by simp [htw]), if_pos hwork]

theorem expiriesLeft_inFlight (h : 0 < c.sentBytes) : expiriesLeft c ≤ maxRetransmits + 1 := by
  unfold expiriesLeft maxRetransmits
  repeat' split
  all_goals omega

/-- An expiry of an armed timer settles the connection, or leaves the timer armed and one expiry
less. -/
def Expires (c c' : TcpConn) : Prop := Settled c' ∨ Armed c' ∧ expiriesLeft c' < expiriesLeft c

theorem retransmit_expires (harm : c.timerArmed = true) (hc : c.state ≠ .closed)
    (htw : c.inTimeWait = false)
    (hwork : c.state = .synRcvd ∨ 0 < c.sentBytes ∨ (c.finSent = true ∧ c.finAcked = false))
    (seg : TcpSegment) : Expires c (c.retransmit seg).conn := by
  unfold retransmit
  dsimp only
  split
  · exact .inl (.inl rfl)
  · rename_i hfew
    right
    refine ⟨⟨harm, by simp⟩, ?_⟩
    rw [expiriesLeft_retransmits hc htw hwork, expiriesLeft_retransmits]
    · dsimp only
      omega
    · exact hc
    · exact htw
    · exact hwork

theorem probe_sends (hw : c.sndWnd = 0) (hmss : 0 < c.sndMSS) (hq : c.sentBytes < c.outBuf.length) :
    c.sentBytes < (c.sendPendingLocked [] true).1.sentBytes := by
  obtain ⟨m, segs, he, -, -, hmore, -⟩ :=
    sendLoop_spec (c.sentBytes + 1) true (c.outBuf.length - c.sentBytes) c [] false
  have hlim : c.allowedInFlightLocked = 0 := by rw [allowedInFlightLocked, hw]; decide
  unfold sendPendingLocked sendUpTo
  rw [if_pos hlim, if_neg (by simp; omega), he]
  simpa using hmore hmss (by omega) hq (by omega)

theorem rto_expires (hatt : Attended c) (hmss : 0 < c.sndMSS) (harm : c.timerArmed = true) :
    Expires c c.onRTOFired.conn := by
  unfold onRTOFired
  split
  · rename_i hc
    exact .inl (.inl hc)
  rename_i hc
  split
  · exact .inl (.inl rfl)
  rename_i htw
  have htw : c.inTimeWait = false := by simpa using htw
  split
  · rename_i hs
    exact retransmit_expires harm hc htw (.inl hs) _
  rename_i hsyn
  split
  · rename_i hsent
    exact retransmit_expires harm hc htw (.inr (.inl hsent)) _
  rename_i hsent
  split
  · rename_i hfin
    simp only [Bool.and_eq_true, Bool.not_eq_true'] at hfin
    exact retransmit_expires harm hc htw (.inr (.inr hfin)) _
  rename_i hfin
  have hidle :
      ¬ (c.state = .synRcvd ∨ 0 < c.sentBytes ∨ (c.finSent = true ∧ c.finAcked = false)) := by
    rintro (h | h | ⟨h1, h2⟩)
    · exact hsyn h
    · exact hsent h
    · simp [h1, h2] at hfin
  split
  · rename_i hprobe
    dsimp only
    split
    · exact .inl (.inl rfl)
    · -- the probe is data in flight from now on, and the other counter takes over
      right
      have hsend :=
        probe_sends (c := { c with persistProbeCount := c.persistProbeCount + 1 }) hprobe.1 hmss
        hprobe.2
      obtain ⟨m, segs, armed, op, rto, rc, he, -, hkeep, -⟩ :=
        sendPending_spec { c with persistProbeCount := c.persistProbeCount + 1 } [] true
      rw [he] at hsend ⊢
      have harmed : armed = true := by
        rcases hkeep with ⟨h1, -⟩ | ⟨h1, -⟩
        · exact h1.trans harm
        · exact h1
      refine ⟨⟨harmed, by simp⟩, ?_⟩
      have hne : c.outBuf ≠ [] := by
        intro hnil
        rw [hnil] at hprobe
        simp at hprobe
      have hfull : expiriesLeft c = maxRetransmits + 2 := by
        rw [expiriesLeft, if_neg hc, if_neg (by simp [htw]), if_neg hidle, if_neg hne]
      rw [hfull]
      exact Nat.lt_succ_of_le (expiriesLeft_inFlight (Nat.zero_lt_of_lt hsend))
  · rename_i hprobe
    refine .inl (.inr ⟨rfl, ?_⟩)
    rintro (h | h | h)
    · exact hsent h
    · have hne : c.outBuf ≠ [] := by
        intro hnil
        simp [hnil] at h
      exact hprobe ⟨hatt.window hmss (by omega) hne, h⟩
    · exact hidle (.inr (.inr h))

/-! ## Runs without the peer -/

/-- What still happens to a connection without its peer and its application. -/
def LeftAlone : Action → Prop
  | .rtoFired | .detached | .abort => True
  | _ => False

instance : DecidablePred LeftAlone
  | .rtoFired | .detached | .abort => .isTrue trivial
  | .segment _ | .write _ _ | .resumeWrite _ _ | .read _ _ | .closeWrite | .close => .isFalse id

def isExpiry : Action → Bool
  | .rtoFired => true
  | _ => false

theorem settled_act (h : Settled w.conn) {a : Action} (ha : LeftAlone a) :
    Settled (w.act a).conn := by
  have hretr : ∀ {seg o}, Retransmit w.conn seg o → w.conn.state ≠ .closed → Settled o.conn := by
    intro seg o hr hc
    cases hr with
    | resend => exact .inr (h.resolve_left hc)
    | giveUp => exact .inl rfl
  cases a with
  | rtoFired =>
    have hstep := onRTOFired_step w.conn
    show Settled w.conn.onRTOFired.conn
    generalize w.conn.onRTOFired = o at hstep
    cases hstep with
    | idle hc => exact .inl hc
    | timeWaitOver => exact .inl rfl
    | resendSynAck hst hr => exact hretr hr (by rw [hst]; simp)
    | resendData _ hc _ hr | resendFIN hc _ _ hr => exact hretr hr hc
    | probeGiveUp => exact .inl rfl
    | probe _ hc h0 _ hne => exact absurd (.inr (.inl (by omega))) (h.resolve_left hc).2
    | disarm _ hc => exact .inr ⟨rfl, (h.resolve_left hc).2⟩
  | detached =>
    simp only [World.act, World.apply, onAttachmentDetached]
    split
    · exact h
    · exact .inl rfl
  | abort =>
    simp only [World.act, World.apply, TcpConn.abort]
    split
    · exact h
    · exact .inl rfl
  | _ => cases ha

/-- What is settled stays so while it is left alone. -/
theorem settled_run (as : List Action) (h : Settled w.conn) (hq : ∀ a ∈ as, LeftAlone a) :
    Settled (Machine.run World.act w as).conn :=
  Machine.run_invariant (I := fun w => Settled w.conn) (P := fun _ a => LeftAlone a)
    (fun _ _ hs ha => settled_act hs ha) h (Machine.along_of_mem w hq)

/-- What the count of expiries rests on. -/
structure Waiting (isn : Seq) (w : World) : Prop where
  send : SendInv isn w
  attended : Attended w.conn
  mss : 0 < w.conn.sndMSS

theorem waiting_act (h : Waiting isn w) (a : Action) : Waiting isn (w.act a) :=
  have hs := act_step w a
  ⟨(sendInv_step h.send hs).1, attended_step h.send h.attended hs,
    by rw [step_mss h.send hs]; exact h.mss⟩

/-- **A quiet run** settles the connection, or every expiry in it took one off those left. -/
theorem quiet_run : ∀ (as : List Action) {w : World}, Waiting isn w → Armed w.conn →
    (∀ a ∈ as, LeftAlone a) →
    Settled (Machine.run World.act w as).conn
      ∨ Armed (Machine.run World.act w as).conn
        ∧ expiriesLeft
        (Machine.run World.act w as).conn + as.countP isExpiry ≤ expiriesLeft w.conn := by
  intro as
  induction as with
  | nil => exact fun _ harm _ => .inr ⟨harm, Nat.le_refl _⟩
  | cons a as ih =>
    intro w hw harm hq
    have hq' : ∀ b ∈ as, LeftAlone b := fun b hb => hq b (List.mem_cons_of_mem _ hb)
    rw [Machine.run_cons]
    have ha := hq a List.mem_cons_self
    have hgone : (w.act a).conn.state = .closed →
        Settled (Machine.run World.act (w.act a) as).conn := fun hc => settled_run as (.inl hc) hq'
    cases a with
    | rtoFired =>
      rcases rto_expires hw.attended hw.mss harm.1 with hs | ⟨harm', hless⟩
      · exact .inl (settled_run as hs hq')
      · refine (ih (waiting_act hw .rtoFired) harm' hq').imp_right fun ⟨h1, h2⟩ => ⟨h1, ?_⟩
        have hfired : (w.act .rtoFired).conn = w.conn.onRTOFired.conn := rfl
        rw [hfired] at h2
        rw [List.countP_cons_of_pos (by rfl)]
        omega
    | detached =>
      left
      refine hgone ?_
      simp only [World.act, World.apply, onAttachmentDetached]
      split
      · assumption
      · rfl
    | abort =>
      left
      refine hgone ?_
      simp only [World.act, World.apply, TcpConn.abort]
      split
      · assumption
      · rfl
    | _ => cases ha

end GoVpn.Proof

namespace GoVpn.Netstack

open TcpDemux GoVpn.Proof

/--
**A silent peer cannot hold a connection open.** From any state of the demux in which the
timer of the connection `id` is armed, and whatever everybody else does from there, as
long as no segment reaches that connection and the application leaves it alone: after
eight expiries of its timer it is closed, and out of the table once `removeConn` has run,
or its timer is off and nothing of it is unacknowledged or unsent. Until then its timer
runs.
-/
theorem silent_peer_settles (serverIP : Addr) (mss : BitVec 16)
    (ms ms' : List (Threads.Move DemuxEvent Bool)) (id : Nat) (c : DemuxConn)
    (hc : (after serverIP mss ms).shared.pool[id]? = some c) (hmss : 1 ≤ c.world.conn.sndMSS)
    (harmed : c.world.conn.timerArmed = true)
    (hquiet : ∀ a ∈ actionsOn id (after serverIP mss ms) ms', LeftAlone a) :
    let s' := Machine.run (Threads.step program) (after serverIP mss ms) ms'
    ∃ c', s'.shared.pool[id]? = some c' ∧ c.Same c'
      ∧ (8 ≤ (actionsOn id (after serverIP mss ms) ms').countP isExpiry →
          c'.world.conn.state = .closed
              ∧ (.delete id ∉ s'.pending → s'.shared.conns.lookup c'.key ≠ some id)
            ∨ c'.world.conn.timerArmed = false ∧ ¬ Outstanding c'.world.conn)
      ∧ (Settled c'.world.conn ∨ Armed c'.world.conn) := by
  intro s'
  have htended := tended_after serverIP mss ms
  obtain ⟨p, as, hw⟩ := htended.reached id c hc
  obtain ⟨c', hc', hsame, hw'⟩ := conn_run ms' hc
  have hwait : Waiting p.isn c.world :=
    ⟨by rw [hw]; exact sendInv_after p as, by rw [hw]; exact attended_after p as, hmss⟩
  have hend : Settled c'.world.conn ∨ Armed c'.world.conn
      ∧ expiriesLeft c'.world.conn + (actionsOn id (after serverIP mss ms) ms').countP isExpiry
        ≤ expiriesLeft c.world.conn := by
    rw [hw']
    by_cases hcl : c.world.conn.state = .closed
    · exact .inl (settled_run _ (.inl hcl) hquiet)
    · exact quiet_run _ hwait ⟨harmed, hwait.attended.runs hcl harmed⟩ hquiet
  refine ⟨c', hc', hsame, fun h8 => ?_, hend.imp_right And.left⟩
  by_cases hcl : c'.world.conn.state = .closed
  · exact .inl ⟨hcl, ((tended_run ms' htended).removed id c' hc' hcl).resolve_right⟩
  · rcases hend with hs | ⟨-, hcount⟩
    · exact .inr (hs.resolve_left hcl)
    · have hpos := expiriesLeft_pos hcl
      have hmax := expiriesLeft_le c.world.conn
      omega

/-- The client of `clientIP` opens a connection and is not heard of again. -/
def unanswered : List (Threads.Move DemuxEvent Bool) :=
  [.start (.listen 80), .start (.attach Reattach.clientIP),
    .start (.packet 0 (Reattach.segment flagSYN 100 []) 0)] ++ Reattach.runs 2 5

/-- The timer of its connection expires eight times. -/
def expiresEightTimes : List (Threads.Move DemuxEvent Bool) :=
  (List.range 8).flatMap fun i => .start (.timer 0) :: Reattach.runs (3 + i) 6

/-- A client that never answers: after eight timeouts its connection is closed and removed. -/
theorem silent_client_removed :
    ((after Reattach.serverIP 1360 unanswered).shared.pool[0]?.all fun c =>
        decide (1 ≤ c.world.conn.sndMSS) && c.world.conn.timerArmed) = true
      ∧ ∃ c', (Machine.run (Threads.step program) (after Reattach.serverIP 1360 unanswered)
            expiresEightTimes).shared.pool[0]? = some c'
        ∧ (c'.world.conn.state = .closed
            ∧ (Machine.run (Threads.step program) (after Reattach.serverIP 1360 unanswered)
                expiresEightTimes).shared.conns.lookup c'.key ≠ some 0
          ∨ c'.world.conn.timerArmed = false ∧ ¬ Outstanding c'.world.conn) := by
  have hsome : (after Reattach.serverIP 1360 unanswered).shared.pool[0]?.isSome = true := by
    decide +kernel
  obtain ⟨c, hc⟩ := Option.isSome_iff_exists.mp hsome
  have harmed : ((after Reattach.serverIP 1360 unanswered).shared.pool[0]?.all fun c =>
      decide (1 ≤ c.world.conn.sndMSS) && c.world.conn.timerArmed) = true := by decide +kernel
  refine ⟨harmed, ?_⟩
  rw [hc] at harmed
  simp only [Option.all_some, Bool.and_eq_true, decide_eq_true_eq] at harmed
  obtain ⟨c', hc', -, hend, -⟩ :=
    silent_peer_settles Reattach.serverIP 1360 unanswered expiresEightTimes 0 c
    hc harmed.1 harmed.2 (by decide +kernel)
  refine ⟨c', hc', (hend (by decide +kernel)).imp_left fun h => ⟨h.1, h.2 ?_⟩⟩
  have hdone : (Machine.run (Threads.step program) (after Reattach.serverIP 1360 unanswered)
      expiresEightTimes).pending.length = 0 := by decide +kernel
  rw [List.length_eq_zero_iff.mp hdone]
  simp

end GoVpn.Netstack
