import GoVpn.Proof.TcpFlags

/-!
# Outstanding work and the timer

A connection has work outstanding while data is in flight, data is queued, or its FIN is
unacknowledged, and then only the retransmission timer can still move it. The stop for the last byte
of data does not look at the FIN: an acknowledgement that covers all the data and not the FIN behind
it stops the timer with the FIN outstanding.

The other way to be stranded is a client that announces a maximum segment size of zero. Data queued
for it never forms a segment, so nothing ever arms the timer.
-/

namespace GoVpn.Proof

open GoVpn.Netstack TcpConn

/-- Something the peer has still to acknowledge, or to make room for. -/
def Outstanding (c : TcpConn) : Prop :=
  0 < c.sentBytes ∨ c.sentBytes < c.outBuf.length ∨ c.finSent = true ∧ c.finAcked = false

/-- Outstanding work has a running timer. -/
def TimerRuns (w : World) : Prop := w.conn.state ≠ .closed → Outstanding w.conn → Armed w.conn

/-- The acknowledgement covers all the data, which is all in flight, but not the FIN behind it. -/
def Strands (c : TcpConn) (seg : TcpSegment) : Prop :=
  seg.has flagACK = true ∧ c.finSent = true ∧ c.finAcked = false ∧ acksFIN c seg.ack = false
    ∧ 0 < c.sentBytes ∧ c.sentBytes = c.outBuf.length ∧ ackedBytes c seg.ack = c.sentBytes

def StrandsFIN (w : World) : Action → Prop
  | .segment seg => Synchronized w.conn.state ∧ seg.has flagRST = false ∧ Strands w.conn seg
  | _ => False

/-- Data is written for a client whose segments can carry none. -/
def WritesUnsendable (w : World) : Action → Prop
  | .write p _ => w.conn.sndMSS = 0 ∧ p ≠ []
  | _ => False

/-! ## The timer through the send path -/

/-- What the timer argument needs to know about a connection. -/
structure TimerOk (c : TcpConn) : Prop where
  sent_le : c.sentBytes ≤ c.outBuf.length
  /-- A timer marked armed is running. -/
  op : c.timerArmed = true → c.rtoTimer ≠ .stopped
  /-- Only a closed window holds back data with nothing in flight. -/
  window : c.sentBytes = 0 → c.outBuf ≠ [] → c.sndWnd = 0
  /-- Queued data can be cut into segments. -/
  pushable : 0 < c.sndMSS ∨ c.outBuf = []

variable {c : TcpConn} {isn : Seq}

theorem push_timer (hle : c.sentBytes ≤ c.outBuf.length)
    (hop : c.timerArmed = true → c.rtoTimer ≠ .stopped)
    (hpush : 0 < c.sndMSS ∨ c.outBuf = []) (hpos : 0 < c.sentBytes → c.timerArmed = true)
    (toSend : List TcpSegment) :
    let c' := (c.sendPendingLocked toSend false).1
    TimerOk c' ∧ (0 < c'.sentBytes ∨ c'.sentBytes < c'.outBuf.length → c'.timerArmed = true)
      ∧ (c.timerArmed = true → c'.timerArmed = true) ∧ c'.finSent = c.finSent
      ∧ c'.finAcked = c.finAcked := by
  intro c'
  rcases hpush with hm | hnil
  · obtain ⟨m, segs, armed, op, rto, rc, he, hs, hkeep, harm, hwin⟩ :=
      sendPending_spec c toSend false
    have hc' : c' = { c with sentBytes := m, timerArmed := armed, rtoTimer := op, rto := rto,
                             retransmitCount :=
                               rc } := by show (c.sendPendingLocked _ _).1 = _; rw [he]
    rw [hc']
    refine ⟨⟨hs.le_length hle, ?_, ?_, .inl hm⟩, fun h => (harm rfl hm hop hpos h).1, ?_, rfl, rfl⟩
    · intro h
      rcases hkeep with ⟨h1, h2⟩ | ⟨_, h2⟩
      · rw [h2]; exact hop (h1.symm.trans h)
      · exact h2
    · intro h0 hne
      exact hwin rfl hm (by have := List.length_pos_iff.mpr hne; simp only at h0 this; omega) h0
    · intro h
      rcases hkeep with ⟨h1, _⟩ | ⟨h1, _⟩
      · exact h1.trans h
      · exact h1
  · have h0 : c.sentBytes = 0 := by rw [hnil] at hle; simpa using hle
    have hc' : c' = c := by
      show (c.sendPendingLocked _ _).1 = _
      rw [sendPending_idle (by rw [hnil, h0]; simp)]
    rw [hc']
    refine ⟨⟨hle, hop, fun _ hne => absurd hnil hne, .inr hnil⟩, fun h => ?_, id, rfl, rfl⟩
    rw [hnil, h0] at h
    exact absurd h (by simp)

theorem handleAck_timer (hb : c.sentBytes < 2 ^ 31) (hok : TimerOk c)
    (hout : Outstanding c → c.timerArmed = true) (seg : TcpSegment) (toSend : List TcpSegment) :
    let c' := (c.handleAckLocked seg toSend).1
    TimerOk c' ∧ (¬ Strands c seg → Outstanding c' → c'.timerArmed = true)
      ∧ (Strands c seg → Outstanding c' ∧ c'.timerArmed = false) := by
  intro c'
  by_cases hack : seg.has flagACK = true
  · obtain ⟨u, he, hk, hm, hfa, htimer⟩ := retire_spec hb seg
    have hkle := ackedBytes_le c seg.ack
    have hle := hok.sent_le
    have hc' : c' = ((u.on c).sendPendingLocked toSend false).1 := by
      show (c.handleAckLocked seg toSend).1 = _
      unfold handleAckLocked
      rw [if_neg (by simp [hack]), he]
    have hbuf : (u.on c).outBuf.length = c.outBuf.length - u.k := List.length_drop
    have hsent : (u.on c).sentBytes = c.sentBytes - u.k := hm
    have hop : (u.on c).timerArmed = true → (u.on c).rtoTimer ≠ .stopped := by
      intro h
      show u.op ≠ .stopped
      cases htimer with
      | kept _ h1 h2 => rw [h2]; exact hok.op (h1.symm.trans h)
      | restarted _ _ _ h2 => exact h2
      | stopped _ _ h1 => cases h1.symm.trans h
    have hpos : 0 < (u.on c).sentBytes → (u.on c).timerArmed = true := by
      intro h
      cases htimer with
      | kept _ h1 => exact h1.trans (hout (.inl (by omega)))
      | restarted _ _ h1 => exact h1
      | stopped h0 => exact absurd h (by show ¬ 0 < u.m; omega)
    have hpush : 0 < (u.on c).sndMSS ∨ (u.on c).outBuf = [] := by
      rcases hok.pushable with h | h
      · exact .inl h
      · right; show c.outBuf.drop u.k = []; rw [h]; simp
    obtain ⟨h1, h2, h3, h4, h5⟩ := push_timer (by omega) hop hpush hpos toSend
    rw [← hc'] at h1 h2 h3 h4 h5
    refine ⟨h1, ?_, ?_⟩
    · intro hn ho
      by_cases hdata : 0 < c'.sentBytes ∨ c'.sentBytes < c'.outBuf.length
      · exact h2 hdata
      -- only the FIN is outstanding, so the acknowledgement did not cover it
      · obtain ⟨hf1, hf2⟩ : c.finSent = true ∧ (c.finAcked || acksFIN c seg.ack) = false := by
          rcases ho with ho | ho | ⟨ho1, ho2⟩
          · exact absurd (.inl ho) hdata
          · exact absurd (.inr ho) hdata
          · exact ⟨h4.symm.trans ho1, hfa.symm.trans (h5.symm.trans ho2)⟩
        rw [Bool.or_eq_false_iff] at hf2
        have harmed := hout (.inr (.inr ⟨hf1, hf2.1⟩))
        apply h3
        cases htimer with
        | kept _ h6 => exact h6.trans harmed
        | restarted _ _ h6 => exact h6
        | stopped h0 hwhy =>
          rcases hwhy with hwhy | hwhy
          · exfalso
            have hlen : (u.on c).outBuf.length = 0 := by
              rcases Nat.eq_zero_or_pos (u.on c).outBuf.length with h7 | h7
              · exact h7
              · exfalso
                have hl : c'.outBuf.length = (u.on c).outBuf.length := by
                  obtain ⟨_, _, _, _, _, _, hq, _⟩ := sendPending_spec (u.on c) toSend false
                  rw [hc', hq]
                exact hdata (by omega)
            exact hn ⟨hack, hf1, hf2.1, hf2.2, by omega, by omega, by omega⟩
          · rw [hf2.2] at hwhy; exact absurd hwhy.2 (by simp)
    · rintro ⟨_, s1, s2, s3, s4, s5, s6⟩
      have hidle : c' = u.on c := by
        rw [hc', sendPending_idle (by omega)]
      rw [hidle]
      refine ⟨.inr (.inr ⟨s1, ?_⟩), ?_⟩
      · show u.finAcked = false; rw [hfa, s2, s3]; rfl
      · cases htimer with
        | kept h0 | restarted _ h0 => omega
        | stopped _ _ h0 => exact h0
  · have hc' : c' = c := by
      show (c.handleAckLocked seg toSend).1 = _
      unfold handleAckLocked
      rw [if_pos (by simp [hack])]
    rw [hc']
    exact ⟨hok, fun _ => hout, fun hs => absurd hs.1 hack⟩

/-! ## Runs -/

/-- What the law rests on in every state that is not CLOSED. -/
structure TimerInv (isn : Seq) (w : World) : Prop where
  flags : FlagsInv isn w
  ok : w.conn.state ≠ .closed → TimerOk w.conn
  /-- For a client with no segment size, nothing was ever queued and no `Write` waits. -/
  idle : w.conn.sndMSS = 0 → w.writers = [] ∧ w.written = []

theorem timerInv_init (p : SynParams) : TimerInv p.isn (World.init p) where
  flags := flagsInv_init p
  ok := by
    intro _
    exact ⟨Nat.le_refl _, fun _ => by simp [World.init, newTCPConn], fun _ h => absurd rfl h,
      .inr rfl⟩
  idle := by intro _; exact ⟨rfl, rfl⟩

theorem enter_timer (s : TcpState) (c : TcpConn) :
    (enter s c).finSent = c.finSent ∧ (enter s c).finAcked = c.finAcked
      ∧ (enter s c).sndWnd = c.sndWnd
      ∧ ((enter s c).timerArmed = c.timerArmed ∧ (enter s c).rtoTimer = c.rtoTimer
          ∨ Armed (enter s c) ∨ s = .closed) := by
  cases s
  case timeWait => exact ⟨rfl, rfl, rfl, .inr (.inl ⟨rfl, by simp [enter, startTimeWaitLocked]⟩)⟩
  case closed => exact ⟨rfl, rfl, rfl, .inr (.inr rfl)⟩
  all_goals exact ⟨rfl, rfl, rfl, .inl ⟨rfl, rfl⟩⟩

theorem timerOk_enter (s : TcpState) (hs : s ≠ .closed) (hok : TimerOk c) :
    TimerOk (enter s c)
      ∧ ((Outstanding c → c.timerArmed = true) → Outstanding (enter s c) → Armed (enter s c)) := by
  obtain ⟨e1, e2, e3, e4⟩ := enter_timer s c
  obtain ⟨f1, f2, f3, f4⟩ := enter_send s c
  have hout : Outstanding (enter s c) → Outstanding c := by
    unfold Outstanding; rw [f2, f3, e1, e2]; exact id
  refine ⟨⟨by rw [f2, f3]; exact hok.sent_le, ?_, by rw [f2, f3, e3]; exact hok.window,
    by rw [f4, f2]; exact hok.pushable⟩, ?_⟩
  · intro h
    rcases e4 with ⟨h1, h2⟩ | h1 | h1
    · rw [h2]; exact hok.op (h1.symm.trans h)
    · exact h1.2
    · exact absurd h1 hs
  · intro harm ho
    rcases e4 with ⟨h1, h2⟩ | h1 | h1
    · have ha := harm (hout ho)
      exact ⟨h1.trans ha, by rw [h2]; exact hok.op ha⟩
    · exact h1
    · exact absurd h1 hs

theorem rto_timer {o : Outcome} (h : RtoStep c o)
    (hsyn : c.state = .synRcvd → ¬ Outstanding c) (hc : c.state ≠ .closed)
    (hok : TimerOk c) (hlaw : Outstanding c → Armed c) (hc' : o.conn.state ≠ .closed) :
    TimerOk o.conn ∧ (Outstanding o.conn → Armed o.conn) := by
  have hretr : ∀ seg, (Outstanding c → c.timerArmed = true) → Retransmit c seg o →
      TimerOk o.conn ∧ (Outstanding o.conn → Armed o.conn) := by
    intro seg harm hr
    cases hr with
    | resend =>
      exact ⟨⟨hok.sent_le, fun _ => by simp, hok.window, hok.pushable⟩,
        fun ho => ⟨harm ho, by simp⟩⟩
    | giveUp => exact absurd rfl hc'
  cases h with
  | idle h1 => exact absurd h1 hc
  | timeWaitOver => exact absurd rfl hc'
  | resendSynAck h1 hr => exact hretr _ (fun ho => absurd ho (hsyn h1)) hr
  | resendData _ _ _ hr | resendFIN _ _ _ hr => exact hretr _ (fun ho => (hlaw ho).1) hr
  | probeGiveUp => exact absurd rfl hc'
  | @probe probes _ _ h0 hw hne =>
    have harm := (hlaw (.inr (.inl (by omega)))).1
    obtain ⟨m, segs, armed, op, rto, rc, he, hs, hkeep, _⟩ :=
      sendPending_spec { c with persistProbeCount := probes } [] true
    rw [he]
    have harm' : armed = true := by
      rcases hkeep with ⟨h1, _⟩ | ⟨h1, _⟩
      · exact h1.trans harm
      · exact h1
    exact ⟨⟨hs.le_length hok.sent_le, fun _ => by simp, fun _ _ => hw, hok.pushable⟩,
      fun _ => ⟨harm', by simp⟩⟩
  | disarm _ _ _ h0 hfin hwnd =>
    refine ⟨⟨hok.sent_le, fun h => absurd h (by simp), hok.window, hok.pushable⟩, ?_⟩
    rintro (ho | ho | ⟨ho1, ho2⟩)
    · exact absurd ho (by simp only; omega)
    · have hne : c.outBuf ≠ [] := by
        intro hnil; simp only [hnil, List.length_nil] at ho; omega
      have := hwnd (hok.window h0 hne)
      simp only at ho
      omega
    · rw [hfin ho1] at ho2; cases ho2

variable {r : TcpConn × List TcpSegment × WriteResult}

theorem write_timer {call : WriteCall} (h : WriteStep c call r) (hok : TimerOk c)
    (hlaw : Outstanding c → Armed c) (hm : r.1 = c ∨ 0 < c.sndMSS) :
    TimerOk r.1 ∧ (Outstanding r.1 → Armed r.1) := by
  rcases hm with hm | hm
  · rw [hm]; exact ⟨hok, hlaw⟩
  cases h with
  | returned | full => exact ⟨hok, hlaw⟩
  | queued =>
    have hle : (enqueueBytes c call).sentBytes ≤ (enqueueBytes c call).outBuf.length := by
      show c.sentBytes ≤ (c.outBuf ++ _).length
      rw [List.length_append]
      have := hok.sent_le
      omega
    obtain ⟨h1, h2, h3, h4, h5⟩ := push_timer hle hok.op (.inl hm)
      (fun hpos => (hlaw (.inl hpos)).1) []
    refine ⟨h1, fun ho => ?_⟩
    have harm : ((enqueueBytes c call).sendPendingLocked [] false).1.timerArmed = true := by
      rcases ho with ho | ho | ⟨ho1, ho2⟩
      · exact h2 (.inl ho)
      · exact h2 (.inr ho)
      · exact h3 (hlaw (.inr (.inr ⟨h4.symm.trans ho1, h5.symm.trans ho2⟩))).1
    exact ⟨harm, h1.op harm⟩

variable {a : Action} {w w' : World}

/-- The segment size is agreed once. -/
theorem step_mss (h : SendInv isn w) (hs : WorldStep w a w') : w'.conn.sndMSS = w.conn.sndMSS := by
  have hle := h.sent_le
  cases hs with
  | @segment seg o hseg =>
    cases hseg with
    | ignored | reset | refused => rfl
    | handshake =>
      obtain ⟨u, _, _, he, _⟩ := handleData_shape (establish w.conn seg) seg []
      rw [he]; rfl
    | sync _ _ hr => exact (sync_sendStep hle h.sent_lt hr _).mss.1
    | reAck => rfl
  | rto hrto => exact (rto_sendStep hle hrto).mss.1
  | teardown => rfl
  | write _ hw => exact (write_sendStep hle hw.step).mss.1
  | @read n d _ =>
    obtain ⟨buf, out, e, he⟩ := read_shape w n d
    rw [he]
  | closeWrite _ hc => exact (close_sendStep hle hc).mss.1
  | nothing => rfl

theorem halfOpen_idle (h : SendInv isn w) (hst : w.conn.state = .synRcvd) :
    w.accepted = false ∧ ¬ Outstanding w.conn := by
  have hacc : w.accepted = false := by
    cases hc : w.accepted with
    | false => rfl
    | true => exact absurd hst (h.opened hc)
  obtain ⟨hb, h0⟩ := sendInv_fresh h hacc
  refine ⟨hacc, ?_⟩
  rintro (ho | ho | ho)
  · omega
  · rw [hb] at ho; exact absurd ho (by simp)
  · rw [(h.fresh hacc).2.2.1] at ho; exact absurd ho.1 (by simp)

theorem writeEntry_nil (c : TcpConn) (d : Bool) :
    ∃ n e, c.writeEntry [] d = (c, [], .returned n e) := by
  unfold writeEntry
  split
  · exact ⟨_, _, rfl⟩
  split
  · exact ⟨_, _, rfl⟩
  split
  · exact ⟨_, _, rfl⟩
  · exact ⟨0, none, rfl⟩

theorem write_idle {call : WriteCall} {ws : List WriteCall} (h : TimerInv isn w)
    (hm : w.conn.sndMSS = 0) (hn : ¬ WritesUnsendable w a) (hw : WriteFrom w a call r ws) :
    r.1 = w.conn ∧ ws = [] ∧ r.2.2.queued call = [] := by
  cases hw with
  | @entry p d =>
    have hp : p = [] := Classical.byContradiction fun hp => hn ⟨hm, hp⟩
    subst hp
    obtain ⟨n, e, he⟩ := writeEntry_nil w.conn d
    rw [he]
    exact ⟨rfl, (h.idle hm).1, rfl⟩
  | resume hi => rw [(h.idle hm).1] at hi; cases hi

theorem timerInv_idle (h : TimerInv isn w) (hn : ¬ WritesUnsendable w a) (hs : WorldStep w a w')
    (hm : w'.conn.sndMSS = 0) : w'.writers = [] ∧ w'.written = [] := by
  rw [step_mss h.flags.send hs] at hm
  have hidle := h.idle hm
  cases hs with
  | segment | rto | teardown => exact hidle
  | write _ hw =>
    obtain ⟨_, h2, h3⟩ := write_idle h hm hn hw
    refine ⟨h2, ?_⟩
    show w.written ++ _ = []
    rw [hidle.2, h3]; rfl
  | @read n d _ =>
    obtain ⟨buf, out, e, he⟩ := read_shape w n d
    rw [he]; exact hidle
  | closeWrite | nothing => exact hidle

theorem sync_timer (hb : c.sentBytes < 2 ^ 31) {seg : TcpSegment}
    {r : TcpConn × List TcpSegment × Bool} (h : SyncStep c seg r) {s : TcpState} (hs : s ≠ .closed)
    (hok : TimerOk c) (hout : Outstanding c → c.timerArmed = true) :
    TimerOk (enter s r.1)
      ∧ (¬ Strands c seg → Outstanding (enter s r.1) → Armed (enter s r.1))
      ∧ (Strands c seg → s ≠ .timeWait →
          Outstanding (enter s r.1) ∧ (enter s r.1).timerArmed = false) := by
  obtain ⟨u, segs, v, acks, hsh⟩ := sync_shape hb h
  obtain ⟨t1, t2, t3⟩ := handleAck_timer hb hok hout seg []
  rw [hsh.ack] at t1 t2 t3
  -- data processing changes nothing the timer argument looks at
  have t1' : TimerOk (v.on (u.on c)) := ⟨t1.1, t1.2, t1.3, t1.4⟩
  rw [hsh.conn]
  obtain ⟨e1, e2⟩ := timerOk_enter s hs t1'
  refine ⟨e1, fun hn => e2 (t2 hn), fun hstr hnt => ?_⟩
  obtain ⟨o1, o2⟩ := t3 hstr
  cases s
  case closed => exact absurd rfl hs
  case timeWait => exact absurd rfl hnt
  all_goals exact ⟨o1, o2⟩

/-- **One step** that neither strands the FIN nor writes what cannot be sent. -/
theorem timer_step (h : TimerInv isn w) (hlaw : TimerRuns w) (hn : ¬ StrandsFIN w a)
    (hn' : ¬ WritesUnsendable w a) (hs : WorldStep w a w') : TimerInv isn w' ∧ TimerRuns w' := by
  have hb := h.flags.send.sent_lt
  suffices hgoal : w'.conn.state ≠ .closed →
      TimerOk w'.conn ∧ (Outstanding w'.conn → Armed w'.conn) from
    ⟨⟨flagsInv_step h.flags hs, fun hc => (hgoal hc).1, timerInv_idle h hn' hs⟩,
      fun hc => (hgoal hc).2⟩
  intro hc'
  have hsame : w.conn.state ≠ .closed →
      TimerOk w.conn ∧ (Outstanding w.conn → Armed w.conn) := fun hc => ⟨h.ok hc, hlaw hc⟩
  cases hs with
  | @segment seg o hseg =>
    cases hseg with
    | ignored => exact hsame hc'
    | reset | refused => exact absurd rfl hc'
    | handshake hst =>
      obtain ⟨hacc, hidle⟩ := halfOpen_idle h.flags.send hst
      obtain ⟨hbuf, h0⟩ := sendInv_fresh h.flags.send hacc
      obtain ⟨u, segs, fin, he, _⟩ := handleData_shape (establish w.conn seg) seg []
      simp only [World.apply, he]
      refine ⟨⟨h.flags.send.sent_le, fun hc => absurd hc (by simp [RecvUpdate.on, establish]),
        fun _ hne => absurd hbuf hne, .inr hbuf⟩, fun ho => absurd ho hidle⟩
    | @sync r hsync hrst hr =>
      have hns : nextState w.conn.state r.1.finAcked r.2.2 ≠ .closed := by
        intro hc; rw [hc] at hc'; exact hc' rfl
      have hst : w.conn.state ≠ .closed := by intro hc; rw [hc] at hsync; exact hsync
      obtain ⟨h1, h2, _⟩ := sync_timer hb hr hns (h.ok hst) (fun ho => (hlaw hst ho).1)
      exact ⟨h1, h2 fun hstr => hn ⟨hsync, hrst, hstr⟩⟩
    | reAck => exact hsame hc'
  | rto hrto =>
    have hst : w.conn.state ≠ .closed := by
      intro hc
      rcases rto_state hrto with h1 | h1
      · exact hc' (h1.trans hc)
      · exact hc' h1
    exact rto_timer hrto (fun h1 => (halfOpen_idle h.flags.send h1).2) hst (h.ok hst) (hlaw hst) hc'
  | teardown => exact absurd rfl hc'
  | @write a call ws r _ hw =>
    have hst : w.conn.state ≠ .closed := by rw [← write_state hw.step]; exact hc'
    refine write_timer hw.step (h.ok hst) (hlaw hst) ?_
    rcases Nat.eq_zero_or_pos w.conn.sndMSS with hm | hm
    · exact .inl (write_idle h hm hn' hw).1
    · exact .inr hm
  | @read n d _ =>
    obtain ⟨buf, out, e, he⟩ := read_shape w n d
    rw [he] at hc' ⊢
    have hok := h.ok hc'
    exact ⟨⟨hok.1, hok.2, hok.3, hok.4⟩, hlaw hc'⟩
  | closeWrite _ hc =>
    cases hc with
    | nothing =>
      have hok := h.ok hc'
      exact ⟨⟨hok.1, hok.2, hok.3, hok.4⟩, hlaw hc'⟩
    | fin _ hfin =>
      have hst : w.conn.state ≠ .closed := by
        intro hc; rcases hfin with ⟨h1, _⟩ | ⟨h1, _⟩ <;> rw [hc] at h1 <;> cases h1
      have hok := h.ok hst
      have hrun : TimerOp.reset initialRTO ≠ .stopped := by simp
      exact ⟨⟨hok.1, fun _ => hrun, hok.3, hok.4⟩, fun _ => ⟨rfl, hrun⟩⟩
  | nothing => exact hsame hc'

theorem strands_next (h : FlagsInv isn w) {seg : TcpSegment} (hsync : Synchronized w.conn.state)
    (hstr : Strands w.conn seg) {r : TcpConn × List TcpSegment × Bool}
    (hr : SyncStep w.conn seg r) :
    nextState w.conn.state r.1.finAcked r.2.2 ≠ .closed
      ∧ nextState w.conn.state r.1.finAcked r.2.2 ≠ .timeWait := by
  obtain ⟨_, hfs, hfa, hcov, _⟩ := hstr
  have hna : r.1.finAcked = false := by
    rw [(sync_flags h.send.sent_lt hr).2.1, hfa, hcov]; simp
  have hown := h.own
  rw [hfs, hfa] at hown
  rw [hna]
  generalize w.conn.state = s at hsync hown ⊢
  cases s with
  | listen | synRcvd | timeWait | closed => cases hsync
  | established | closeWait | finWait2 => exact absurd hown (by simp [OwnFIN])
  | finWait1 => cases r.2.2 <;> simp [nextState]
  | closing | lastAck => simp [nextState]

theorem strandsFIN_breaks (h : TimerInv isn w) (hlaw : TimerRuns w) (hs : StrandsFIN w a) :
    ¬ TimerRuns (w.act a) := by
  cases a with
  | segment seg =>
    obtain ⟨hsync, hrst, hstr⟩ := hs
    have hb := h.flags.send.sent_lt
    have hst : w.conn.state ≠ .closed := by intro hc; rw [hc] at hsync; exact hsync
    obtain ⟨r, hr, heq⟩ := handleSegment_sync hsync hrst
    have hns := strands_next h.flags hsync hstr hr
    obtain ⟨_, _, hbreak⟩ := sync_timer hb hr hns.1 (h.ok hst) (fun ho => (hlaw hst ho).1)
    obtain ⟨ho, harm⟩ := hbreak hstr hns.2
    intro hruns
    rw [World.act, heq] at hruns
    have hrun := (hruns (by rw [World.apply, enter_state]; exact hns.1) ho).1
    cases harm.symm.trans hrun
  | rtoFired | detached | abort | write | resumeWrite | read | closeWrite | close =>
    cases hs

/--
**When outstanding work has a running timer.** In every run in which nothing is
written for a client without a segment size, and no acknowledgement covers all
the data but not the FIN behind it, the timer runs in every state that has work
outstanding. For a client with a segment size the second condition is exact.
-/
theorem timer_runs_iff (p : SynParams) (as : List Action) :
    (Machine.Along World.act (fun w a => ¬ StrandsFIN w a ∧ ¬ WritesUnsendable w a)
        (World.init p) as →
      Machine.Always World.act TimerRuns (World.init p) as)
    ∧ (p.sndMSS ≠ 0 →
        (Machine.Always World.act TimerRuns (World.init p) as
          ↔ Machine.Along World.act (fun w a => ¬ StrandsFIN w a) (World.init p) as)) := by
  have hstart : TimerRuns (World.init p) := by
    intro _ ho
    exact absurd ho (halfOpen_idle (sendInv_init p) rfl).2
  constructor
  · intro hsteps
    have hinv := Machine.always_invariant (I := fun w => TimerInv p.isn w ∧ TimerRuns w)
      (fun w a h hn => timer_step h.1 h.2 hn.1 hn.2 (act_step w a)) ⟨timerInv_init p, hstart⟩ hsteps
    exact Machine.always_mono (fun w h => h.2) hinv
  · intro hm
    refine Machine.always_iff_along (I := fun w => TimerInv p.isn w ∧ w.conn.sndMSS ≠ 0)
      ?_ ?_ ⟨timerInv_init p, ?_⟩ hstart
    · intro w a h hq hn
      have hstep := act_step w a
      have hw : ¬ WritesUnsendable w a := by
        cases a with
        | write q d => intro hc; exact h.2 hc.1
        | segment | rtoFired | detached | abort | resumeWrite | read | closeWrite
          | close => exact id
      obtain ⟨h1, h2⟩ := timer_step h.1 hq hn hw hstep
      exact ⟨⟨h1, by rw [step_mss h.1.flags.send hstep]; exact h.2⟩, h2⟩
    · intro w a h hq hn
      exact strandsFIN_breaks h.1 hq (Classical.not_not.mp hn)
    · intro h0
      exact hm (BitVec.eq_of_toNat_eq h0)

/-- One byte and the FIN behind it are in flight, and the byte alone is acknowledged. -/
theorem fin_stranded_without_timer :
    let p : SynParams := ⟨80, 4000, 1460, 100, 500, 1000, 1460⟩
    let ackOf (n : Seq) : Action :=
      .segment
        { srcPort := 4000, dstPort := 80, seq := 501, ack := n, flags := flagACK, window := 1000 }
    let w := World.after p [ackOf 101, .write [7] false, .closeWrite, ackOf 102]
    w.conn.state = .finWait1 ∧ w.conn.finSent = true ∧ w.conn.finAcked = false
      ∧ w.conn.timerArmed = false ∧ w.conn.rtoTimer = .stopped ∧ ¬ TimerRuns w := by
  intro p ackOf w
  have h : w.conn.state = .finWait1 ∧ w.conn.finSent = true ∧ w.conn.finAcked = false
      ∧ w.conn.timerArmed = false ∧ w.conn.rtoTimer = .stopped := by decide
  refine ⟨h.1, h.2.1, h.2.2.1, h.2.2.2.1, h.2.2.2.2, ?_⟩
  intro hruns
  have harm := hruns (by rw [h.1]; simp) (.inr (.inr ⟨h.2.1, h.2.2.1⟩))
  exact harm.2 h.2.2.2.2

end GoVpn.Proof
