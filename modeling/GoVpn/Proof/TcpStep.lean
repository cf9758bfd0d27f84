import GoVpn.Proof.TcpShape

/-!
# The cases of a step

`handleSegment` and `onRTOFired` are long case distinctions. Each is inverted
once, into an inductive relation with one constructor for each thing it can do;
the invariants are then proved by cases on that relation.
-/

namespace GoVpn.Proof

open GoVpn.Netstack TcpConn

/-! ## Inbound segments -/

/-- The states in which both SYNs are acknowledged and the connection still works. -/
def Synchronized : TcpState → Prop
  | .established | .finWait1 | .finWait2 | .closing | .closeWait | .lastAck => True
  | .listen | .synRcvd | .timeWait | .closed => False

instance : DecidablePred Synchronized
  | .established | .finWait1 | .finWait2 | .closing | .closeWait | .lastAck => isTrue trivial
  | .listen | .synRcvd | .timeWait | .closed => isFalse not_false

/-- The state after a segment, from whether our FIN is acknowledged and the peer's consumed. -/
def nextState (s : TcpState) (finAcked finConsumed : Bool) : TcpState :=
  match s with
  | .established => if finConsumed then .closeWait else .established
  | .finWait1 =>
    if finConsumed && finAcked then .timeWait
    else if finConsumed then .closing
    else if finAcked then .finWait2
    else .finWait1
  | .finWait2 => if finConsumed then .timeWait else .finWait2
  | .closing => if finAcked then .timeWait else .closing
  | .lastAck => if finAcked then .closed else .lastAck
  | s => s

/-- Entering a state, with what TIME_WAIT and CLOSED do to the timer on entry. -/
def enter (s : TcpState) (c : TcpConn) : TcpConn :=
  match s with
  | .timeWait => c.startTimeWaitLocked
  | .closed => c.teardown c.err
  | s => { c with state := s }

/-- The connection at the moment the handshake completes, before the segment's data. -/
def establish (c : TcpConn) (seg : TcpSegment) : TcpConn :=
  { c with sndUna := seg.ack, state := .established, rtoTimer := .stopped, timerArmed := false }

/-- What `handleSegment` does to a connection in a synchronized state, before the state changes. -/
inductive SyncStep (c : TcpConn) (seg : TcpSegment) : TcpConn × List TcpSegment × Bool → Prop where
  | data : (c.state = .established ∨ c.state = .finWait1 ∨ c.state = .finWait2) →
      SyncStep c seg ((c.handleAckLocked seg []).1.handleEstablishedDataLocked seg
        (c.handleAckLocked seg []).2)
  | ackOnly : (c.state = .closing ∨ c.state = .closeWait ∨ c.state = .lastAck) →
      SyncStep c seg ((c.handleAckLocked seg []).1, (c.handleAckLocked seg []).2, false)

/-- Everything `handleSegment` can do. -/
inductive SegStep (c : TcpConn) (seg : TcpSegment) : Outcome → Prop where
  | ignored : (seg.has flagRST = true ∨ ¬ Synchronized c.state ∧ c.state ≠ .synRcvd) →
      SegStep c seg { conn := c }
  | reset : seg.has flagRST = true → SegStep c seg { conn := c.teardown (some .connReset) }
  | refused : c.state = .synRcvd → seg.has flagRST = false →
      (seg.has flagACK = false ∨ seg.ack ≠ c.sndUna + 1) →
      SegStep c seg { conn := c.teardown c.err, toSend := [buildRSTSegment seg] }
  | handshake : c.state = .synRcvd → seg.has flagRST = false → seg.has flagACK = true →
      seg.ack = c.sndUna + 1 →
      SegStep c seg
        { conn := ((establish c seg).handleEstablishedDataLocked seg []).1
          toSend := ((establish c seg).handleEstablishedDataLocked seg []).2.1
          enqueue := true }
  | sync {r : TcpConn × List TcpSegment × Bool} : Synchronized c.state →
      seg.has flagRST = false → SyncStep c seg r →
      SegStep c seg { conn := enter (nextState c.state r.1.finAcked r.2.2) r.1, toSend := r.2.1 }
  | reAck : c.state = .timeWait →
      SegStep c seg { conn := c, toSend := [c.buildACKLocked] }

theorem handleAck_state (c : TcpConn) (seg : TcpSegment) (toSend : List TcpSegment) :
    (c.handleAckLocked seg toSend).1.state = c.state := by
  have hrd : ∀ d : TcpConn, (d.retireData seg.ack).state = d.state := by
    intro d; unfold retireData; dsimp only
    repeat' split
    all_goals rfl
  have hrf : ∀ d : TcpConn, (d.retireFIN seg.ack).state = d.state := by
    intro d
    obtain ⟨_, _, h, _⟩ := retireFIN_spec d seg.ack
    rw [h]
  have huw : ∀ d : TcpConn, (d.updateWindow seg).state = d.state := by
    intro d; unfold updateWindow; dsimp only; split <;> rfl
  have hsp : ∀ d : TcpConn, (d.sendPendingLocked toSend false).1.state = d.state := by
    intro d
    obtain ⟨_, _, _, _, _, _, h, _⟩ := sendPending_spec d toSend false
    rw [h]
  unfold handleAckLocked
  split
  · rfl
  · rw [hsp, huw, hrf, hrd]

theorem handleData_state (c : TcpConn) (seg : TcpSegment) (toSend : List TcpSegment) :
    (c.handleEstablishedDataLocked seg toSend).1.state = c.state := by
  obtain ⟨u, _, _, h, _⟩ := handleData_shape c seg toSend
  rw [h]; rfl

/--
What a synchronized connection does with a segment, spelled out: `u` is the
acknowledgement's update, `segs` the data it let go, `v` the update of the receive
side and `acks` the answer to the segment's data.
-/
structure SyncShape (c : TcpConn) (seg : TcpSegment) (r : TcpConn × List TcpSegment × Bool)
    (u : AckUpdate) (segs : List TcpSegment) (v : RecvUpdate) (acks : List TcpSegment) : Prop where
  conn : r.1 = v.on (u.on c)
  sent : r.2.1 = segs ++ acks
  ack : c.handleAckLocked seg [] = (u.on c, segs)
  retired_le : u.k ≤ c.sentBytes
  sends : Sends (u.on c) (c.sentBytes - u.k) u.m segs
  finAcked : u.finAcked = (c.finAcked || seg.has flagACK && acksFIN c seg.ack)
  retired : seg.has flagACK = true → u.k = ackedBytes c seg.ack
  bare : ∀ s ∈ acks, s = (v.on (u.on c)).buildACKLocked
  peerClosed : v.peerClosed = (c.peerClosed || r.2.2)

variable {c : TcpConn} {seg : TcpSegment}

/-- Every step of a synchronized connection has this shape. -/
theorem sync_shape (hb : c.sentBytes < 2 ^ 31)
    {r : TcpConn × List TcpSegment × Bool} (h : SyncStep c seg r) :
    ∃ u segs v acks, SyncShape c seg r u segs v acks := by
  obtain ⟨u, segs, he, hk, hs, hfa, hret⟩ := handleAck_spec hb seg []
  rw [List.nil_append] at he
  cases h with
  | data =>
    obtain ⟨v, acks, fin, hd, hbare, hp⟩ := handleData_shape (c.handleAckLocked seg []).1 seg
      (c.handleAckLocked seg []).2
    rw [he] at hd hbare hp ⊢
    refine ⟨u, segs, v, acks, by rw [hd], by rw [hd], he, hk, hs, hfa, hret, hbare, ?_⟩
    rw [hd]; exact hp
  | ackOnly =>
    refine ⟨u, segs, ⟨c.rcvNxt, c.recvBuf, c.reorder, c.hasPendingFIN, c.pendingFINSeq,
      c.peerClosed⟩, [], ?_, ?_, he, hk, hs, hfa, hret, by simp, by simp⟩
    · rw [he]; rfl
    · rw [he]; simp

theorem enter_self {s : TcpState} (h : c.state = s) (h1 : s ≠ .timeWait)
    (h2 : s ≠ .closed) : enter s c = c := by
  subst h
  unfold enter
  split
  · exact absurd (by assumption) h1
  · exact absurd (by assumption) h2
  · rfl

theorem enter_err (s : TcpState) (c : TcpConn) : (enter s c).err = c.err := by
  cases s <;> rfl

theorem enter_state (s : TcpState) (c : TcpConn) : (enter s c).state = s := by
  cases s <;> rfl

theorem nextState_synchronized {s : TcpState} (h : Synchronized s) (b₁ b₂ : Bool) :
    nextState s b₁ b₂ ≠ .synRcvd := by
  cases s <;> cases b₁ <;> cases b₂ <;> first | exact absurd h id | decide

theorem finWait1_enter (h : c.state = .finWait1) (fin : Bool) :
    (if fin && c.finAcked then c.startTimeWaitLocked
      else if fin then { c with state := .closing }
      else if c.finAcked then { c with state := .finWait2 }
      else c) = enter (nextState .finWait1 c.finAcked fin) c := by
  show _ = enter (if fin && c.finAcked then .timeWait else if fin then .closing
    else if c.finAcked then .finWait2 else .finWait1) c
  by_cases h1 : (fin && c.finAcked) = true
  · rw [if_pos h1, if_pos h1]; rfl
  · rw [if_neg h1, if_neg h1]
    by_cases h2 : fin = true
    · rw [if_pos h2, if_pos h2]; rfl
    · rw [if_neg h2, if_neg h2]
      by_cases h3 : c.finAcked = true
      · rw [if_pos h3, if_pos h3]; rfl
      · rw [if_neg h3, if_neg h3, enter_self h (by simp) (by simp)]

theorem ite_enter {s s' : TcpState} (h : c.state = s) (h1 : s ≠ .timeWait)
    (h2 : s ≠ .closed) (b : Bool) :
    (if b then enter s' c else c) = enter (if b then s' else s) c := by
  cases b with
  | true => rfl
  | false => simp only [Bool.false_eq_true, if_false]; rw [enter_self h h1 h2]

/-- **The inversion of `handleSegment`.** -/
theorem handleSegment_step (c : TcpConn) (seg : TcpSegment) :
    SegStep c seg (c.handleSegment seg) := by
  unfold handleSegment
  split
  · rename_i hrst
    split
    · exact .reset hrst
    · exact .ignored (.inl hrst)
  · rename_i hrst
    have hrst' : seg.has flagRST = false := by simpa using hrst
    -- the states that process data share one argument, and so do those that do not
    have hdata : ∀ {s}, c.state = s → (s = .established ∨ s = .finWait1 ∨ s = .finWait2) →
        let r := (c.handleAckLocked seg []).1.handleEstablishedDataLocked seg
          (c.handleAckLocked seg []).2
        SegStep c seg { conn := enter (nextState s r.1.finAcked r.2.2) r.1, toSend := r.2.1 }
          ∧ r.1.state = s := by
      rintro s rfl hs
      refine ⟨.sync ?_ hrst' (.data hs), ?_⟩
      · rcases hs with hs | hs | hs <;> rw [hs] <;> trivial
      · rw [handleData_state, handleAck_state]
    have hack : ∀ {s}, c.state = s → (s = .closing ∨ s = .closeWait ∨ s = .lastAck) →
        let a := c.handleAckLocked seg []
        SegStep c seg { conn := enter (nextState s a.1.finAcked false) a.1, toSend := a.2 }
          ∧ a.1.state = s := by
      rintro s rfl hs
      refine ⟨.sync ?_ hrst' (.ackOnly hs), handleAck_state _ _ _⟩
      rcases hs with hs | hs | hs <;> rw [hs] <;> trivial
    have hidle : ∀ {s}, c.state = s → ¬ Synchronized s → s ≠ .synRcvd →
        SegStep c seg { conn := c } := by
      rintro s rfl h1 h2
      exact .ignored (.inr ⟨h1, h2⟩)
    split
    · rename_i hs
      split
      · rename_i hg
        simp only [Bool.or_eq_true, Bool.not_eq_true', bne_iff_ne] at hg
        exact .refused hs hrst' hg
      · rename_i hg
        simp only [Bool.or_eq_true, Bool.not_eq_true', bne_iff_ne, not_or, Bool.not_eq_false,
          ne_eq, Decidable.not_not] at hg
        exact .handshake hs hrst' hg.1 hg.2
    · rename_i hs
      obtain ⟨h1, h2⟩ := hdata hs (.inl rfl)
      rwa [nextState, ← ite_enter h2 (by simp) (by simp)] at h1
    · rename_i hs
      obtain ⟨h1, h2⟩ := hdata hs (.inr (.inl rfl))
      rwa [← finWait1_enter h2] at h1
    · rename_i hs
      obtain ⟨h1, h2⟩ := hdata hs (.inr (.inr rfl))
      rwa [nextState, ← ite_enter h2 (by simp) (by simp)] at h1
    · rename_i hs
      obtain ⟨h1, h2⟩ := hack hs (.inl rfl)
      rwa [nextState, ← ite_enter h2 (by simp) (by simp)] at h1
    · rename_i hs
      obtain ⟨h1, h2⟩ := hack hs (.inr (.inl rfl))
      have h : SegStep c seg { conn := enter .closeWait _, toSend := _ } := h1
      rwa [enter_self h2 (by simp) (by simp)] at h
    · rename_i hs
      obtain ⟨h1, h2⟩ := hack hs (.inr (.inr rfl))
      rwa [nextState, ← ite_enter h2 (by simp) (by simp)] at h1
    · rename_i hs
      split
      · exact .reAck hs
      · exact hidle hs id (by simp)
    · rename_i hs; exact hidle hs id (by simp)
    · rename_i hs; exact hidle hs id (by simp)

theorem handleSegment_handshake (hst : c.state = .synRcvd)
    (hrst : seg.has flagRST = false) (hack : seg.has flagACK = true)
    (hnum : seg.ack = c.sndUna + 1) :
    c.handleSegment seg
      = { conn := ((establish c seg).handleEstablishedDataLocked seg []).1
          toSend := ((establish c seg).handleEstablishedDataLocked seg []).2.1
          enqueue := true } := by
  have hstep := handleSegment_step c seg
  generalize c.handleSegment seg = o at hstep ⊢
  cases hstep with
  | ignored h0 =>
    rcases h0 with h0 | h0
    · cases hrst.symm.trans h0
    · exact absurd hst h0.2
  | reset h0 => cases hrst.symm.trans h0
  | refused _ _ h0 =>
    rcases h0 with h0 | h0
    · cases hack.symm.trans h0
    · exact absurd hnum h0
  | handshake => rfl
  | sync hsync => rw [hst] at hsync; exact absurd hsync id
  | reAck h0 => cases hst.symm.trans h0

theorem handleSegment_sync (hst : Synchronized c.state) (hrst : seg.has flagRST = false) :
    ∃ r, SyncStep c seg r
      ∧ c.handleSegment seg
          = { conn := enter (nextState c.state r.1.finAcked r.2.2) r.1, toSend := r.2.1 } := by
  have hstep := handleSegment_step c seg
  generalize c.handleSegment seg = o at hstep ⊢
  have hsyn : c.state ≠ .synRcvd := by intro h; rw [h] at hst; exact hst
  cases hstep with
  | ignored h0 =>
    rcases h0 with h0 | h0
    · cases hrst.symm.trans h0
    · exact absurd hst h0.1
  | reset h0 => cases hrst.symm.trans h0
  | refused h0 | handshake h0 => exact absurd h0 hsyn
  | sync _ _ hr => exact ⟨_, hr, rfl⟩
  | reAck h0 => rw [h0] at hst; exact absurd hst id

/-! ## Timer expiry -/

/-- A retransmission either goes out with a longer timeout, or the connection is given up. -/
inductive Retransmit (c : TcpConn) (seg : TcpSegment) : Outcome → Prop where
  | resend {rc rto : Nat} :
      Retransmit c seg
        { conn := { c with retransmitCount := rc, rto := rto, rtoTimer := .reset rto }
          toSend := [seg] }
  | giveUp {c' : TcpConn} : c' = { c with retransmitCount := c'.retransmitCount } →
      Retransmit c seg { conn := c'.teardown (some .connReset), toSend := [c'.resetSegment] }

/-- **The inversion of `retransmit`.** -/
theorem retransmit_cases (c : TcpConn) (seg : TcpSegment) :
    Retransmit c seg (c.retransmit seg) := by
  unfold retransmit
  dsimp only
  split
  · exact .giveUp rfl
  · exact .resend

/-- Everything `onRTOFired` can do. -/
inductive RtoStep (c : TcpConn) : Outcome → Prop where
  | idle : c.state = .closed → RtoStep c { conn := c }
  | timeWaitOver : c.inTimeWait = true → RtoStep c { conn := c.teardown c.err }
  | resendSynAck {o : Outcome} : c.state = .synRcvd → Retransmit c c.synAck o → RtoStep c o
  | resendData {o : Outcome} : c.state ≠ .synRcvd → c.state ≠ .closed → 0 < c.sentBytes →
      Retransmit c
        (c.segment c.sndUna flagACK (c.outBuf.take (min c.sentBytes c.sndMSS))) o → RtoStep c o
  | resendFIN {o : Outcome} : c.state ≠ .closed → c.finSent = true → c.finAcked = false →
      Retransmit c (c.segment c.finSeq (flagFIN ||| flagACK) []) o → RtoStep c o
  | probeGiveUp {probes : Nat} :
      RtoStep c
        { conn := { c with persistProbeCount := probes }.teardown (some .connReset)
          toSend := [{ c with persistProbeCount := probes }.resetSegment] }
  | probe {probes : Nat} : c.state ≠ .synRcvd → c.state ≠ .closed → c.sentBytes = 0 →
      c.sndWnd = 0 → 0 < c.outBuf.length →
      RtoStep c
        { conn := { ({ c with persistProbeCount := probes }.sendPendingLocked [] true).1 with
                    rtoTimer := .reset
                      ({ c with persistProbeCount := probes }.sendPendingLocked [] true).1.rto }
          toSend := ({ c with persistProbeCount := probes }.sendPendingLocked [] true).2 }
  | disarm : c.state ≠ .synRcvd → c.state ≠ .closed → c.inTimeWait = false → c.sentBytes = 0 →
      (c.finSent = true → c.finAcked = true) → (c.sndWnd = 0 → c.outBuf.length = 0) →
      RtoStep c { conn := { c with timerArmed := false } }

/-- **The inversion of `onRTOFired`.** -/
theorem onRTOFired_step (c : TcpConn) : RtoStep c c.onRTOFired := by
  unfold onRTOFired
  split
  · rename_i h; exact .idle h
  rename_i hcl
  split
  · rename_i h; exact .timeWaitOver h
  rename_i htw
  split
  · rename_i h; exact .resendSynAck h (retransmit_cases _ _)
  rename_i hsr
  split
  · rename_i h; exact .resendData hsr hcl h (retransmit_cases _ _)
  rename_i hsent
  split
  · rename_i h
    simp only [Bool.and_eq_true, Bool.not_eq_true'] at h
    exact .resendFIN hcl h.1 h.2 (retransmit_cases _ _)
  rename_i hfin
  split
  · rename_i h
    dsimp only
    split
    · exact .probeGiveUp
    · exact .probe hsr hcl (by omega) h.1 (by omega)
  · rename_i h
    refine .disarm hsr hcl (by simpa using htw) (by omega) ?_ ?_
    · intro hs; simpa [hs] using hfin
    · intro hw
      omega

variable {o : Outcome}

theorem seg_opened (h : SegStep c seg o) (hs : c.state ≠ .synRcvd) : o.conn.state ≠ .synRcvd := by
  cases h with
  | ignored => exact hs
  | reset | refused => simp [teardown, stopTimersLocked]
  | handshake h1 => exact absurd h1 hs
  | sync hsync => rw [enter_state]; exact nextState_synchronized hsync _ _
  | reAck => exact hs

/-- An expiry leaves the streams, the windows and the FINs alone. -/
theorem rto_shape (h : RtoStep c o) :
    o.enqueue = false ∧ ∃ st e m armed op closed rto rc probes, o.conn =
        { c with state := st, err := e, sentBytes := m, timerArmed := armed, rtoTimer := op,
                 stopTimersClosed := closed, rto := rto, retransmitCount := rc,
                 persistProbeCount := probes }
      ∧ (st = c.state ∨ st = .closed) ∧ (c.err ≠ some .eof → e ≠ some .eof) := by
  cases h with
  | idle | disarm => exact ⟨rfl, _, _, _, _, _, _, _, _, _, rfl, .inl rfl, id⟩
  | timeWaitOver => exact ⟨rfl, _, _, _, _, _, _, _, _, _, rfl, .inr rfl, id⟩
  | resendSynAck _ hr | resendData _ _ _ hr | resendFIN _ _ _ hr =>
    cases hr with
    | resend => exact ⟨rfl, _, _, _, _, _, _, _, _, _, rfl, .inl rfl, id⟩
    | giveUp hc =>
      rw [hc]; exact ⟨rfl, _, _, _, _, _, _, _, _, _, rfl, .inr rfl, nofun⟩
  | probeGiveUp => exact ⟨rfl, _, _, _, _, _, _, _, _, _, rfl, .inr rfl, nofun⟩
  | @probe probes _ _ _ _ _ =>
    obtain ⟨_, _, _, _, _, _, he, _⟩ :=
      sendPending_spec { c with persistProbeCount := probes } [] true
    rw [he]; exact ⟨rfl, _, _, _, _, _, _, _, _, _, rfl, .inl rfl, id⟩

theorem rto_state (h : RtoStep c o) : o.conn.state = c.state ∨ o.conn.state = .closed := by
  obtain ⟨_, _, _, _, _, _, _, _, _, _, he, hs, _⟩ := rto_shape h
  rw [he]; exact hs

/-! ## The application's calls -/

/-- The connection with the bytes a section of `Write` appends, before they are pushed. -/
def enqueueBytes (c : TcpConn) (call : WriteCall) : TcpConn :=
  { c with outBuf := c.outBuf ++ (call.p.drop call.total).take (c.capacity call) }

/-- Everything a critical section of `Write` can do. -/
inductive WriteStep (c : TcpConn) (call : WriteCall) :
    TcpConn × List TcpSegment × WriteResult → Prop where
  | returned {n : Nat} {e : Option TcpErr} : WriteStep c call (c, [], .returned n e)
  | full : WriteStep c call (c, [], .pending call)
  | queued : call.total < call.p.length → c.err = none → c.outBuf.length < maxInFlightBytes →
      WriteStep c call
        (((enqueueBytes c call).sendPendingLocked [] false).1,
          ((enqueueBytes c call).sendPendingLocked [] false).2,
          .pending { call with total := call.total + c.capacity call })

/-- **The inversion of a section of `Write`.** -/
theorem writeSection_step (c : TcpConn) (call : WriteCall) (d : Bool) :
    WriteStep c call (c.writeSection call d) := by
  unfold writeSection
  split
  · exact .returned
  split
  · exact .returned
  split
  · exact .returned
  · rename_i herr
    split
    · exact .queued (by omega) herr (by assumption)
    · exact .full

/-- A new `Write` checks `finSent` and goes on with its first section. -/
theorem writeEntry_step (c : TcpConn) (p : Bytes) (d : Bool) :
    WriteStep c { p := p, total := 0 } (c.writeEntry p d)
      ∧ (c.finSent = true → ∃ n e, c.writeEntry p d = (c, [], .returned n e)) := by
  unfold writeEntry
  split
  · exact ⟨.returned, fun _ => ⟨_, _, rfl⟩⟩
  split
  · exact ⟨.returned, fun _ => ⟨_, _, rfl⟩⟩
  split
  · exact ⟨.returned, fun _ => ⟨_, _, rfl⟩⟩
  · rename_i hfin
    exact ⟨writeSection_step _ _ _, fun h => absurd h hfin⟩

variable {r : TcpConn × List TcpSegment × WriteResult}

theorem write_state {call : WriteCall} (h : WriteStep c call r) : r.1.state = c.state := by
  cases h with
  | returned | full => rfl
  | queued =>
    obtain ⟨_, _, _, _, _, _, he, _⟩ := sendPending_spec (enqueueBytes c call) [] false
    rw [he]; rfl

/-- Everything `CloseWrite` can do to a connection. -/
inductive CloseStep (c : TcpConn) : Outcome → Prop where
  | nothing {once : Bool} : (c.closeWriteOnce = true → once = true) →
      CloseStep c { conn := { c with closeWriteOnce := once } }
  | fin {s : TcpState} : c.closeWriteOnce = false →
      (c.state = .established ∧ s = .finWait1 ∨ c.state = .closeWait ∧ s = .lastAck) →
      CloseStep c
        { conn :=
          { (({ c with closeWriteOnce := true } : TcpConn).sendFINLocked []).1 with state := s }
          toSend := (({ c with closeWriteOnce := true } : TcpConn).sendFINLocked []).2 }

/-- **The inversion of `CloseWrite`.** -/
theorem closeWrite_step (c : TcpConn) : CloseStep c c.closeWriteSection := by
  unfold closeWriteSection
  split
  · exact .nothing id
  · rename_i honce
    have honce' : c.closeWriteOnce = false := by simpa using honce
    dsimp only
    split
    · rename_i h; exact .fin honce' (.inl ⟨h, rfl⟩)
    · rename_i h; exact .fin honce' (.inr ⟨h, rfl⟩)
    · exact .nothing fun _ => rfl

/-! ## A step of the whole -/

/-- The `Write` call a step is a critical section of, its outcome and the calls left over. -/
inductive WriteFrom (w : World) : Action → WriteCall →
    TcpConn × List TcpSegment × WriteResult → List WriteCall → Prop where
  | entry {p : Bytes} {d : Bool} :
      WriteFrom w (.write p d) { p := p, total := 0 } (w.conn.writeEntry p d)
        (World.addWriter w.writers (w.conn.writeEntry p d).2.2)
  | resume {i : Nat} {d : Bool} {call : WriteCall} : w.writers[i]? = some call →
      WriteFrom w (.resumeWrite i d) call (w.conn.writeSection call d)
        (World.setWriter w.writers i (w.conn.writeSection call d).2.2)

/-- A new call and one that goes on do the same things. -/
theorem WriteFrom.step {w : World} {a : Action} {call : WriteCall} {ws : List WriteCall}
    (h : WriteFrom w a call r ws) : WriteStep w.conn call r := by
  cases h with
  | entry => exact (writeEntry_step _ _ _).1
  | resume => exact writeSection_step _ _ _

/-- Everything one action can do to the connection and its surroundings. -/
inductive WorldStep (w : World) : Action → World → Prop where
  | segment {seg : TcpSegment} {o : Outcome} : SegStep w.conn seg o →
      WorldStep w (.segment seg) (w.apply o)
  | rto {o : Outcome} : RtoStep w.conn o → WorldStep w .rtoFired (w.apply o)
  | teardown {a : Action} {e : Option TcpErr} {segs : List TcpSegment} : e ≠ some .eof →
      (∀ s ∈ segs, s = w.conn.resetSegment) →
      WorldStep w a (w.apply { conn := w.conn.teardown e, toSend := segs })
  | write {a : Action} {call : WriteCall} {ws : List WriteCall}
      {r : TcpConn × List TcpSegment × WriteResult} : w.accepted = true →
      WriteFrom w a call r ws → WorldStep w a (w.applyWrite call r ws)
  | read {n : Nat} {d : Bool} : w.accepted = true →
      WorldStep w (.read n d) (w.applyRead (w.conn.readSection n d))
  | closeWrite {o : Outcome} : w.accepted = true → CloseStep w.conn o →
      WorldStep w .closeWrite (w.apply o)
  | nothing {a : Action} : WorldStep w a w

theorem apply_nothing (w : World) : w.apply { conn := w.conn } = w := by
  simp [World.apply]

/-- `Read` changes nothing of the connection but the receive buffer. -/
theorem read_shape (w : World) (n : Nat) (d : Bool) :
    ∃ (buf out : Bytes) (e : Bool), w.applyRead (w.conn.readSection n d)
      = { w with conn := { w.conn with recvBuf := buf }, readOut := out, eof := e } := by
  unfold readSection World.applyRead
  repeat' split
  all_goals exact ⟨_, _, _, rfl⟩

/-- **The inversion of `act`.** -/
theorem act_step (w : World) (a : Action) : WorldStep w a (w.act a) := by
  have happ : w.accepted = true → WorldStep w a (w.appCall a) := by
    intro hacc
    cases a with
    | write p d => exact .write hacc .entry
    | resumeWrite i d =>
      simp only [World.appCall]
      cases hw : w.writers[i]? with
      | none => exact .nothing
      | some call => exact .write hacc (.resume hw)
    | read n d => exact .read hacc
    | closeWrite => exact .closeWrite hacc (closeWrite_step w.conn)
    | close =>
      simp only [World.appCall, closeSection]
      split
      · exact .teardown (by simp) (by simp)
      · rw [apply_nothing]; exact .nothing
    | segment seg | rtoFired | detached | abort => exact .nothing
  cases a with
  | segment seg => exact .segment (handleSegment_step w.conn seg)
  | rtoFired => exact .rto (onRTOFired_step w.conn)
  | detached =>
    simp only [World.act, onAttachmentDetached]
    split
    · rw [apply_nothing]; exact .nothing
    · exact .teardown (by simp) (by simp)
  | abort =>
    simp only [World.act, TcpConn.abort]
    split
    · rw [apply_nothing]; exact .nothing
    · exact .teardown (by simp) (by simp)
  | write p d | resumeWrite i d | read n d | closeWrite | close =>
    simp only [World.act]; split
    · exact happ (by assumption)
    · exact .nothing

end GoVpn.Proof
