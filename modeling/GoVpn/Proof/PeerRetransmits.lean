import GoVpn.Proof.SilentPeer
import GoVpn.Proof.TcpFin
import GoVpn.Proof.TcpRecv

/-!
# What a retransmission is answered with

A peer repeats what it sent when no acknowledgement has come, and needs another one if that was
lost. A repeated SYN finds a connection in SYN_RCVD, where `handleSegment` wants an acknowledgement:
it answers with an RST and closes.

Data or a FIN that is repeated later is acknowledged where data is processed. The states past the
peer's FIN process acknowledgements only, so that a repeated FIN gets no answer there, except by
accident, when its acknowledgement number lets queued data go out. TIME_WAIT answers a FIN but no
data.
-/

namespace GoVpn.Proof

open GoVpn.Netstack TcpConn

/-! ## The SYN -/

/-- The client's SYN once more. -/
structure RepeatsSYN (p : SynParams) (seg : TcpSegment) : Prop where
  syn : seg.has flagSYN = true
  not_ack : seg.has flagACK = false
  not_reset : seg.has flagRST = false
  seq : seg.seq = p.clientISN

/-- The acknowledgement of our SYN. -/
structure AcksSYN (p : SynParams) (seg : TcpSegment) : Prop where
  ack : seg.has flagACK = true
  not_reset : seg.has flagRST = false
  num : seg.ack = p.isn + 1

/-- Half open, with `n` retransmissions of the SYN-ACK behind it and no RST sent. -/
structure HalfOpen (p : SynParams) (n : Nat) (w : World) : Prop where
  state : w.conn.state = .synRcvd
  una : w.conn.sndUna = p.isn
  count : w.conn.retransmitCount = n
  waiting : w.conn.inTimeWait = false
  no_reset : ∀ seg ∈ w.emitted, seg.has flagRST = false

theorem synAck_not_reset (c : TcpConn) : c.synAck.has flagRST = false := by
  show ((flagSYN ||| flagACK) &&& flagRST != 0) = false
  decide

theorem halfOpen_init (p : SynParams) : HalfOpen p 0 (World.init p) := by
  refine ⟨rfl, rfl, rfl, rfl, fun seg hseg => ?_⟩
  rw [List.mem_singleton.mp hseg]
  exact synAck_not_reset _

variable {c : TcpConn} {p : SynParams}

theorem halfOpen_expiry {n : Nat} {w : World} (h : HalfOpen p n w) (hn : n < maxRetransmits) :
    HalfOpen p (n + 1) (w.act .rtoFired) := by
  have hfire : w.conn.onRTOFired
      = { conn := { w.conn with retransmitCount := n + 1, rto := doubleRTO w.conn.rto,
                                rtoTimer := .reset (doubleRTO w.conn.rto) }
          toSend := [w.conn.synAck] } := by
    rw [onRTOFired, if_neg (by rw [h.state]; simp), if_neg (by simp [h.waiting]), if_pos h.state,
      retransmit]
    dsimp only
    rw [h.count, if_neg (by omega)]
  rw [World.act, hfire]
  refine ⟨h.state, h.una, rfl, h.waiting, fun seg hseg => ?_⟩
  rcases List.mem_append.mp hseg with hseg | hseg
  · exact h.no_reset seg hseg
  · rw [List.mem_singleton.mp hseg]
    exact synAck_not_reset _

theorem halfOpen_expiries :
    ∀ (as : List Action) {n : Nat} {w : World}, HalfOpen p n w →
    (∀ a ∈ as, a = .rtoFired) → n + as.length ≤ maxRetransmits →
    HalfOpen p (n + as.length) (Machine.run World.act w as) := by
  intro as
  induction as with
  | nil => exact fun h _ _ => h
  | cons a as ih =>
    intro n w h ha hn
    obtain rfl := ha a List.mem_cons_self
    rw [List.length_cons] at hn ⊢
    rw [Machine.run_cons, show n + (as.length + 1) = n + 1 + as.length by omega]
    exact ih (halfOpen_expiry h (by omega)) (fun b hb => ha b (List.mem_cons_of_mem _ hb))
      (by omega)

theorem repeatedSYN_closes : ∀ (as : List Action) {w : World},
    (w.conn.state = .synRcvd ∨ w.conn.state = .closed) →
    (∀ a ∈ as, a = .rtoFired ∨ ∃ seg, a = .segment seg ∧ RepeatsSYN p seg) →
    (∃ seg, .segment seg ∈ as) → (Machine.run World.act w as).conn.state = .closed := by
  intro as
  induction as with
  | nil =>
    rintro w - - ⟨seg, hseg⟩
    cases hseg
  | cons a as ih =>
    intro w hst ha hseg
    have ha' : ∀ b ∈ as, b = .rtoFired ∨ ∃ seg, b = .segment seg ∧ RepeatsSYN p seg :=
      fun b hb => ha b (List.mem_cons_of_mem _ hb)
    have hstay : ∀ {w : World}, w.conn.state = .closed →
        (Machine.run World.act w as).conn.state = .closed :=
      fun hc => Machine.run_invariant' (I := fun w : World => w.conn.state = .closed)
        (fun _ _ hw => act_closed hw) hc as
    rcases ha a List.mem_cons_self with rfl | ⟨seg, rfl, hsyn⟩
    · refine ih ?_ ha' ?_
      · rcases rto_state (onRTOFired_step w.conn) with hs | hs
        · rcases hst with hst | hst
          · exact .inl (hs.trans hst)
          · exact .inr (hs.trans hst)
        · exact .inr hs
      · obtain ⟨seg, hseg⟩ := hseg
        rcases List.mem_cons.mp hseg with he | hseg
        · cases he
        · exact ⟨seg, hseg⟩
    · refine hstay ?_
      rcases hst with hst | hst
      · show (w.conn.handleSegment seg).conn.state = .closed
        rw [handleSegment, if_neg (by simp [hsyn.not_reset])]
        simp [hst, hsyn.not_ack, teardown, stopTimersLocked]
      · exact act_closed hst

/--
**When the handshake survives a lost SYN-ACK.** Before the completing acknowledgement
come expiries of the timer, few enough not to give up, and any number of repetitions of
the client's SYN. The connection stays in SYN_RCVD, sends no RST and is established by
the acknowledgement exactly if the SYN is not repeated at all.
-/
theorem handshake_survives_iff (p : SynParams) (as : List Action) (ack : TcpSegment)
    (has : ∀ a ∈ as, a = .rtoFired ∨ ∃ seg, a = .segment seg ∧ RepeatsSYN p seg)
    (hfew : as.countP isExpiry ≤ maxRetransmits) (hack : AcksSYN p ack) :
    ((World.after p as).conn.state = .synRcvd
        ∧ (∀ seg ∈ (World.after p as).emitted, seg.has flagRST = false)
        ∧ (World.after p (as ++ [.segment ack])).conn.state = .established)
      ↔ ∀ seg, .segment seg ∉ as := by
  constructor
  · rintro ⟨hst, -, -⟩ seg hseg
    have hcl := repeatedSYN_closes as (w := World.init p) (.inl rfl) has ⟨seg, hseg⟩
    cases hst.symm.trans hcl
  · intro hnone
    have hall : ∀ a ∈ as, a = .rtoFired := by
      intro a ha
      rcases has a ha with rfl | ⟨seg, rfl, -⟩
      · rfl
      · exact absurd ha (hnone seg)
    have hlen : as.countP isExpiry = as.length := by
      rw [List.countP_eq_length]
      intro a ha
      rw [hall a ha]
      rfl
    have hopen := halfOpen_expiries as (halfOpen_init p) hall (by omega)
    refine ⟨hopen.state, hopen.no_reset, ?_⟩
    rw [World.after, Machine.run_append]
    show ((Machine.run World.act (World.init p) as).conn.handleSegment ack).conn.state =
      .established
    rw [handleSegment_handshake hopen.state hack.not_reset hack.ack (by rw [hopen.una, hack.num]),
      handleData_state]
    rfl

/-- The SYN-ACK is sent three times, and then acknowledged. -/
theorem handshake_survives_expiries : let ack : TcpSegment :=
      { srcPort := 4000, dstPort := 80, seq := 501, ack := 101, flags := flagACK, window := 1 }
    let as : List Action := [.rtoFired, .rtoFired]
    (World.after slowClient as).conn.state = .synRcvd
      ∧ (∀ seg ∈ (World.after slowClient as).emitted, seg.has flagRST = false)
      ∧ (World.after slowClient (as ++ [.segment ack])).conn.state = .established := by
  intro ack as
  refine (handshake_survives_iff slowClient as ack ?_ (by decide)
    ⟨by decide, by decide, by decide⟩).mpr ?_
  · intro a ha
    left
    simpa [as] using ha
  · intro seg hseg
    simp [as] at hseg

/-- A client's SYN-ACK gets lost, and it sends its SYN again; then comes an acknowledgement. -/
def repeatedSYN : List (Threads.Move DemuxEvent Bool) :=
  unanswered ++ [.start (.packet 0 (Reattach.segment flagSYN 100 []) 7)] ++ Reattach.runs 3 6

def repeatedSYNAcked : List (Threads.Move DemuxEvent Bool) :=
  repeatedSYN ++ [.start (.packet 0 (Reattach.segment flagACK 101 []) 9)] ++ Reattach.runs 4 6

/-- The half-open connection is reset by the repeated SYN, and the acknowledgement finds none. -/
theorem repeated_syn_resets :
    (TcpDemux.after Reattach.serverIP 1360 unanswered).shared.pool.map
        (fun c => (c.world.conn.state, c.world.conn.rcvNxt)) = [(.synRcvd, 101)]
      ∧ (TcpDemux.after Reattach.serverIP 1360 repeatedSYN).shared.pool.map
          (fun c => (c.world.conn.state, c.world.emitted.any fun seg => seg.has flagRST)) =
            [(.closed, true)]
      ∧ (TcpDemux.after Reattach.serverIP 1360 repeatedSYNAcked).shared.pool.map
          (fun c => c.world.conn.state) = [.closed]
      ∧ (TcpDemux.after Reattach.serverIP 1360 repeatedSYNAcked).shared.conns.lookup
          (Inbound.key
            { a := 0, src := Reattach.clientIP, seg := Reattach.segment flagACK 101 [], isn := 9 })
        = none := by
  decide +kernel

/-! ## Data and FINs -/

/-- Data or a FIN that lies before what is expected next. -/
structure Repeats (c : TcpConn) (seg : TcpSegment) : Prop where
  not_reset : seg.has flagRST = false
  carries : seg.payload ≠ [] ∨ seg.has flagFIN = true
  old : seqGE seg.seq c.rcvNxt = false

/-- The segment's acknowledgement and window let queued data go out. -/
def FreesData (c : TcpConn) (seg : TcpSegment) : Prop :=
  seg.has flagACK = true ∧ 0 < c.sndMSS ∧ c.sentBytes < c.outBuf.length
    ∧ c.sentBytes - ackedBytes c seg.ack < min seg.window.toNat maxInFlightBytes

/-- Where a repetition is acknowledged. -/
def ReAcks (c : TcpConn) (seg : TcpSegment) : Prop :=
  c.state = .established ∨ c.state = .finWait1 ∨ c.state = .finWait2
    ∨ c.state = .timeWait ∧ seg.has flagFIN = true
    -- data that goes out for another reason acknowledges as well
    ∨ c.state ≠ .timeWait ∧ FreesData c seg

/-- The segment acknowledges everything received. -/
def Acknowledges (c : TcpConn) (seg : TcpSegment) : Prop :=
  seg.has flagACK = true ∧ seg.ack = c.rcvNxt

theorem seqGE_self (a : Seq) : seqGE a a = true := by simp [seqGE]

theorem handleData_repeated {seg : TcpSegment}
    (hcarries : seg.payload ≠ [] ∨ seg.has flagFIN = true) (hold : seqGE seg.seq c.rcvNxt = false)
    (toSend : List TcpSegment) :
    c.handleEstablishedDataLocked seg toSend = (c, toSend ++ [c.buildACKLocked], false) := by
  have hne : seg.seq ≠ c.rcvNxt := by
    intro he
    rw [he, seqGE_self] at hold
    cases hold
  have hgt : seqGT seg.seq c.rcvNxt = false := by
    simp only [seqGE, decide_eq_false_iff_not] at hold
    simp only [seqGT, decide_eq_false_iff_not]
    omega
  unfold handleEstablishedDataLocked
  rw [if_neg, if_neg hne, if_neg (by simp [hgt])]
  rintro ⟨h1, h2⟩
  rcases hcarries with h | h
  · exact h h1
  · simp [h] at h2

theorem Sends.acknowledges {n m : Nat} {segs : List TcpSegment} (h : Sends c n m segs) :
    ∀ seg ∈ segs, Acknowledges c seg := by
  induction h with
  | nil => intro seg hseg; cases hseg
  | cons _ _ _ _ ih =>
    intro seg hseg
    rcases List.mem_cons.mp hseg with rfl | hseg
    · exact ⟨by show (flagACK &&& flagACK != 0) = true; decide, rfl⟩
    · exact ih seg hseg

theorem buildACK_acknowledges (c : TcpConn) : Acknowledges c c.buildACKLocked :=
  ⟨by show (flagACK &&& flagACK != 0) = true; decide, rfl⟩

theorem sendLoop_sends_iff (limit : Nat) (c : TcpConn) :
    (sendLoop limit false (c.outBuf.length - c.sentBytes) c [] false).2.1 ≠ []
      ↔ 0 < c.sndMSS ∧ c.sentBytes < limit ∧ c.sentBytes < c.outBuf.length := by
  constructor
  · intro hne
    cases hfuel : c.outBuf.length - c.sentBytes with
    | zero =>
      rw [hfuel] at hne
      exact absurd rfl hne
    | succ fuel =>
      rw [hfuel, sendLoop] at hne
      split at hne
      · rename_i hroom
        dsimp only at hne
        split at hne
        · exact absurd rfl hne
        · rename_i hchunk
          unfold nextChunk at hchunk
          exact ⟨by omega, hroom⟩
      · exact absurd rfl hne
  · rintro ⟨hmss, hlim, hlen⟩
    obtain ⟨m, segs, he, hs, -, hmoves, -⟩ :=
      sendLoop_spec limit false (c.outBuf.length - c.sentBytes) c [] false
    rw [he, List.nil_append]
    rintro rfl
    cases hs
    omega

theorem sendPending_sends_iff (c : TcpConn) :
    (c.sendPendingLocked [] false).2 ≠ []
      ↔ 0 < c.sndMSS ∧ c.sentBytes < c.allowedInFlightLocked ∧ c.sentBytes < c.outBuf.length := by
  unfold sendPendingLocked
  dsimp only
  split
  · rename_i hzero
    rw [if_pos (by simp), hzero]
    have hsilent : (if (c.outBuf.length > c.sentBytes && !c.timerArmed) = true then
        ({ c with timerArmed := true, rto := initialRTO, rtoTimer := .reset initialRTO }, [])
          else (c, [])).2
          = ([] : List TcpSegment) := by
      split <;> rfl
    rw [hsilent]
    simp
  · rw [← sendLoop_sends_iff]
    unfold sendUpTo
    dsimp only
    split <;> rfl

theorem handleAck_sends_iff (hb : c.sentBytes < 2 ^ 31) (hle : c.sentBytes ≤ c.outBuf.length)
    (seg : TcpSegment) : (c.handleAckLocked seg []).2 ≠ [] ↔ FreesData c seg := by
  unfold handleAckLocked FreesData
  by_cases hack : seg.has flagACK = true
  · obtain ⟨u, he, hk, hm, -⟩ := retire_spec hb seg
    have hkle := ackedBytes_le c seg.ack
    have hwnd : (u.on c).sndWnd = seg.window.toNat := by
      rw [← he]
      rfl
    have hallowed : (u.on c).allowedInFlightLocked = min seg.window.toNat maxInFlightBytes := by
      unfold allowedInFlightLocked
      rw [hwnd]
      split <;> omega
    have hlen : (u.on c).outBuf.length = c.outBuf.length - u.k := List.length_drop
    have hsent : (u.on c).sentBytes = c.sentBytes - u.k := hm
    rw [if_neg (by simp [hack]), he, sendPending_sends_iff, hallowed, hlen, hsent, hk,
      show (u.on c).sndMSS = c.sndMSS from rfl]
    constructor
    · rintro ⟨h1, h2, h3⟩
      exact ⟨hack, h1, by omega, h2⟩
    · rintro ⟨-, h1, h2, h3⟩
      exact ⟨h1, h3, by omega⟩
  · rw [if_pos (by simp [hack])]
    constructor
    · intro h
      exact absurd rfl h
    · rintro ⟨h, -⟩
      exact absurd h hack

theorem sync_repeated (hb : c.sentBytes < 2 ^ 31) (hle : c.sentBytes ≤ c.outBuf.length)
    {seg : TcpSegment} {r : TcpConn × List TcpSegment × Bool} (hr : SyncStep c seg r)
    (h : Repeats c seg) : SameRecv c r.1 ∧ ((∃ s ∈ r.2.1, Acknowledges c s) ↔ ReAcks c seg) := by
  obtain ⟨u, segs, he, -, hsends, -, -⟩ := handleAck_spec hb seg []
  have hpushed : ∀ s ∈ segs, Acknowledges c s := hsends.acknowledges
  have hfrees := handleAck_sends_iff hb hle seg
  rw [he] at hfrees
  cases hr with
  | data hst =>
    rw [he, handleData_repeated (c := u.on c) h.carries h.old]
    refine ⟨⟨rfl, rfl, rfl, rfl, rfl, rfl, id⟩, fun _ => ?_, fun _ => ?_⟩
    · rcases hst with hst | hst | hst
      · exact .inl hst
      · exact .inr (.inl hst)
      · exact .inr (.inr (.inl hst))
    · exact ⟨(u.on c).buildACKLocked, by simp, buildACK_acknowledges (u.on c)⟩
  | ackOnly hst =>
    have hno : ∀ s, s = .established ∨ s = .finWait1 ∨ s = .finWait2 ∨ s = .timeWait →
        c.state ≠ s := by
      rintro s hs rfl
      rcases hst with hst | hst | hst <;> rw [hst] at hs <;> simp at hs
    rw [he]
    refine ⟨⟨rfl, rfl, rfl, rfl, rfl, rfl, id⟩, fun hex => ?_, fun hre => ?_⟩
    · obtain ⟨s, hs, -⟩ := hex
      exact .inr (.inr (.inr (.inr ⟨hno _ (by simp), hfrees.mp (List.ne_nil_of_mem hs)⟩)))
    · rcases hre with hre | hre | hre | ⟨hre, -⟩ | ⟨-, hne⟩
      · exact absurd hre (hno _ (by simp))
      · exact absurd hre (hno _ (by simp))
      · exact absurd hre (hno _ (by simp))
      · exact absurd hre (hno _ (by simp))
      · obtain ⟨s, hs⟩ := List.exists_mem_of_ne_nil _ (hfrees.mpr hne)
        exact ⟨s, hs, hpushed s hs⟩

/--
**When a retransmission is acknowledged again.** In every reachable state past the
handshake, a segment with data or a FIN that was received before leaves the receive side
as it is. Unless it closes the connection, it is answered with an acknowledgement of
everything received exactly if the state still processes data, or it is TIME_WAIT and the
segment has a FIN, or the segment lets queued data go out.
-/
theorem reacknowledged_iff (p : SynParams) (as : List Action) (seg : TcpSegment)
    (hst : Synchronized (World.after p as).conn.state ∨ (World.after p as).conn.state = .timeWait)
    (h : Repeats (World.after p as).conn seg) :
    let w := World.after p as
    let w' := w.act (.segment seg)
    SameRecv w.conn w'.conn
      ∧ (w'.conn.state ≠ .closed →
          ((∃ s ∈ w.emits (.segment seg), Acknowledges w'.conn s) ↔ ReAcks w.conn seg)) := by
  intro w w'
  have hemits : w.emits (.segment seg) = (w.conn.handleSegment seg).toSend := emits_eq rfl
  have hconn : w'.conn = (w.conn.handleSegment seg).conn := rfl
  rw [hemits, hconn]
  rcases hst with hst | hst
  · obtain ⟨r, hr, heq⟩ := handleSegment_sync hst h.not_reset
    obtain ⟨hsame, hiff⟩ :=
      sync_repeated (sendInv_after p as).sent_lt (sendInv_after p as).sent_le hr h
    have henter := enter_recv (nextState w.conn.state r.1.finAcked r.2.2) r.1
    rw [show w.conn.handleSegment seg = _ from heq]
    refine ⟨⟨henter.rcvNxt.trans hsame.rcvNxt, henter.recvBuf.trans hsame.recvBuf,
      henter.reorder.trans hsame.reorder, henter.hasPendingFIN.trans hsame.hasPendingFIN,
      henter.pendingFINSeq.trans hsame.pendingFINSeq, henter.peerClosed.trans hsame.peerClosed,
      fun herr => henter.err (hsame.err herr)⟩, fun _ => ?_⟩
    unfold Acknowledges at hiff ⊢
    rw [henter.rcvNxt, hsame.rcvNxt]
    exact hiff
  · have heq : w.conn.handleSegment seg
        = { conn := w.conn, toSend := if seg.has flagFIN then [w.conn.buildACKLocked]
          else [] } := by
      have hst' : w.conn.state = .timeWait := hst
      rw [handleSegment, if_neg (by simp [h.not_reset])]
      simp [hst']
    rw [heq]
    refine ⟨⟨rfl, rfl, rfl, rfl, rfl, rfl, id⟩, fun _ => ⟨fun hex => ?_, fun hre => ?_⟩⟩
    · obtain ⟨s, hs, -⟩ := hex
      refine .inr (.inr (.inr (.inl ⟨hst, ?_⟩)))
      cases hf : seg.has flagFIN with
      | true => rfl
      | false => simp [hf] at hs
    · have hst' : w.conn.state = .timeWait := hst
      rcases hre with hre | hre | hre | ⟨-, hre⟩ | ⟨hre, -⟩
      · cases hst'.symm.trans hre
      · cases hst'.symm.trans hre
      · cases hst'.symm.trans hre
      · exact ⟨w.conn.buildACKLocked, by simp [hre], buildACK_acknowledges w.conn⟩
      · exact absurd hst' hre

/-- The peer's FIN, in answer to nothing. -/
def bareFIN (ack : Seq) : TcpSegment :=
  { srcPort := 4000, dstPort := 80, seq := 501, ack := ack, flags := flagFIN ||| flagACK,
    window := 1 }

/-- A byte that has been received already. -/
def oldByte (ack : Seq) : TcpSegment :=
  { srcPort := 4000, dstPort := 80, seq := 501, ack := ack, flags := flagACK, window := 1,
    payload := [7] }

/-- A repeated byte is acknowledged again. -/
theorem repeated_byte_reacknowledged :
    let w := World.after slowClient [.segment (slowAck 101), .segment (oldByte 101)]
    let w' := w.act (.segment (oldByte 101))
    SameRecv w.conn w'.conn
      ∧ (w'.conn.state ≠ .closed →
          ((∃ s ∈ w.emits (.segment (oldByte 101)), Acknowledges w'.conn s) ↔
            ReAcks w.conn (oldByte 101))) :=
  reacknowledged_iff slowClient [.segment (slowAck 101), .segment (oldByte 101)] (oldByte 101)
    (.inl trivial) ⟨by decide, by decide, by decide⟩

/-- In CLOSE_WAIT a repeated FIN gets no answer, and in TIME_WAIT repeated data gets none. -/
theorem repeated_fin_unanswered :
    let w := World.after slowClient [.segment (slowAck 101), .segment (bareFIN 101)]
    let v := World.after slowClient [.segment (slowAck 101), .segment (oldByte 101), .closeWrite,
      .segment { bareFIN 102 with seq := 502 }]
    w.conn.state = .closeWait ∧ Repeats w.conn (bareFIN 101) ∧ w.emits (.segment (bareFIN 101)) = []
      ∧ (w.act (.segment (bareFIN 101))).conn.state = .closeWait
      ∧ v.conn.state = .timeWait ∧ Repeats v.conn (oldByte 102) ∧
        v.emits (.segment (oldByte 102)) = []
      ∧ (v.act (.segment (oldByte 102))).conn.state = .timeWait := by
  intro w v
  refine ⟨by decide, ⟨by decide, by decide, by decide⟩, by decide, by decide, by decide,
    ⟨by decide, by decide, by decide⟩, by decide, by decide⟩

end GoVpn.Proof
