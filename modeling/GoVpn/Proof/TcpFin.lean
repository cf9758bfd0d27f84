import GoVpn.Proof.TcpSend

/-!
# The FIN in the sequence space

`sendFINLocked` fixes `finSeq` at the end of the send buffer. The end stays there, because
acknowledgements take bytes off the front and move `sndUna` by as many, unless something is still
appended at the back. `Write` checks `finSent` once, on entry, so a call that was under way when the
FIN went out can append. The ghost field `late` counts those bytes: the end of the buffer is
`finSeq + late`.

The sequence number of a bare ACK is read off the same sum, and it is the number of the FIN itself,
not the one after it.
-/

namespace GoVpn.Proof

open GoVpn.Netstack TcpConn

/-- A segment that carries nothing but an acknowledgement. -/
def BareAck (seg : TcpSegment) : Prop := seg.flags = flagACK ∧ seg.payload = []

/-- The sequence number just past the send buffer. -/
def bufferEnd (c : TcpConn) : Seq := c.sndUna + BitVec.ofNat 32 c.outBuf.length

/--
A `Write` that was waiting, or between two chunks, takes the lock again after the
FIN was sent, and finds nothing that stops it: no deadline, no error, room in the
buffer and bytes left to queue.
-/
def LateAppend (w : World) : Action → Prop
  | .resumeWrite i deadlinePassed =>
    w.accepted = true ∧ w.conn.finSent = true ∧ deadlinePassed = false ∧ w.conn.err = none
      ∧ w.conn.outBuf.length < maxInFlightBytes
      ∧ ∃ call, w.writers[i]? = some call ∧ call.total < call.p.length
  | _ => False

/-- The step leaves alone what is known about our FIN. -/
structure SameFIN (c c' : TcpConn) : Prop where
  finSent : c'.finSent = c.finSent
  finSeq : c'.finSeq = c.finSeq
  once : c.closeWriteOnce = true → c'.closeWriteOnce = true

/-- What is known about the FIN in every reachable state. -/
structure FinInv (isn : Seq) (w : World) : Prop where
  /-- The send side is in order. -/
  send : SendInv isn w
  /-- The FIN is sent by the one run of `closeWriteOnce`. -/
  once : w.conn.finSent = true → w.conn.closeWriteOnce = true
  /-- The buffer ends where the FIN is, plus what was appended since. -/
  fin_end : w.conn.finSent = true → bufferEnd w.conn = w.conn.finSeq + BitVec.ofNat 32 w.late
  /-- Only what is appended after the FIN counts as late. -/
  no_late : w.conn.finSent = false → w.late = 0

theorem finInv_init (p : SynParams) : FinInv p.isn (World.init p) where
  send := sendInv_init p
  once := by intro h; exact absurd h (by simp [World.init, newTCPConn])
  fin_end := by intro h; exact absurd h (by simp [World.init, newTCPConn])
  no_late := by intro _; rfl

/-! ## What one step does once the FIN is out -/

variable {c : TcpConn} {isn : Seq} {w : World} {a : Action}

variable {call : WriteCall} {data : Bytes} {segs : List TcpSegment} {w' : World}

theorem SendStep.bufferEnd {c' : TcpConn} {added : Bytes} (h : SendStep c added c' segs)
    (hle : c.sentBytes ≤ c.outBuf.length) :
    bufferEnd c' = Proof.bufferEnd c + BitVec.ofNat 32 added.length := by
  obtain ⟨k, hk, hu, hb, _, _⟩ := h.moved
  unfold Proof.bufferEnd
  rw [hu, hb, Serial.add_ofNat_add, Serial.add_ofNat_add, List.length_append, List.length_drop]
  congr 2
  omega

/-- `FinStep w a w' added segs`: the step `a` appended `added` and sent `segs`, after the FIN. -/
structure FinStep (w : World) (a : Action) (w' : World) (added : Bytes)
    (segs : List TcpSegment) : Prop where
  send : SendStep w.conn added w'.conn segs
  emitted : w'.emitted = w.emitted ++ segs
  fin : SameFIN w.conn w'.conn
  late : w'.late = w.late + added.length
  resumed : added ≠ [] → LateAppend w a
  /-- Every bare ACK goes out under the cursor's sequence number. -/
  bare : ∀ seg ∈ segs, BareAck seg →
    added = [] ∧ seg.seq = w'.conn.sndUna + BitVec.ofNat 32 w'.conn.sentBytes

theorem enter_fin (s : TcpState) (c : TcpConn) : SameFIN c (enter s c) := by
  cases s <;> exact ⟨rfl, rfl, id⟩

theorem sync_fin (hb : c.sentBytes < 2 ^ 31) {seg : TcpSegment}
    {r : TcpConn × List TcpSegment × Bool} (h : SyncStep c seg r) (s : TcpState) :
    SameFIN c (enter s r.1)
      ∧ ∀ sg ∈ r.2.1, BareAck sg →
          sg.seq = (enter s r.1).sndUna + BitVec.ofNat 32 (enter s r.1).sentBytes := by
  obtain ⟨u, segs, v, acks, hs⟩ := sync_shape hb h
  obtain ⟨e1, _, e3, _⟩ := enter_send s r.1
  obtain ⟨f1, f2, f3⟩ := enter_fin s r.1
  rw [e1, e3]
  rw [hs.conn] at f1 f2 f3 ⊢
  refine ⟨⟨f1, f2, f3⟩, ?_⟩
  intro sg hsg hb
  rw [hs.sent] at hsg
  rcases List.mem_append.mp hsg with hsg | hsg
  · exact absurd hb.2 (hs.sends.payload_ne sg hsg)
  · rw [hs.bare sg hsg]; rfl

theorem resetSegment_not_bare (c : TcpConn) : ¬ BareAck c.resetSegment := by
  intro hb
  exact absurd hb.1 (by show flagRST ||| flagACK ≠ flagACK; decide)

theorem rto_fin {o : Outcome} (hle : c.sentBytes ≤ c.outBuf.length)
    (hm : c.sndMSS = 0 → c.sentBytes = 0) (h : RtoStep c o) :
    SameFIN c o.conn ∧ ∀ seg ∈ o.toSend, ¬ BareAck seg := by
  obtain ⟨_, _, _, _, _, _, _, _, _, _, he, _⟩ := rto_shape h
  refine ⟨by rw [he]; exact ⟨rfl, rfl, id⟩, ?_⟩
  have hrst : ∀ d : TcpConn, ∀ s ∈ [d.resetSegment], ¬ BareAck s :=
    fun d => List.forall_mem_singleton.mpr (resetSegment_not_bare d)
  have hretr : ∀ seg, ¬ BareAck seg → Retransmit c seg o → ∀ seg ∈ o.toSend, ¬ BareAck seg := by
    intro seg hseg hr
    cases hr with
    | resend => exact List.forall_mem_singleton.mpr hseg
    | giveUp => exact hrst _
  have hfinack : ¬ (flagFIN ||| flagACK = flagACK) := by decide
  cases h with
  | idle | timeWaitOver | disarm => simp
  | resendSynAck _ hr =>
    refine hretr _ ?_ hr
    intro hb
    exact absurd hb.1 (by show flagSYN ||| flagACK ≠ flagACK; decide)
  | resendData _ _ hpos hr =>
    refine hretr _ ?_ hr
    intro hb
    have hlen := congrArg List.length hb.2
    simp only [TcpConn.segment, List.length_take, List.length_nil] at hlen
    omega
  | resendFIN _ _ _ hr => exact hretr _ (fun hb => hfinack hb.1) hr
  | probeGiveUp => exact hrst _
  | @probe probes _ _ _ _ _ =>
    obtain ⟨_, segs, _, _, _, _, he, hs, _⟩ :=
      sendPending_spec { c with persistProbeCount := probes } [] true
    rw [he, List.nil_append]
    exact fun sg hsg hb => hs.payload_ne sg hsg hb.2

theorem write_fin {r : TcpConn × List TcpSegment × WriteResult} (h : WriteStep c call r) :
    SameFIN c r.1 ∧ ∀ seg ∈ r.2.1, ¬ BareAck seg := by
  cases h with
  | returned | full => exact ⟨⟨rfl, rfl, id⟩, by simp⟩
  | queued =>
    obtain ⟨_, segs, _, _, _, _, he, hs, _⟩ := sendPending_spec (enqueueBytes c call) [] false
    rw [he, List.nil_append]
    exact ⟨⟨rfl, rfl, id⟩, fun sg hsg hb => hs.payload_ne sg hsg hb.2⟩

theorem writeSection_queued {d : Bool} (h : (c.writeSection call d).2.2.queued call ≠ []) :
    d = false ∧ c.err = none ∧ c.outBuf.length < maxInFlightBytes ∧ call.total < call.p.length := by
  unfold writeSection at h
  split at h
  · exact absurd rfl h
  rename_i htotal
  split at h
  · exact absurd rfl h
  rename_i hd
  split at h
  · exact absurd rfl h
  rename_i herr
  split at h
  · rename_i hroom
    exact ⟨by simpa using hd, herr, hroom, by omega⟩
  · exact absurd (by simp [WriteResult.queued]) h

theorem writeSection_appends (herr : c.err = none) (hroom : c.outBuf.length < maxInFlightBytes)
    (htotal : call.total < call.p.length) :
    c.writeSection call false
      = (((enqueueBytes c call).sendPendingLocked [] false).1,
          ((enqueueBytes c call).sendPendingLocked [] false).2,
          .pending { call with total := call.total + c.capacity call }) := by
  unfold writeSection
  rw [if_neg (by omega), if_neg (by simp)]
  split
  · rename_i e he; cases herr.symm.trans he
  · rw [if_pos hroom]; rfl

theorem writeEntry_open {p : Bytes} (herr : c.err = none) (hfin : c.finSent = false) :
    c.writeEntry p false = c.writeSection { p := p, total := 0 } false := by
  unfold writeEntry
  rw [if_neg (by simp)]
  split
  · rename_i e he; cases herr.symm.trans he
  · rw [if_neg (by simp [hfin])]

/-- **A step after the FIN.** -/
theorem finSent_step (h : FinInv isn w) (hfin : w.conn.finSent = true) (hs : WorldStep w a w') :
    ∃ added segs, FinStep w a w' added segs := by
  have hle := h.send.sent_le
  have hb := h.send.sent_lt
  have hacc : w.accepted = true := by
    cases hacc : w.accepted with
    | true => rfl
    | false => cases hfin.symm.trans (h.send.fresh hacc).2.2.1
  -- only `Write` appends; everything else is a step of the connection that appends nothing
  have hplain : ∀ {o : Outcome}, SendStep w.conn [] o.conn o.toSend → SameFIN w.conn o.conn →
      (∀ seg ∈ o.toSend, BareAck seg →
        seg.seq = o.conn.sndUna + BitVec.ofNat 32 o.conn.sentBytes) →
      ∃ added segs, FinStep w a (w.apply o) added segs := by
    intro o hsend hsame hbare
    exact ⟨[], o.toSend, hsend, rfl, hsame, rfl, fun hne => absurd rfl hne,
      fun seg hseg hb => ⟨rfl, hbare seg hseg hb⟩⟩
  cases hs with
  | segment hseg =>
    cases hseg with
    | ignored | reset =>
      exact hplain (SendStep.frame hle rfl rfl rfl rfl (by simp)) ⟨rfl, rfl, id⟩ (by simp)
    | refused h1 | handshake h1 => exact absurd h1 (h.send.opened hacc)
    | @sync r _ _ hr =>
      obtain ⟨h1, h2⟩ := sync_fin hb hr (nextState w.conn.state r.1.finAcked r.2.2)
      exact hplain (sync_sendStep hle hb hr _) h1 h2
    | reAck =>
      exact hplain (SendStep.frame hle rfl rfl rfl rfl (List.forall_mem_singleton.mpr rfl))
        ⟨rfl, rfl, id⟩ (List.forall_mem_singleton.mpr fun _ => rfl)
  | rto hrto =>
    obtain ⟨h1, h2⟩ := rto_fin hle h.send.mss hrto
    exact hplain (rto_sendStep hle hrto) h1 fun seg hseg hbare => absurd hbare (h2 seg hseg)
  | teardown _ hsegs =>
    refine hplain (SendStep.frame hle rfl rfl rfl rfl ?_) ⟨rfl, rfl, id⟩ ?_
    · intro s hs; rw [hsegs s hs]; rfl
    · intro s hs hbare
      exact absurd (hsegs s hs ▸ hbare) (resetSegment_not_bare _)
  | write _ hw =>
    obtain ⟨h1, h2⟩ := write_fin hw.step
    refine ⟨_, _, write_sendStep hle hw.step, rfl, h1, ?_, ?_, ?_⟩
    · show w.late + (if w.conn.finSent = true then _ else 0) = _
      rw [if_pos hfin]
    · intro hne
      -- a new call stops at the entry checks; one under way does not look at `finSent` again
      cases hw with
      | entry =>
        obtain ⟨n, e, he⟩ := (writeEntry_step w.conn _ _).2 hfin
        rw [he] at hne
        exact absurd rfl hne
      | resume hi =>
        obtain ⟨q1, q2, q3, q4⟩ := writeSection_queued hne
        exact ⟨hacc, hfin, q1, q2, q3, _, hi, q4⟩
    · intro seg hseg hbare; exact absurd hbare (h2 seg hseg)
  | @read n d _ =>
    obtain ⟨buf, out, e, he⟩ := read_shape w n d
    rw [he]
    exact ⟨[], [], SendStep.frame hle rfl rfl rfl rfl (by simp), by simp, ⟨rfl, rfl, id⟩, rfl,
      fun hne => absurd rfl hne, by simp⟩
  | closeWrite _ hc =>
    cases hc with
    | nothing honce =>
      exact hplain (SendStep.frame hle rfl rfl rfl rfl (by simp)) ⟨rfl, rfl, honce⟩ (by simp)
    | fin honce => cases (h.once hfin).symm.trans honce
  | nothing =>
    exact ⟨[], [], SendStep.frame hle rfl rfl rfl rfl (by simp), by simp, ⟨rfl, rfl, id⟩, rfl,
      fun hne => absurd rfl hne, by simp⟩

/-- **A step before the FIN** sends it, with nothing behind it, or leaves it unsent. -/
theorem finUnsent_step (h : FinInv isn w) (hfin : w.conn.finSent = false) (hs : WorldStep w a w') :
    w'.late = w.late
    ∧ (w'.conn.finSent = true → w'.conn.closeWriteOnce = true
        ∧ bufferEnd w'.conn = w'.conn.finSeq
        ∧ ∃ segs, w'.emitted = w.emitted ++ segs ∧ ∀ seg ∈ segs, seg.payload = []) := by
  have hb := h.send.sent_lt
  have hsame : ∀ {c' : TcpConn} {P : Prop}, c'.finSent = true → SameFIN w.conn c' → P := by
    intro c' P hc hs
    rw [hs.finSent, hfin] at hc
    cases hc
  cases hs with
  | @segment seg o hseg =>
    refine ⟨rfl, fun hc => ?_⟩
    cases hseg with
    | ignored | reset | refused | reAck => exact hsame hc ⟨rfl, rfl, id⟩
    | handshake =>
      obtain ⟨u, segs, fin, he, _⟩ := handleData_shape (establish w.conn seg) seg []
      exact hsame hc (by rw [he]; exact ⟨rfl, rfl, id⟩)
    | sync _ _ hr => exact hsame hc (sync_fin hb hr _).1
  | rto hrto => exact ⟨rfl, fun hc => hsame hc (rto_fin h.send.sent_le h.send.mss hrto).1⟩
  | teardown | nothing => exact ⟨rfl, fun hc => hsame hc ⟨rfl, rfl, id⟩⟩
  | write _ hw =>
    refine ⟨?_, fun hc => hsame hc (write_fin hw.step).1⟩
    show w.late + (if w.conn.finSent = true then _ else 0) = _
    rw [if_neg (by simp [hfin])]
    rfl
  | @read n d _ =>
    obtain ⟨buf, out, e, he⟩ := read_shape w n d
    rw [he]
    exact ⟨rfl, fun hc => hsame hc ⟨rfl, rfl, id⟩⟩
  | closeWrite _ hc =>
    refine ⟨rfl, fun hc' => ?_⟩
    cases hc with
    | nothing honce => exact hsame hc' ⟨rfl, rfl, honce⟩
    | fin =>
      exact ⟨rfl, rfl, _, rfl, List.forall_mem_singleton.mpr rfl⟩

/-- **The FIN invariant is preserved by every step.** -/
theorem finInv_step (h : FinInv isn w) (hs : WorldStep w a w') : FinInv isn w' := by
  have hsend := (sendInv_step h.send hs).1
  cases hfin : w.conn.finSent with
  | true =>
    obtain ⟨added, segs, hf⟩ := finSent_step h hfin hs
    refine ⟨hsend, fun _ => hf.fin.once (h.once hfin), fun _ => ?_, fun hc => ?_⟩
    · rw [hf.send.bufferEnd h.send.sent_le, h.fin_end hfin, hf.fin.finSeq, hf.late,
        Serial.add_ofNat_add]
    · rw [hf.fin.finSent, hfin] at hc; cases hc
  | false =>
    obtain ⟨hlate, hopen⟩ := finUnsent_step h hfin hs
    refine ⟨hsend, fun hc => (hopen hc).1, fun hc => ?_, fun _ => ?_⟩
    · rw [(hopen hc).2.1, hlate, h.no_late hfin]; simp
    · rw [hlate, h.no_late hfin]

/-- The FIN invariant holds in every reachable state. -/
theorem finInv_after (p : SynParams) (as : List Action) : FinInv p.isn (World.after p as) :=
  Machine.run_invariant' (I := FinInv p.isn)
    (fun w a h => finInv_step h (act_step w a)) (finInv_init p) as

/-! ## Nothing after the FIN -/

/--
Once the FIN is sent the buffer ends at it, so that every byte still queued and
every byte the step transmits comes before the FIN.
-/
def NothingAfterFIN (w : World) (a : Action) : Prop :=
  (w.act a).conn.finSent = true →
    bufferEnd (w.act a).conn = (w.act a).conn.finSeq
    ∧ (∀ j < (w.act a).conn.outBuf.length,
        seqGT (w.act a).conn.finSeq ((w.act a).conn.sndUna + BitVec.ofNat 32 j) = true)
    ∧ ∀ seg ∈ w.emits a, ∀ i < seg.payload.length,
        seqGT (w.act a).conn.finSeq (seg.seq + BitVec.ofNat 32 i) = true

theorem lateAppend_grows (h : LateAppend w a) :
    ∃ n, 0 < n ∧ n ≤ maxInFlightBytes ∧ (w.act a).late = w.late + n := by
  cases a with
  | resumeWrite i d =>
    obtain ⟨hacc, hfin, rfl, herr, hroom, call, hi, htotal⟩ := h
    have hcap : 0 < w.conn.capacity call ∧ w.conn.capacity call ≤ maxInFlightBytes
        ∧ w.conn.capacity call ≤ call.p.length - call.total := by
      unfold capacity; omega
    refine ⟨w.conn.capacity call, hcap.1, hcap.2.1, ?_⟩
    simp only [World.act, hacc, if_true, World.appCall, hi, World.applyWrite, hfin,
      writeSection_appends herr hroom htotal,
      WriteResult.queued, Nat.add_sub_cancel_left, List.length_take, List.length_drop]
    omega
  | segment | rtoFired | detached | abort | write | read | closeWrite | close =>
    cases h

theorem emits_eq (h : (w.act a).emitted = w.emitted ++ segs) : w.emits a = segs := by
  unfold World.emits
  rw [h, List.drop_left]

theorem nothingAfterFIN_of_late (h : FinInv isn w)
    (hlate : (w.act a).late = 0) : NothingAfterFIN w a := by
  have hstep := act_step w a
  have h' := finInv_step h hstep
  intro hfin
  have hend : bufferEnd (w.act a).conn = (w.act a).conn.finSeq := by
    rw [h'.fin_end hfin, hlate]; simp
  have hcap := h'.send.buf_le
  unfold maxInFlightBytes at hcap
  have hbefore : ∀ j < (w.act a).conn.outBuf.length,
      seqGT (w.act a).conn.finSeq ((w.act a).conn.sndUna + BitVec.ofNat 32 j) = true := by
    intro j hj
    rw [← hend]
    exact seqGT_offset _ hj (by omega)
  refine ⟨hend, hbefore, ?_⟩
  intro seg hseg i hi
  have hne : seg.payload ≠ [] := by intro h0; rw [h0] at hi; exact absurd hi (by simp)
  cases hf : w.conn.finSent with
  | true =>
    obtain ⟨added, segs, hs⟩ := finSent_step h hf hstep
    rw [emits_eq hs.emitted] at hseg
    obtain ⟨off, hc⟩ := hs.send.chunks seg hseg hne
    have hsent := hc.sent
    have hle := h'.send.sent_le
    rw [hc.seq, Serial.add_ofNat_add]
    exact hbefore _ (by omega)
  | false =>
    obtain ⟨_, _, segs, he, hp⟩ := (finUnsent_step h hf hstep).2 hfin
    rw [emits_eq he] at hseg
    exact absurd (hp seg hseg) hne

theorem lateAppend_breaks (h : FinInv isn w)
    (h0 : w.late = 0) (hlate : LateAppend w a) : ¬ NothingAfterFIN w a := by
  intro hlaw
  obtain ⟨n, hn0, hn1, hn⟩ := lateAppend_grows hlate
  have h' := finInv_step h (act_step w a)
  have hfin : (w.act a).conn.finSent = true := by
    cases hc : (w.act a).conn.finSent with
    | true => rfl
    | false => have := h'.no_late hc; omega
  have hend := h'.fin_end hfin
  rw [(hlaw hfin).1, hn, h0, Nat.zero_add] at hend
  have hzero : (w.act a).conn.finSeq + BitVec.ofNat 32 0
      = (w.act a).conn.finSeq + BitVec.ofNat 32 n := by rw [← hend]; simp
  rw [Serial.add_ofNat_inj] at hzero
  unfold maxInFlightBytes at hn1
  omega

/--
**When nothing is sent after the FIN.** In a run of critical sections in any
order, the send buffer ends at the FIN and every byte queued or transmitted comes
before it, throughout, exactly when no `Write` under way appends after the FIN.
-/
theorem nothing_after_fin_iff (p : SynParams) (as : List Action) :
    Machine.Along World.act NothingAfterFIN (World.init p) as
      ↔ Machine.Along World.act (fun w a => ¬ LateAppend w a) (World.init p) as := by
  -- as long as nothing was appended late, both conditions say the same of the next step
  have hstay : ∀ (w : World) (a : Action), FinInv p.isn w ∧ w.late = 0 → ¬ LateAppend w a →
      (w.act a).late = 0 := by
    intro w a h hn
    cases hf : w.conn.finSent with
    | true =>
      obtain ⟨added, segs, hs⟩ := finSent_step h.1 hf (act_step w a)
      have hadd : added = [] := Classical.byContradiction fun hne => hn (hs.resumed hne)
      rw [hs.late, h.2, hadd]; rfl
    | false => rw [(finUnsent_step h.1 hf (act_step w a)).1, h.2]
  refine Machine.along_iff_along (I := fun w => FinInv p.isn w ∧ w.late = 0) ?_ ?_
    ⟨finInv_init p, rfl⟩
  · intro w a h
    constructor
    · intro hlaw hlate
      exact lateAppend_breaks h.1 h.2 hlate hlaw
    · intro hn
      exact nothingAfterFIN_of_late h.1 (hstay w a h hn)
  · intro w a h hn
    exact ⟨finInv_step h.1 (act_step w a), hstay w a h hn⟩

/-- A client that advertises a window of one byte. -/
def slowClient : SynParams := ⟨80, 4000, 1460, 100, 500, 1, 1460⟩

def slowAck (ack : Seq) : TcpSegment :=
  { srcPort := 4000, dstPort := 80, seq := 501, ack := ack, flags := flagACK, window := 1 }

/-- `Write` fills the buffer and waits, `CloseWrite` sends the FIN, one byte is acknowledged. -/
def closedMidWrite (data : Bytes) : List Action :=
  [.segment (slowAck 101), .write data false, .closeWrite, .segment (slowAck 102)]

/-- A `Write` of `data` waits for room in the full buffer, and its first bytes are sent. -/
structure WriteWaits (data : Bytes) (w : World) : Prop where
  accepted : w.accepted = true
  writers : w.writers = [⟨data, maxInFlightBytes⟩]
  late : w.late = 0
  err : w.conn.err = none
  una : w.conn.sndUna = 101
  full : w.conn.outBuf.length = maxInFlightBytes
  sent : 0 < w.conn.sentBytes

theorem write_waits (hlen : data.length = maxInFlightBytes + 1) (hacc : w.accepted = true)
    (hws : w.writers = []) (hl : w.late = 0) (herr : w.conn.err = none)
    (hfin : w.conn.finSent = false) (hbuf : w.conn.outBuf = []) (hwnd : w.conn.sndWnd = 1)
    (hmss : w.conn.sndMSS = 1460) (huna : w.conn.sndUna = 101) :
    WriteWaits data (w.act (.write data false))
      ∧ (w.act (.write data false)).conn.state = w.conn.state
      ∧ (w.act (.write data false)).conn.closeWriteOnce = w.conn.closeWriteOnce := by
  have hcap : w.conn.capacity ⟨data, 0⟩ = maxInFlightBytes := by
    unfold capacity; rw [hbuf, hlen]; simp
  have hfull : (enqueueBytes w.conn ⟨data, 0⟩).outBuf.length = maxInFlightBytes := by
    unfold enqueueBytes; rw [hcap, hbuf]; simp [hlen]
  have hwrite : w.conn.writeEntry data false = _ := (writeEntry_open herr hfin).trans
    (writeSection_appends herr (by rw [hbuf]; decide) (by show 0 < data.length; omega))
  obtain ⟨m, segs, armed, op, rto, rc, hpush, hsends, _, _, hzero⟩ :=
    sendPending_spec (enqueueBytes w.conn ⟨data, 0⟩) [] false
  -- the window is open and the segment size positive, so something is sent
  have hm : 0 < m := by
    rcases Nat.eq_zero_or_pos m with h0 | h0
    · have h1 := hzero rfl (by show 0 < w.conn.sndMSS; omega) (by rw [hfull, h0]; decide) h0
      rw [show (enqueueBytes w.conn ⟨data, 0⟩).sndWnd = w.conn.sndWnd from rfl, hwnd] at h1
      cases h1
    · exact h0
  rw [hpush, hcap] at hwrite
  simp only [World.act, hacc, if_true, World.appCall, hwrite, World.applyWrite, hws, hl, hfin]
  exact ⟨⟨rfl, by simp [World.addWriter], by simp, herr, huna, hfull, hm⟩, rfl, rfl⟩

theorem closeWrite_waits (h : WriteWaits data w) (hst : w.conn.state = .established)
    (honce : w.conn.closeWriteOnce = false) :
    WriteWaits data (w.act .closeWrite) ∧ (w.act .closeWrite).conn.state = .finWait1
      ∧ (w.act .closeWrite).conn.finSent = true := by
  simp only [World.act, h.accepted, if_true, World.appCall, World.apply, closeWriteSection, honce,
    hst, Bool.false_eq_true, if_false, Bool.true_or]
  exact ⟨⟨rfl, h.writers, h.late, h.err, h.una, h.full, h.sent⟩, trivial, rfl⟩

theorem ack_lateAppend (hlen : data.length = maxInFlightBytes + 1) (h : WriteWaits data w)
    (hst : w.conn.state = .finWait1) (hfin : w.conn.finSent = true)
    (hb : w.conn.sentBytes < 2 ^ 31) :
    LateAppend (w.act (.segment (slowAck 102))) (.resumeWrite 0 false)
      ∧ (w.act (.segment (slowAck 102))).late = 0 := by
  obtain ⟨r, hr, heq⟩ := handleSegment_sync
    (show Synchronized w.conn.state by rw [hst]; trivial)
    (show (slowAck 102).has flagRST = false by decide)
  obtain ⟨u, segs, v, acks, hs⟩ := sync_shape hb hr
  have hpos := h.sent
  have hk : u.k = 1 := by
    rw [hs.retired (by decide), ackedBytes, h.una, if_pos (by decide)]
    show min 1 w.conn.sentBytes = 1
    omega
  have hroom : r.1.outBuf.length < maxInFlightBytes := by
    rw [hs.conn]
    show (w.conn.outBuf.drop u.k).length < maxInFlightBytes
    rw [List.length_drop, h.full, hk]
    decide
  rw [World.act, heq]
  refine ⟨⟨by simp [World.apply, h.accepted], ?_, rfl, ?_, ?_, _,
    by simp [World.apply, h.writers]; rfl, ?_⟩, h.late⟩
  · exact (sync_fin hb hr _).1.finSent.trans hfin
  · rw [World.apply, enter_err, hs.conn]; exact h.err
  · show (enter _ r.1).outBuf.length < _
    rw [(enter_send _ r.1).2.1]; exact hroom
  · show maxInFlightBytes < data.length; omega

theorem closedMidWrite_lateAppend (hlen : data.length = maxInFlightBytes + 1) :
    LateAppend (World.after slowClient (closedMidWrite data)) (.resumeWrite 0 false)
      ∧ (World.after slowClient (closedMidWrite data)).late = 0 := by
  have hb := (sendInv_after slowClient
    [.segment (slowAck 101), .write data false, .closeWrite]).sent_lt
  obtain ⟨hwaits, hst, honce⟩ :=
    write_waits hlen (w := World.after slowClient [.segment (slowAck 101)])
    rfl rfl rfl rfl rfl rfl rfl rfl rfl
  obtain ⟨hwaits, hst, hfin⟩ := closeWrite_waits hwaits hst honce
  exact ack_lateAppend hlen hwaits hst hfin hb

/-- A `Write` of 65536 bytes, closed while it waits, queues its last byte behind the FIN. -/
theorem closed_mid_write_breaks :
    ¬ NothingAfterFIN (World.after slowClient (closedMidWrite (List.replicate 65536 0)))
        (.resumeWrite 0 false) := by
  obtain ⟨hlate, h0⟩ := closedMidWrite_lateAppend
    (show (List.replicate 65536 (0 : UInt8)).length = maxInFlightBytes + 1 by
      rw [List.length_replicate]; rfl)
  exact lateAppend_breaks (finInv_after _ _) h0 hlate

/-! ## The sequence number of an acknowledgement -/

/-- Our FIN is out and so is everything queued before it. -/
def AllSent (w : World) : Prop :=
  w.conn.finSent = true ∧ w.conn.sentBytes = w.conn.outBuf.length

theorem FinStep.allSent {added : Bytes} (h : FinStep w a w' added segs) (hall : AllSent w)
    (hadd : added = []) : AllSent w' := by
  refine ⟨h.fin.finSent.trans hall.1, ?_⟩
  obtain ⟨k, hk, _, hb, hmin, _⟩ := h.send.moved
  have hle := h.send.sent_le
  have hlen := congrArg List.length hb
  rw [List.length_append, List.length_drop, hadd, List.length_nil] at hlen
  have := hall.2
  omega

/-- Of the bytes appended after the FIN, how many have been sent. -/
def lateSent (w : World) : Nat := w.late - (w.conn.outBuf.length - w.conn.sentBytes)

theorem AllSent.lateSent (h : AllSent w) : lateSent w = w.late := by
  rw [Proof.lateSent, h.2, Nat.sub_self, Nat.sub_zero]

/-- The FIN is out under the number `fin`, and what is not sent yet was appended after it. -/
structure PastFIN (isn fin : Seq) (w : World) : Prop where
  inv : FinInv isn w
  finSent : w.conn.finSent = true
  finSeq : w.conn.finSeq = fin
  unsent : w.conn.outBuf.length ≤ w.conn.sentBytes + w.late

/-- Nothing takes a connection back before its FIN. -/
theorem pastFIN_step {fin : Seq} (h : PastFIN isn fin w) (a : Action) :
    PastFIN isn fin (w.act a) := by
  obtain ⟨added, segs, hs⟩ := finSent_step h.inv h.finSent (act_step w a)
  obtain ⟨k, hk, _, hb, hmin, _⟩ := hs.send.moved
  have hlen := congrArg List.length hb
  rw [List.length_append, List.length_drop] at hlen
  have hlate := hs.late
  have hunsent := h.unsent
  exact ⟨finInv_step h.inv (act_step w a), hs.fin.finSent.trans h.finSent,
    hs.fin.finSeq.trans h.finSeq, by omega⟩

theorem bareAck_seq {fin : Seq} (h : PastFIN isn fin w) {seg : TcpSegment}
    (hseg : seg ∈ w.emits a) (hbare : BareAck seg) :
    seg.seq = fin + BitVec.ofNat 32 (lateSent (w.act a))
      ∧ (AllSent w → lateSent (w.act a) = w.late) := by
  obtain ⟨added, segs, hs⟩ := finSent_step h.inv h.finSent (act_step w a)
  rw [emits_eq hs.emitted] at hseg
  obtain ⟨hadd, hseq⟩ := hs.bare seg hseg hbare
  refine ⟨?_, fun hall => ?_⟩
  · have h' := pastFIN_step h a
    -- the buffer ends `u` bytes past what is sent, and that is as far past the FIN as `late`
    obtain ⟨u, hu⟩ := Nat.exists_eq_add_of_le h'.inv.send.sent_le
    have hlate : (w.act a).late = lateSent (w.act a) + u := by
      have := h'.unsent
      unfold lateSent
      omega
    have hend := h'.inv.fin_end h'.finSent
    rw [bufferEnd, hu, hlate, h'.finSeq, ← Serial.add_ofNat_add, ← Serial.add_ofNat_add] at hend
    rw [hseq]
    exact (BitVec.add_left_inj _).mp hend
  · rw [(hs.allSent hall hadd).lateSent, hs.late, hadd]
    rfl

/-- As long as nothing is appended after the FIN, nothing waits to be sent. -/
theorem allSent_step {fin : Seq} (h : PastFIN isn fin w) (hall : AllSent w)
    (hn : ¬ LateAppend w a) : AllSent (w.act a) ∧ (w.act a).late = w.late := by
  obtain ⟨added, segs, hs⟩ := finSent_step h.inv h.finSent (act_step w a)
  have hadd : added = [] := Classical.byContradiction fun hne => hn (hs.resumed hne)
  exact ⟨hs.allSent hall hadd, by rw [hs.late, hadd]; rfl⟩

/--
**When acknowledgements count the FIN.** Let the FIN be out, and everything before
it. Along the rest of the run a bare ACK has the sequence number `finSeq + 1`
exactly if, modulo `2 ^ 32`, one of the bytes appended after the FIN has been sent
by then. Where nothing waits to be sent these are all that were appended before the
step, and it stays so until the next late append: a run without one has no bare ACK
that counts the FIN.
-/
theorem bare_ack_counts_fin_iff (p : SynParams) (as bs : List Action)
    (hall : AllSent (World.after p as)) :
    let w₀ := World.after p as
    Machine.Along World.act (fun w a => ∀ seg ∈ w.emits a, BareAck seg →
        (seg.seq = w₀.conn.finSeq + 1 ↔ lateSent (w.act a) % 2 ^ 32 = 1)
          ∧ (AllSent w → lateSent (w.act a) = w.late)) w₀ bs
    ∧ (Machine.Along World.act (fun w a => ¬ LateAppend w a) w₀ bs →
        Machine.Always World.act (fun w => lateSent w = w₀.late) w₀ bs) := by
  intro w₀
  have hpast : PastFIN p.isn w₀.conn.finSeq w₀ :=
    ⟨finInv_after p as, hall.1, rfl, by rw [hall.2]; exact Nat.le_add_right _ _⟩
  refine ⟨?_, fun hn => ?_⟩
  · refine Machine.along_mono (fun w a h seg hseg hbare => ?_)
      (Machine.along_of_invariant (I := PastFIN p.isn w₀.conn.finSeq)
        (fun w a h => pastFIN_step h a) bs hpast)
    obtain ⟨hseq, hsent⟩ := bareAck_seq h hseg hbare
    rw [hseq]
    exact ⟨Serial.add_ofNat_inj w₀.conn.finSeq (n := 1), hsent⟩
  · have halways := Machine.always_invariant
      (I := fun w => PastFIN p.isn w₀.conn.finSeq w ∧ AllSent w ∧ w.late = w₀.late)
      (fun w a h hn => ?_) ⟨hpast, hall, rfl⟩ hn
    · exact Machine.always_mono (fun w h => h.2.1.lateSent.trans h.2.2) halways
    · obtain ⟨hsent, hlate⟩ := allSent_step h.1 h.2.1 hn
      exact ⟨pastFIN_step h.1 a, hsent, hlate.trans h.2.2⟩

/-- Our FIN is out; the peer acknowledges it and sends its own. -/
def peerFIN : Action :=
  .segment { srcPort := 4000, dstPort := 80, seq := 501, ack := 102, flags := flagFIN ||| flagACK,
             window := 1 }

/-- No byte was appended after this FIN, so that no bare ACK counts it. -/
theorem bare_ack_counts_fin_finWait1 :
    let w := World.after slowClient [.segment (slowAck 101), .closeWrite]
    AllSent w ∧ ∀ seg ∈ w.emits peerFIN, BareAck seg → seg.seq ≠ w.conn.finSeq + 1 := by
  have hall : AllSent (World.after slowClient [.segment (slowAck 101), .closeWrite]) :=
    ⟨by decide, by decide⟩
  refine ⟨hall, fun seg hseg hbare hseq => ?_⟩
  have hiff := ((bare_ack_counts_fin_iff slowClient _ [peerFIN] hall).1.1 seg hseg hbare).1
  exact absurd (hiff.mp hseq) (by decide)

/-- The acknowledgement of the peer's FIN goes out under our FIN's own sequence number. -/
theorem bare_ack_at_fin :
    let w := World.after slowClient [.segment (slowAck 101), .closeWrite]
    AllSent w ∧ (w.act peerFIN).conn.state = .timeWait
      ∧ ∃ seg ∈ w.emits peerFIN, BareAck seg ∧ seg.seq = w.conn.finSeq
          ∧ seg.seq ≠ w.conn.finSeq + 1 := by
  refine ⟨⟨by decide, by decide⟩, by decide, _, List.mem_singleton.mpr rfl, ⟨rfl, rfl⟩, rfl, ?_⟩
  decide

end GoVpn.Proof
