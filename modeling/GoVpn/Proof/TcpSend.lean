import GoVpn.Proof.TcpStep

/-!
# The send stream

`outBuf` is a window that slides over the stream `W` of everything `Write` has queued:
acknowledgements move its front, `Write` extends its back, and three code paths cut segments out of
the middle. A segment cut at an offset of the buffer is a segment of `W` at the offset its sequence
number names.

`SendStep` says what a critical section does to the buffer, with no mention of `W`; it is proved
once for every case of a step. The invariant `SendInv` then follows from it alone.
-/

namespace GoVpn.Proof

open GoVpn.Netstack TcpConn

/-! ## What a critical section does to the send buffer -/

/-- `seg` carries the bytes of the send buffer at `off`. -/
structure ChunkAt (c : TcpConn) (off : Nat) (seg : TcpSegment) : Prop where
  seq : seg.seq = c.sndUna + BitVec.ofNat 32 off
  payload : seg.payload <+: c.outBuf.drop off
  sent : off + seg.payload.length ≤ c.sentBytes

/--
`SendStep c added c' segs`: from `c` to `c'` the front of the buffer moved over
in-flight bytes only, `added` was appended at its back, and `segs` was sent.
-/
structure SendStep (c : TcpConn) (added : Bytes) (c' : TcpConn) (segs : List TcpSegment) :
    Prop where
  /-- The buffer lost `k` in-flight bytes at the front. -/
  moved : ∃ k ≤ c.sentBytes, c'.sndUna = c.sndUna + BitVec.ofNat 32 k
    ∧ c'.outBuf = c.outBuf.drop k ++ added ∧ c.sentBytes - k ≤ c'.sentBytes
    ∧ ∀ j, c.sentBytes - k ≤ j → j < c'.sentBytes →
        ∃ seg ∈ segs, ∃ off, ChunkAt c' off seg ∧ off ≤ j ∧ j < off + seg.payload.length
  /-- Nothing counts as sent that is not in the buffer. -/
  sent_le : c'.sentBytes ≤ c'.outBuf.length
  /-- The segment size is fixed, and nothing goes out if it is zero. -/
  mss : c'.sndMSS = c.sndMSS ∧ (c.sndMSS = 0 → c'.sentBytes ≤ c.sentBytes)
  /-- Every data segment is a chunk of the new buffer. -/
  chunks : ∀ seg ∈ segs, seg.payload ≠ [] → ∃ off, ChunkAt c' off seg

variable {c : TcpConn} {segs : List TcpSegment} {seg : TcpSegment} {o : Outcome} {isn : Seq}
  {w : World}

variable {added : Bytes} {c' : TcpConn}

/-- A step that leaves the send side alone and sends no data. -/
theorem SendStep.frame (hle : c.sentBytes ≤ c.outBuf.length) (hu : c'.sndUna = c.sndUna)
    (hb : c'.outBuf = c.outBuf) (hs : c'.sentBytes = c.sentBytes) (hm : c'.sndMSS = c.sndMSS)
    (hp : ∀ seg ∈ segs, seg.payload = []) : SendStep c [] c' segs where
  moved := by
    refine ⟨0, Nat.zero_le _, by simp [hu], by simp [hb], by omega, ?_⟩
    intro j h1 h2; omega
  sent_le := by rw [hs, hb]; exact hle
  mss := ⟨hm, fun _ => Nat.le_of_eq hs⟩
  chunks := by intro seg hseg hne; exact absurd (hp seg hseg) hne

theorem Sends.chunks (hu : c'.sndUna = c.sndUna) (hb : c'.outBuf = c.outBuf) {n m : Nat}
    (h : Sends c n m segs) (hm : m ≤ c'.sentBytes) :
    (∀ seg ∈ segs, ∃ off, ChunkAt c' off seg)
    ∧ ∀ j, n ≤ j → j < m → ∃ seg ∈ segs, ∃ off, ChunkAt c' off seg ∧ off ≤ j
        ∧ j < off + seg.payload.length := by
  induction h with
  | nil => exact ⟨by simp, fun j h1 h2 => by omega⟩
  | @cons n k m segs hk hl hmss ht ih =>
    have hlen : ((c.outBuf.drop n).take k).length = k := by
      rw [List.length_take, List.length_drop]; omega
    have hle := ht.le
    have hfirst : ChunkAt c' n (c.segment (c.sndUna + BitVec.ofNat 32 n) flagACK
        ((c.outBuf.drop n).take k)) := by
      refine ⟨by rw [hu]; rfl, ?_, ?_⟩
      · rw [hb]; exact List.take_prefix _ _
      · show n + ((c.outBuf.drop n).take k).length ≤ c'.sentBytes
        omega
    obtain ⟨h1, h2⟩ := ih hm
    constructor
    · intro seg hseg
      rcases List.mem_cons.mp hseg with rfl | hseg
      · exact ⟨n, hfirst⟩
      · exact h1 seg hseg
    · intro j hj1 hj2
      by_cases hjk : j < n + k
      · refine ⟨_, List.mem_cons_self, n, hfirst, hj1, ?_⟩
        show j < n + ((c.outBuf.drop n).take k).length
        omega
      · obtain ⟨seg, hs, off, h3⟩ := h2 j (by omega) hj2
        exact ⟨seg, List.mem_cons_of_mem _ hs, off, h3⟩

theorem SendStep.push (hle : c.sentBytes ≤ c.outBuf.length) (c₀ : TcpConn)
    (hu : c₀.sndUna = c.sndUna) (hb : c₀.outBuf = c.outBuf ++ added) (hm : c₀.sndMSS = c.sndMSS)
    (hu' : c'.sndUna = c₀.sndUna) (hb' : c'.outBuf = c₀.outBuf) (hm' : c'.sndMSS = c₀.sndMSS)
    (hs : Sends c₀ c.sentBytes c'.sentBytes segs) : SendStep c added c' segs := by
  obtain ⟨h1, h2⟩ := hs.chunks hu' hb' (Nat.le_refl _)
  refine ⟨⟨0, Nat.zero_le _, by simp [hu', hu], by simp [hb', hb], hs.le, ?_⟩, ?_,
    ⟨hm'.trans hm, fun h0 => Nat.le_of_eq (hs.eq_of_mss (hm.trans h0))⟩, ?_⟩
  · intro j hj1 hj2; exact h2 j (by omega) hj2
  · rw [hb']; exact hs.le_length (by rw [hb, List.length_append]; omega)
  · intro seg hseg _; exact h1 seg hseg

theorem SendStep.andThen {c'' : TcpConn} {bare : List TcpSegment} (h : SendStep c added c' segs)
    (hu : c''.sndUna = c'.sndUna) (hb : c''.outBuf = c'.outBuf) (hs : c''.sentBytes = c'.sentBytes)
    (hm : c''.sndMSS = c'.sndMSS) (hp : ∀ seg ∈ bare, seg.payload = []) :
    SendStep c added c'' (segs ++ bare) := by
  have hcast : ∀ {off : Nat} {seg : TcpSegment}, ChunkAt c' off seg → ChunkAt c'' off seg := by
    intro off seg hc
    exact ⟨by rw [hu]; exact hc.seq, by rw [hb]; exact hc.payload, by rw [hs]; exact hc.sent⟩
  obtain ⟨k, h1, h2, h3, h4, h5⟩ := h.moved
  refine ⟨⟨k, h1, by rw [hu, h2], by rw [hb, h3], by rw [hs]; exact h4, ?_⟩, ?_,
    ⟨hm.trans h.mss.1, by rw [hs]; exact h.mss.2⟩, ?_⟩
  · intro j hj1 hj2
    obtain ⟨seg, hseg, off, hc, hj⟩ := h5 j hj1 (by rw [← hs]; exact hj2)
    exact ⟨seg, List.mem_append_left _ hseg, off, hcast hc, hj⟩
  · rw [hs, hb]; exact h.sent_le
  · intro seg hseg hne
    rcases List.mem_append.mp hseg with hseg | hseg
    · obtain ⟨off, hc⟩ := h.chunks seg hseg hne
      exact ⟨off, hcast hc⟩
    · exact absurd (hp seg hseg) hne

theorem enter_send (s : TcpState) (c : TcpConn) :
    (enter s c).sndUna = c.sndUna ∧ (enter s c).outBuf = c.outBuf
      ∧ (enter s c).sentBytes = c.sentBytes ∧ (enter s c).sndMSS = c.sndMSS := by
  cases s <;> exact ⟨rfl, rfl, rfl, rfl⟩

section

variable (hle : c.sentBytes ≤ c.outBuf.length)

include hle

theorem sync_sendStep (hb : c.sentBytes < 2 ^ 31) {r : TcpConn × List TcpSegment × Bool}
    (h : SyncStep c seg r) (s : TcpState) : SendStep c [] (enter s r.1) r.2.1 := by
  obtain ⟨u, segs, v, acks, hs⟩ := sync_shape hb h
  obtain ⟨e1, e2, e3, e4⟩ := enter_send s r.1
  rw [hs.conn] at e1 e2 e3 e4 ⊢
  rw [hs.sent]
  have hk := hs.retired_le
  have hch : _ := Sends.chunks (rfl : (u.on c).sndUna = _) rfl hs.sends (Nat.le_refl _)
  have hack : SendStep c [] (u.on c) segs := by
    refine ⟨⟨u.k, hk, rfl, by simp [AckUpdate.on], hs.sends.le, hch.2⟩, ?_, ⟨rfl, fun h0 => ?_⟩, ?_⟩
    · refine hs.sends.le_length ?_
      show c.sentBytes - u.k ≤ (c.outBuf.drop u.k).length
      rw [List.length_drop]; omega
    · have hm : (u.on c).sndMSS = 0 := h0
      rw [show (u.on c).sentBytes = _ from hs.sends.eq_of_mss hm]; exact Nat.sub_le _ _
    · intro s hseg _; exact hch.1 s hseg
  refine hack.andThen e1 e2 e3 e4 ?_
  intro s' hs'; rw [hs.bare s' hs']; rfl

theorem retransmit_sendStep (h : Retransmit c seg o) (hseg : seg.payload ≠ [] → ChunkAt c 0 seg) :
    SendStep c [] o.conn o.toSend := by
  cases h with
  | resend =>
    refine ⟨⟨0, Nat.zero_le _, by simp, by simp, by simp, fun j h1 h2 => ?_⟩, hle,
      ⟨rfl, fun _ => Nat.le_refl _⟩, ?_⟩
    · simp only at h2; omega
    · intro s hs hne
      rw [List.mem_singleton.mp hs] at hne ⊢
      have hc := hseg hne
      exact ⟨0, hc.seq, hc.payload, hc.sent⟩
  | @giveUp c' hc' =>
    rw [hc']
    exact SendStep.frame hle rfl rfl rfl rfl (List.forall_mem_singleton.mpr rfl)

theorem rto_sendStep (h : RtoStep c o) : SendStep c [] o.conn o.toSend := by
  cases h with
  | idle | timeWaitOver | disarm =>
    exact SendStep.frame hle rfl rfl rfl rfl (by simp)
  | resendSynAck _ hr | resendFIN _ _ _ hr =>
    exact retransmit_sendStep hle hr (fun hne => absurd rfl hne)
  | resendData _ _ _ hr =>
    refine retransmit_sendStep hle hr fun _ => ⟨by simp [TcpConn.segment], ?_, ?_⟩
    · rw [List.drop_zero]; exact List.take_prefix _ _
    · show 0 + (c.outBuf.take (min c.sentBytes c.sndMSS)).length ≤ c.sentBytes
      rw [List.length_take]; omega
  | probeGiveUp =>
    exact SendStep.frame hle rfl rfl rfl rfl (List.forall_mem_singleton.mpr rfl)
  | @probe probes _ _ _ _ _ =>
    obtain ⟨m, segs, armed, op, rto, rc, he, hs, _⟩ :=
      sendPending_spec { c with persistProbeCount := probes } [] true
    rw [he, List.nil_append]
    exact SendStep.push hle { c with persistProbeCount := probes } rfl
      (List.append_nil c.outBuf).symm rfl rfl rfl rfl hs

variable {r : TcpConn × List TcpSegment × WriteResult}

theorem write_sendStep {call : WriteCall} (h : WriteStep c call r) :
    SendStep c (r.2.2.queued call) r.1 r.2.1 := by
  cases h with
  | returned => exact SendStep.frame hle rfl rfl rfl rfl (by simp)
  | full =>
    have hq : (WriteResult.pending call).queued call = [] := by simp [WriteResult.queued]
    rw [hq]
    exact SendStep.frame hle rfl rfl rfl rfl (by simp)
  | queued h1 h2 h3 =>
    obtain ⟨m, segs, armed, op, rto, rc, he, hs, _⟩ :=
      sendPending_spec (enqueueBytes c call) [] false
    simp only [he, List.nil_append, WriteResult.queued, Nat.add_sub_cancel_left]
    exact SendStep.push hle (enqueueBytes c call) rfl rfl rfl rfl rfl rfl hs

end

theorem write_room {call : WriteCall} (h : WriteStep c call r) :
    r.2.2.queued call = []
      ∨ c.outBuf.length + (r.2.2.queued call).length ≤ maxInFlightBytes := by
  cases h with
  | returned => exact .inl rfl
  | full => left; simp [WriteResult.queued]
  | queued h1 h2 h3 =>
    right
    have hc : c.capacity call ≤ maxInFlightBytes - c.outBuf.length := Nat.min_le_left _ _
    simp only [WriteResult.queued, Nat.add_sub_cancel_left, List.length_take]
    omega

theorem close_sendStep (hle : c.sentBytes ≤ c.outBuf.length)
    (h : CloseStep c o) : SendStep c [] o.conn o.toSend := by
  cases h with
  | nothing => exact SendStep.frame hle rfl rfl rfl rfl (by simp)
  | fin => exact SendStep.frame hle rfl rfl rfl rfl (List.forall_mem_singleton.mpr rfl)

/-! ## The buffer as a window over the stream -/

/-- How many bytes of the stream have left the buffer, that is, have been acknowledged. -/
def acked (w : World) : Nat := w.written.length - w.conn.outBuf.length

/-- `seg` carries the bytes of the stream `W` at `off`, under the sequence number of `off`. -/
structure CarriesAt (isn : Seq) (W : Bytes) (off : Nat) (seg : TcpSegment) : Prop where
  seq : seg.seq = isn + 1 + BitVec.ofNat 32 off
  payload : seg.payload <+: W.drop off

/-- The invariant of the send side. -/
structure SendInv (isn : Seq) (w : World) : Prop where
  /-- Only buffered bytes are in flight. -/
  sent_le : w.conn.sentBytes ≤ w.conn.outBuf.length
  /-- The buffer respects its cap. -/
  buf_le : w.conn.outBuf.length ≤ maxInFlightBytes
  /-- With a zero segment size nothing is ever in flight. -/
  mss : w.conn.sndMSS = 0 → w.conn.sentBytes = 0
  /-- The buffer is the part of the stream past the acknowledged bytes. -/
  window : w.conn.outBuf.length ≤ w.written.length ∧ w.conn.outBuf = w.written.drop (acked w)
  /-- Once the handshake is over, `sndUna` is the sequence number of the buffer's front. -/
  una : w.accepted = true → w.conn.sndUna = isn + 1 + BitVec.ofNat 32 (acked w)
  /-- Before that, nobody has written anything. -/
  fresh : w.accepted = false → w.conn.sndUna = isn ∧ w.written = [] ∧ w.conn.finSent = false
    ∧ (w.conn.state = .synRcvd ∨ w.conn.state = .closed)
  /-- The application only ever holds a connection that left SYN_RCVD. -/
  opened : w.accepted = true → w.conn.state ≠ .synRcvd
  /-- Every byte acknowledged or in flight has been transmitted. -/
  covered : ∀ j < acked w + w.conn.sentBytes, ∃ seg ∈ w.emitted, ∃ off,
    CarriesAt isn w.written off seg ∧ off ≤ j ∧ j < off + seg.payload.length

theorem SendInv.sent_lt (h : SendInv isn w) : w.conn.sentBytes < 2 ^ 31 := by
  have h1 := h.sent_le
  have h2 := h.buf_le
  unfold maxInFlightBytes at h2
  omega

theorem sendInv_init (p : SynParams) : SendInv p.isn (World.init p) where
  sent_le := Nat.le_refl _
  buf_le := Nat.zero_le _
  mss := by intro _; rfl
  window := ⟨Nat.le_refl _, rfl⟩
  una := by intro h; exact absurd h (by simp [World.init])
  fresh := by intro _; exact ⟨rfl, rfl, rfl, Or.inl rfl⟩
  opened := by intro h; exact absurd h (by simp [World.init])
  covered := by intro j hj; exact absurd hj (by simp [acked, World.init, newTCPConn])

theorem sendInv_fresh (h : SendInv isn w) (hacc : w.accepted = false) :
    w.conn.outBuf = [] ∧ w.conn.sentBytes = 0 := by
  have hb : w.conn.outBuf = [] := by
    have := h.window.1
    rw [(h.fresh hacc).2.1] at this
    exact List.length_eq_zero_iff.mp (by simpa using this)
  refine ⟨hb, ?_⟩
  have := h.sent_le
  rw [hb] at this
  simpa using this

theorem CarriesAt.mono {W : Bytes} {off : Nat}
    (h : CarriesAt isn W off seg) (V : Bytes) (hoff : off ≤ W.length) :
    CarriesAt isn (W ++ V) off seg := by
  refine ⟨h.seq, ?_⟩
  rw [List.drop_append_of_le_length hoff]
  exact h.payload.trans (List.prefix_append _ _)

/-- One step retires only bytes that were in flight, and every data segment it sends is of `W`. -/
def EmitsStream (isn : Seq) (w w' : World) : Prop :=
  acked w' ≤ acked w + w.conn.sentBytes
  ∧ ∃ segs, w'.emitted = w.emitted ++ segs ∧ ∀ seg ∈ segs, seg.payload ≠ [] →
      ∃ off, acked w' ≤ off ∧ off + seg.payload.length ≤ w'.written.length
        ∧ CarriesAt isn w'.written off seg

theorem sendInv_of_sendStep {w' : World} (h : SendInv isn w) (hacc : w.accepted = true)
    (hacc' : w'.accepted = true) (hs : SendStep w.conn added w'.conn segs)
    (hroom : added = [] ∨ w.conn.outBuf.length + added.length ≤ maxInFlightBytes)
    (hw : w'.written = w.written ++ added) (he : w'.emitted = w.emitted ++ segs)
    (hst : w'.conn.state ≠ .synRcvd) : SendInv isn w' ∧ EmitsStream isn w w' := by
  obtain ⟨k, hk, hu, hb, hsb, hcov⟩ := hs.moved
  have hle := h.sent_le
  have hwin := h.window
  have hlen : w'.conn.outBuf.length = w.conn.outBuf.length - k + added.length := by
    rw [hb, List.length_append, List.length_drop]
  have hwlen : w'.written.length = w.written.length + added.length := by
    rw [hw, List.length_append]
  have hacked : acked w' = acked w + k := by unfold acked; omega
  have hdrop : w'.conn.outBuf = w'.written.drop (acked w') := by
    have hak : acked w + k ≤ w.written.length := by unfold acked; omega
    rw [hacked, hw, List.drop_append_of_le_length hak, hb, hwin.2, List.drop_drop]
  have hsles := hs.sent_le
  have hsent : acked w' + w'.conn.outBuf.length = w'.written.length := by
    unfold acked; omega
  have huna : w'.conn.sndUna = isn + 1 + BitVec.ofNat 32 (acked w') := by
    rw [hu, h.una hacc, Serial.add_ofNat_add, hacked]
  -- a chunk of the buffer is a chunk of the stream, shifted by the acknowledged bytes
  have hcast : ∀ {off : Nat} {seg : TcpSegment}, ChunkAt w'.conn off seg →
      CarriesAt isn w'.written (acked w' + off) seg := by
    intro off seg hc
    refine ⟨by rw [hc.seq, huna, Serial.add_ofNat_add], ?_⟩
    have := hc.payload
    rwa [hdrop, List.drop_drop] at this
  refine ⟨⟨hsles, ?_, ?_, ⟨by omega, hdrop⟩, fun _ => huna, ?_, fun _ => hst, ?_⟩,
    by omega, segs, he, ?_⟩
  · rcases hroom with hr | hr
    · have := h.buf_le; rw [hlen, hr]; simp only [List.length_nil]; omega
    · omega
  · intro h0
    have h1 := hs.mss.2 (hs.mss.1.symm.trans h0)
    have h2 := h.mss (hs.mss.1.symm.trans h0)
    omega
  · intro hf; cases hacc'.symm.trans hf
  · intro j hj
    by_cases hold : j < acked w + w.conn.sentBytes
    · obtain ⟨seg, hseg, off, hc, hj1, hj2⟩ := h.covered j hold
      refine ⟨seg, by rw [he]; exact List.mem_append_left _ hseg, off, ?_, hj1, hj2⟩
      rw [hw]
      exact hc.mono _ (by unfold acked at hold; omega)
    · obtain ⟨seg, hseg, off, hc, hj1, hj2⟩ := hcov (j - acked w') (by omega) (by omega)
      refine ⟨seg, by rw [he]; exact List.mem_append_right _ hseg, acked w' + off, hcast hc, ?_, ?_⟩
      · omega
      · omega
  · intro seg hseg hne
    obtain ⟨off, hc⟩ := hs.chunks seg hseg hne
    have := hc.sent
    exact ⟨acked w' + off, by omega, by omega, hcast hc⟩

theorem sendInv_halfOpen (h : SendInv isn w) (hacc : w.accepted = false) (ho : o.enqueue = false)
    (hs : SendStep w.conn [] o.conn o.toSend) (hf : o.conn.finSent = w.conn.finSent)
    (hst : o.conn.state = .synRcvd ∨ o.conn.state = .closed) :
    SendInv isn (w.apply o) ∧ EmitsStream isn w (w.apply o) := by
  obtain ⟨h1, h2, h3, _⟩ := h.fresh hacc
  obtain ⟨hb, h0⟩ := sendInv_fresh h hacc
  obtain ⟨k, hk, hu, hbuf, _, _⟩ := hs.moved
  have hk0 : k = 0 := by omega
  have hbuf' : o.conn.outBuf = [] := by rw [hbuf, hb]; simp
  have hsent : o.conn.sentBytes = 0 := by have := hs.sent_le; rw [hbuf'] at this; simpa using this
  have hacc' : (w.apply o).accepted = false := by simp [World.apply, hacc, ho]
  have hak : acked (w.apply o) = 0 := by
    show w.written.length - o.conn.outBuf.length = 0
    rw [h2]; simp
  refine ⟨⟨hs.sent_le, ?_, fun _ => hsent, ⟨?_, ?_⟩, ?_, ?_, ?_, ?_⟩, by omega, o.toSend, rfl, ?_⟩
  · show o.conn.outBuf.length ≤ _; rw [hbuf']; exact Nat.zero_le _
  · show o.conn.outBuf.length ≤ _; rw [hbuf']; exact Nat.zero_le _
  · show o.conn.outBuf = w.written.drop _; rw [hbuf', h2]; simp
  · intro hc; cases hacc'.symm.trans hc
  · intro _
    refine ⟨?_, h2, hf.trans h3, hst⟩
    show o.conn.sndUna = isn
    rw [hu, hk0, h1]; simp
  · intro hc; cases hacc'.symm.trans hc
  · intro j hj
    have hj' : j < acked (w.apply o) + o.conn.sentBytes := hj
    omega
  · intro seg hseg hne
    obtain ⟨off, hc⟩ := hs.chunks seg hseg hne
    have := hc.sent
    have := List.length_pos_iff.mpr hne
    omega

theorem sendInv_apply (h : SendInv isn w) (hacc : w.accepted = true)
    (hs : SendStep w.conn [] o.conn o.toSend) (hst : o.conn.state ≠ .synRcvd) :
    SendInv isn (w.apply o) ∧ EmitsStream isn w (w.apply o) := by
  exact sendInv_of_sendStep h hacc (by simp [World.apply, hacc]) hs (.inl rfl)
    (by simp [World.apply]) rfl hst

theorem sendInv_handshake (h : SendInv isn w) (hst : w.conn.state = .synRcvd)
    (hack : seg.ack = w.conn.sndUna + 1) :
    let r := (establish w.conn seg).handleEstablishedDataLocked seg []
    SendInv isn (w.apply { conn := r.1, toSend := r.2.1, enqueue := true })
      ∧ EmitsStream isn w (w.apply { conn := r.1, toSend := r.2.1, enqueue := true }) := by
  intro r
  have hacc : w.accepted = false := by
    cases hc : w.accepted with
    | false => rfl
    | true => exact absurd hst (h.opened hc)
  obtain ⟨h1, h2, h3, _⟩ := h.fresh hacc
  obtain ⟨hb, hs⟩ := sendInv_fresh h hacc
  obtain ⟨u, segs, fin, he, hbare, _⟩ := handleData_shape (establish w.conn seg) seg []
  have hr : r = (u.on (establish w.conn seg), [] ++ segs, fin) := he
  rw [hr, List.nil_append]
  refine ⟨⟨?_, ?_, fun _ => hs, ?_, ?_, ?_, ?_, ?_⟩, Nat.le_add_right _ _, segs, rfl, ?_⟩
  · show w.conn.sentBytes ≤ w.conn.outBuf.length; exact h.sent_le
  · show w.conn.outBuf.length ≤ _; exact h.buf_le
  · exact h.window
  · intro _
    show seg.ack = isn + 1 + BitVec.ofNat 32 (w.written.length - w.conn.outBuf.length)
    rw [hack, h1, h2, hb]; simp
  · intro hc; exact absurd hc (by simp [World.apply])
  · intro _; simp [World.apply, RecvUpdate.on, establish]
  · intro j hj
    have hj' : j < (w.written.length - w.conn.outBuf.length) + w.conn.sentBytes := hj
    rw [h2, hs] at hj'
    exact absurd hj' (by simp)
  · intro s hseg hne
    exact absurd (by rw [hbare s hseg]; rfl) hne

theorem buildRST_payload (seg : TcpSegment) : (buildRSTSegment seg).payload = [] := by
  unfold buildRSTSegment; split <;> rfl

theorem sendInv_segment (h : SendInv isn w) (hs : SegStep w.conn seg o) :
    SendInv isn (w.apply o) ∧ EmitsStream isn w (w.apply o) := by
  have hle := h.sent_le
  have hb := h.sent_lt
  cases hacc : w.accepted with
  | true =>
    have hop := h.opened hacc
    refine sendInv_apply h hacc ?_ (seg_opened hs hop)
    cases hs with
    | ignored | reset => exact SendStep.frame hle rfl rfl rfl rfl (by simp)
    | refused h1 | handshake h1 => exact absurd h1 hop
    | sync _ _ hsync => exact sync_sendStep hle hb hsync _
    | reAck => exact SendStep.frame hle rfl rfl rfl rfl (List.forall_mem_singleton.mpr rfl)
  | false =>
    have hst := (h.fresh hacc).2.2.2
    cases hs with
    | ignored =>
      exact sendInv_halfOpen h hacc rfl (SendStep.frame hle rfl rfl rfl rfl (by simp)) rfl hst
    | reset =>
      exact sendInv_halfOpen h hacc rfl (SendStep.frame hle rfl rfl rfl rfl (by simp)) rfl
        (.inr rfl)
    | refused =>
      exact sendInv_halfOpen h hacc rfl (SendStep.frame hle rfl rfl rfl rfl
        (List.forall_mem_singleton.mpr (buildRST_payload seg))) rfl (.inr rfl)
    | handshake h1 _ _ hack => exact sendInv_handshake h h1 hack
    | sync hsync =>
      rcases hst with hst | hst <;> rw [hst] at hsync <;> cases hsync
    | reAck h1 =>
      rcases hst with hst | hst <;> rw [hst] at h1 <;> cases h1

/-- Timer expiry never hands the connection to the listener and sends no first FIN. -/
theorem rto_frame (h : RtoStep c o) : o.enqueue = false ∧ o.conn.finSent = c.finSent := by
  obtain ⟨hq, _, _, _, _, _, _, _, _, _, he, _⟩ := rto_shape h
  exact ⟨hq, by rw [he]⟩

theorem sendInv_rto (h : SendInv isn w) (hs : RtoStep w.conn o) :
    SendInv isn (w.apply o) ∧ EmitsStream isn w (w.apply o) := by
  have hstep := rto_sendStep h.sent_le hs
  cases hacc : w.accepted with
  | true =>
    refine sendInv_apply h hacc hstep ?_
    rcases rto_state hs with h1 | h1 <;> rw [h1]
    · exact h.opened hacc
    · simp
  | false =>
    refine sendInv_halfOpen h hacc (rto_frame hs).1 hstep (rto_frame hs).2 ?_
    rcases rto_state hs with h1 | h1 <;> rw [h1]
    · exact (h.fresh hacc).2.2.2
    · exact .inr rfl

/-- **The send invariant is preserved by every step**, and every step sends only stream bytes. -/
theorem sendInv_step {w' : World} {a : Action} (h : SendInv isn w)
    (hs : WorldStep w a w') : SendInv isn w' ∧ EmitsStream isn w w' := by
  have hle := h.sent_le
  cases hs with
  | segment hseg => exact sendInv_segment h hseg
  | rto hrto => exact sendInv_rto h hrto
  | @teardown a e segs _ hsegs =>
    have hp : ∀ s ∈ segs, s.payload = [] := by intro s hs; rw [hsegs s hs]; rfl
    cases hacc : w.accepted with
    | true =>
      refine sendInv_apply h hacc (SendStep.frame hle rfl rfl rfl rfl hp) ?_
      simp [teardown, stopTimersLocked]
    | false =>
      exact sendInv_halfOpen h hacc rfl (SendStep.frame hle rfl rfl rfl rfl hp) rfl (.inr rfl)
  | @write a call ws r hacc hfrom =>
    have hw := hfrom.step
    refine sendInv_of_sendStep h hacc hacc (write_sendStep hle hw) (write_room hw) rfl rfl ?_
    show r.1.state ≠ .synRcvd
    rw [write_state hw]; exact h.opened hacc
  | @read n d hacc =>
    obtain ⟨buf, out, e, he⟩ := read_shape w n d
    rw [he]
    have hs : SendStep w.conn [] { w.conn with recvBuf := buf } [] :=
      SendStep.frame hle rfl rfl rfl rfl (by simp)
    exact sendInv_of_sendStep h hacc hacc hs (.inl rfl) (by simp) (by simp) (h.opened hacc)
  | closeWrite hacc hc =>
    refine sendInv_apply h hacc (close_sendStep hle hc) ?_
    have hop := h.opened hacc
    cases hc with
    | nothing => exact hop
    | fin _ hfin => rcases hfin with ⟨_, rfl⟩ | ⟨_, rfl⟩ <;> simp
  | nothing => exact ⟨h, Nat.le_add_right _ _, [], by simp, by simp⟩

/-- It holds in every reachable state. -/
theorem sendInv_after (p : SynParams) (as : List Action) : SendInv p.isn (World.after p as) :=
  Machine.run_invariant' (I := SendInv p.isn)
    (fun w a h => (sendInv_step h (act_step w a)).1) (sendInv_init p) as

/--
**Send-stream integrity.**

In every reachable state the send buffer is the stream `W` of queued bytes past
the acknowledged ones and, once the connection is open, `sndUna` is the sequence
number of its front. Every data segment the next critical section transmits
carries the bytes of `W` at the offset, not yet acknowledged, that its sequence
number names. And `sndUna` moves only over bytes that were in a segment
transmitted before the step.
-/
theorem send_stream_integrity (p : SynParams) (as : List Action) (a : Action) :
    let w := World.after p as
    let w' := w.act a
    (w'.conn.outBuf = w'.written.drop (acked w')
      ∧ (w'.accepted = true → w'.conn.sndUna = p.isn + 1 + BitVec.ofNat 32 (acked w')))
    ∧ (∀ seg ∈ w.emits a, seg.payload ≠ [] →
        ∃ off, acked w' ≤ off ∧ off + seg.payload.length ≤ w'.written.length
          ∧ seg.seq = p.isn + 1 + BitVec.ofNat 32 off
          ∧ seg.payload = (w'.written.drop off).take seg.payload.length)
    ∧ ∀ j < acked w', ∃ seg ∈ w.emitted, ∃ off,
        seg.seq = p.isn + 1 + BitVec.ofNat 32 off ∧ off ≤ j ∧ j < off + seg.payload.length
          ∧ seg.payload = (w.written.drop off).take seg.payload.length := by
  intro w w'
  have hw := sendInv_after p as
  obtain ⟨hinv, hak, segs, he, hsegs⟩ := sendInv_step hw (act_step _ a)
  refine ⟨⟨hinv.window.2, hinv.una⟩, ?_, ?_⟩
  · intro seg hseg hne
    have hem : w.emits a = segs := by
      unfold World.emits
      rw [show (w.act a).emitted = w.emitted ++ segs from he, List.drop_left]
    rw [hem] at hseg
    obtain ⟨off, h1, h2, h3⟩ := hsegs seg hseg hne
    exact ⟨off, h1, h2, h3.seq, List.prefix_iff_eq_take.mp h3.payload⟩
  · intro j hj
    obtain ⟨seg, hseg, off, hc, h1, h2⟩ := hw.covered j (Nat.lt_of_lt_of_le hj hak)
    exact ⟨seg, hseg, off, hc.seq, h1, h2, List.prefix_iff_eq_take.mp hc.payload⟩

end GoVpn.Proof
