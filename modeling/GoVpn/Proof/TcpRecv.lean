import GoVpn.Proof.TcpSend

/-!
# The receive stream

The peer sends a byte string `S`, cut into segments any way it likes; the network loses, repeats and
reorders them. What the connection has taken in is always a prefix of `S`: the bytes already read,
then the receive buffer, up to a position `n` that `rcvNxt` names. Everything in the reorder buffer
is a piece of `S` filed under its own position, and a FIN stands at the end of `S`.

Positions are compared modulo `2 ^ 32`, and `S` is shorter than half of that.
-/

namespace GoVpn.Proof

open GoVpn.Netstack TcpConn

variable {base : Seq} {S : Bytes}

/-- `d` is the piece of `S` that starts where the sequence number `k` points. -/
def CarriedAt (base : Seq) (S : Bytes) (k : Seq) (d : Bytes) : Prop :=
  ∃ pos, k = base + BitVec.ofNat 32 pos ∧ pos + d.length ≤ S.length ∧ d <+: S.drop pos

/-- A segment of the stream `S`: no reset, its bytes in place, a FIN only at the very end. -/
structure OfStream (base : Seq) (S : Bytes) (seg : TcpSegment) : Prop where
  not_reset : seg.has flagRST = false
  bytes : seg.payload ≠ [] → CarriedAt base S seg.seq seg.payload
  fin : seg.has flagFIN = true →
    seg.seq + BitVec.ofNat 32 seg.payload.length = base + BitVec.ofNat 32 S.length

/-- `Received base S out c n`: with `out` already read, `c` has taken in `n` bytes of `S`. -/
structure Received (base : Seq) (S out : Bytes) (c : TcpConn) (n : Nat) : Prop where
  le : n ≤ S.length
  /-- Read and buffered bytes together are the prefix of length `n`. -/
  bytes : out ++ c.recvBuf = S.take n
  /-- Until the peer's FIN is consumed, `rcvNxt` is the position of the next byte. -/
  next : c.peerClosed = false → c.rcvNxt = base + BitVec.ofNat 32 n
  /-- The FIN is consumed only after the last byte, and takes one more number. -/
  closed : c.peerClosed = true → n = S.length ∧ c.rcvNxt = base + BitVec.ofNat 32 (n + 1)
  /-- Reordered data is filed under its position. -/
  reorder : ∀ e ∈ c.reorder, CarriedAt base S e.1 e.2
  /-- A remembered FIN stands at the end of the stream. -/
  pending : c.hasPendingFIN = true → c.pendingFINSeq = base + BitVec.ofNat 32 S.length

variable {n : Nat} {o : Outcome}

theorem position_eq (hS : S.length < 2 ^ 31) {m : Nat} (hm : m ≤ S.length + 1)
    (hn : n ≤ S.length + 1) (h : base + BitVec.ofNat 32 m = base + BitVec.ofNat 32 n) : m = n := by
  rw [Serial.add_ofNat_inj] at h
  omega

variable {seg : TcpSegment} {out : Bytes} {c : TcpConn}

theorem OfStream.carried (h : OfStream base S seg)
    (hne : ¬ (seg.payload = [] ∧ !seg.has flagFIN)) : CarriedAt base S seg.seq seg.payload := by
  by_cases hp : seg.payload = []
  · have hf : seg.has flagFIN = true := by
      cases hc : seg.has flagFIN with
      | true => rfl
      | false => exact absurd ⟨hp, by simp [hc]⟩ hne
    have hseq := h.fin hf
    rw [hp] at hseq ⊢
    refine ⟨S.length, by simpa using hseq, by simp, ?_⟩
    exact List.nil_prefix
  · exact h.bytes hp

theorem take_extend {pos k : Nat} {d : Bytes} (hk : k ≤ d.length) (hd : d <+: S.drop pos) :
    S.take pos ++ d.take k = S.take (pos + k) := by
  obtain ⟨rest, hrest⟩ := hd
  rw [List.take_add, ← hrest, List.take_append_of_le_length hk]

theorem Received.splice (hS : S.length < 2 ^ 31) (h : Received base S out c n)
    (hopen : c.peerClosed = false) {data : Bytes} (hget : c.reorderGet c.rcvNxt = some data) :
    Received base S out
      { c with reorder := c.reorder.filter (fun e => e.1 != c.rcvNxt), recvBuf := c.recvBuf ++ data,
               rcvNxt := c.rcvNxt + BitVec.ofNat 32 data.length } (n + data.length) := by
  obtain ⟨l₁, l₂, hl, _⟩ := List.lookup_eq_some_iff.mp hget
  obtain ⟨pos, hpos, hlen, hpre⟩ := h.reorder (c.rcvNxt, data) (by rw [hl]; simp)
  have hn : pos = n := by
    have hle := h.le
    exact position_eq hS (by omega) (by omega) (hpos.symm.trans (h.next hopen))
  subst hn
  refine ⟨hlen, ?_, ?_, ?_, ?_, h.pending⟩
  · show out ++ (c.recvBuf ++ data) = S.take (pos + data.length)
    rw [← List.append_assoc, h.bytes, ← take_extend (Nat.le_refl _) hpre, List.take_length]
  · intro _
    show c.rcvNxt + BitVec.ofNat 32 data.length = _
    rw [h.next hopen, Serial.add_ofNat_add]
  · intro hc; cases hopen.symm.trans hc
  · intro e he
    exact h.reorder e (List.mem_filter.mp he).1

theorem drain_received (hS : S.length < 2 ^ 31) :
    ∀ (fuel : Nat) (c : TcpConn) (n : Nat), Received base S out c n → c.peerClosed = false →
      ∃ n', Received base S out (drainReorder fuel c) n'
        ∧ (drainReorder fuel c).peerClosed = false
  | 0, c, n, h, hopen => ⟨n, h, hopen⟩
  | fuel + 1, c, n, h, hopen => by
    rw [drainReorder]
    split
    · exact ⟨n, h, hopen⟩
    · rename_i data hget
      split
      · exact ⟨n, h, hopen⟩
      · exact drain_received hS fuel _ (n + data.length) (h.splice hS hopen hget) hopen

theorem consumeFIN_received (hS : S.length < 2 ^ 31) (h : Received base S out c n)
    (hopen : c.peerClosed = false) (hseg : OfStream base S seg) :
    Received base S out (c.consumeFIN seg).1 n := by
  have hle := h.le
  have hshut : c.rcvNxt = base + BitVec.ofNat 32 S.length →
      n = S.length ∧ c.rcvNxt + 1 = base + BitVec.ofNat 32 (n + 1) := by
    intro he
    refine ⟨position_eq hS (by omega) (by omega) ((h.next hopen).symm.trans he), ?_⟩
    rw [h.next hopen, ← Serial.add_ofNat_add]; rfl
  unfold consumeFIN
  split
  · rename_i hf
    have hn := hshut (hf.2.symm.trans (hseg.fin hf.1))
    exact ⟨hle, h.bytes, fun hc => absurd hc (by simp), fun _ => hn, h.reorder, h.pending⟩
  · split
    · rename_i hf
      have hn := hshut (hf.2.trans (h.pending hf.1))
      exact ⟨hle, h.bytes, fun hc => absurd hc (by simp), fun _ => hn, h.reorder,
        fun hc => absurd hc (by simp)⟩
    · exact h

theorem Received.inOrder (hS : S.length < 2 ^ 31) (h : Received base S out c n)
    (hcar : CarriedAt base S seg.seq seg.payload) (hseq : seg.seq = c.rcvNxt) :
    c.peerClosed = false
      ∧ Received base S out (c.acceptInOrder seg.payload) (n + c.admitted seg.payload.length) := by
  obtain ⟨pos, hpos, hlen, hpre⟩ := hcar
  have hle := h.le
  have hopen : c.peerClosed = false := by
    cases hc : c.peerClosed with
    | false => rfl
    | true =>
      exfalso
      obtain ⟨h1, h2⟩ := h.closed hc
      have := position_eq hS (by omega) (by omega) (hpos.symm.trans (hseq.trans h2))
      omega
  have hn : pos = n :=
    position_eq hS (by omega) (by omega) (hpos.symm.trans (hseq.trans (h.next hopen)))
  subst hn
  have hadm : c.admitted seg.payload.length ≤ seg.payload.length := Nat.min_le_left _ _
  refine ⟨hopen, by omega, ?_, ?_, ?_, h.reorder, h.pending⟩
  · show out ++ (c.recvBuf ++ seg.payload.take _) = _
    rw [← List.append_assoc, h.bytes, take_extend hadm hpre]
  · intro _
    show c.rcvNxt + BitVec.ofNat 32 _ = _
    rw [h.next hopen, Serial.add_ofNat_add]
  · intro hc
    rw [show (c.acceptInOrder seg.payload).peerClosed = c.peerClosed from rfl, hopen] at hc
    cases hc

theorem handleData_received (hS : S.length < 2 ^ 31) (h : Received base S out c n)
    (hseg : OfStream base S seg) (toSend : List TcpSegment) :
    ∃ n', Received base S out (c.handleEstablishedDataLocked seg toSend).1 n' := by
  unfold handleEstablishedDataLocked
  split
  · exact ⟨n, h⟩
  rename_i hne
  have hcar := hseg.carried hne
  split
  · rename_i hseq
    obtain ⟨hopen, hacc⟩ := h.inOrder hS hcar hseq
    split
    · obtain ⟨n', h1, h2⟩ := drain_received hS (c.acceptInOrder seg.payload).reorder.length _ _ hacc
        hopen
      exact ⟨n', consumeFIN_received hS h1 h2 hseg⟩
    · exact ⟨_, hacc⟩
  · split
    · split
      · exact ⟨n, h⟩
      · split
        · exact ⟨n, h⟩
        · -- out of order: filed under its own position
          have hre : ∀ e ∈ c.reorder ++ [(seg.seq, seg.payload)], CarriedAt base S e.1 e.2 := by
            intro e he
            rcases List.mem_append.mp he with he | he
            · exact h.reorder e he
            · rw [List.mem_singleton.mp he]; exact hcar
          split
          · rename_i hf
            exact ⟨n, h.le, h.bytes, h.next, h.closed, hre, fun _ => hseg.fin hf⟩
          · exact ⟨n, h.le, h.bytes, h.next, h.closed, hre, h.pending⟩
    · exact ⟨n, h⟩

/-! ## Runs -/

/-- The receive side is untouched, and no error that reads as the end of the stream appears. -/
structure SameRecv (c c' : TcpConn) : Prop where
  rcvNxt : c'.rcvNxt = c.rcvNxt
  recvBuf : c'.recvBuf = c.recvBuf
  reorder : c'.reorder = c.reorder
  hasPendingFIN : c'.hasPendingFIN = c.hasPendingFIN
  pendingFINSeq : c'.pendingFINSeq = c.pendingFINSeq
  peerClosed : c'.peerClosed = c.peerClosed
  err : c.err ≠ some .eof → c'.err ≠ some .eof

theorem Received.same {c' : TcpConn} (h : Received base S out c n) (hs : SameRecv c c') :
    Received base S out c' n := by
  obtain ⟨h1, h2, h3, h4, h5, h6, _⟩ := hs
  refine ⟨h.le, ?_, ?_, ?_, ?_, ?_⟩
  · rw [h2]; exact h.bytes
  · rw [h6, h1]; exact h.next
  · rw [h6, h1]; exact h.closed
  · rw [h3]; exact h.reorder
  · rw [h4, h5]; exact h.pending

theorem enter_recv (s : TcpState) (c : TcpConn) : SameRecv c (enter s c) := by
  cases s <;> exact ⟨rfl, rfl, rfl, rfl, rfl, rfl, id⟩

theorem rto_recv (h : RtoStep c o) : SameRecv c o.conn := by
  obtain ⟨_, _, _, _, _, _, _, _, _, _, he, _, herr⟩ := rto_shape h
  rw [he]
  exact ⟨rfl, rfl, rfl, rfl, rfl, rfl, herr⟩

theorem write_recv {call : WriteCall}
    {r : TcpConn × List TcpSegment × WriteResult} (h : WriteStep c call r) : SameRecv c r.1 := by
  cases h with
  | returned | full => exact ⟨rfl, rfl, rfl, rfl, rfl, rfl, id⟩
  | queued =>
    obtain ⟨_, _, _, _, _, _, he, _⟩ := sendPending_spec (enqueueBytes c call) [] false
    rw [he]
    exact ⟨rfl, rfl, rfl, rfl, rfl, rfl, id⟩

theorem close_recv (h : CloseStep c o) : SameRecv c o.conn := by
  cases h with
  | nothing | fin => exact ⟨rfl, rfl, rfl, rfl, rfl, rfl, id⟩

/-- What is known of the receive side in every state the stream `S` leads to. -/
structure RecvInv (isn base : Seq) (S : Bytes) (w : World) : Prop where
  send : SendInv isn w
  received : ∃ n, Received base S w.readOut w.conn n
  /-- The connection's own error never reads as the end of the stream. -/
  err : w.conn.err ≠ some .eof
  /-- The end of the stream is reported only after all of it. -/
  eof : w.eof = true → w.readOut = S

theorem recvInv_init (p : SynParams) (S : Bytes) :
    RecvInv p.isn (p.clientISN + 1) S (World.init p) where
  send := sendInv_init p
  received := by
    refine ⟨0, Nat.zero_le _, by simp [World.init, newTCPConn], fun _ => ?_, ?_, ?_, ?_⟩
    · simp [World.init, newTCPConn]
    · intro h; exact absurd h (by simp [World.init, newTCPConn])
    · intro e he; exact absurd he (by simp [World.init, newTCPConn])
    · intro h; exact absurd h (by simp [World.init, newTCPConn])
  err := by simp [World.init, newTCPConn]
  eof := by intro h; exact absurd h (by simp [World.init])

theorem segment_received (hS : S.length < 2 ^ 31) (hb : c.sentBytes < 2 ^ 31)
    (h : Received base S out c n) (hseg : OfStream base S seg) (hs : SegStep c seg o) :
    (∃ n', Received base S out o.conn n') ∧ (c.err ≠ some .eof → o.conn.err ≠ some .eof) := by
  have hdata : ∀ (d : TcpConn) (s : TcpState) (toSend : List TcpSegment), SameRecv c d →
      (∃ n', Received base S out (enter s (d.handleEstablishedDataLocked seg toSend).1) n')
      ∧ (c.err ≠ some .eof →
        (enter s (d.handleEstablishedDataLocked seg toSend).1).err ≠ some .eof) := by
    intro d s toSend hd
    obtain ⟨n', hn'⟩ := handleData_received hS (h.same hd) hseg toSend
    have he := enter_recv s (d.handleEstablishedDataLocked seg toSend).1
    refine ⟨⟨n', hn'.same he⟩, fun herr => he.err ?_⟩
    obtain ⟨u, _, _, hu, _⟩ := handleData_shape d seg toSend
    rw [hu]
    exact hd.err herr
  cases hs with
  | ignored => exact ⟨⟨n, h⟩, id⟩
  | reset hr => rw [hseg.not_reset] at hr; cases hr
  | refused => exact ⟨⟨n, h.same ⟨rfl, rfl, rfl, rfl, rfl, rfl, id⟩⟩, id⟩
  | handshake =>
    have := hdata (establish c seg) .established [] ⟨rfl, rfl, rfl, rfl, rfl, rfl, id⟩
    rwa [enter_self (by rw [handleData_state]; rfl) (by simp) (by simp)] at this
  | sync _ _ hr =>
    obtain ⟨u, segs, he, _⟩ := handleAck_spec hb seg []
    have hack : SameRecv c (c.handleAckLocked seg []).1 := by
      rw [he]; exact ⟨rfl, rfl, rfl, rfl, rfl, rfl, id⟩
    cases hr with
    | data => exact hdata _ _ _ hack
    | ackOnly =>
      have hent := enter_recv
        (nextState c.state (c.handleAckLocked seg []).1.finAcked false) (c.handleAckLocked seg []).1
      exact ⟨⟨n, (h.same hack).same hent⟩, fun herr => hent.err (hack.err herr)⟩
  | reAck => exact ⟨⟨n, h⟩, id⟩

theorem read_received {isn : Seq} {w : World} (h : RecvInv isn base S w) (k : Nat) (d : Bool) :
    let w' := w.applyRead (w.conn.readSection k d)
    (∃ n, Received base S w'.readOut w'.conn n) ∧ w'.conn.err ≠ some .eof
      ∧ (w'.eof = true → w'.readOut = S) := by
  obtain ⟨n, hn⟩ := h.received
  have hle := hn.le
  -- nothing of the stream is missing once as many bytes are read as it has
  have hall : w.readOut.length ≤ n := by
    have := congrArg List.length hn.bytes
    rw [List.length_append, List.length_take] at this
    omega
  unfold readSection
  split
  · exact ⟨⟨n, hn⟩, h.err, by simpa [World.applyRead] using h.eof⟩
  split
  · rename_i hne
    refine ⟨⟨n, hle, ?_, hn.next, hn.closed, hn.reorder, hn.pending⟩, h.err, ?_⟩
    · show (w.readOut ++ w.conn.recvBuf.take k) ++ w.conn.recvBuf.drop k = _
      rw [List.append_assoc, List.take_append_drop]; exact hn.bytes
    · -- after the end was reported there is nothing left to read
      intro he
      have hS := h.eof he
      have hb := hn.bytes
      rw [hS] at hb hall
      have hnil : w.conn.recvBuf = [] := by
        have := congrArg List.length hb
        rw [List.length_append, List.length_take] at this
        exact List.length_eq_zero_iff.mp (by omega)
      exact absurd hnil hne
  rename_i hnil
  have hnil' : w.conn.recvBuf = [] := Classical.byContradiction hnil
  split
  · rename_i e he
    refine ⟨⟨n, hn⟩, h.err, ?_⟩
    have hne : e ≠ .eof := by intro hc; rw [hc] at he; exact h.err he
    simpa [World.applyRead, hne] using h.eof
  · split
    · rename_i hclosed
      refine ⟨⟨n, hn⟩, h.err, fun _ => ?_⟩
      have hb := hn.bytes
      rw [hnil', (hn.closed hclosed).1, List.append_nil, List.take_length] at hb
      exact hb
    · exact ⟨⟨n, hn⟩, h.err, h.eof⟩

/-- **The receive invariant is preserved by every step**, given segments of the stream. -/
theorem recvInv_step {isn : Seq} (hS : S.length < 2 ^ 31) {w w' : World} {a : Action}
    (h : RecvInv isn base S w) (ha : ∀ seg, a = .segment seg → OfStream base S seg)
    (hs : WorldStep w a w') : RecvInv isn base S w' := by
  have hsend := (sendInv_step h.send hs).1
  obtain ⟨n, hn⟩ := h.received
  have hsame : ∀ {c' : TcpConn}, SameRecv w.conn c' →
      (∃ n, Received base S w.readOut c' n) ∧ c'.err ≠ some .eof :=
    fun hc => ⟨⟨n, hn.same hc⟩, hc.err h.err⟩
  cases hs with
  | segment hseg =>
    obtain ⟨h1, h2⟩ := segment_received hS h.send.sent_lt hn (ha _ rfl) hseg
    exact ⟨hsend, h1, h2 h.err, h.eof⟩
  | rto hrto =>
    obtain ⟨h1, h2⟩ := hsame (rto_recv hrto)
    exact ⟨hsend, h1, h2, h.eof⟩
  | teardown he =>
    exact ⟨hsend, ⟨n, hn.same ⟨rfl, rfl, rfl, rfl, rfl, rfl, fun _ => he⟩⟩, he, h.eof⟩
  | write _ hw =>
    obtain ⟨h1, h2⟩ := hsame (write_recv hw.step)
    exact ⟨hsend, h1, h2, h.eof⟩
  | @read k d _ =>
    obtain ⟨h1, h2, h3⟩ := read_received h k d
    exact ⟨hsend, h1, h2, h3⟩
  | closeWrite _ hc =>
    obtain ⟨h1, h2⟩ := hsame (close_recv hc)
    exact ⟨hsend, h1, h2, h.eof⟩
  | nothing => exact h

/--
**Receive-stream integrity.** A peer sends a byte string `S`, shorter than `2 ^ 31`,
on a connection opened by a SYN numbered `i`. However its segments are cut, lost,
repeated and reordered, and whatever the application and the timer do in between,
the bytes `Read` has returned are a prefix of `S` at all times, and `io.EOF` is
returned only after all of `S`.
-/
theorem receive_stream_integrity (p : SynParams) (S : Bytes) (hS : S.length < 2 ^ 31)
    (as : List Action) (hsegs : ∀ seg, Action.segment seg ∈ as → OfStream (p.clientISN + 1) S seg) :
    Machine.Always World.act (fun w => w.readOut <+: S ∧ (w.eof = true → w.readOut = S))
      (World.init p) as := by
  have halong : Machine.Along World.act
      (fun _ a => ∀ seg, a = .segment seg → OfStream (p.clientISN + 1) S seg) (World.init p) as :=
    Machine.along_of_mem _ fun a ha seg he => hsegs seg (he ▸ ha)
  have hinv := Machine.always_invariant (I := RecvInv p.isn (p.clientISN + 1) S)
    (fun w a h hp => recvInv_step hS h hp (act_step w a)) (recvInv_init p S) halong
  refine Machine.always_mono (fun w h => ?_) hinv
  obtain ⟨n, hn⟩ := h.received
  refine ⟨?_, h.eof⟩
  have : w.readOut <+: S.take n := ⟨w.conn.recvBuf, hn.bytes⟩
  exact this.trans (List.take_prefix n S)

/-- Three bytes, the last one early and with the FIN, read in two calls and then to the end. -/
theorem receive_stream_integrity_reordered :
    let p : SynParams := ⟨80, 4000, 1460, 100, 500, 1000, 1460⟩
    let seg (seq : Seq) (flags : BitVec 8) (payload : Bytes) : TcpSegment :=
      { srcPort := 4000, dstPort := 80, seq := seq, ack := 101, flags := flags, window := 1000,
        payload := payload }
    let as : List Action :=
      [.segment (seg 501 flagACK []), .segment (seg 503 (flagFIN ||| flagACK) [3]),
        .segment (seg 501 flagACK [1, 2]), .read 2 false, .read 2 false, .read 2 false]
    Machine.Always World.act
        (fun w => w.readOut <+: [1, 2, 3] ∧ (w.eof = true → w.readOut = [1, 2, 3]))
        (World.init p) as
      ∧ (World.after p as).readOut = [1, 2, 3] ∧ (World.after p as).eof = true := by
  intro p seg as
  refine ⟨receive_stream_integrity p [1, 2, 3] (by decide) as ?_, by decide, by decide⟩
  intro sg hsg
  simp only [as, List.mem_cons, Action.segment.injEq, reduceCtorEq, List.not_mem_nil,
    or_false] at hsg
  rcases hsg with rfl | rfl | rfl
  · exact ⟨by decide, fun h => absurd rfl h, fun h => absurd h (by decide)⟩
  · exact ⟨by decide, fun _ => ⟨2, by decide, by decide, by decide⟩, fun _ => by decide⟩
  · exact ⟨by decide, fun _ => ⟨0, by decide, by decide, by decide⟩, fun h => absurd h (by decide)⟩

end GoVpn.Proof
