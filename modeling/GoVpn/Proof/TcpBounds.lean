import GoVpn.Lib.Tally
import GoVpn.Netstack.TcpSlices
import GoVpn.Proof.TcpRecv

/-!
# The buffers of a connection

The receive buffer and the reorder buffer are admitted against the same window. Bytes are taken in
only up to what the window leaves, and the drain loop moves bytes from one buffer to the other
without changing their sum. So the sum stays within the window, and the window that is advertised is
exactly what is left of it.

The send buffer is bounded by `Write` itself (`SendInv`). An acknowledgement retires at most what is
in flight, however far ahead its number is.
-/

namespace GoVpn.Proof

open GoVpn.Netstack TcpConn

/-! ## The receive side -/

/-- The bytes held on the peer's behalf. -/
def heldBytes (c : TcpConn) : Nat := c.recvBuf.length + tally (fun e => e.2.length) c.reorder

structure RecvBounded (c : TcpConn) : Prop where
  bytes_le : heldBytes c ≤ defaultReceiveWindow
  reorder_le : c.reorder.length ≤ maxReorderSegments

theorem recvWindow_eq (c : TcpConn) :
    c.recvWindowRemainingLocked = defaultReceiveWindow - heldBytes c := by
  show (if heldBytes c ≥ defaultReceiveWindow then 0 else defaultReceiveWindow - heldBytes c) = _
  split <;> omega

variable {c : TcpConn}

theorem RecvBounded.same {c' : TcpConn} (h : RecvBounded c) (hs : SameRecv c c') :
    RecvBounded c' := by
  obtain ⟨h1, h2⟩ := h
  refine ⟨?_, ?_⟩
  · unfold heldBytes
    rw [hs.recvBuf, hs.reorder]
    exact h1
  · rw [hs.reorder]
    exact h2

theorem RecvBounded.advertised (h : RecvBounded c) :
    c.advertisedWindowLocked.toNat + heldBytes c = defaultReceiveWindow := by
  have hle := h.bytes_le
  have hlt : defaultReceiveWindow - heldBytes c < 2 ^ 16 := by
    unfold defaultReceiveWindow
    omega
  unfold advertisedWindowLocked
  rw [recvWindow_eq, BitVec.toNat_ofNat, Nat.mod_eq_of_lt hlt]
  omega

theorem tally_delete_le {k : Seq} {data : Bytes} {l : List (Seq × Bytes)}
    (h : l.lookup k = some data) :
    tally (fun e => e.2.length) (l.filter fun e => e.1 != k) + data.length ≤
      tally (fun e => e.2.length) l := by
  obtain ⟨l₁, l₂, rfl, -⟩ := List.lookup_eq_some_iff.mp h
  have h₁ := Tally.tally_filter_le (fun e : Seq × Bytes => e.2.length) (fun e => e.1 != k) l₁
  have h₂ := Tally.tally_filter_le (fun e : Seq × Bytes => e.2.length) (fun e => e.1 != k) l₂
  have hk : (((k, data) :: l₂).filter fun e => e.1 != k) = l₂.filter fun e => e.1 != k := by simp
  rw [List.filter_append, hk, Tally.tally_append, Tally.tally_append, Tally.tally_cons]
  dsimp only
  omega

theorem drain_bounded :
    ∀ (fuel : Nat) {c : TcpConn}, RecvBounded c → RecvBounded (drainReorder fuel c)
  | 0, _, h => h
  | fuel + 1, c, h => by
    rw [drainReorder]
    split
    · exact h
    · rename_i data hget
      split
      · exact h
      · apply drain_bounded fuel
        have hdel := tally_delete_le hget
        have hle := h.bytes_le
        unfold heldBytes at hle
        refine ⟨?_, Nat.le_trans (List.length_filter_le _ _) h.reorder_le⟩
        show (c.recvBuf ++ data).length + tally _ (c.reorder.filter fun e => e.1 != c.rcvNxt) ≤ _
        rw [List.length_append]
        omega

theorem consumeFIN_bounded (h : RecvBounded c) (seg : TcpSegment) :
    RecvBounded (c.consumeFIN seg).1 := by
  unfold consumeFIN
  split
  · exact ⟨h.bytes_le, h.reorder_le⟩
  · split
    · exact ⟨h.bytes_le, h.reorder_le⟩
    · exact h

theorem acceptInOrder_bounded (h : RecvBounded c) (payload : Bytes) :
    RecvBounded (c.acceptInOrder payload) := by
  have hroom : c.admitted payload.length ≤ defaultReceiveWindow - heldBytes c := by
    rw [← recvWindow_eq]
    exact Nat.min_le_right _ _
  have hle := h.bytes_le
  unfold heldBytes at hle hroom
  refine ⟨?_, h.reorder_le⟩
  show (c.recvBuf ++ payload.take (c.admitted payload.length)).length + tally _ c.reorder ≤ _
  rw [List.length_append, List.length_take]
  omega

theorem handleData_bounded (h : RecvBounded c) (seg : TcpSegment) (toSend : List TcpSegment) :
    RecvBounded (c.handleEstablishedDataLocked seg toSend).1 := by
  unfold handleEstablishedDataLocked
  split
  · exact h
  split
  · dsimp only
    split
    · exact consumeFIN_bounded (drain_bounded _ (acceptInOrder_bounded h _)) seg
    · exact acceptInOrder_bounded h _
  split
  · split
    · exact h
    · split
      · exact h
      · rename_i hroom
        have hfits : ¬ seg.payload.length > defaultReceiveWindow - heldBytes c := by
          rw [← recvWindow_eq]
          exact fun hc => hroom (.inr hc)
        -- an entry of its own, for which there is room
        have hnew : RecvBounded { c with reorder := c.reorder ++ [(seg.seq, seg.payload)] } := by
          have hle := h.bytes_le
          unfold heldBytes at hle hfits
          refine ⟨?_, ?_⟩
          · show c.recvBuf.length + tally _ (c.reorder ++ [(seg.seq, seg.payload)]) ≤ _
            rw [Tally.tally_append, Tally.tally_cons, Tally.tally_nil]
            dsimp only
            omega
          · show (c.reorder ++ [(seg.seq, seg.payload)]).length ≤ _
            rw [List.length_append, List.length_singleton]
            omega
        split
        · exact ⟨hnew.bytes_le, hnew.reorder_le⟩
        · exact hnew
  · exact h

theorem handleAck_recv (hb : c.sentBytes < 2 ^ 31) (seg : TcpSegment) :
    SameRecv c (c.handleAckLocked seg []).1 := by
  obtain ⟨u, segs, he, _⟩ := handleAck_spec hb seg []
  rw [he]
  exact ⟨rfl, rfl, rfl, rfl, rfl, rfl, id⟩

theorem segment_bounded (hb : c.sentBytes < 2 ^ 31) (h : RecvBounded c) {seg : TcpSegment}
    {o : Outcome} (hs : SegStep c seg o) : RecvBounded o.conn := by
  cases hs with
  | ignored => exact h
  | reset | refused => exact ⟨h.bytes_le, h.reorder_le⟩
  | handshake =>
    have hopen : RecvBounded (establish c seg) := ⟨h.bytes_le, h.reorder_le⟩
    exact handleData_bounded hopen seg []
  | sync _ _ hr =>
    have hack := h.same (handleAck_recv hb seg)
    cases hr with
    | data => exact (handleData_bounded hack seg _).same (enter_recv _ _)
    | ackOnly => exact hack.same (enter_recv _ _)
  | reAck => exact h

theorem read_bounded {w : World} (h : RecvBounded w.conn) (n : Nat) (d : Bool) :
    RecvBounded (w.applyRead (w.conn.readSection n d)).conn := by
  have hdrop : RecvBounded { w.conn with recvBuf := w.conn.recvBuf.drop n } := by
    have hle := h.bytes_le
    unfold heldBytes at hle
    refine ⟨?_, h.reorder_le⟩
    show (w.conn.recvBuf.drop n).length + tally _ w.conn.reorder ≤ _
    rw [List.length_drop]
    omega
  unfold readSection
  split
  · exact h
  split
  · exact hdrop
  split
  · exact h
  · split <;> exact h

/-- **Every step keeps the receive side within its bounds.** -/
theorem recvBounded_step {isn : Seq} {w w' : World} {a : Action} (hsend : SendInv isn w)
    (h : RecvBounded w.conn) (hs : WorldStep w a w') : RecvBounded w'.conn := by
  cases hs with
  | segment hseg => exact segment_bounded hsend.sent_lt h hseg
  | rto hrto => exact h.same (rto_recv hrto)
  | teardown => exact ⟨h.bytes_le, h.reorder_le⟩
  | write _ hw => exact h.same (write_recv hw.step)
  | @read n d _ => exact read_bounded h n d
  | closeWrite _ hc => exact h.same (close_recv hc)
  | nothing => exact h

/-- The receive side is bounded in every run. -/
theorem recvBounded_after (p : SynParams) (as : List Action) :
    RecvBounded (World.after p as).conn := by
  have hinv : SendInv p.isn (World.after p as) ∧ RecvBounded (World.after p as).conn :=
    Machine.run_invariant' (I := fun w => SendInv p.isn w ∧ RecvBounded w.conn)
      (fun w a h => ⟨(sendInv_step h.1 (act_step w a)).1, recvBounded_step h.1 h.2 (act_step w a)⟩)
      ⟨sendInv_init p, Nat.zero_le _, Nat.zero_le _⟩ as
  exact hinv.2

/-! ## The slice expressions -/

section Slices

variable {c : TcpConn} {s : Slice}

theorem retireSlices_inRange (hle : c.sentBytes ≤ c.outBuf.length) (hb : c.sentBytes < 2 ^ 31)
    (ackNum : Seq) (hs : s ∈ c.retireSlices ackNum) : s.InRange := by
  unfold retireSlices at hs
  split at hs
  · rename_i hg
    have hcov := covered_eq hb hg.2
    dsimp only at hs
    rw [hcov, Serial.toNat_add_ofNat_sub _ (by omega)] at hs
    split at hs
    · rw [List.mem_singleton.mp hs]
      exact ⟨Nat.le_trans (Nat.min_le_right _ _) hle, Nat.le_refl _⟩
    · cases hs
  · cases hs

theorem sendLoopSlices_inRange {limit : Nat} {forceProbe : Bool} :
    ∀ {fuel : Nat} {c : TcpConn}, s ∈ sendLoopSlices limit forceProbe fuel c → s.InRange := by
  intro fuel
  induction fuel with
  | zero => intro c hs; cases hs
  | succ fuel ih =>
    intro c hs
    rw [sendLoopSlices] at hs
    split at hs
    · rename_i hg
      dsimp only at hs
      split at hs
      · cases hs
      · rcases List.mem_cons.mp hs with rfl | hs
        · refine ⟨Nat.le_add_right _ _, ?_⟩
          show c.sentBytes + c.nextChunk limit ≤ c.outBuf.length
          unfold nextChunk
          omega
        · split at hs
          · cases hs
          · exact ih hs
    · cases hs

theorem sendPendingSlices_inRange {forceProbe : Bool} (hs : s ∈ c.sendPendingSlices forceProbe) :
    s.InRange := by
  unfold sendPendingSlices at hs
  dsimp only at hs
  split at hs
  · split at hs
    · cases hs
    · exact sendLoopSlices_inRange hs
  · exact sendLoopSlices_inRange hs

variable {seg : TcpSegment}

theorem handleAckSlices_inRange (hle : c.sentBytes ≤ c.outBuf.length) (hb : c.sentBytes < 2 ^ 31)
    (hs : s ∈ c.handleAckSlices seg) : s.InRange := by
  unfold handleAckSlices at hs
  split at hs
  · cases hs
  · rcases List.mem_append.mp hs with hs | hs
    · exact retireSlices_inRange hle hb seg.ack hs
    · exact sendPendingSlices_inRange hs

theorem dataSlices_inRange (hs : s ∈ c.dataSlices seg) : s.InRange := by
  unfold dataSlices at hs
  split at hs
  · rw [List.mem_singleton.mp hs]
    exact ⟨Nat.zero_le _, Nat.min_le_left _ _⟩
  · cases hs

theorem handleSegmentSlices_inRange (hle : c.sentBytes ≤ c.outBuf.length)
    (hb : c.sentBytes < 2 ^ 31) (hs : s ∈ c.handleSegmentSlices seg) : s.InRange := by
  have hboth : s ∈ c.handleAckSlices seg ++ (c.handleAckLocked seg []).1.dataSlices seg →
      s.InRange := by
    intro hs
    rcases List.mem_append.mp hs with hs | hs
    · exact handleAckSlices_inRange hle hb hs
    · exact dataSlices_inRange hs
  unfold handleSegmentSlices at hs
  split at hs
  · cases hs
  split at hs
  · split at hs
    · cases hs
    · exact dataSlices_inRange hs
  · exact hboth hs
  · exact hboth hs
  · exact hboth hs
  · exact handleAckSlices_inRange hle hb hs
  · exact handleAckSlices_inRange hle hb hs
  · exact handleAckSlices_inRange hle hb hs
  all_goals cases hs

theorem onRTOFiredSlices_inRange (hle : c.sentBytes ≤ c.outBuf.length)
    (hs : s ∈ c.onRTOFiredSlices) : s.InRange := by
  unfold onRTOFiredSlices at hs
  split at hs
  · cases hs
  split at hs
  · split at hs
    · cases hs
    · rw [List.mem_singleton.mp hs]
      exact ⟨Nat.zero_le _, Nat.le_trans (Nat.min_le_left _ _) hle⟩
  split at hs
  · cases hs
  split at hs
  · split at hs
    · cases hs
    · exact sendPendingSlices_inRange hs
  · cases hs

theorem readSlices_inRange {size : Nat} {d : Bool} (hs : s ∈ c.readSlices size d) : s.InRange := by
  unfold readSlices at hs
  split at hs
  · cases hs
  split at hs
  · rw [List.mem_singleton.mp hs]
    exact ⟨Nat.min_le_right _ _, Nat.le_refl _⟩
  · cases hs

theorem writeSlices_inRange {call : WriteCall} {d : Bool} (hs : s ∈ c.writeSlices call d) :
    s.InRange := by
  unfold writeSlices at hs
  split at hs
  · cases hs
  rename_i hg
  split at hs
  · rcases List.mem_cons.mp hs with rfl | hs
    · refine ⟨Nat.le_add_right _ _, ?_⟩
      show call.total + c.capacity call ≤ call.p.length
      unfold capacity
      omega
    · exact sendPendingSlices_inRange hs
  · cases hs

theorem slices_inRange {isn : Seq} {w : World} (h : SendInv isn w) (a : Action)
    (hs : s ∈ w.slices a) : s.InRange := by
  cases a with
  | segment seg => exact handleSegmentSlices_inRange h.sent_le h.sent_lt hs
  | rtoFired => exact onRTOFiredSlices_inRange h.sent_le hs
  | write p d =>
    dsimp only [World.slices] at hs
    split at hs
    · exact writeSlices_inRange hs
    · cases hs
  | resumeWrite i d =>
    dsimp only [World.slices] at hs
    split at hs
    · split at hs
      · exact writeSlices_inRange hs
      · cases hs
    · cases hs
  | read n d =>
    dsimp only [World.slices] at hs
    split at hs
    · exact readSlices_inRange hs
    · cases hs
  | detached | abort | closeWrite | close => cases hs

end Slices

/--
**The buffers keep to their bounds.** After any inbound segments, calls of the application
and timer expiries: receive and reorder buffer together hold at most a window, the
reorder buffer has at most its number of entries, and the send buffer is bounded and holds
what counts as sent. Every slice expression that the next action evaluates is in range,
and the advertised window is the whole window less the bytes held.
-/
theorem tcp_buffers_bounded (p : SynParams) (as : List Action) :
    let w := World.after p as
    heldBytes w.conn ≤ defaultReceiveWindow
      ∧ w.conn.reorder.length ≤ maxReorderSegments
      ∧ w.conn.sentBytes ≤ w.conn.outBuf.length
      ∧ w.conn.outBuf.length ≤ maxInFlightBytes
      ∧ (∀ a, ∀ s ∈ w.slices a, s.InRange)
      ∧ w.conn.advertisedWindowLocked.toNat + heldBytes w.conn = defaultReceiveWindow := by
  intro w
  have hsend : SendInv p.isn w := sendInv_after p as
  have hrecv : RecvBounded w.conn := recvBounded_after p as
  exact ⟨hrecv.bytes_le, hrecv.reorder_le, hsend.sent_le, hsend.buf_le,
    fun a s hs => slices_inRange hsend a hs, hrecv.advertised⟩

end GoVpn.Proof
