import GoVpn.Proof.TcpBounds
import GoVpn.Proof.TcpFin

/-!
# The reorder buffer and the stream

Segments that arrive early wait in the reorder buffer, each under its sequence number. The drain
loop takes the entry whose key is exactly `rcvNxt`. An entry whose key the stream passes over is
never looked at again, keeps its share of the window, and is spliced in if the numbers come round.

The stream passes over a key in two ways. A segment whose bytes reach into an entry moves `rcvNxt`
into it or past it; a peer is free to cut its stream differently the second time. And the loop stops
at an entry that does not fit the window, although its bytes are already counted against it. As long
as neither happens, everything in the buffer is ahead of the stream.
-/

namespace GoVpn.Proof

open GoVpn.Netstack TcpConn

variable {base : Seq} {S : Bytes}

/-- Everything in the reorder buffer is still to come. -/
def Ahead (c : TcpConn) : Prop := ∀ e ∈ c.reorder, seqGT e.1 c.rcvNxt = true

/-- Where in the stream a sequence number stands. -/
def position (base k : Seq) : Nat := (k - base).toNat

/-- The two have different keys and no byte in common. -/
def ClearOf (base : Seq) (e e' : Seq × Bytes) : Prop :=
  e.1 ≠ e'.1 ∧ (position base e.1 + e.2.length ≤ position base e'.1
    ∨ position base e'.1 + e'.2.length ≤ position base e.1)

/--
A segment reaches into nothing that is buffered, unless it is the buffered segment itself,
and if it is next in order there is room for it and for what is buffered.
-/
def KeepsClear (base : Seq) (c : TcpConn) (seg : TcpSegment) : Prop :=
  ∀ e ∈ c.reorder, e.1 ≠ seg.seq →
    ClearOf base (seg.seq, seg.payload) e
    ∧ (seg.seq = c.rcvNxt → seg.payload.length + e.2.length ≤ c.recvWindowRemainingLocked)

def Orderly (base : Seq) (w : World) : Action → Prop
  | .segment seg => KeepsClear base w.conn seg
  | _ => True

instance (c : TcpConn) : Decidable (Ahead c) := inferInstanceAs (Decidable (∀ e ∈ c.reorder, _))

instance (base : Seq) (e e' : Seq × Bytes) : Decidable (ClearOf base e e') :=
  inferInstanceAs (Decidable (_ ∧ (_ ∨ _)))

instance (base : Seq) (c : TcpConn) (seg : TcpSegment) : Decidable (KeepsClear base c seg) :=
  inferInstanceAs (Decidable (∀ e ∈ c.reorder, _ → _ ∧ (_ → _)))

instance (base : Seq) (w : World) : ∀ a, Decidable (Orderly base w a)
  | .segment seg => inferInstanceAs (Decidable (KeepsClear base w.conn seg))
  | .rtoFired | .detached | .abort | .write _ _ | .resumeWrite _ _ | .read
      _ _ | .closeWrite | .close =>
    .isTrue trivial

/-- What is known of the reorder buffer in an orderly run. -/
structure Tidy (base : Seq) (c : TcpConn) : Prop where
  ahead : Ahead c
  clear : ∀ e ∈ c.reorder, ∀ e' ∈ c.reorder, e ≠ e' → ClearOf base e e'

theorem CarriedAt.position (hS : S.length < 2 ^ 31) {k : Seq} {d : Bytes}
    (h : CarriedAt base S k d) :
    k = base + BitVec.ofNat 32 (Proof.position base k) ∧
    Proof.position base k + d.length ≤ S.length := by
  obtain ⟨pos, rfl, hlen, -⟩ := h
  have hpos : Proof.position base (base + BitVec.ofNat 32 pos) = pos :=
    Serial.toNat_add_ofNat_sub base (by omega)
  rw [hpos]
  exact ⟨rfl, hlen⟩

variable {n : Nat}

theorem seqGT_position (hS : S.length < 2 ^ 31) {k : Seq} {d : Bytes} (h : CarriedAt base S k d)
    (hn : n ≤ S.length + 1) : seqGT k (base + BitVec.ofNat 32 n) = true ↔ n < position base k := by
  obtain ⟨hk, hle⟩ := h.position hS
  constructor
  · intro hgt
    rw [hk] at hgt
    rcases Nat.lt_or_ge n (position base k) with hlt | hge
    · exact hlt
    · rw [not_seqGT_offset base hge (by omega)] at hgt
      cases hgt
  · intro hlt
    rw [hk]
    exact seqGT_offset base hlt (by omega)

variable {c : TcpConn} {out : Bytes} {seg : TcpSegment}

theorem recvWindow_splice {data : Bytes} (h : c.reorderGet c.rcvNxt = some data) (n : Seq) :
    c.recvWindowRemainingLocked ≤
      TcpConn.recvWindowRemainingLocked
        { c with reorder := c.reorder.filter (fun e => e.1 != c.rcvNxt)
                 recvBuf := c.recvBuf ++ data, rcvNxt := n } := by
  have hdel := tally_delete_le h
  rw [recvWindow_eq, recvWindow_eq]
  unfold heldBytes
  dsimp only
  rw [List.length_append]
  omega

theorem drain_tidy (hS : S.length < 2 ^ 31) :
    ∀ (fuel : Nat) {c : TcpConn} {n : Nat}, Received base S out c n → c.peerClosed = false →
      (∀ e ∈ c.reorder, n ≤ position base e.1) →
      (∀ e ∈ c.reorder, ∀ e' ∈ c.reorder, e ≠ e' → ClearOf base e e') →
      (∀ e ∈ c.reorder, e.2.length ≤ c.recvWindowRemainingLocked) → c.reorder.length ≤ fuel →
      Tidy base (drainReorder fuel c)
  | 0, c, n, _, _, _, hclear, _, hfuel => by
    have hnil : c.reorder = [] := List.length_eq_zero_iff.mp (by omega)
    refine ⟨fun e he => ?_, hclear⟩
    rw [drainReorder, hnil] at he
    cases he
  | fuel + 1, c, n, hr, hopen, hahead, hclear, hroom, hfuel => by
    have hnext := hr.next hopen
    rw [drainReorder]
    split
    · -- nothing waits at `rcvNxt`, so everything is beyond it
      rename_i hnone
      refine ⟨fun e he => ?_, hclear⟩
      have hcar := hr.reorder e he
      have hle := hr.le
      rw [hnext, seqGT_position hS hcar (by omega)]
      refine Nat.lt_of_le_of_ne (hahead e he) fun heq => ?_
      have hkey : c.rcvNxt = e.1 := by rw [hnext, (hcar.position hS).1, ← heq]
      have hne := List.lookup_eq_none_iff.mp hnone e he
      simp [hkey] at hne
    · rename_i data hget
      obtain ⟨l₁, l₂, hl, -⟩ := List.lookup_eq_some_iff.mp hget
      have hmem : (c.rcvNxt, data) ∈ c.reorder := by rw [hl]; simp
      have hle := hr.le
      have hpos : position base c.rcvNxt = n := by
        rw [hnext]
        exact Serial.toNat_add_ofNat_sub base (by omega)
      rw [if_neg (Nat.not_lt.mpr (hroom _ hmem))]
      have hrest : ∀ e ∈ c.reorder.filter (fun e => e.1 != c.rcvNxt), e ∈ c.reorder ∧
          e.1 ≠ c.rcvNxt := by
        intro e he
        have := List.mem_filter.mp he
        exact ⟨this.1, by simpa using this.2⟩
      refine drain_tidy hS fuel (hr.splice hS hopen hget) hopen ?_ ?_ ?_ ?_
      · -- the entry taken over and any other have no byte in common
        intro e he
        obtain ⟨he, hkey⟩ := hrest e he
        have hge := hahead e he
        have hne : position base e.1 ≠ n := by
          intro heq
          exact hkey (by rw [((hr.reorder e he).position hS).1, heq, hnext])
        obtain ⟨-, hc | hc⟩ := hclear _ hmem e he (fun heq => hkey (by rw [← heq]))
        · rw [hpos] at hc
          exact hc
        · rw [hpos] at hc
          omega
      · exact fun e he e' he' => hclear e (hrest e he).1 e' (hrest e' he').1
      · exact fun e he => Nat.le_trans (hroom e (hrest e he).1) (recvWindow_splice hget _)
      · have hlt : (c.reorder.filter fun e => e.1 != c.rcvNxt).length < c.reorder.length := by
          rw [List.length_filter_lt_length_iff_exists]
          exact ⟨_, hmem, by simp⟩
        show (c.reorder.filter _).length ≤ fuel
        omega

theorem recvWindow_accept (c : TcpConn) (payload : Bytes) :
    (c.acceptInOrder payload).recvWindowRemainingLocked
      = c.recvWindowRemainingLocked - c.admitted payload.length := by
  have hadm : c.admitted payload.length ≤ payload.length := Nat.min_le_left _ _
  rw [recvWindow_eq, recvWindow_eq]
  unfold heldBytes acceptInOrder
  dsimp only
  rw [List.length_append, List.length_take]
  omega

theorem consumeFIN_tidy (hS : S.length < 2 ^ 31) (h : Received base S out c n)
    (hopen : c.peerClosed = false) (ht : Tidy base c) (hseg : OfStream base S seg) :
    Tidy base (c.consumeFIN seg).1 := by
  have hr := consumeFIN_received hS h hopen hseg
  have hnone : (c.consumeFIN seg).1.peerClosed = true → c.reorder = [] := by
    intro hc
    refine List.eq_nil_iff_forall_not_mem.mpr fun e he => ?_
    have hgt := ht.ahead e he
    have hle := h.le
    rw [h.next hopen, seqGT_position hS (h.reorder e he) (by omega)] at hgt
    have hend := ((h.reorder e he).position hS).2
    have hall := (hr.closed hc).1
    omega
  have hsame : (c.consumeFIN seg).1.reorder = c.reorder := by
    unfold consumeFIN
    split
    · rfl
    · split <;> rfl
  refine ⟨fun e he => ?_, by rw [hsame]; exact ht.clear⟩
  rw [hsame] at he
  by_cases hc : (c.consumeFIN seg).1.peerClosed = true
  · rw [hnone hc] at he
    cases he
  · have hnext : (c.consumeFIN seg).1.rcvNxt = c.rcvNxt := by
      rw [hr.next (by simpa using hc), h.next hopen]
    rw [hnext]
    exact ht.ahead e he

theorem inOrder_tidy (hS : S.length < 2 ^ 31) (h : Received base S out c n) (ht : Tidy base c)
    (hseg : OfStream base S seg) (hcar : CarriedAt base S seg.seq seg.payload)
    (hclear : KeepsClear base c seg) (hseq : seg.seq = c.rcvNxt) :
    Tidy base (if c.admitted seg.payload.length = seg.payload.length then
      ((drainReorder (c.acceptInOrder seg.payload).reorder.length
        (c.acceptInOrder seg.payload)).consumeFIN
        seg).1
      else c.acceptInOrder seg.payload) := by
  obtain ⟨hopen, hacc⟩ := h.inOrder hS hcar hseq
  have hle := h.le
  have hnext := h.next hopen
  have hpos : position base seg.seq = n := by
    rw [hseq, hnext]
    exact Serial.toNat_add_ofNat_sub base (by omega)
  -- what is buffered starts behind the segment's last byte, and fits
  have hbuf : ∀ e ∈ c.reorder, n + seg.payload.length ≤ position base e.1
      ∧ seg.payload.length + e.2.length ≤ c.recvWindowRemainingLocked := by
    intro e he
    have hgt := ht.ahead e he
    have hne : e.1 ≠ seg.seq := by
      intro heq
      rw [heq, hseq, seqGT_iff] at hgt
      simp at hgt
    obtain ⟨⟨-, hc⟩, hroom⟩ := hclear e he hne
    rw [hnext, seqGT_position hS (h.reorder e he) (by omega)] at hgt
    rw [hpos] at hc
    refine ⟨?_, hroom hseq⟩
    rcases hc with hc | hc
    · exact hc
    · omega
  split
  · rename_i hfull
    rw [hfull] at hacc
    have hdrain : Tidy base (drainReorder (c.acceptInOrder seg.payload).reorder.length
        (c.acceptInOrder seg.payload)) := by
      refine drain_tidy hS _ hacc hopen (fun e he => (hbuf e he).1) ht.clear (fun e he => ?_)
        (Nat.le_refl _)
      rw [recvWindow_accept, hfull]
      have := (hbuf e he).2
      omega
    obtain ⟨n', hr, hopen'⟩ :=
      drain_received hS (c.acceptInOrder seg.payload).reorder.length _ _ hacc hopen
    exact consumeFIN_tidy hS hr hopen' hdrain hseg
  · -- a segment that is cut short leaves room for nothing else, so the buffer is empty
    rename_i hcut
    have hnil : c.reorder = [] := by
      refine List.eq_nil_iff_forall_not_mem.mpr fun e he => hcut ?_
      have := (hbuf e he).2
      unfold admitted
      omega
    have hnil' : (c.acceptInOrder seg.payload).reorder = [] := hnil
    refine ⟨fun e he => ?_, fun e he => ?_⟩
    · rw [hnil'] at he
      cases he
    · rw [hnil'] at he
      cases he

theorem handleData_tidy (hS : S.length < 2 ^ 31) (h : Received base S out c n) (ht : Tidy base c)
    (hseg : OfStream base S seg) (hclear : KeepsClear base c seg) (toSend : List TcpSegment) :
    Tidy base (c.handleEstablishedDataLocked seg toSend).1 := by
  unfold handleEstablishedDataLocked
  split
  · exact ht
  rename_i hne
  have hcar := hseg.carried hne
  split
  · rename_i hseq
    have hin := inOrder_tidy hS h ht hseg hcar hclear hseq
    split
    · rename_i hfull
      rw [if_pos hfull] at hin
      exact hin
    · rename_i hcut
      rw [if_neg hcut] at hin
      exact hin
  split
  · rename_i hgt
    split
    · exact ht
    · rename_i hnone
      split
      · exact ht
      · -- an entry of its own, under a key that is not there yet
        have hkey : ∀ e ∈ c.reorder, e.1 ≠ seg.seq := by
          intro e he heq
          have := List.lookup_eq_none_iff.mp hnone e he
          simp [heq] at this
        have hnew : Tidy base { c with reorder := c.reorder ++ [(seg.seq, seg.payload)] } := by
          refine ⟨fun e he => ?_, fun e he e' he' hne => ?_⟩
          · rcases List.mem_append.mp he with he | he
            · exact ht.ahead e he
            · rw [List.mem_singleton.mp he]
              exact hgt
          · rcases List.mem_append.mp he with he | he <;>
              rcases List.mem_append.mp he' with he' | he'
            · exact ht.clear e he e' he' hne
            · obtain rfl := List.mem_singleton.mp he'
              obtain ⟨⟨h1, h2⟩, -⟩ := hclear e he (hkey e he)
              exact ⟨h1.symm, h2.symm⟩
            · obtain rfl := List.mem_singleton.mp he
              exact (hclear e' he' (hkey e' he')).1
            · obtain rfl := List.mem_singleton.mp he
              obtain rfl := List.mem_singleton.mp he'
              exact absurd rfl hne
        split
        · exact ⟨hnew.ahead, hnew.clear⟩
        · exact hnew
  · exact ht

/-! ## Runs -/

theorem Tidy.same {c' : TcpConn} (h : Tidy base c) (hs : SameRecv c c') : Tidy base c' := by
  obtain ⟨h1, h2⟩ := h
  refine ⟨?_, by rw [hs.reorder]; exact h2⟩
  unfold Ahead
  rw [hs.reorder, hs.rcvNxt]
  exact h1

theorem KeepsClear.same {c' : TcpConn} (h : KeepsClear base c seg)
    (hs : SameRecv c c') : KeepsClear base c' seg := by
  unfold KeepsClear recvWindowRemainingLocked at h ⊢
  rw [hs.reorder, hs.rcvNxt, hs.recvBuf]
  exact h

theorem segment_tidy (hS : S.length < 2 ^ 31) (hb : c.sentBytes < 2 ^ 31)
    (h : Received base S out c n) (ht : Tidy base c) (hseg : OfStream base S seg)
    (hclear : KeepsClear base c seg) {o : Outcome} (hs : SegStep c seg o) : Tidy base o.conn := by
  have hsame : ∀ {c' : TcpConn}, SameRecv c c' → ∀ toSend,
      Tidy base (c'.handleEstablishedDataLocked seg toSend).1 := fun hs =>
    handleData_tidy hS (h.same hs) (ht.same hs) hseg (hclear.same hs)
  cases hs with
  | ignored => exact ht
  | reset hr =>
    rw [hseg.not_reset] at hr
    cases hr
  | refused => exact ⟨ht.ahead, ht.clear⟩
  | handshake =>
    have hopen : SameRecv c (establish c seg) := ⟨rfl, rfl, rfl, rfl, rfl, rfl, id⟩
    exact hsame hopen []
  | sync _ _ hr =>
    have hack := handleAck_recv hb seg
    cases hr with
    | data => exact (hsame hack _).same (enter_recv _ _)
    | ackOnly => exact (ht.same hack).same (enter_recv _ _)
  | reAck => exact ht

/-- An orderly step keeps the reorder buffer ahead of the stream. -/
theorem tidy_step {isn : Seq} (hS : S.length < 2 ^ 31) {w w' : World} {a : Action}
    (h : RecvInv isn base S w) (ht : Tidy base w.conn)
    (ha : ∀ seg, a = .segment seg → OfStream base S seg) (hord : Orderly base w a)
    (hs : WorldStep w a w') : Tidy base w'.conn := by
  obtain ⟨n, hn⟩ := h.received
  cases hs with
  | segment hseg => exact segment_tidy hS h.send.sent_lt hn ht (ha _ rfl) hord hseg
  | rto hrto => exact ht.same (rto_recv hrto)
  | teardown => exact ⟨ht.ahead, ht.clear⟩
  | write _ hw => exact ht.same (write_recv hw.step)
  | @read k d _ =>
    obtain ⟨buf, rest, e, he⟩ := read_shape w k d
    rw [he]
    exact ⟨ht.ahead, ht.clear⟩
  | closeWrite _ hc => exact ht.same (close_recv hc)
  | nothing => exact ht

/--
**When the reorder buffer stays ahead of the stream.** A peer sends a byte string `S`,
shorter than `2 ^ 31`, in segments that are cut, lost, repeated and reordered. As long as
no segment reaches into a different one that is buffered, and one that is next in order
leaves room for every one that is buffered, every key in the reorder buffer lies beyond
`rcvNxt` at all times.
-/
theorem reorder_ahead_of_stream (p : SynParams) (S : Bytes) (hS : S.length < 2 ^ 31)
    (as : List Action) (hsegs : ∀ seg, Action.segment seg ∈ as → OfStream (p.clientISN + 1) S seg)
    (hord : Machine.Along World.act (Orderly (p.clientISN + 1)) (World.init p) as) :
    Machine.Always World.act (fun w => Ahead w.conn) (World.init p) as := by
  have hstream : Machine.Along World.act
      (fun _ a => ∀ seg, a = .segment seg → OfStream (p.clientISN + 1) S seg) (World.init p) as :=
    Machine.along_of_mem _ fun a ha seg he => hsegs seg (he ▸ ha)
  have hinit : Tidy (p.clientISN + 1) (World.init p).conn := by
    refine ⟨fun e he => ?_, fun e he => ?_⟩
    · cases he
    · cases he
  have hinv := Machine.always_invariant
    (I := fun w => RecvInv p.isn (p.clientISN + 1) S w ∧ Tidy (p.clientISN + 1) w.conn)
    (fun w a h hp =>
      ⟨recvInv_step hS h.1 hp.1 (act_step w a), tidy_step hS h.1 h.2 hp.1 hp.2 (act_step w a)⟩)
    ⟨recvInv_init p S, hinit⟩ (Machine.along_and hstream hord)
  exact Machine.always_mono (fun w h => h.2.ahead) hinv

/-- A client that sends bytes of its stream at `seq`. -/
def streamSegment (seq : Seq) (payload : Bytes) : TcpSegment :=
  { srcPort := 4000, dstPort := 80, seq := seq, ack := 101, flags := flagACK, window := 1,
    payload := payload }

/-- The third byte comes early, and the first two after it. -/
theorem early_byte_stays_ahead :
    Machine.Always World.act (fun w => Ahead w.conn) (World.init slowClient)
      [.segment (streamSegment 501 []), .segment (streamSegment 503 [3]),
        .segment (streamSegment 501 [1, 2]), .read 3 false] := by
  refine reorder_ahead_of_stream slowClient [1, 2, 3] (by decide) _ ?_ (by decide +kernel)
  intro seg hseg
  simp only [List.mem_cons, Action.segment.injEq, reduceCtorEq, List.not_mem_nil, or_false] at hseg
  rcases hseg with rfl | rfl | rfl
  · exact ⟨by decide, fun h => absurd rfl h, fun h => absurd h (by decide)⟩
  · exact ⟨by decide, fun _ => ⟨2, by decide, by decide, by decide⟩, fun h => absurd h (by decide)⟩
  · exact ⟨by decide, fun _ => ⟨0, by decide, by decide, by decide⟩, fun h => absurd h (by decide)⟩

/-- The third byte comes early, and then all five together. -/
def resegmented : List Action :=
  [.segment (streamSegment 501 []), .segment (streamSegment 503 [3]),
    .segment (streamSegment 501 [1, 2, 3, 4, 5]), .read 5 false]

/--
The stream is read to its end, the early byte is still in the buffer under a key that lies
behind, and the window is one byte short.
-/
theorem resegmented_leaves_stale_entry :
    (∀ seg, Action.segment seg ∈ resegmented →
    OfStream (slowClient.clientISN + 1) [1, 2, 3, 4, 5] seg)
      ∧ (World.after slowClient resegmented).readOut = [1, 2, 3, 4, 5]
      ∧ (World.after slowClient resegmented).conn.rcvNxt = 506
      ∧ (World.after slowClient resegmented).conn.reorder = [(503, [3])]
      ∧ ¬ Ahead (World.after slowClient resegmented).conn
      ∧ (World.after slowClient resegmented).conn.recvWindowRemainingLocked = 65534 := by
  refine ⟨fun seg hseg => ?_, by decide, by decide, by decide, by decide, by decide⟩
  simp only [resegmented, List.mem_cons, Action.segment.injEq, reduceCtorEq, List.not_mem_nil,
    or_false] at hseg
  rcases hseg with rfl | rfl | rfl
  · exact ⟨by decide, fun h => absurd rfl h, fun h => absurd h (by decide)⟩
  · exact ⟨by decide, fun _ => ⟨2, by decide, by decide, by decide⟩, fun h => absurd h (by decide)⟩
  · exact ⟨by decide, fun _ => ⟨0, by decide, by decide, by decide⟩, fun h => absurd h (by decide)⟩

end GoVpn.Proof
