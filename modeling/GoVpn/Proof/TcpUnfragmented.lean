import GoVpn.Netstack.TcpDemux
import GoVpn.Proof.Checksums
import GoVpn.Proof.FragmentRoundTrip
import GoVpn.Proof.TcpTimer

/-!
# TCP is never fragmented

The stack's segment size is what the MTU leaves next to two headers of twenty bytes. `handleSYN`
takes the client's where that is smaller, and 536 where the client names none, which no MTU is too
small for. Every place that cuts a segment cuts it to that size, and the SYN-ACK, whose header is
longer, has no payload. So `writePacket` never gets to `fragmentIPv4` with a packet of a connection.
-/

namespace GoVpn.Proof

open Netstack TcpConn

/-- `maxSegmentSize`, a `uint16`. -/
def stackMaxSegmentSize (mtu : Nat) : BitVec 16 :=
  BitVec.ofNat 16 (mtu - minIPv4HeaderLen - tcpHeaderMinLen)

/-- A payload of at most `size` bytes, and none beside an option. -/
structure Cut (size : Nat) (seg : TcpSegment) : Prop where
  payload : seg.payload.length ≤ size
  option : seg.hasMSS = true → seg.payload = []

/-! ## Segments -/

variable {c : TcpConn} {seg : TcpSegment} {size : Nat}

theorem cut_bare (h : seg.payload = []) : Cut size seg :=
  ⟨by rw [h]; exact Nat.zero_le _, fun _ => h⟩

theorem cut_segment (c : TcpConn) (seq : Seq) (flags : BitVec 8) {payload : Bytes}
    (h : payload.length ≤ size) : Cut size (c.segment seq flags payload) :=
  ⟨h, fun hopt => by cases hopt⟩

theorem cut_sends {n m : Nat} {segs : List TcpSegment} (h : Sends c n m segs) :
    ∀ seg ∈ segs, Cut c.sndMSS seg := by
  induction h with
  | nil => intro seg hseg; cases hseg
  | @cons n k m segs _ _ hk _ ih =>
    intro seg hseg
    rcases List.mem_cons.mp hseg with rfl | hseg
    · exact cut_segment c _ _ (Nat.le_trans (List.length_take_le _ _) hk)
    · exact ih seg hseg

theorem cut_sendPending (c : TcpConn) (forceProbe : Bool) :
    ∀ seg ∈ (c.sendPendingLocked [] forceProbe).2, Cut c.sndMSS seg := by
  obtain ⟨m, segs, _, _, _, _, he, hs, -⟩ := sendPending_spec c [] forceProbe
  rw [he]
  exact cut_sends hs

theorem cut_retransmit {o : Outcome} (h : Retransmit c seg o) (hseg : Cut size seg) :
    ∀ s ∈ o.toSend, Cut size s := by
  intro s hs
  cases h with
  | resend =>
    rw [List.mem_singleton.mp hs]
    exact hseg
  | giveUp =>
    rw [List.mem_singleton.mp hs]
    exact cut_bare rfl

theorem cut_rto {o : Outcome} (h : RtoStep c o) : ∀ s ∈ o.toSend, Cut c.sndMSS s := by
  cases h with
  | idle | timeWaitOver => intro s hs; cases hs
  | resendSynAck _ hr => exact cut_retransmit hr (cut_bare rfl)
  | resendData _ _ _ hr =>
    refine cut_retransmit hr (cut_segment c _ _ ?_)
    exact Nat.le_trans (List.length_take_le _ _) (Nat.min_le_right _ _)
  | resendFIN _ _ _ hr => exact cut_retransmit hr (cut_bare rfl)
  | probeGiveUp =>
    intro s hs
    rw [List.mem_singleton.mp hs]
    exact cut_bare rfl
  | probe => exact cut_sendPending _ true
  | disarm => intro s hs; cases hs

/-! ## Runs -/

/-- **What a step sends is cut to size.** -/
theorem step_cut {isn : Seq} {w w' : World} {a : Action} (h : SendInv isn w)
    (hs : WorldStep w a w') : ∀ seg ∈ w'.emitted, seg ∈ w.emitted ∨ Cut w.conn.sndMSS seg := by
  have hadd : ∀ {segs : List TcpSegment}, (∀ s ∈ segs, Cut w.conn.sndMSS s) →
      ∀ s ∈ w.emitted ++ segs, s ∈ w.emitted ∨ Cut w.conn.sndMSS s := by
    intro segs hsegs s hs
    rcases List.mem_append.mp hs with hs | hs
    · exact .inl hs
    · exact .inr (hsegs s hs)
  cases hs with
  | @segment seg o hseg =>
    refine hadd ?_
    cases hseg with
    | ignored | reset => intro s hs; cases hs
    | refused =>
      intro s hs
      rw [List.mem_singleton.mp hs]
      exact cut_bare (buildRST_payload seg)
    | handshake =>
      obtain ⟨u, acks, fin, he, hbare, -⟩ := handleData_shape (establish w.conn seg) seg []
      intro s hs
      simp only [he, List.nil_append] at hs
      rw [hbare s hs]
      exact cut_bare rfl
    | sync _ _ hr =>
      obtain ⟨u, segs, v, acks, hshape⟩ := sync_shape h.sent_lt hr
      intro s hs
      rw [hshape.sent] at hs
      rcases List.mem_append.mp hs with hs | hs
      · exact cut_sends hshape.sends s hs
      · rw [hshape.bare s hs]
        exact cut_bare rfl
    | reAck =>
      intro s hs
      rw [List.mem_singleton.mp hs]
      exact cut_bare rfl
  | rto hrto => exact hadd (cut_rto hrto)
  | teardown _ hsegs =>
    refine hadd fun s hs => ?_
    rw [hsegs s hs]
    exact cut_bare rfl
  | write _ hw =>
    refine hadd ?_
    cases hw.step with
    | returned | full => intro s hs; cases hs
    | queued => exact cut_sendPending _ false
  | @read n d _ =>
    obtain ⟨buf, out, e, he⟩ := read_shape w n d
    rw [he]
    exact fun s hs => .inl hs
  | closeWrite _ hc =>
    refine hadd ?_
    cases hc with
    | nothing => intro s hs; cases hs
    | fin =>
      intro s hs
      rw [List.mem_singleton.mp hs]
      exact cut_bare rfl
  | nothing => exact fun s hs => .inl hs

/-- In every run segments are cut to size. -/
theorem cut_after (p : SynParams) (as : List Action) :
    ∀ seg ∈ (World.after p as).emitted, Cut p.sndMSS.toNat seg := by
  have hinv : SendInv p.isn (World.after p as) ∧ (World.after p as).conn.sndMSS = p.sndMSS.toNat ∧
      ∀ seg ∈ (World.after p as).emitted, Cut p.sndMSS.toNat seg := by
    refine Machine.run_invariant' (I := fun w => SendInv p.isn w ∧ w.conn.sndMSS = p.sndMSS.toNat ∧
      ∀ seg ∈ w.emitted, Cut p.sndMSS.toNat seg) ?_ ?_ as
    · rintro w a ⟨hsend, hmss, hcut⟩
      have hstep := act_step w a
      refine ⟨(sendInv_step hsend hstep).1, (step_mss hsend hstep).trans hmss, fun seg hseg => ?_⟩
      rcases step_cut hsend hstep seg hseg with h | h
      · exact hcut seg h
      · rwa [hmss] at h
    · refine ⟨sendInv_init p, rfl, fun seg hseg => ?_⟩
      rw [List.mem_singleton.mp hseg]
      exact cut_bare rfl
  exact hinv.2.2

/-! ## Packets -/

variable (mtu : Mtu)

theorem toNat_stackMaxSegmentSize : (stackMaxSegmentSize mtu.val).toNat = mtu.val - 40 := by
  have hmax := mtu.max
  unfold maxMTU maxIPv4Datagram at hmax
  rw [stackMaxSegmentSize, BitVec.toNat_ofNat]
  unfold minIPv4HeaderLen tcpHeaderMinLen
  omega

theorem sendMSS_le {d : TcpDemux} (hd : d.maxSegmentSize = stackMaxSegmentSize mtu.val)
    (seg : TcpSegment) : (d.sendMSS seg).toNat ≤ mtu.val - 40 := by
  have hmin := mtu.min
  unfold minMTU at hmin
  have hdefault : defaultMSSWhenAbsent.toNat = 536 := rfl
  rw [← toNat_stackMaxSegmentSize, ← hd]
  unfold TcpDemux.sendMSS
  split
  · split
    · exact Nat.le_refl _
    · next h => exact BitVec.le_def.mp (BitVec.not_lt.mp h)
  · rw [hdefault, hd, toNat_stackMaxSegmentSize]
    omega

theorem length_tcpPacket_le (h : Cut (mtu.val - 40) seg) (localIP remoteIP : Addr) :
    (tcpPacket seg localIP remoteIP).length ≤ mtu.val := by
  have hmin := mtu.min
  have hpayload := h.payload
  unfold minMTU at hmin
  rw [length_tcpPacket]
  unfold TcpSegment.headerLen minIPv4HeaderLen tcpHeaderMinLen mssOptionLen
  cases hopt : seg.hasMSS with
  | true =>
    rw [h.option hopt]
    simp only [if_true, List.length_nil]
    omega
  | false =>
    simp only [Bool.false_eq_true, if_false]
    omega

theorem writePacket_fits {s : UdpStack} {dst : Addr} {protocol : UInt8} {body : Bytes}
    (hmtu : s.mtu = mtu.val) (h : minIPv4HeaderLen + body.length ≤ mtu.val) (accepts : Nat → Bool) :
    (s.writePacket accepts (buildIPv4 s.serverIP dst protocol body)).stack = s ∧
      ∀ out ∈ (s.writePacket accepts (buildIPv4 s.serverIP dst protocol body)).writes,
        out = buildIPv4 s.serverIP dst protocol body := by
  have hparse := parseIPv4_buildIPv4 s.serverIP dst protocol body (Nat.le_trans h mtu.max)
  unfold UdpStack.writePacket
  rw [hparse]
  dsimp only
  rw [if_neg (fun hne => hne rfl),
    if_pos (show (plainHeader _ _ _ _).totalLen ≤ s.mtu from hmtu ▸ h)]
  exact ⟨rfl, fun out hout => List.mem_singleton.mp (mem_writeAll hout)⟩

/-- The connection `handleSYN` makes of a SYN to the listener `l`, on a stack with this MTU. -/
def synWorld (serverIP : Addr) (l : Nat) (syn : Inbound) : World :=
  (TcpDemux.newConn { serverIP := serverIP, maxSegmentSize := stackMaxSegmentSize mtu.val } l
    syn).world

theorem cut_synWorld (serverIP : Addr) (l : Nat) (syn : Inbound) (as : List Action) :
    ∀ seg ∈ (Machine.run World.act (synWorld mtu serverIP l syn) as).emitted,
      Cut (mtu.val - 40) seg := by
  intro seg hseg
  have h := cut_after _ as seg hseg
  exact ⟨Nat.le_trans h.payload (sendMSS_le mtu rfl _), h.option⟩

/--
**TCP is never fragmented.**

Whatever the SYN that opened it names as its segment size, and whatever happens to the connection
afterwards, no packet of it is longer than the MTU. Neither is the RST that answers a segment
without a connection. `writePacket` sends each of them as it is.
-/
theorem tcp_unfragmented (s : UdpStack) (hmtu : s.mtu = mtu.val) (l : Nat) (syn : Inbound)
    (as : List Action) {seg : TcpSegment}
    (hseg : seg ∈ (Machine.run World.act (synWorld mtu s.serverIP l syn) as).emitted ∨
      ∃ offending, seg = buildRSTSegment offending) (remoteIP : Addr) (accepts : Nat → Bool) :
    (tcpPacket seg s.serverIP remoteIP).length ≤ mtu.val ∧
      (s.writePacket accepts (tcpPacket seg s.serverIP remoteIP)).stack = s ∧
      ∀ out ∈ (s.writePacket accepts (tcpPacket seg s.serverIP remoteIP)).writes,
        out = tcpPacket seg s.serverIP remoteIP := by
  have hcut : Cut (mtu.val - 40) seg := by
    rcases hseg with hseg | ⟨offending, rfl⟩
    · exact cut_synWorld mtu s.serverIP l syn as seg hseg
    · exact cut_bare (buildRST_payload offending)
  have hlen := length_tcpPacket_le mtu hcut s.serverIP remoteIP
  refine ⟨hlen, writePacket_fits mtu hmtu ?_ accepts⟩
  rwa [tcpPacket, length_buildIPv4] at hlen

/-- A SYN that names the largest segment size there is. -/
def jumboSyn : Inbound where
  a := 0
  src := 0x0A080002
  seg := { srcPort := 40000, dstPort := 80, seq := 7, ack := 0, flags := flagSYN, window := 65535
           hasMSS := true, mss := 65535 }
  isn := 100

/-- What the connection sends first of a longer `Write`, at the smallest MTU. -/
def fullSegment : TcpSegment :=
  { srcPort := 80, dstPort := 40000, seq := 101, ack := 8, flags := flagACK, window := 65535
    payload := List.replicate 536 0 }

/-- At an MTU of 576 a full segment fills the packet and is written as it is. -/
theorem full_segment_unfragmented :
    (tcpPacket fullSegment 0x0A080001 0x0A080002).length ≤ 576 ∧
      (({ serverIP := 0x0A080001, mtu := 576 } : UdpStack).writePacket (fun _ => true)
        (tcpPacket fullSegment 0x0A080001 0x0A080002)).stack =
          { serverIP := 0x0A080001, mtu := 576 } := by
  have hseg : fullSegment ∈ (Machine.run World.act
      (synWorld { val := 576, min := by decide, max := by decide } 0x0A080001 0 jumboSyn)
      [.segment
        { srcPort := 40000, dstPort := 80, seq := 8, ack := 101, flags := flagACK
          window := 65535 },
        .write (List.replicate 600 0) false]).emitted := by
    decide +kernel
  have h := tcp_unfragmented _ { serverIP := 0x0A080001, mtu := 576 } rfl 0 jumboSyn _ (.inl hseg)
    0x0A080002 (fun _ => true)
  exact ⟨h.1, h.2.1⟩

end GoVpn.Proof
