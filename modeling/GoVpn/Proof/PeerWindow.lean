import GoVpn.Proof.TcpFin

/-!
# The peer's window

An acknowledgement with its window names a right edge, the first number the peer does not want yet.
The connection keeps the window as a size and counts it from `sndUna`. An acknowledgement behind
`sndUna` brings an old size, and counting it from there moves the edge to where the peer never put
it.

The invariant is about the edges advertised so far. One of them bounds what may be sent next, and
one, possibly an older and larger one, bounds what is in flight, up to the byte of a zero-window
probe.
-/

namespace GoVpn.Proof

open GoVpn.Netstack TcpConn

/-- The first number beyond what the segment's window admits. -/
def rightEdge (seg : TcpSegment) : Seq := seg.ack + seg.window.setWidth 32

/-- The right edge a step advertises. -/
def edgeOf : Action → Option Seq
  | .segment seg => if seg.has flagACK then some (rightEdge seg) else none
  | _ => none

/-- The right edges the peer has advertised, the one of its SYN first. -/
def edges (p : SynParams) (as : List Action) : List Seq :=
  (p.isn + 1 + p.clientWindow.setWidth 32) :: as.filterMap edgeOf

/-- The byte under the number `s` lies before the largest right edge. -/
def InWindow (es : List Seq) (s : Seq) : Prop := ∃ e ∈ es, seqGT e s = true

/-- The segment is a probe of a closed window: the first byte that is not acknowledged. -/
def IsProbe (c : TcpConn) (seg : TcpSegment) : Prop :=
  c.sndWnd = 0 ∧ seg.seq = c.sndUna ∧ seg.payload.length = 1

/-- Every byte of the data a step sends is in the window, or a probe. -/
def KeepsToWindow (p : SynParams) (as : List Action) (a : Action) : Prop :=
  ∀ seg ∈ (World.after p as).emits a, ∀ i < seg.payload.length,
    InWindow (edges p (as ++ [a])) (seg.seq + BitVec.ofNat 32 i) ∨
      IsProbe ((World.after p as).act a).conn seg

/--
The acknowledgement is not behind `sndUna`, nor so far ahead that its right edge would
count as behind; or it is behind, and does not enlarge the window.
-/
def InTurn (c : TcpConn) (seg : TcpSegment) : Prop :=
  (seg.ack - c.sndUna).toNat + seg.window.toNat < 2 ^ 31
    ∨ seqGT seg.ack c.sndUna = false ∧ seg.window.toNat ≤ c.sndWnd

instance (c : TcpConn) (seg : TcpSegment) : Decidable (InTurn c seg) :=
  inferInstanceAs (Decidable (_ ∨ _))

def AcksInTurn (w : World) : Action → Prop
  | .segment seg => Synchronized w.conn.state → seg.has flagACK = true → InTurn w.conn seg
  | _ => True

instance (w : World) : DecidablePred (AcksInTurn w)
  | .segment _ => inferInstanceAs (Decidable (_ → _))
  | .rtoFired | .detached | .abort | .write .. | .resumeWrite .. | .read
      .. | .closeWrite | .close => isTrue trivial

/-- `Reaches es c n`: one of the edges lies `n` numbers beyond `sndUna`, or further. -/
def Reaches (es : List Seq) (c : TcpConn) (n : Nat) : Prop :=
  ∃ e ∈ es, ∃ x, n ≤ x ∧ x < 2 ^ 31 ∧ e = c.sndUna + BitVec.ofNat 32 x

/-- What is known of the window and of what is in flight. -/
structure Within (es : List Seq) (c : TcpConn) : Prop where
  window : Reaches es c c.sndWnd
  /-- What is in flight was in the window, but for a probe. -/
  flight : Reaches es c c.sentBytes ∨ c.sentBytes ≤ 1

/-! ## What a step does to the window -/

variable {c : TcpConn} {seg : TcpSegment}

variable {es es' : List Seq}

theorem Reaches.mono {c' : TcpConn} {n n' : Nat} (h : Reaches es c n)
    (hes : ∀ e ∈ es, e ∈ es') (hu : c'.sndUna = c.sndUna) (hn : n' ≤ n) : Reaches es' c' n' := by
  obtain ⟨e, he, x, hx, hlt, heq⟩ := h
  exact ⟨e, hes e he, x, by omega, hlt, by rw [hu]; exact heq⟩

theorem Within.push {c' : TcpConn} (h : Within es c) (hes : ∀ e ∈ es, e ∈ es')
    (hu : c'.sndUna = c.sndUna) (hw : c'.sndWnd ≤ c.sndWnd)
    (hs : c'.sentBytes ≤ c.sentBytes ∨ c'.sentBytes ≤ c.sndWnd ∨ c'.sentBytes ≤ 1) :
    Within es' c' := by
  refine ⟨h.window.mono hes hu hw, ?_⟩
  rcases hs with hs | hs | hs
  · rcases h.flight with hf | hf
    · exact .inl (hf.mono hes hu hs)
    · exact .inr (by omega)
  · exact .inl (h.window.mono hes hu hs)
  · exact .inr hs

theorem sendLoop_full {limit : Nat} {forceProbe : Bool} (h : limit ≤ c.sentBytes) (fuel : Nat)
    (toSend : List TcpSegment) (sentAny : Bool) :
    sendLoop limit forceProbe fuel c toSend sentAny = (c, toSend, sentAny) := by
  cases fuel with
  | zero => rfl
  | succ fuel => rw [sendLoop, if_neg (by omega)]

theorem sendUpTo_sent (c : TcpConn) (toSend : List TcpSegment) (limit : Nat) (forceProbe : Bool) :
    (c.sendUpTo toSend limit forceProbe).1.sentBytes ≤ max c.sentBytes limit := by
  have hloop :
    (sendLoop limit forceProbe (c.outBuf.length - c.sentBytes) c toSend false).1.sentBytes
      ≤ max c.sentBytes limit := by
    rcases Nat.le_total limit c.sentBytes with hle | hle
    · rw [sendLoop_full hle]
      exact Nat.le_max_left _ _
    · obtain ⟨m, segs, he, -, hlim, -⟩ :=
        sendLoop_spec limit forceProbe (c.outBuf.length - c.sentBytes) c toSend false
      rw [he]
      exact Nat.le_trans (hlim hle) (Nat.le_max_right _ _)
  unfold sendUpTo
  dsimp only
  split <;> exact hloop

theorem sendPending_sent (c : TcpConn) (toSend : List TcpSegment) :
    (c.sendPendingLocked toSend false).1.sentBytes ≤ max c.sentBytes c.sndWnd := by
  unfold sendPendingLocked
  dsimp only
  split
  · rw [if_pos (by simp)]
    split <;> exact Nat.le_max_left _ _
  · have hlim : c.allowedInFlightLocked ≤ c.sndWnd := by
      unfold allowedInFlightLocked
      split <;> omega
    have := sendUpTo_sent c toSend c.allowedInFlightLocked false
    omega

theorem sendPending_probe (h : c.sndWnd = 0) :
    (c.sendPendingLocked [] true).1.sentBytes ≤ c.sentBytes + 1 := by
  have hlim : c.allowedInFlightLocked = 0 := by
    rw [allowedInFlightLocked, h]
    decide
  unfold sendPendingLocked
  rw [if_pos hlim]
  split
  · split <;> exact Nat.le_succ _
  · have := sendUpTo_sent c [] (c.sentBytes + 1) true
    omega

theorem handleAck_window (hb : c.sentBytes < 2 ^ 31)
    (hack : seg.has flagACK = true) (toSend : List TcpSegment) :
    let c' := (c.handleAckLocked seg toSend).1
    c'.sndUna = c.sndUna + BitVec.ofNat 32 (ackedBytes c seg.ack) ∧ c'.sndWnd = seg.window.toNat
      ∧ c'.sentBytes ≤ max (c.sentBytes - ackedBytes c seg.ack) seg.window.toNat := by
  intro c'
  obtain ⟨u, he, hk, hm, -, -⟩ := retire_spec hb seg
  have hwnd : u.wnd = seg.window.toNat := (congrArg TcpConn.sndWnd he).symm
  have hc' : c' = ((u.on c).sendPendingLocked toSend false).1 := by
    show (c.handleAckLocked seg toSend).1 = _
    unfold handleAckLocked
    rw [if_neg (by simp [hack]), he]
  obtain ⟨m, segs, armed, op, rto, rc, hp, -⟩ := sendPending_spec (u.on c) toSend false
  have hsent := sendPending_sent (u.on c) toSend
  rw [← hc'] at hsent
  refine ⟨?_, ?_, ?_⟩
  · rw [hc', hp, ← hk]
    rfl
  · rw [hc', hp]
    exact hwnd
  · have h1 : (u.on c).sentBytes = c.sentBytes - ackedBytes c seg.ack := hm.trans (by rw [hk])
    have h2 : (u.on c).sndWnd = seg.window.toNat := hwnd
    rw [h1, h2] at hsent
    exact hsent

theorem rightEdge_eq (c : TcpConn) (seg : TcpSegment) :
    rightEdge seg = c.sndUna + BitVec.ofNat 32 ((seg.ack - c.sndUna).toNat + seg.window.toNat) := by
  rw [rightEdge, ← BitVec.ofNat_toNat, ← Serial.add_ofNat_add, Serial.base_add_distance]

theorem Within.ack (hb : c.sentBytes < 2 ^ 31) (h : Within es c) (hack : seg.has flagACK = true)
    (hturn : InTurn c seg) (hes : ∀ e ∈ es, e ∈ es')
    (hedge : rightEdge seg ∈ es') (toSend : List TcpSegment) :
    Within es' (c.handleAckLocked seg toSend).1 := by
  obtain ⟨hu, hw, hs⟩ := handleAck_window hb hack toSend
  generalize (c.handleAckLocked seg toSend).1 = c' at hu hw hs ⊢
  by_cases hnew : (seg.ack - c.sndUna).toNat + seg.window.toNat < 2 ^ 31
  · have hk : ackedBytes c seg.ack ≤ (seg.ack - c.sndUna).toNat := by
      unfold ackedBytes
      split <;> omega
    have hkle := ackedBytes_le c seg.ack
    generalize ackedBytes c seg.ack = k at hu hs hk hkle
    -- its own edge, seen from where `sndUna` is now
    have hown : ∀ n ≤ seg.window.toNat, Reaches es' c' n := by
      intro n hn
      refine ⟨_, hedge, (seg.ack - c.sndUna).toNat - k + seg.window.toNat, by omega, by omega, ?_⟩
      rw [hu, Serial.add_ofNat_add, rightEdge_eq c seg]
      congr 2
      omega
    refine ⟨hown _ (by omega), ?_⟩
    by_cases hpush : c'.sentBytes ≤ seg.window.toNat
    · exact .inl (hown _ hpush)
    · rcases h.flight with ⟨e, he, x, hx, hlt, heq⟩ | hf
      · refine .inl ⟨e, hes e he, x - k, by omega, by omega, ?_⟩
        rw [hu, Serial.add_ofNat_add, heq]
        congr 2
        omega
      · exact .inr (by omega)
  · -- behind `sndUna`: nothing is retired, and the window is no larger
    obtain ⟨hold, hsmall⟩ := hturn.resolve_left hnew
    have hk : ackedBytes c seg.ack = 0 := by
      unfold ackedBytes
      rw [if_neg (by simp [hold])]
    rw [hk] at hu hs
    refine h.push hes (by rw [hu]; simp) (by omega) ?_
    omega

variable {a : Action} {w w' : World}

/-- What a step sends are chunks of the buffer. -/
theorem step_chunks {isn : Seq} (h : SendInv isn w) (hs : WorldStep w a w') :
    ∃ segs, w'.emitted = w.emitted ++ segs
      ∧ ∀ seg ∈ segs, seg.payload ≠ [] → ∃ off, ChunkAt w'.conn off seg := by
  have hle := h.sent_le
  cases hs with
  | @segment seg o hseg =>
    cases hseg with
    | ignored | reset => exact ⟨[], rfl, by simp⟩
    | refused =>
      refine ⟨_, rfl, fun s hs hne => ?_⟩
      rw [List.mem_singleton.mp hs] at hne
      exact absurd (buildRST_payload seg) hne
    | handshake =>
      obtain ⟨u, acks, fin, he, hbare, -⟩ := handleData_shape (establish w.conn seg) seg []
      refine ⟨_, rfl, fun s hs hne => ?_⟩
      simp only [he, List.nil_append] at hs
      exact absurd (by rw [hbare s hs]; rfl) hne
    | sync _ _ hr => exact ⟨_, rfl, (sync_sendStep hle h.sent_lt hr _).chunks⟩
    | reAck =>
      refine ⟨_, rfl, fun s hs hne => ?_⟩
      rw [List.mem_singleton.mp hs] at hne
      exact absurd rfl hne
  | rto hrto => exact ⟨_, rfl, (rto_sendStep hle hrto).chunks⟩
  | teardown _ hsegs => exact ⟨_, rfl, fun s hs hne => absurd (by rw [hsegs s hs]; rfl) hne⟩
  | write _ hw => exact ⟨_, rfl, (write_sendStep hle hw.step).chunks⟩
  | @read n d _ =>
    obtain ⟨buf, out, e, he⟩ := read_shape w n d
    rw [he]
    exact ⟨[], by simp, by simp⟩
  | closeWrite _ hc => exact ⟨_, rfl, (close_sendStep hle hc).chunks⟩
  | nothing => exact ⟨[], by simp, by simp⟩

/-! ## Runs -/

/-- What the law rests on: the edges `es` have been advertised. -/
structure EdgeInv (p : SynParams) (es : List Seq) (w : World) : Prop where
  send : SendInv p.isn w
  syn : p.isn + 1 + p.clientWindow.setWidth 32 ∈ es
  /-- Until the handshake is over, the window is the SYN's. -/
  halfOpen : w.accepted = false → w.conn.sndWnd = p.clientWindow.toNat
  within : w.accepted = true → Within es w.conn

theorem edgeInv_init (p : SynParams) : EdgeInv p (edges p []) (World.init p) where
  send := sendInv_init p
  syn := List.mem_cons_self
  halfOpen := by intro _; rfl
  within := by intro h; cases h

theorem rto_window {o : Outcome} (hs : RtoStep c o) :
    o.conn.sndUna = c.sndUna ∧ o.conn.sndWnd = c.sndWnd
      ∧ (o.conn.sentBytes ≤ c.sentBytes ∨ o.conn.sentBytes ≤ 1) := by
  cases hs with
  | resendSynAck _ hr | resendData _ _ _ hr | resendFIN _ _ _ hr =>
    cases hr with
    | resend => exact ⟨rfl, rfl, .inl (Nat.le_refl _)⟩
    | giveUp hc => rw [hc]; exact ⟨rfl, rfl, .inl (Nat.le_refl _)⟩
  | @probe probes _ _ h0 hw _ =>
    have hsent := sendPending_probe (c := { c with persistProbeCount := probes }) hw
    obtain ⟨_, _, _, _, _, _, he, -⟩ :=
      sendPending_spec { c with persistProbeCount := probes } [] true
    rw [he] at hsent ⊢
    refine ⟨rfl, rfl, .inr ?_⟩
    simp only at hsent ⊢
    omega
  | _ => exact ⟨rfl, rfl, .inl (Nat.le_refl _)⟩

theorem write_within {call : WriteCall}
    {r : TcpConn × List TcpSegment × WriteResult} (h : Within es c) (hs : WriteStep c call r) :
    Within es r.1 := by
  cases hs with
  | returned | full => exact h
  | queued =>
    have hsent := sendPending_sent (enqueueBytes c call) []
    obtain ⟨m, _, _, _, _, _, he, -⟩ := sendPending_spec (enqueueBytes c call) [] false
    rw [he] at hsent ⊢
    have hm : m ≤ max c.sentBytes c.sndWnd := hsent
    refine h.push (fun _ he => he) rfl (Nat.le_refl _) ?_
    show m ≤ _ ∨ m ≤ _ ∨ m ≤ 1
    omega

theorem segment_within {p : SynParams} (h : EdgeInv p es w) {o : Outcome}
    (hs : SegStep w.conn seg o) (hturn : AcksInTurn w (.segment seg)) (hes : ∀ e ∈ es, e ∈ es')
    (hedge : seg.has flagACK = true → rightEdge seg ∈ es') (hacc : (w.apply o).accepted = true) :
    Within es' o.conn := by
  have hmore : w.accepted = true → ∀ {c' : TcpConn}, c'.sndUna = w.conn.sndUna →
    c'.sndWnd = w.conn.sndWnd →
      c'.sentBytes = w.conn.sentBytes → Within es' c' := fun hacc c' h1 h2 h3 =>
    (h.within hacc).push hes h1 (Nat.le_of_eq h2) (.inl (Nat.le_of_eq h3))
  have hold : o.enqueue = false → w.accepted = true := by
    intro hq
    simpa [World.apply, hq] using hacc
  cases hs with
  | ignored | reset | refused => exact hmore (hold rfl) rfl rfl rfl
  | handshake hst _ _ hnum =>
    -- the window is counted from the first byte, which is where the SYN's edge starts
    have hacc0 : w.accepted = false := by
      cases hc : w.accepted with
      | false => rfl
      | true => exact absurd hst (h.send.opened hc)
    obtain ⟨u, segs, fin, he, -⟩ := handleData_shape (establish w.conn seg) seg []
    simp only [he]
    have hedge : Reaches es' (u.on (establish w.conn seg)) w.conn.sndWnd := by
      refine ⟨_, hes _ h.syn, p.clientWindow.toNat, Nat.le_of_eq (h.halfOpen hacc0), ?_, ?_⟩
      · omega
      · show _ = seg.ack + _
        rw [hnum, (h.send.fresh hacc0).1, BitVec.ofNat_toNat]
    refine ⟨hedge, .inr ?_⟩
    show w.conn.sentBytes ≤ 1
    rw [(sendInv_fresh h.send hacc0).2]
    exact Nat.zero_le _
  | @sync r hsync _ hr =>
    have hin := h.within (hold rfl)
    have hb := h.send.sent_lt
    have hack : Within es' (w.conn.handleAckLocked seg []).1 := by
      by_cases hf : seg.has flagACK = true
      · exact hin.ack hb hf (hturn hsync hf) hes (hedge hf) []
      · unfold handleAckLocked
        rw [if_pos (by simp [hf])]
        exact hmore (hold rfl) rfl rfl rfl
    have hsame : ∀ c' : TcpConn, c'.sndUna = (w.conn.handleAckLocked seg []).1.sndUna →
        c'.sndWnd = (w.conn.handleAckLocked seg []).1.sndWnd →
        c'.sentBytes = (w.conn.handleAckLocked seg []).1.sentBytes →
          ∀ s, Within es' (enter s c') := by
      intro c' h1 h2 h3 s
      obtain ⟨e1, -, e3, -⟩ := enter_send s c'
      have e2 : (enter s c').sndWnd = c'.sndWnd := by cases s <;> rfl
      exact hack.push (fun _ he => he) (e1.trans h1) (Nat.le_of_eq (e2.trans h2))
        (.inl (Nat.le_of_eq (e3.trans h3)))
    cases hr with
    | data =>
      obtain ⟨u, segs, fin, he, -⟩ := handleData_shape (w.conn.handleAckLocked seg []).1 seg
        (w.conn.handleAckLocked seg []).2
      simp only [he]
      exact hsame (u.on _) rfl rfl rfl _
    | ackOnly => exact hsame _ rfl rfl rfl _
  | reAck => exact hmore (hold rfl) rfl rfl rfl

/-- A connection that is still half open keeps the window of the SYN. -/
theorem step_halfOpen_window {isn : Seq} (h : SendInv isn w) (hs : WorldStep w a w')
    (hacc : w'.accepted = false) : w.accepted = false ∧ w'.conn.sndWnd = w.conn.sndWnd := by
  have happly : ∀ {o : Outcome}, (w.apply o).accepted = false → w.accepted = false ∧
      o.enqueue = false :=
    fun h => Bool.or_eq_false_iff.mp h
  cases hs with
  | segment hseg =>
    obtain ⟨hhalf, hq⟩ := happly hacc
    refine ⟨hhalf, ?_⟩
    cases hseg with
    | handshake => cases hq
    | sync hst =>
      rcases (h.fresh hhalf).2.2.2 with hst' | hst' <;> rw [hst'] at hst <;>
        exact absurd hst (by simp [Synchronized])
    | _ => rfl
  | rto hrto => exact ⟨(happly hacc).1, (rto_window hrto).2.1⟩
  | teardown => exact ⟨(happly hacc).1, rfl⟩
  | write hopen => cases hopen.symm.trans hacc
  | @read n d hopen =>
    obtain ⟨_, _, _, he⟩ := read_shape w n d
    rw [he] at hacc ⊢
    exact ⟨hacc, rfl⟩
  | closeWrite hopen =>
    have := hopen.symm.trans (happly hacc).1
    cases this
  | nothing => exact ⟨hacc, rfl⟩

/-- A step with its acknowledgement in turn stays within the edges. -/
theorem edgeInv_step {p : SynParams} (h : EdgeInv p es w) (hs : WorldStep w a w')
    (hturn : AcksInTurn w a) (hes : ∀ e ∈ es, e ∈ es') (hedge : ∀ e, edgeOf a = some e → e ∈ es') :
    EdgeInv p es' w' := by
  refine ⟨(sendInv_step h.send hs).1, hes _ h.syn, fun hacc => ?_, fun hacc => ?_⟩
  · obtain ⟨hacc, hwnd⟩ := step_halfOpen_window h.send hs hacc
    rw [hwnd, h.halfOpen hacc]
  · have hmore : ∀ {c : TcpConn}, Within es c → Within es' c :=
      fun hin => hin.push hes rfl (Nat.le_refl _) (.inl (Nat.le_refl _))
    cases hs with
    | @segment seg o hseg =>
      exact segment_within h hseg hturn hes (fun hf => hedge _ (if_pos hf)) hacc
    | rto hrto =>
      obtain ⟨hu, hw, hsent⟩ := rto_window hrto
      have hin := h.within (by simpa [World.apply, (rto_frame hrto).1] using hacc)
      exact hin.push hes hu (Nat.le_of_eq hw) (hsent.imp_right .inr)
    | teardown =>
      have hin := h.within (by simpa [World.apply] using hacc)
      exact hin.push hes rfl (Nat.le_refl _) (.inl (Nat.le_refl _))
    | write hopen hw => exact hmore (write_within (h.within hopen) hw.step)
    | @read n d hopen =>
      obtain ⟨_, _, _, he⟩ := read_shape w n d
      rw [he]
      exact (h.within hopen).push hes rfl (Nat.le_refl _) (.inl (Nat.le_refl _))
    | closeWrite hopen hc =>
      cases hc with
      | nothing | fin =>
        exact (h.within hopen).push hes rfl (Nat.le_refl _) (.inl (Nat.le_refl _))
    | nothing => exact hmore (h.within hacc)

theorem Within.chunk (h : Within es c) {off : Nat}
    (hc : ChunkAt c off seg) {i : Nat} (hi : i < seg.payload.length) :
    InWindow es (seg.seq + BitVec.ofNat 32 i) ∨ IsProbe c seg := by
  have hsent := hc.sent
  have hreach : ∀ {n}, Reaches es c n → off + i < n →
      InWindow es (seg.seq + BitVec.ofNat 32 i) := by
    rintro n ⟨e, he, x, hx, hlt, rfl⟩ hn
    refine ⟨_, he, ?_⟩
    rw [hc.seq, Serial.add_ofNat_add]
    exact seqGT_offset c.sndUna (by omega) (by omega)
  rcases h.flight with hf | hf
  · exact .inl (hreach hf (by omega))
  · obtain ⟨rfl, hone⟩ : off = 0 ∧ seg.payload.length = 1 := by omega
    by_cases hw : c.sndWnd = 0
    · exact .inr ⟨hw, by rw [hc.seq]; simp, hone⟩
    · exact .inl (hreach h.window (by omega))

/-- So does a run of them. -/
theorem edgeInv_after (p : SynParams) (as : List Action)
    (hturn : Machine.Along World.act AcksInTurn (World.init p) as) :
    EdgeInv p (edges p as) (World.after p as) := by
  refine Machine.run_history_along (I := fun as w => EdgeInv p (edges p as) w)
    (edgeInv_init p) ?_ as hturn
  intro pre a h hp
  refine edgeInv_step h (act_step _ a) hp ?_ ?_
  all_goals simp only [edges, List.filterMap_append, List.mem_cons, List.mem_append]
  · intro e he
    exact he.imp_right .inl
  · intro e he
    exact .inr (.inr (List.mem_filterMap.mpr ⟨a, List.mem_singleton_self a, he⟩))

/--
**The window is respected while acknowledgements arrive in their turn.**

No byte a connection sends, the single byte of a zero-window probe apart, lies at or
beyond the largest right edge advertised so far.
-/
theorem window_respected_in_turn (p : SynParams) (as : List Action) (a : Action)
    (hturn : Machine.Along World.act AcksInTurn (World.init p) (as ++ [a])) :
    KeepsToWindow p as a := by
  have hafter := edgeInv_after p (as ++ [a]) hturn
  rw [World.after, Machine.run_append] at hafter
  obtain ⟨segs, hemit, hchunks⟩ := step_chunks (sendInv_after p as) (act_step (World.after p as) a)
  intro seg hseg i hi
  rw [emits_eq hemit] at hseg
  obtain ⟨off, hc⟩ := hchunks seg hseg (List.ne_nil_of_length_pos (by omega))
  cases hacc : ((World.after p as).act a).accepted with
  | true => exact (hafter.within hacc).chunk hc hi
  | false =>
    -- nothing is in flight before the handshake is over
    have hnone := (sendInv_fresh hafter.send hacc).2
    have hsent := hc.sent
    rw [show ((World.after p as).act a).conn.sentBytes = 0 from hnone] at hsent
    omega

/-- The peer acknowledges the one byte it had room for, and gets the second. -/
theorem acknowledged_byte_opens_window :
    let as := [.segment (slowAck 101), .write [1, 2] false]
    KeepsToWindow slowClient as (.segment (slowAck 102))
      ∧ ((World.after slowClient as).emits (.segment (slowAck 102))).map
        (fun seg => (seg.seq, seg.payload))
        = [(102, [2])] :=
  ⟨window_respected_in_turn slowClient _ _ (by decide), by decide⟩

/-- The peer acknowledges the one byte it had room for, and closes its window. -/
def windowClosed : List Action :=
  [.segment (slowAck 101), .write [1, 2] false, .segment { slowAck 102 with window := 0 }]

/-- The second byte, in answer to a copy of the handshake's ACK that arrives late. -/
def overrun : TcpSegment :=
  { srcPort := 80, dstPort := 4000, seq := 102, ack := 501, flags := flagACK, window := 65535,
    payload := [2] }

/--
The window of one in the late copy is counted from 102, and the byte under 102 is sent,
though no right edge lies beyond 102.
-/
theorem late_ack_overruns_window :
    let a := Action.segment (slowAck 101)
    edges slowClient (windowClosed ++ [a]) = [102, 102, 102, 102]
      ∧ (World.after slowClient windowClosed).emits a = [overrun]
      ∧ ((World.after slowClient windowClosed).act a).conn.sndWnd = 1
      ∧ ¬ KeepsToWindow slowClient windowClosed a := by
  have hedges : edges slowClient (windowClosed ++ [.segment (slowAck 101)]) =
      [102, 102, 102, 102] := by decide
  have hemit : (World.after slowClient windowClosed).emits (.segment (slowAck 101)) =
      [overrun] := by decide
  have hwnd : ((World.after slowClient windowClosed).act (.segment (slowAck 101))).conn.sndWnd =
      1 := by decide
  refine ⟨hedges, hemit, hwnd, fun h => ?_⟩
  rcases h overrun (by rw [hemit]; exact List.mem_singleton_self _) 0 (by decide) with hin | hprobe
  · obtain ⟨e, he, hgt⟩ := hin
    rw [hedges] at he
    obtain rfl : e = 102 := by simpa using he
    cases hgt
  · cases hwnd.symm.trans hprobe.1

end GoVpn.Proof
