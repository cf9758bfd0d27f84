import GoVpn.Netstack.TcpWorld

/-!
# What each critical section can touch

One lemma for each function of the connection, saying which fields it may change and, where the
change matters, what it is. No invariant below unfolds the functions again.

Acknowledgement processing and sending touch only the send side and the timer, data processing
touches only the receive side, and the states are changed by `handleSegment` alone.
-/

namespace GoVpn.Proof

open GoVpn.Netstack TcpConn

/-! ## Sending -/

/--
`Sends c n m segs`: the segments `segs` carry, one after the other, the bytes of
the send buffer from offset `n` up to offset `m`.
-/
inductive Sends (c : TcpConn) : Nat → Nat → List TcpSegment → Prop where
  | nil {n : Nat} : Sends c n n []
  | cons {n k m : Nat} {segs : List TcpSegment} :
      0 < k → n + k ≤ c.outBuf.length → k ≤ c.sndMSS → Sends c (n + k) m segs →
      Sends c n m (c.segment (c.sndUna + BitVec.ofNat 32 n) flagACK
        ((c.outBuf.drop n).take k) :: segs)

variable {c : TcpConn} {segs : List TcpSegment}

variable {m n : Nat}

theorem Sends.le (h : Sends c n m segs) : n ≤ m := by
  induction h with
  | nil => exact Nat.le_refl _
  | cons hk _ _ _ ih => omega

theorem Sends.le_length (h : Sends c n m segs) (hn : n ≤ c.outBuf.length) :
    m ≤ c.outBuf.length := by
  induction h with
  | nil => exact hn
  | cons _ hk _ _ ih => exact ih hk

theorem Sends.payload_ne (h : Sends c n m segs) : ∀ seg ∈ segs, seg.payload ≠ [] := by
  induction h with
  | nil => intro seg hseg; cases hseg
  | @cons n k m segs hk hl _ _ ih =>
    intro seg hseg
    rcases List.mem_cons.mp hseg with rfl | hseg
    · intro hnil
      have hlen := congrArg List.length (show (c.outBuf.drop n).take k = [] from hnil)
      rw [List.length_take, List.length_drop, List.length_nil] at hlen
      omega
    · exact ih seg hseg

theorem Sends.eq_of_mss (hm : c.sndMSS = 0) (h : Sends c n m segs) : m = n := by
  cases h with
  | nil => rfl
  | cons hk _ hmss => omega

theorem Sends.congr {c' : TcpConn} (h : Sends c n m segs) (hb : c'.outBuf = c.outBuf)
    (hm : c'.sndMSS = c.sndMSS)
    (hs : ∀ x f p, c'.segment (c'.sndUna + x) f p = c.segment (c.sndUna + x) f p) :
    Sends c' n m segs := by
  induction h with
  | nil => exact .nil
  | @cons n k m segs hk hl hmss _ ih =>
    rw [← hs, ← hb]
    exact .cons hk (by rw [hb]; exact hl) (by rw [hm]; exact hmss) ih

/-- **The send loop.** It moves the cursor over consecutive chunks and does nothing else. -/
theorem sendLoop_spec (limit : Nat) (forceProbe : Bool) :
    ∀ (fuel : Nat) (c : TcpConn) (toSend : List TcpSegment) (sentAny : Bool),
      ∃ (m : Nat) (segs : List TcpSegment),
        sendLoop limit forceProbe fuel c toSend sentAny
          = ({ c with sentBytes := m }, toSend ++ segs, sentAny || decide (c.sentBytes < m))
        ∧ Sends c c.sentBytes m segs
        ∧ (c.sentBytes ≤ limit → m ≤ limit)
        ∧ (0 < c.sndMSS → c.sentBytes < limit → c.sentBytes < c.outBuf.length → 0 < fuel →
            c.sentBytes < m)
        ∧ (forceProbe = false → 0 < c.sndMSS → c.outBuf.length - c.sentBytes ≤ fuel →
            limit ≤ m ∨ c.outBuf.length ≤ m)
  | 0, c, toSend, sentAny => by
    refine ⟨c.sentBytes, [], ?_, Sends.nil, id, ?_, ?_⟩
    · simp [sendLoop]
    · intro _ _ _ h; exact absurd h (Nat.lt_irrefl _)
    · intro _ _ hf; right; omega
  | fuel + 1, c, toSend, sentAny => by
    rw [sendLoop]
    by_cases hg : c.sentBytes < limit ∧ c.sentBytes < c.outBuf.length
    · rw [if_pos hg]
      dsimp only
      by_cases h0 : c.nextChunk limit = 0
      · rw [if_pos h0]
        have hmss : c.sndMSS = 0 := by
          unfold nextChunk at h0; omega
        refine ⟨c.sentBytes, [], by simp, .nil, id, ?_, ?_⟩
        · intro h; omega
        · intro _ h; omega
      · rw [if_neg h0]
        have hk : 0 < c.nextChunk limit := Nat.pos_of_ne_zero h0
        have hk1 : c.sentBytes + c.nextChunk limit ≤ c.outBuf.length := by
          unfold nextChunk; omega
        have hk2 : c.nextChunk limit ≤ c.sndMSS := Nat.min_le_right _ _
        have hk3 : c.sentBytes + c.nextChunk limit ≤ limit := by
          unfold nextChunk; omega
        cases forceProbe with
        | true =>
          refine ⟨c.sentBytes + c.nextChunk limit, _, ?_,
            .cons hk hk1 hk2 .nil, fun _ => hk3, fun _ _ _ _ => by omega, ?_⟩
          · simp [hk]
          · intro h; cases h
        | false =>
          obtain ⟨m, segs, he, hs, h1, h2, h3⟩ := sendLoop_spec limit false fuel
            { c with sentBytes := c.sentBytes + c.nextChunk limit } _ true
          have hs' : Sends c (c.sentBytes + c.nextChunk limit) m segs :=
            hs.congr rfl rfl (fun _ _ _ => rfl)
          have hlt : c.sentBytes < m := by have := hs'.le; omega
          refine ⟨m, _, ?_, .cons hk hk1 hk2 hs', fun _ => h1 hk3,
            fun _ _ _ _ => hlt, ?_⟩
          · rw [he]; simp [hlt]
          · intro _ hm hf
            exact h3 rfl hm (by simp only; omega)
    · rw [if_neg hg]
      refine ⟨c.sentBytes, [], by simp, .nil, id, ?_, ?_⟩
      · intro _ h1 h2; exact absurd ⟨h1, h2⟩ hg
      · intro _ _ _; omega

theorem sendPending_idle (h : c.outBuf.length ≤ c.sentBytes)
    (toSend : List TcpSegment) (forceProbe : Bool) :
    c.sendPendingLocked toSend forceProbe = (c, toSend) := by
  have hloop : ∀ limit, c.sendUpTo toSend limit forceProbe = (c, toSend) := by
    intro limit
    unfold sendUpTo
    rw [show c.outBuf.length - c.sentBytes = 0 by omega]
    simp [sendLoop]
  unfold sendPendingLocked
  dsimp only
  split
  · rw [if_pos (by simp [h]), if_neg (by simp; omega)]
  · exact hloop _

/-- The timer runs: it is marked armed and was last created or reset. -/
def Armed (c : TcpConn) : Prop := c.timerArmed = true ∧ c.rtoTimer ≠ .stopped

/--
What pushing queued data comes to: the cursor is at `m`, `segs` was sent, and the timer is as it
was or restarted.
-/
structure Pushed (c : TcpConn) (toSend : List TcpSegment) (forceProbe : Bool)
    (r : TcpConn × List TcpSegment) (m : Nat) (segs : List TcpSegment) (armed : Bool)
    (op : TimerOp) (rto rc : Nat) : Prop where
  moved : r = ({ c with sentBytes := m, timerArmed := armed, rtoTimer := op, rto := rto,
                        retransmitCount := rc }, toSend ++ segs)
  sends : Sends c c.sentBytes m segs
  timer : armed = c.timerArmed ∧ op = c.rtoTimer ∨ armed = true ∧ op ≠ .stopped
  runs : forceProbe = false → 0 < c.sndMSS → (c.timerArmed = true → c.rtoTimer ≠ .stopped) →
    (0 < c.sentBytes → c.timerArmed = true) → (0 < m ∨ m < c.outBuf.length) →
    armed = true ∧ op ≠ .stopped
  shut : forceProbe = false → 0 < c.sndMSS → m < c.outBuf.length → m = 0 → c.sndWnd = 0

/-- The same as long as there is room for a byte. -/
theorem sendUpTo_spec (c : TcpConn) (toSend : List TcpSegment) (forceProbe : Bool) {limit : Nat}
    (hlim : 0 < limit) : ∃ m segs armed op rto rc,
      Pushed c toSend forceProbe (c.sendUpTo toSend limit forceProbe) m segs armed op rto rc := by
  obtain ⟨m, segs, he, hs, h1, h2, h3⟩ :=
    sendLoop_spec limit forceProbe (c.outBuf.length - c.sentBytes) c toSend false
  unfold sendUpTo
  rw [he]
  have hmle := hs.le
  by_cases hm : c.sentBytes < m ∧ forceProbe = false
  · -- something went out: the retransmit clock restarts
    refine ⟨m, segs, true, .reset initialRTO, initialRTO, 0, ?_, hs, .inr ⟨rfl, by simp⟩,
      fun _ _ _ _ _ => ⟨rfl, by simp⟩, ?_⟩
    · simp [hm.1, hm.2]
    · intro _ _; omega
  · refine ⟨m, segs, c.timerArmed, c.rtoTimer, c.rto, c.retransmitCount, ?_, hs,
      .inl ⟨rfl, rfl⟩, ?_, ?_⟩
    · have : (decide (c.sentBytes < m) && !forceProbe) = false := by
        cases forceProbe with
        | true => simp
        | false => simp only [and_true] at hm; simp [hm]
      simp [this]
    · intro hf hmss hop hpos hout
      have hmeq : m = c.sentBytes := by
        have : ¬ c.sentBytes < m := fun h => hm ⟨h, hf⟩
        omega
      have hpos' : 0 < c.sentBytes := by omega
      exact ⟨hpos hpos', hop (hpos hpos')⟩
    · intro hf hmss hlt h0
      omega

/-- **Pushing queued data** moves the send cursor and may restart the timer; nothing else. -/
theorem sendPending_spec (c : TcpConn) (toSend : List TcpSegment) (forceProbe : Bool) :
    ∃ m segs armed op rto rc, Pushed c toSend forceProbe
      (c.sendPendingLocked toSend forceProbe) m segs armed op rto rc := by
  unfold sendPendingLocked
  -- a limit of zero is a closed window
  by_cases hlim : c.allowedInFlightLocked = 0
  · rw [if_pos hlim]
    have hw : c.sndWnd = 0 := by
      unfold allowedInFlightLocked at hlim
      split at hlim
      · cases hlim
      · exact hlim
    by_cases hp : (!forceProbe || decide (c.sentBytes ≥ c.outBuf.length)) = true
    · rw [if_pos hp]
      -- data behind a closed window arms the persist timer, once
      by_cases ha : (decide (c.outBuf.length > c.sentBytes) && !c.timerArmed) = true
      · rw [if_pos ha]
        exact ⟨c.sentBytes, [], true, .reset initialRTO, initialRTO, c.retransmitCount,
          by simp, .nil, .inr ⟨rfl, by simp⟩, fun _ _ _ _ _ => ⟨rfl, by simp⟩,
          fun _ _ _ _ => hw⟩
      · rw [if_neg ha]
        refine ⟨c.sentBytes, [], c.timerArmed, c.rtoTimer, c.rto, c.retransmitCount,
          by simp, .nil, .inl ⟨rfl, rfl⟩, ?_, fun _ _ _ _ => hw⟩
        intro _ _ hop hpos hout
        have harm : c.timerArmed = true := by
          rcases hout with h0 | hlt
          · exact hpos h0
          · simpa [hlt] using ha
        exact ⟨harm, hop harm⟩
    · rw [if_neg hp]
      exact sendUpTo_spec c toSend forceProbe (Nat.succ_pos _)
  · rw [if_neg hlim]
    exact sendUpTo_spec c toSend forceProbe (Nat.pos_of_ne_zero hlim)

/-! ## Acknowledgements -/

/-- How many in-flight bytes an acknowledgement number covers. -/
def ackedBytes (c : TcpConn) (ackNum : Seq) : Nat :=
  if seqGT ackNum c.sndUna then min (ackNum - c.sndUna).toNat c.sentBytes else 0

theorem ackedBytes_le (c : TcpConn) (ackNum : Seq) : ackedBytes c ackNum ≤ c.sentBytes := by
  unfold ackedBytes; split <;> omega

theorem covered_eq (hb : c.sentBytes < 2 ^ 31) {ackNum : Seq} (hgt : seqGT ackNum c.sndUna = true) :
    (if seqGT ackNum (c.sndUna + BitVec.ofNat 32 c.sentBytes) = true
        then c.sndUna + BitVec.ofNat 32 c.sentBytes else ackNum)
      = c.sndUna + BitVec.ofNat 32 (min (ackNum - c.sndUna).toNat c.sentBytes) := by
  have hd := seqGT_iff.mp hgt
  have hbase := Serial.base_add_distance ackNum c.sndUna
  generalize (ackNum - c.sndUna).toNat = d at hd hbase ⊢
  subst hbase
  by_cases hle : c.sentBytes < d
  · rw [if_pos (seqGT_offset _ hle (by omega)), Nat.min_eq_right (by omega)]
  · rw [if_neg (by rw [not_seqGT_offset _ (by omega) (by omega)]; simp), Nat.min_eq_left (by omega)]

/-- **Retiring data** drops exactly the covered in-flight bytes from the front of the buffer. -/
theorem retireData_spec (hb : c.sentBytes < 2 ^ 31) (ackNum : Seq) :
    (ackedBytes c ackNum = 0 ∧ c.retireData ackNum = c)
    ∨ (0 < ackedBytes c ackNum ∧ ∃ (armed : Bool) (op : TimerOp),
        c.retireData ackNum
          = { c with outBuf := c.outBuf.drop (ackedBytes c ackNum),
                     sentBytes := c.sentBytes - ackedBytes c ackNum,
                     sndUna := c.sndUna + BitVec.ofNat 32 (ackedBytes c ackNum),
                     retransmitCount := 0, rto := initialRTO,
                     timerArmed := armed, rtoTimer := op }
        ∧ (c.sentBytes = ackedBytes c ackNum → armed = false ∧ op = .stopped)
        ∧ (c.sentBytes ≠ ackedBytes c ackNum → armed = true ∧ op ≠ .stopped)) := by
  unfold retireData ackedBytes
  by_cases hg : c.sentBytes > 0 ∧ seqGT ackNum c.sndUna = true
  · rw [if_pos hg, if_pos hg.2]
    obtain ⟨hpos, hgt⟩ := hg
    have hd := seqGT_iff.mp hgt
    have hcov := covered_eq hb hgt
    dsimp only
    rw [hcov, Serial.toNat_add_ofNat_sub _ (by omega)]
    right
    refine ⟨by omega, ?_⟩
    rw [if_pos (by omega)]
    by_cases h0 : c.sentBytes - min (ackNum - c.sndUna).toNat c.sentBytes = 0
    · rw [if_pos h0]
      exact ⟨false, .stopped, rfl, fun _ => ⟨rfl, rfl⟩, fun h => by omega⟩
    · rw [if_neg h0]
      exact ⟨true, .reset initialRTO, rfl, fun h => by omega, fun _ => ⟨rfl, by simp⟩⟩
  · left
    rw [if_neg hg]
    refine ⟨?_, rfl⟩
    split
    · rename_i hgt
      have : ¬ c.sentBytes > 0 := fun h => hg ⟨h, hgt⟩
      omega
    · rfl

/-- The acknowledgement covers our FIN. -/
def acksFIN (c : TcpConn) (ackNum : Seq) : Bool := c.finSent && seqGE ackNum (c.finSeq + 1)

/-- **Retiring the FIN** sets `finAcked`, and stops the timer when no data is in flight. -/
theorem retireFIN_spec (c : TcpConn) (ackNum : Seq) :
    ∃ (armed : Bool) (op : TimerOp),
      c.retireFIN ackNum = { c with finAcked := c.finAcked || acksFIN c ackNum,
                                    timerArmed := armed, rtoTimer := op }
      ∧ (armed = c.timerArmed ∧ op = c.rtoTimer
          ∨ c.sentBytes = 0 ∧ c.finAcked = false ∧ acksFIN c ackNum = true
              ∧ armed = false ∧ op = .stopped) := by
  unfold retireFIN
  by_cases hg : (c.finSent && !c.finAcked && seqGE ackNum (c.finSeq + 1)) = true
  · rw [if_pos hg]
    simp only [Bool.and_eq_true, Bool.not_eq_true'] at hg
    obtain ⟨⟨hs, ha⟩, hq⟩ := hg
    have hf : acksFIN c ackNum = true := by unfold acksFIN; rw [hs, hq]; rfl
    rw [hf, Bool.or_true]
    dsimp only
    split
    · rename_i h0
      exact ⟨false, .stopped, rfl, .inr ⟨h0, ha, rfl, rfl, rfl⟩⟩
    · exact ⟨c.timerArmed, c.rtoTimer, rfl, .inl ⟨rfl, rfl⟩⟩
  · rw [if_neg hg]
    have hf : (c.finAcked || acksFIN c ackNum) = c.finAcked := by
      unfold acksFIN
      cases ha : c.finAcked <;> simp_all
    rw [hf]
    exact ⟨c.timerArmed, c.rtoTimer, rfl, .inl ⟨rfl, rfl⟩⟩

/-- The send-side fields `handleAckLocked` may rewrite. -/
structure AckUpdate where
  k : Nat
  m : Nat
  wnd : Nat
  finAcked : Bool
  armed : Bool
  op : TimerOp
  rto : Nat
  rc : Nat
  probes : Nat

/-- The connection after an acknowledgement: `u.k` bytes retired, the cursor at `u.m`. -/
def AckUpdate.on (u : AckUpdate) (c : TcpConn) : TcpConn :=
  { c with sndUna := c.sndUna + BitVec.ofNat 32 u.k, outBuf := c.outBuf.drop u.k,
           sentBytes := u.m, sndWnd := u.wnd, finAcked := u.finAcked, timerArmed := u.armed,
           rtoTimer := u.op, rto := u.rto, retransmitCount := u.rc, persistProbeCount := u.probes }

/-- What an acknowledgement does to the timer before queued data is pushed. -/
inductive AckTimer (c : TcpConn) (ackNum : Seq) (u : AckUpdate) : Prop where
  /-- It retires nothing and the timer is left alone. -/
  | kept : u.k = 0 → u.armed = c.timerArmed → u.op = c.rtoTimer → AckTimer c ackNum u
  /-- It retires part of the data in flight, and the timer restarts. -/
  | restarted : 0 < u.k → 0 < u.m → u.armed = true → u.op ≠ .stopped → AckTimer c ackNum u
  /-- It retires the last of the data, or the FIN with no data in flight, and the timer stops. -/
  | stopped : u.m = 0 → (0 < u.k ∨ c.finAcked = false ∧ acksFIN c ackNum = true) →
      u.armed = false → u.op = .stopped → AckTimer c ackNum u

/-- **Retiring** what an acknowledgement covers, and taking over the window, as one update. -/
theorem retire_spec (hb : c.sentBytes < 2 ^ 31) (seg : TcpSegment) :
    ∃ u : AckUpdate,
      ((c.retireData seg.ack).retireFIN seg.ack).updateWindow seg = u.on c
      ∧ u.k = ackedBytes c seg.ack ∧ u.m = c.sentBytes - u.k
      ∧ u.finAcked = (c.finAcked || acksFIN c seg.ack) ∧ AckTimer c seg.ack u := by
  have hwin : ∀ d : TcpConn, ∃ probes,
      d.updateWindow seg = { d with persistProbeCount := probes, sndWnd := seg.window.toNat } := by
    intro d
    unfold updateWindow
    split
    · exact ⟨0, rfl⟩
    · exact ⟨d.persistProbeCount, rfl⟩
  obtain ⟨probes, hw⟩ := hwin ((c.retireData seg.ack).retireFIN seg.ack)
  obtain ⟨armed', op', hf, htimer⟩ := retireFIN_spec (c.retireData seg.ack) seg.ack
  rw [hw, hf]
  rcases retireData_spec hb seg.ack with ⟨h0, he⟩ | ⟨hpos, armed, op, he, hall, hpart⟩
  · -- no data retired
    rw [he] at htimer ⊢
    refine ⟨⟨0, c.sentBytes, seg.window.toNat, c.finAcked || acksFIN c seg.ack, armed', op', c.rto,
      c.retransmitCount, probes⟩, by simp [AckUpdate.on], h0.symm, rfl, rfl, ?_⟩
    rcases htimer with ⟨h1, h2⟩ | ⟨h1, h2, h3, h4, h5⟩
    · exact .kept rfl h1 h2
    · exact .stopped h1 (.inr ⟨h2, h3⟩) h4 h5
  · rw [he] at htimer ⊢
    have hkle := ackedBytes_le c seg.ack
    refine ⟨⟨ackedBytes c seg.ack, c.sentBytes - ackedBytes c seg.ack, seg.window.toNat,
      c.finAcked || acksFIN c seg.ack, armed', op', initialRTO, 0, probes⟩, rfl, rfl, rfl, rfl, ?_⟩
    by_cases hm : c.sentBytes = ackedBytes c seg.ack
    · -- all of it: stopped here, and left stopped
      have hst : armed' = false ∧ op' = .stopped := by
        rcases htimer with ⟨h1, h2⟩ | ⟨_, _, _, h1, h2⟩
        · exact ⟨h1.trans (hall hm).1, h2.trans (hall hm).2⟩
        · exact ⟨h1, h2⟩
      exact .stopped (by show c.sentBytes - _ = 0; omega) (.inl hpos) hst.1 hst.2
    · rcases htimer with ⟨h1, h2⟩ | ⟨h1, _⟩
      · exact .restarted hpos (by show 0 < c.sentBytes - _; omega)
          (h1.trans (hpart hm).1) (by rw [h2]; exact (hpart hm).2)
      · exact absurd h1 (by show ¬ c.sentBytes - _ = 0; omega)

/-- **Acknowledgement processing**, as one update of the send side. -/
theorem handleAck_spec (hb : c.sentBytes < 2 ^ 31) (seg : TcpSegment) (toSend : List TcpSegment) :
    ∃ (u : AckUpdate) (segs : List TcpSegment),
      c.handleAckLocked seg toSend = (u.on c, toSend ++ segs)
      ∧ u.k ≤ c.sentBytes
      ∧ Sends (u.on c) (c.sentBytes - u.k) u.m segs
      ∧ (u.finAcked = (c.finAcked || seg.has flagACK && acksFIN c seg.ack))
      ∧ (seg.has flagACK = true → u.k = ackedBytes c seg.ack) := by
  unfold handleAckLocked
  by_cases hack : seg.has flagACK = true
  · rw [if_neg (by simp [hack])]
    obtain ⟨u, he, hk, hm, hfa, _⟩ := retire_spec hb seg
    obtain ⟨m, segs, armed, op, rto, rc, hp, hs, _⟩ := sendPending_spec (u.on c) toSend false
    rw [he, hp]
    refine ⟨{ u with m := m, armed := armed, op := op, rto := rto, rc := rc }, segs, rfl, ?_,
      ?_, ?_, fun _ => hk⟩
    · rw [hk]; exact ackedBytes_le c seg.ack
    · rw [show (u.on c).sentBytes = c.sentBytes - u.k from hm] at hs
      exact hs.congr rfl rfl (fun _ _ _ => rfl)
    · rw [hfa, hack, Bool.true_and]
  · have hack' : seg.has flagACK = false := by simpa using hack
    rw [if_pos (by simp [hack'])]
    refine ⟨⟨0, c.sentBytes, c.sndWnd, c.finAcked, c.timerArmed, c.rtoTimer, c.rto,
      c.retransmitCount, c.persistProbeCount⟩, [], ?_, Nat.zero_le _, ?_, ?_, ?_⟩
    · simp [AckUpdate.on]
    · simp only [Nat.sub_zero]; exact .nil
    · simp [hack']
    · intro h; exact absurd h hack

/-! ## Data -/

/-- The receive-side fields `handleEstablishedDataLocked` may rewrite. -/
structure RecvUpdate where
  rcvNxt : Seq
  recvBuf : Bytes
  reorder : List (Seq × Bytes)
  hasPendingFIN : Bool
  pendingFINSeq : Seq
  peerClosed : Bool

def RecvUpdate.on (u : RecvUpdate) (c : TcpConn) : TcpConn :=
  { c with rcvNxt := u.rcvNxt, recvBuf := u.recvBuf, reorder := u.reorder,
           hasPendingFIN := u.hasPendingFIN, pendingFINSeq := u.pendingFINSeq,
           peerClosed := u.peerClosed }

/-- Draining moves the stream and takes from the reorder buffer, and touches nothing else. -/
theorem drainReorder_shape : ∀ (fuel : Nat) (c : TcpConn), ∃ (n : Seq) (buf : Bytes)
    (ro : List (Seq × Bytes)),
    drainReorder fuel c = { c with rcvNxt := n, recvBuf := buf, reorder := ro }
  | 0, c => ⟨c.rcvNxt, c.recvBuf, c.reorder, rfl⟩
  | fuel + 1, c => by
    rw [drainReorder]
    split
    · exact ⟨c.rcvNxt, c.recvBuf, c.reorder, rfl⟩
    · split
      · exact ⟨c.rcvNxt, c.recvBuf, c.reorder, rfl⟩
      · rename_i data _ _
        obtain ⟨n, buf, ro, h⟩ := drainReorder_shape fuel
          { c with reorder := c.reorder.filter (fun e => e.1 != c.rcvNxt),
                   recvBuf := c.recvBuf ++ data,
                   rcvNxt := c.rcvNxt + BitVec.ofNat 32 data.length }
        exact ⟨n, buf, ro, h⟩

/-- **Data processing** touches the receive side only and answers with at most one bare ACK. -/
theorem handleData_shape (c : TcpConn) (seg : TcpSegment) (toSend : List TcpSegment) :
    ∃ (u : RecvUpdate) (segs : List TcpSegment) (fin : Bool),
      c.handleEstablishedDataLocked seg toSend = (u.on c, toSend ++ segs, fin)
      ∧ (∀ s ∈ segs, s = (u.on c).buildACKLocked)
      ∧ u.peerClosed = (c.peerClosed || fin) := by
  have hsame : ∃ u : RecvUpdate, u.on c = c ∧ u.peerClosed = (c.peerClosed || false) :=
    ⟨⟨c.rcvNxt, c.recvBuf, c.reorder, c.hasPendingFIN, c.pendingFINSeq, c.peerClosed⟩, rfl,
      by simp⟩
  obtain ⟨u₀, hu₀, hp₀⟩ := hsame
  unfold handleEstablishedDataLocked
  split
  · exact ⟨u₀, [], false, by rw [hu₀]; simp, by simp, hp₀⟩
  split
  · dsimp only
    split
    · -- fully accepted: drain, then look for a FIN
      obtain ⟨n, buf, ro, hd⟩ := drainReorder_shape (c.acceptInOrder seg.payload).reorder.length
        (c.acceptInOrder seg.payload)
      rw [hd]
      unfold consumeFIN
      split
      · exact ⟨⟨n + 1, buf, ro, c.hasPendingFIN, c.pendingFINSeq, true⟩, _, true, rfl,
          fun _ => List.mem_singleton.mp, by simp⟩
      · split
        · exact ⟨⟨n + 1, buf, ro, false, c.pendingFINSeq, true⟩, _, true, rfl,
            fun _ => List.mem_singleton.mp, by simp⟩
        · exact ⟨⟨n, buf, ro, c.hasPendingFIN, c.pendingFINSeq, c.peerClosed⟩, _, false, rfl,
            fun _ => List.mem_singleton.mp, by simp⟩
    · exact ⟨⟨_, _, c.reorder, c.hasPendingFIN, c.pendingFINSeq, c.peerClosed⟩, _, false, rfl,
        fun _ => List.mem_singleton.mp, by simp⟩
  have hack : ∃ (u : RecvUpdate) (segs : List TcpSegment) (fin : Bool),
      (c, toSend ++ [c.buildACKLocked], false) = (u.on c, toSend ++ segs, fin)
      ∧ (∀ s ∈ segs, s = (u.on c).buildACKLocked) ∧ u.peerClosed = (c.peerClosed || fin) :=
    ⟨u₀, [c.buildACKLocked], false, by rw [hu₀],
      by intro s hs; rw [hu₀]; exact List.mem_singleton.mp hs, hp₀⟩
  split
  · split
    · exact hack
    · split
      · exact hack
      · split
        · exact ⟨⟨c.rcvNxt, c.recvBuf, _, true, _, c.peerClosed⟩, _, false, rfl,
            fun _ => List.mem_singleton.mp, by simp⟩
        · exact ⟨⟨c.rcvNxt, c.recvBuf, _, c.hasPendingFIN, c.pendingFINSeq, c.peerClosed⟩, _,
            false, rfl, fun _ => List.mem_singleton.mp, by simp⟩
  · exact hack

end GoVpn.Proof
