import GoVpn.Proof.CtrlNode
import GoVpn.Proof.PacketRoundTrip

/-!
# Every datagram its own packet ID

`Wrap` never gives out a tls-crypt packet ID twice, so a datagram that is wrapped for each
transmission is fresh to the peer's replay window. But the send window stores the wrapped datagram,
and what `retransmitLoop` sends carries the packet ID of the first transmission: a peer that took
that one refuses the copy.

When the sequence number rolls over the first time, the gate in `Wrap` does not look at the
timestamp in use, and a clock that stands where it stood repeats the timestamp with it.
-/

namespace GoVpn.Proof

open GoVpn.Control Tally

def wirePid (pid wire : Bytes) : Nat := if pidOf wire = some pid then 1 else 0

/-- The datagram a goroutine is about to store or to hand over. -/
def taskPid (pid : Bytes) : Task → Nat
  | .setPayload _ wire _ => wirePid pid wire
  | .transmit wire _ => wirePid pid wire
  | _ => 0

/-- How many datagrams with this packet ID are out, or in the hands of a goroutine. -/
def outWith (pid : Bytes) (n : Node) : Nat :=
  tally (wirePid pid) (handedIn n.hist) + tally (taskPid pid) n.tasks

/-- How many datagrams were wrapped with this packet ID. -/
def wrappedWith (pid : Bytes) (n : Node) : Nat :=
  tally (fun x => wirePid pid x.2) (wrappedIn n.hist)

/-- The goroutine is about to call `Wrap`. -/
def callsWrap : Task → Bool
  | .wrap _ _ _ => true
  | _ => false

/--
The environment's part. `Due` returns no entry that has a datagram stored, and when
the sequence number rolls over, the clock's timestamp is one no datagram carries yet.
-/
def FreshSends (n : Node) : Input → Prop
  | .retransmit now => ∀ x ∈ n.conn.sendRel.due now, x.2.payloadAt x.1 = []
  | .run i env =>
    ∀ t ∈ n.tasks[i]?, callsWrap t = true → n.conn.wrapper.sendSeq = 0xFFFFFFFF →
      env.clock ≠ 0 ∧ ∀ x ∈ wrappedIn n.hist, stampOf x.2 ≠ BitVec.ofInt 32 env.clock
  | _ => True

instance decidableFreshSends (n : Node) : (input : Input) → Decidable (FreshSends n input)
  | .retransmit now =>
    inferInstanceAs (Decidable (∀ x ∈ n.conn.sendRel.due now, x.2.payloadAt x.1 = []))
  | .run i env =>
    inferInstanceAs (Decidable (∀ t ∈ n.tasks[i]?, callsWrap t = true →
      n.conn.wrapper.sendSeq = 0xFFFFFFFF →
      env.clock ≠ 0 ∧ ∀ x ∈ wrappedIn n.hist, stampOf x.2 ≠ BitVec.ofInt 32 env.clock))
  | .write _ | .sendReset _ | .deliver _ _ | .receive _ _ | .read _ | .close => .isTrue trivial

/-! ## What a step sends -/

/-- A step as the packet IDs see it. -/
inductive WrapStep (K : Crypto) (n n' : Node) : Prop
  /-- Nothing is wrapped; at most the timestamp gets set. -/
  | quiet : n'.conn.wrapper.sendSeq = n.conn.wrapper.sendSeq →
      (n'.conn.wrapper.sendTime = n.conn.wrapper.sendTime ∨ n.conn.wrapper.sendTime = 0) →
      wrappedIn n'.hist = wrappedIn n.hist → (∀ pid, outWith pid n' ≤ outWith pid n) →
      WrapStep K n n'
  /-- One datagram is wrapped, under the next packet ID. -/
  | wrapped (cp : ControlPacket) (now : Int) (w : Wrapper) (wire : Bytes) :
      (n.conn.wrapper.sendSeq = 0xFFFFFFFF →
        now ≠ 0 ∧ ∀ x ∈ wrappedIn n.hist, stampOf x.2 ≠ BitVec.ofInt 32 now) →
      n.conn.wrapper.nextPID now = .ok w → n'.conn.wrapper = w →
      wire = wrapWithPID K w.encrypt cp.header (pidBytes w.sendSeq w.sendTime) cp.plaintext →
      wrappedIn n'.hist = wrappedIn n.hist ++ [(cp, wire)] →
      (∀ pid, outWith pid n' ≤ outWith pid n + wirePid pid wire) → WrapStep K n n'

theorem taskPid_rests {t : Task} (h : Rests t) (pid : Bytes) : taskPid pid t = 0 := by
  cases t <;> first | rfl | exact h.elim

variable {K : Crypto} {n : Node}

theorem WrapStep.of_task {i : Nat} {t t' : Task} {c : Conn} {es : List Event}
    (hi : n.tasks[i]? = some t) (hseq : c.wrapper.sendSeq = n.conn.wrapper.sendSeq)
    (htime : c.wrapper.sendTime = n.conn.wrapper.sendTime ∨ n.conn.wrapper.sendTime = 0)
    (hw : wrappedIn es = [])
    (hpid : ∀ pid, tally (wirePid pid) (handedIn es) + taskPid pid t' ≤ taskPid pid t) :
    WrapStep K n { conn := c, tasks := n.tasks.set i t', hist := n.hist ++ es } := by
  refine .quiet hseq htime (by simp [hw]) fun pid => ?_
  have h1 := tally_set (taskPid pid) (y := t') hi
  have h2 := hpid pid
  simp only [outWith, handedIn_append, tally_append]
  omega

theorem WrapStep.of_wrap {i : Nat} {slot : Option Nat} {cp : ControlPacket} {rest : Option Bytes}
    (hi : n.tasks[i]? = some (.wrap slot cp rest)) {env : Env} {w : Wrapper} {wire : Bytes}
    (hw : n.conn.wrapper.wrap K env.clock cp.header cp.plaintext = (w, .ok wire))
    (hcond : FreshSends n (.run i env)) {t' : Task}
    (ht' : ∀ pid, taskPid pid t' = wirePid pid wire) :
    WrapStep K n { conn := { n.conn with wrapper := w }, tasks := n.tasks.set i t'
                   hist := n.hist ++ [.wrapped cp wire] } := by
  obtain ⟨hnext, hwire⟩ := wrap_ok hw
  refine .wrapped cp env.clock w wire (hcond _ hi rfl) hnext rfl hwire (by simp [wrappedIn]) ?_
  intro pid
  have h1 := tally_set (taskPid pid) (y := t') hi
  rw [ht' pid] at h1
  have h0 : handedIn [.wrapped cp wire] = [] := rfl
  simp only [outWith, handedIn_append, h0, List.append_nil]
  omega

theorem task_wrapStep {i : Nat} {t : Task} (hi : n.tasks[i]? = some t) (env : Env)
    (hcond : FreshSends n (.run i env)) : WrapStep K n (n.run K i env) := by
  rw [run_eq hi]
  have h := ran K n.conn env t
  generalize n.conn.exec K env t = o at h
  cases h with
  | rests hr hs =>
    refine .of_task hi rfl (.inl rfl) hs.wrapped fun pid => ?_
    rw [hs.handed, taskPid_rests hr]; exact Nat.zero_le _
  | @hands wire _ _ es he hs =>
    refine .of_task hi rfl (.inl rfl) hs.wrapped fun pid => ?_
    have : handedIn (.handed wire :: es) = [wire] := congrArg (wire :: ·) hs.handed
    rw [this, taskPid_rests he.rests]; simp [taskPid]
  | fails hw hs =>
    obtain ⟨hseq, htime, -⟩ := wrap_error hw
    exact .of_task hi hseq htime hs.wrapped fun pid => by rw [hs.handed]; exact Nat.le_refl _
  | wraps hw | wrapsAck hw => exact .of_wrap hi hw hcond fun _ => rfl
  | stores => exact .of_task hi rfl (.inl rfl) rfl fun pid => Nat.le_of_eq (Nat.zero_add _)
  | _ => exact .of_task hi rfl (.inl rfl) rfl fun pid => Nat.le_refl _

theorem WrapStep.of_extend {c : Conn} {ts : List Task} {es : List Event}
    (hseq : c.wrapper.sendSeq = n.conn.wrapper.sendSeq)
    (htime : c.wrapper.sendTime = n.conn.wrapper.sendTime)
    (hts : ∀ t ∈ ts, ∀ pid, taskPid pid t = 0) (hw : wrappedIn es = []) (hh : handedIn es = []) :
    WrapStep K n (extend n c ts es) := by
  refine .quiet hseq (.inl htime) (by simp [extend, hw]) fun pid => ?_
  simp only [outWith, extend, handedIn_append, hh, List.append_nil, tally_append]
  rw [tally_eq_zero fun t ht => hts t ht pid]
  exact Nat.le_refl _

theorem wrapStep {input : Input} (hcond : FreshSends n input) : WrapStep K n (n.step K input) := by
  have h := stepped K n input
  generalize n.step K input = n' at h
  cases h with
  | stays => exact .quiet rfl (.inl rfl) rfl fun _ => Nat.le_refl _
  | runs hi => exact task_wrapStep hi _ hcond
  | @write p =>
    refine .of_extend rfl rfl ?_ rfl rfl
    intro t ht pid
    rw [List.mem_singleton.mp ht]; exact taskPid_rests (sent_emptyHanded (some p)).rests pid
  | receive hu hts =>
    obtain ⟨r, -, rfl⟩ := unwrap_frame hu
    refine .of_extend rfl rfl ?_ rfl rfl
    rcases hts with rfl | ⟨_, _, -, -, rfl⟩ <;> simp [taskPid]
  | @retransmit _ i r hd =>
    -- the condition: the entry has no datagram yet, so nothing is sent twice
    have hnil : r.payloadAt i = [] := hcond (i, r) hd
    refine .of_extend rfl rfl ?_ rfl rfl
    simp [taskPid, hnil, wirePid, pidOf, offTag]
  | sendReset | deliver | read | close => exact .of_extend rfl rfl (by simp [taskPid]) rfl rfl

/-! ## Packet IDs do not repeat -/

structure FreshInv (n : Node) : Prop where
  /-- Under the timestamp in use, the sequence number counts up. -/
  counted : ∀ x ∈ wrappedIn n.hist,
    n.conn.wrapper.sendTime = 0 ∨ stampOf x.2 = BitVec.ofInt 32 n.conn.wrapper.sendTime →
    packetSeq x.2 ≤ n.conn.wrapper.sendSeq
  once : ∀ pid, wrappedWith pid n ≤ 1
  /-- What is out was wrapped, as often as it is out. -/
  out : ∀ pid, outWith pid n ≤ wrappedWith pid n

/-- A new connection has sent nothing. -/
theorem freshInv_start (lsid rsid : SessionID) (w : Wrapper) (keyID : UInt8) :
    FreshInv (Node.start lsid rsid w keyID) :=
  ⟨by intro x hx; exact absurd hx (by simp [Node.start, wrappedIn]), fun _ => Nat.zero_le _,
    fun _ => Nat.le_refl _⟩

theorem nextPID_ok {w w' : Wrapper} {now : Int} (h : w.nextPID now = .ok w') :
    (w.sendSeq = 0xFFFFFFFF ∧ w'.sendSeq = 1 ∧ w'.sendTime = now)
      ∨ (w.sendSeq ≠ 0xFFFFFFFF ∧ w'.sendSeq = w.sendSeq + 1
        ∧ (w'.sendTime = w.sendTime ∨ w.sendTime = 0)) := by
  unfold Wrapper.nextPID at h
  by_cases h0 : w.sendTime = 0
  all_goals
    simp only [h0, if_true, if_false] at h
    by_cases hseq : w.sendSeq = 0xFFFFFFFF
    · rw [if_pos hseq] at h
      split at h
      · cases h
      · cases h; exact .inl ⟨hseq, rfl, rfl⟩
    · rw [if_neg hseq] at h
      cases h
      exact .inr ⟨hseq, rfl, by simp [h0]⟩

theorem wrapped_fresh (h : FreshInv n) {cp : ControlPacket} {now : Int} {w : Wrapper} {wire : Bytes}
    (hroll : n.conn.wrapper.sendSeq = 0xFFFFFFFF →
      now ≠ 0 ∧ ∀ x ∈ wrappedIn n.hist, stampOf x.2 ≠ BitVec.ofInt 32 now)
    (hnext : n.conn.wrapper.nextPID now = .ok w) (hwire : wire =
    wrapWithPID K w.encrypt cp.header (pidBytes w.sendSeq w.sendTime) cp.plaintext) :
    packetSeq wire = w.sendSeq ∧ stampOf wire = BitVec.ofInt 32 w.sendTime
      ∧ ∀ x ∈ wrappedIn n.hist, w.sendTime = 0 ∨ stampOf x.2 = BitVec.ofInt 32 w.sendTime →
        packetSeq x.2 < w.sendSeq := by
  have hh := length_header cp
  refine ⟨by rw [hwire, packetSeq_wrapped K _ _ _ _ hh],
    by rw [hwire, stampOf_wrapped K _ _ _ _ hh], ?_⟩
  intro x hx hstamp
  -- a rollover needs a timestamp not used before, a step up only counts on
  rcases nextPID_ok hnext with ⟨hmax, _, htime⟩ | ⟨hmax, hseq, htime⟩
  · obtain ⟨hne, hnew⟩ := hroll hmax
    rw [htime] at hstamp
    rcases hstamp with h0 | hs
    · exact absurd h0 hne
    · exact absurd hs (hnew x hx)
  · have hle : packetSeq x.2 ≤ n.conn.wrapper.sendSeq := by
      refine h.counted x hx ?_
      rcases htime with ht | ht
      · rw [← ht]; exact hstamp
      · exact .inl ht
    bv_omega

/-- Every step keeps the packet IDs fresh. -/
theorem freshInv_step {n' : Node} (h : FreshInv n) (hstep : WrapStep K n n') : FreshInv n' := by
  rcases hstep with ⟨hseq, htime, hw, hout⟩ | ⟨cp, now, w, wire, hroll, hnext, hw', hwire, hw, hout⟩
  · refine ⟨?_, by simpa only [wrappedWith, hw] using h.once, ?_⟩
    · intro x hx hstamp
      rw [hw] at hx
      rw [hseq]
      refine h.counted x hx ?_
      rcases htime with ht | ht
      · rw [← ht]; exact hstamp
      · exact .inl ht
    · intro pid
      have h1 := h.out pid
      have h2 := hout pid
      simp only [wrappedWith, hw] at h1 ⊢
      omega
  · obtain ⟨hseq, hstamp, hlater⟩ := wrapped_fresh h hroll hnext hwire
    refine ⟨?_, ?_, ?_⟩
    · intro x hx hs
      rw [hw] at hx
      rw [hw'] at hs ⊢
      rcases List.mem_append.mp hx with hold | hnew
      · exact BitVec.le_of_lt (hlater x hold hs)
      · rw [List.mem_singleton.mp hnew]; exact BitVec.le_of_eq hseq
    · intro pid
      have h1 := h.once pid
      simp only [wrappedWith, hw, tally_append, tally_cons, tally_nil] at h1 ⊢
      by_cases hp : pidOf wire = some pid
      · -- an earlier datagram with this packet ID would have its timestamp and sequence number
        have : tally (fun x : ControlPacket × Bytes => wirePid pid x.2) (wrappedIn n.hist) = 0 := by
          refine tally_eq_zero fun x hx => ?_
          unfold wirePid
          rw [if_neg]
          intro hx'
          obtain ⟨he1, he2⟩ := packetSeq_eq_of_pidOf (hx'.trans hp.symm) (by rw [hp]; simp)
          have := hlater x hx (.inr (he2.trans hstamp))
          rw [he1, hseq] at this
          exact absurd this (BitVec.lt_irrefl _)
        rw [this]; simp only [wirePid, if_pos hp]; omega
      · simp only [wirePid, if_neg hp] at h1 ⊢; omega
    · intro pid
      have h1 := h.out pid
      have h2 := hout pid
      simp only [wrappedWith, hw, tally_append, tally_cons, tally_nil] at h1 ⊢
      omega

theorem count_pids (pid : Bytes) (wires : List Bytes) :
    (wires.filterMap pidOf).count pid = tally (wirePid pid) wires := by
  induction wires with
  | nil => rfl
  | cons wire wires ih =>
    rw [tally_cons, ← ih, List.filterMap_cons]
    unfold wirePid
    cases h : pidOf wire with
    | none => simp
    | some p =>
      by_cases hp : p = pid
      · simp [hp]; omega
      · simp [hp]

theorem FreshInv.nodup (h : FreshInv n) : ((handedIn n.hist).filterMap pidOf).Nodup := by
  rw [List.nodup_iff_count]
  intro pid
  have h1 := h.out pid
  have h2 := h.once pid
  rw [count_pids]
  unfold outWith at h1
  omega

/--
**Every datagram has its own packet ID**, in every state of every run in which
`Due` returns nothing that was stored, and the sequence number rolls over only into
a timestamp not yet used.
-/
theorem handed_pids_distinct (K : Crypto) (lsid rsid : SessionID) (w : Wrapper) (keyID : UInt8)
    (ins : List Input)
    (h : Machine.Along (Node.step K) FreshSends (Node.start lsid rsid w keyID) ins) :
    Machine.Always (Node.step K) (fun n => ((handedIn n.hist).filterMap pidOf).Nodup)
      (Node.start lsid rsid w keyID) ins :=
  Machine.always_mono (fun _ hn => FreshInv.nodup hn)
    (Machine.always_invariant (fun _ _ hn hcond => freshInv_step hn (wrapStep hcond))
      (freshInv_start lsid rsid w keyID) h)

/-- Two chunks one after the other go out with packet IDs 1 and 2. -/
theorem two_writes_distinct :
    Machine.Always (Node.step toyCrypto) (fun n => ((handedIn n.hist).filterMap pidOf).Nodup)
        (Node.start .zero .zero (toyWrapper true) 0)
        (sendOnce ++ .write [8] :: List.replicate 6 (.run 1 calm))
      ∧ (handedIn (Machine.run (Node.step toyCrypto) (Node.start .zero .zero (toyWrapper true) 0)
          (sendOnce ++ .write [8] :: List.replicate 6 (.run 1 calm))).hist).map packetSeq =
            [1, 2] :=
  ⟨handed_pids_distinct toyCrypto .zero .zero (toyWrapper true) 0 _ (by decide +kernel),
    by decide +kernel⟩

/-- The chunk is sent, and the next tick of the retransmit loop sends it again. -/
def resent : Node :=
  Machine.run (Node.step toyCrypto) (Node.start .zero .zero (toyWrapper true) 0)
    (sendOnce ++ [.retransmit 0, .run 1 calm])

/-- What the peer's wrapper says to two datagrams in turn. -/
def unwrapBoth (K : Crypto) (w : Wrapper) (d₁ d₂ : Bytes) : Option UnwrapErr :=
  match w.unwrap K d₁ with
  | .error _ => none
  | .ok (_, _, w') =>
    match w'.unwrap K d₂ with
    | .error e => some e
    | .ok _ => none

/-- The retransmission carries the first transmission's packet ID, and the peer refuses it. -/
theorem retransmission_repeats_pid :
    ¬ ((handedIn resent.hist).filterMap pidOf).Nodup
      ∧ resent.conn.sendRel.holds 0 = true
      ∧ ∃ d₁ d₂, handedIn resent.hist = [d₁, d₂]
        ∧ unwrapBoth toyCrypto (toyWrapper false) d₁ d₂ = some .replay := by
  refine ⟨by decide +kernel, by decide +kernel, (handedIn resent.hist).headD [],
    (handedIn resent.hist).getLastD [], by decide +kernel, by decide +kernel⟩

end GoVpn.Proof
