import GoVpn.Proof.CtrlLink

/-!
# Stream integrity between two connections

Two connections with mirrored keys, a network between them that may do anything to the datagrams,
and an application at one end that writes from one goroutine. What `Read` at the other end has
returned is a prefix of what was written.

Each end keeps its own accounts, in `CtrlSender` and in `CtrlLocal`. What connects them is the
link: its steps are those of the two connections, and by its invariant the payloads given up at one
end are a prefix of those numbered at the other.
-/

namespace GoVpn.Proof

open GoVpn.Control Tally

structure Pair where
  a : Node
  b : Node

inductive PairInput
  | atA (input : Input)
  | atB (input : Input)

def Pair.step (K : Crypto) (s : Pair) : PairInput → Pair
  | .atA input => { s with a := s.a.step K input }
  | .atB input => { s with b := s.b.step K input }

/-- If `Unwrap` accepts the datagram, the peer's `Wrap` made it. -/
def Authentic (K : Crypto) (n peer : Node) (datagram : Bytes) : Prop :=
  (n.conn.wrapper.unwrap K datagram).toBool = true → datagram ∈ (wrappedIn peer.hist).map Prod.snd

/--
What may happen. `a`'s application sends from one goroutine, and stops once a send
has failed; a datagram reaches `Deliver` only through `Unwrap`. Goroutines run in
any order, timers fire and datagrams arrive at any time, in any order, any number of
times, or never; `b` is also free to send.
-/
def Allowed (K : Crypto) (s : Pair) : PairInput → Prop
  | .atA (.write _) => Idle s.a ∧ Event.failed ∉ s.a.hist
  | .atA (.sendReset op) => Idle s.a ∧ Event.failed ∉ s.a.hist ∧ validOpcode op = true
  | .atA (.receive datagram after) => after.getD .flush = .flush ∧ Authentic K s.a s.b datagram
  | .atB (.receive datagram _) => Authentic K s.b s.a datagram
  | .atA (.deliver _ _) | .atB (.deliver _ _) => False
  | _ => True

instance decidableAuthentic (K : Crypto) (n peer : Node) (datagram : Bytes) :
    Decidable (Authentic K n peer datagram) :=
  inferInstanceAs (Decidable ((n.conn.wrapper.unwrap K datagram).toBool = true →
    datagram ∈ (wrappedIn peer.hist).map Prod.snd))

instance decidableIdle (n : Node) : Decidable (Idle n) :=
  inferInstanceAs (Decidable (∀ t ∈ n.tasks, unsent t = none))

instance decidableAllowed (K : Crypto) (s : Pair) : (i : PairInput) → Decidable (Allowed K s i)
  | .atA (.write _) => inferInstanceAs (Decidable (Idle s.a ∧ Event.failed ∉ s.a.hist))
  | .atA (.sendReset op) =>
    inferInstanceAs (Decidable (Idle s.a ∧ Event.failed ∉ s.a.hist ∧ validOpcode op = true))
  | .atA (.receive datagram after) =>
    inferInstanceAs (Decidable (after.getD .flush = .flush ∧ Authentic K s.a s.b datagram))
  | .atB (.receive datagram _) => inferInstanceAs (Decidable (Authentic K s.b s.a datagram))
  | .atA (.deliver _ _) | .atB (.deliver _ _) => .isFalse id
  | .atA (.run _ _) | .atA (.retransmit _) | .atA (.read _) | .atA .close => .isTrue trivial
  | .atB (.run _ _) | .atB (.retransmit _) | .atB (.read _) | .atB .close => .isTrue trivial
  | .atB (.write _) | .atB (.sendReset _) => .isTrue trivial

/-! ## The slot of the sending goroutine -/

variable {a b n n' : Node} {t t' : Task}

theorem SlotInv.keep (h : SlotInv n) (hrel : n'.conn.sendRel = n.conn.sendRel)
    (hm : markedIn n'.hist = markedIn n.hist)
    (htasks : ∀ t ∈ n'.tasks, t ∈ n.tasks ∨ ∀ idx op payload rest, t ≠ .mark idx op payload rest) :
    SlotInv n' := by
  refine ⟨by rw [hrel, hm]; exact h.next, by rw [hrel]; exact h.size, ?_⟩
  intro idx op payload rest ht
  rw [hrel]
  rcases htasks _ ht with hold | hnot
  · exact h.slot idx op payload rest hold
  · exact absurd rfl (hnot idx op payload rest)

theorem SlotInv.around (h : SlotInv n) {c : Conn} {ts : List Task} {es : List Event}
    (hrel : c.sendRel = n.conn.sendRel) (hm : markedIn es = [])
    (hts : ∀ t ∈ ts, ∀ idx op payload rest, t ≠ .mark idx op payload rest) :
    SlotInv (extend n c ts es) :=
  h.keep hrel (by simp [extend, hm]) fun t ht => (List.mem_append.mp ht).imp_right (hts t)

theorem SlotInv.own (hone : tally sending n.tasks ≤ 1) {i : Nat} (hi : n.tasks[i]? = some t)
    (hs : unsent t ≠ none) (htasks : n'.tasks = n.tasks.set i t')
    (hnot : ∀ idx op payload rest, t' ≠ .mark idx op payload rest)
    (hnext : n'.conn.sendRel.packetID = BitVec.ofNat 32 (markedIn n'.hist).length)
    (hsize : n'.conn.sendRel.size = nSendBuffers) : SlotInv n' := by
  refine ⟨hnext, hsize, ?_⟩
  intro idx op payload rest ht
  rw [htasks] at ht
  -- a goroutine that was given a slot would be sending too
  rcases others_idle hone hi hs ht with he | hnone
  · exact absurd he.symm (hnot idx op payload rest)
  · exact absurd hnone (by simp [unsent])

theorem window_close (hs : SlotInv a) (hl : SlidingWindow.Inv nSendBuffers nRecBuffers (link a b))
    (id : PacketID) (hid : a.conn.sendRel.holds id = true) :
    behind a.conn.sendRel id ≤ nSendBuffers := by
  obtain ⟨n, hlt, hle, rfl⟩ := hl.window id hid
  have hlt' : n < (markedIn a.hist).length := hlt
  have hle' : (markedIn a.hist).length ≤ n + nSendBuffers := hle
  have hsmall : nSendBuffers < 2 ^ 32 := by decide
  unfold behind
  rw [hs.next, Serial.toNat_ofNat_sub_ofNat (by omega) (by omega)]
  omega

theorem rests_ne_mark (h : Rests t) : ∀ idx op payload rest, t ≠ .mark idx op payload rest := by
  rintro idx op payload rest rfl
  exact h

theorem slotInv_set (h : SlotInv n) {i : Nat} {c : Conn} {es : List Event}
    (hrel : c.sendRel = n.conn.sendRel) (hm : markedIn es = [])
    (hnot : ∀ idx op payload rest, t' ≠ .mark idx op payload rest) :
    SlotInv { conn := c, tasks := n.tasks.set i t', hist := n.hist ++ es } := by
  refine h.keep hrel (by simp [hm]) fun t ht => ?_
  rcases List.mem_or_eq_of_mem_set ht with hold | rfl
  · exact .inl hold
  · exact .inr hnot

/-- A step of a goroutine keeps the slot of the one that sends. -/
theorem slotInv_run {K : Crypto} (hs : SlotInv a) (hone : tally sending a.tasks ≤ 1)
    (hl : SlidingWindow.Inv nSendBuffers nRecBuffers (link a b)) {i : Nat}
    (hi : a.tasks[i]? = some t) (env : Env) : SlotInv (a.run K i env) := by
  -- acknowledgements only free entries, so a slot that was found stays free
  have acked : ∀ {acks t'}, (∀ idx op payload rest, t' ≠ .mark idx op payload rest) →
      SlotInv { conn := { a.conn with sendRel := a.conn.sendRel.ack acks }
                tasks := a.tasks.set i t', hist := a.hist ++ [] } := by
    intro acks t' hnot
    refine ⟨by simpa [Reliable.ack] using hs.next, (size_ack _ _).trans hs.size, ?_⟩
    intro idx op payload rest ht
    rcases List.mem_or_eq_of_mem_set ht with hold | he
    · obtain ⟨hfree, hroom⟩ := hs.slot idx op payload rest hold
      exact ⟨hfree.ack _, fun id hid => hroom id ((holds_ack _ _ id).mp hid).1⟩
    · exact absurd he.symm (hnot idx op payload rest)
  rw [run_eq hi]
  have h := ran K a.conn env t
  generalize a.conn.exec K env t = o at h
  cases h with
  | rests hr hf => exact slotInv_set hs rfl hf.marked (rests_ne_mark hr)
  | hands he hf => exact slotInv_set hs rfl hf.marked (rests_ne_mark he.rests)
  | fails _ hf => exact slotInv_set hs rfl hf.marked (by simp)
  | finds hn =>
    -- the slot just found is free, and `Next` looked at the window
    obtain ⟨hfree, hroom⟩ := next_some (by rw [hs.size]; decide)
      (fun id hid => by rw [hs.size]; exact window_close hs hl id hid) hn
    rw [hs.size] at hroom
    refine ⟨by simpa using hs.next, hs.size, ?_⟩
    intro idx' op' payload' rest' ht
    rcases List.mem_or_eq_of_mem_set ht with hold | he
    · exact hs.slot idx' op' payload' rest' hold
    · obtain ⟨rfl, -, -, -⟩ := Task.mark.inj he
      exact ⟨hfree, hroom⟩
  | @marks idx =>
    refine SlotInv.own hone hi (by simp [unsent]) rfl (by simp) ?_ ?_
    · show a.conn.sendRel.packetID + 1 = _
      rw [hs.next]
      simp only [markedIn_append, List.length_append]
      rw [BitVec.ofNat_add]; rfl
    · show (a.conn.sendRel.markActive idx).size = _
      rw [← hs.size]; simp [Reliable.markActive, Reliable.size]
  | @stores idx wire =>
    refine SlotInv.own hone hi (by simp [unsent]) rfl (by simp) ?_ ?_
    · show a.conn.sendRel.packetID = _
      rw [hs.next]; simp
    · show (a.conn.sendRel.setPayload idx wire).size = _
      rw [← hs.size]; simp [Reliable.setPayload, Reliable.size]
  | absorbs | absorbsAck => exact acked (by simp)
  | _ => exact slotInv_set hs rfl rfl (by simp)

/-! ## Both ends -/

structure PairInv (K : Crypto) (ka kb : KeySlot) (s : Pair) : Prop where
  link : SlidingWindow.Inv nSendBuffers nRecBuffers (link s.a s.b)
  sender : SenderInv s.a
  slot : SlotInv s.a
  opcodes : ∀ x ∈ wrappedIn s.a.hist, validOpcode x.1.opcode = true
  localA : LocalInv K ka kb s.a
  localB : LocalInv K kb ka s.b
  window : WindowInv s.b

variable {K : Crypto} {ka kb : KeySlot} {s : Pair}

/-- A step of the link keeps the window invariant. -/
theorem link_inv {l l' : SlidingWindow.Link 32 Bytes}
    (h : SlidingWindow.Inv nSendBuffers nRecBuffers l) (hstep : LinkStep l l') :
    SlidingWindow.Inv nSendBuffers nRecBuffers l' :=
  SlidingWindow.inv_step (by decide) (by decide) h hstep

theorem Authentic.wrapped {peer : Node} {datagram : Bytes} {out : Bytes × Bytes × Wrapper}
    (h : Authentic K n peer datagram) (ho : n.conn.wrapper.unwrap K datagram = .ok out) :
    ∃ cp, (cp, datagram) ∈ wrappedIn peer.hist := by
  obtain ⟨⟨cp, d⟩, hmem, rfl⟩ := List.mem_map.mp (h (by rw [ho]; rfl))
  exact ⟨cp, hmem⟩

section

variable (h : PairInv K ka kb s)

include h

theorem pairInv_around {input : Input} {c : Conn} {ts : List Task}
    {es : List Event} (he : s.a.step K input = extend s.a c ts es)
    (hl : LinkStep (link s.a s.b) (link (extend s.a c ts es) s.b))
    (hs : SenderInv (extend s.a c ts es)) (hslot : SlotInv (extend s.a c ts es))
    (hw : wrappedIn es = []) : PairInv K ka kb (s.step K (.atA input)) := by
  have hlocal : LocalInv K ka kb (s.a.step K input) := localInv_step s.a input h.localA
  simp only [Pair.step]
  rw [he] at hlocal ⊢
  refine ⟨link_inv h.link hl, hs, hslot, ?_, hlocal, h.localB, h.window⟩
  simp only [extend, wrappedIn_append, hw, List.append_nil]
  exact h.opcodes

/-- A step of one of `a`'s goroutines keeps the pair's invariant. -/
theorem pairInv_run_a (i : Nat) (env : Env) : PairInv K ka kb { s with a := s.a.run K i env } := by
  cases hi : s.a.tasks[i]? with
  | none => rw [run_none hi]; exact h
  | some t =>
    have hmem := List.mem_of_getElem? hi
    have hlocal : LocalInv K ka kb (s.a.run K i env) := localInv_run h.localA hi env
    refine ⟨link_inv h.link (link_sender_run h.slot hi (h.localA.tasks t hmem) env),
      senderInv_run h.sender hi env, slotInv_run h.slot h.sender.one h.link hi env, ?_, hlocal,
      h.localB, h.window⟩
    intro x hx
    rw [run_eq hi, wrappedIn_append] at hx
    rcases List.mem_append.mp hx with hold | hnew
    · exact h.opcodes x hold
    · obtain ⟨-, slot, rest, rfl⟩ :=
        (exec_local K s.a.conn env t (h.localA.tasks t hmem)).wires x hnew
      exact (h.sender.ok _ hmem).2

theorem pairInv_write (p : Bytes) (hidle : Idle s.a)
    (hnf : Event.failed ∉ s.a.hist) : PairInv K ka kb (s.step K (.atA (.write p))) := by
  have hempty : Rests (Task.write p) := (sent_emptyHanded (some p)).rests
  refine pairInv_around h (step_write K s.a p) ?_ ?_ ?_ rfl
  · refine link_sender_around ?_ (fun _ => rfl) rfl rfl rfl
    obtain ⟨h1, h2, -, -⟩ := rests_weights hempty
    intro t ht
    rw [List.mem_singleton.mp ht]; exact ⟨h1, h2⟩
  · refine h.sender.begin hidle hnf (writerOk_write p) (by simp) rfl ?_
    by_cases hp : p = []
    · rw [(unsent_write p).2 hp]; simp [writtenIn, hp]
    · rw [(unsent_write p).1 hp]; simp [writtenIn]
  · refine h.slot.around rfl rfl ?_
    intro t ht
    rw [List.mem_singleton.mp ht]; exact rests_ne_mark hempty

theorem pairInv_receive {datagram : Bytes} {after : Option After}
    (hafter : after.getD .flush = .flush) (hauth : Authentic K s.a s.b datagram) :
    PairInv K ka kb (s.step K (.atA (.receive datagram after))) := by
  rcases receive_cases K s.a datagram after with he | ⟨_, _, w, ts, hu, he, hts⟩
  · simp only [Pair.step, Node.step]
    rw [he]; exact h
  obtain ⟨cp, hcp⟩ := hauth.wrapped hu
  have hl := link_sender_receive h.localA h.localB hcp hu hts
  have htasks : ∀ t ∈ ts, (WriterOk t ∧ unsent t = none)
      ∧ ∀ idx op payload rest, t ≠ .mark idx op payload rest := by
    rcases hts with rfl | ⟨cp, after', -, rfl, rfl⟩
    · simp
    · intro t ht
      rw [List.mem_singleton.mp ht]
      exact ⟨⟨hafter, rfl⟩, by simp⟩
  exact pairInv_around h he hl (h.sender.around (fun t ht => (htasks t ht).1) (by simp) rfl rfl)
    (h.slot.around rfl rfl fun t ht => (htasks t ht).2) rfl

theorem pairInv_retransmit (now : Int) : PairInv K ka kb (s.step K (.atA (.retransmit now))) := by
  rcases retransmitLoop_cases s.a now with he | ⟨i, r, hd, he⟩
  · simp only [Pair.step, Node.step]
    rw [he]; exact h
  obtain ⟨hpid, hsize, hholds⟩ := due_frame hd
  refine pairInv_around h he
    (link_sender_around (by simp [carries, acksArrived]) hholds rfl rfl rfl)
    (h.sender.around (by simp [WriterOk, unsent]) (by simp) rfl rfl) ?_ rfl
  refine ⟨by simpa [extend, hpid] using h.slot.next, hsize.trans h.slot.size, ?_⟩
  intro idx op payload rest ht
  have hold : Task.mark idx op payload rest ∈ s.a.tasks := by simpa [extend] using ht
  obtain ⟨hfree, hroom⟩ := h.slot.slot idx op payload rest hold
  refine ⟨hfree.due hd, fun id hid => ?_⟩
  have := hroom id (by rw [← hholds]; exact hid)
  simpa only [extend, behind, hpid] using this

theorem pairInv_atA (input : Input) (hok : Allowed K s (.atA input)) :
    PairInv K ka kb (s.step K (.atA input)) := by
  cases input with
  | write p => exact pairInv_write h p hok.1 hok.2
  | sendReset op =>
    obtain ⟨hidle, hnf, hop⟩ := hok
    exact pairInv_around h (step_sendReset K s.a op)
      (link_sender_around (by simp [carries, acksArrived]) (fun _ => rfl) rfl rfl rfl)
      (h.sender.begin hidle hnf ⟨rfl, hop⟩ (by simp) rfl rfl) (h.slot.around rfl rfl (by simp)) rfl
  | deliver cp after => exact absurd hok (by simp [Allowed])
  | receive datagram after => exact pairInv_receive h hok.1 hok.2
  | run i env => exact pairInv_run_a h i env
  | retransmit now => exact pairInv_retransmit h now
  | read k =>
    exact pairInv_around h (step_read K s.a k)
      (link_sender_around (by simp) (fun _ => rfl) rfl rfl rfl)
      (h.sender.around (by simp) (by simp) rfl rfl) (h.slot.around rfl rfl (by simp)) rfl
  | close =>
    exact pairInv_around h (step_close K s.a)
      (link_sender_around (by simp) (fun _ => rfl) rfl rfl rfl)
      (h.sender.around (by simp) (by simp) rfl rfl) (h.slot.around rfl rfl (by simp)) rfl

theorem pairInv_stepB (input : Input) (hl : LinkStep (link s.a s.b) (link s.a (s.b.step K input))) :
    PairInv K ka kb (s.step K (.atB input)) :=
  ⟨link_inv h.link hl, h.sender, h.slot, h.opcodes, h.localA, localInv_step s.b input h.localB,
    windowInv_step K s.b input h.window⟩

theorem pairInv_atB (input : Input) (hok : Allowed K s (.atB input)) :
    PairInv K ka kb (s.step K (.atB input)) := by
  refine pairInv_stepB h input ?_
  have hs := stepped K s.b input
  generalize s.b.step K input = n' at hs
  cases hs with
  | stays => exact .same _
  | runs hi => exact link_receiver_run h.link h.window.floor h.localB.room hi _
  | @write p =>
    refine link_receiver_around ?_ rfl rfl rfl rfl rfl
    intro t ht
    rw [List.mem_singleton.mp ht]
    exact (rests_weights (sent_emptyHanded (some p)).rests).2.2
  | deliver => exact absurd hok (by simp [Allowed])
  | receive hu hts =>
    obtain ⟨cp, hcp⟩ := Authentic.wrapped hok hu
    exact link_receiver_receive h.localA h.localB h.opcodes hcp hu hts
  | sendReset | retransmit | read | close =>
    exact link_receiver_around (by simp [brings, acksInHand]) rfl rfl rfl rfl rfl

end

/-- Two new connections whose keys mirror each other. -/
def Pair.start (sidA sidB : SessionID) (wA wB : Wrapper) (keyA keyB : UInt8) : Pair where
  a := Node.start sidA sidB wA keyA
  b := Node.start sidB sidA wB keyB

/-- Two new connections have it. -/
theorem pairInv_start (K : Crypto) (sidA sidB : SessionID) {wA wB : Wrapper} (keyA keyB : UInt8)
    (hab : wA.encrypt = wB.decrypt) (hba : wB.encrypt = wA.decrypt) :
    PairInv K wA.encrypt wB.encrypt (Pair.start sidA sidB wA wB keyA keyB) := by
  refine ⟨?_, ?_, ?_, by simp [Pair.start, Node.start, wrappedIn], ?_, ?_,
    windowInv_start sidB sidA wB keyB⟩
  · exact SlidingWindow.inv_start rfl rfl (holds_new _) (fun x => heldBy_new (· == x) _)
      (fun _ => rfl) fun _ => rfl
  · exact ⟨⟨Nat.zero_le _, by simp [Pair.start, Node.start]⟩, by simp [Pair.start, Node.start],
      fun _ _ => rfl, List.prefix_refl _⟩
  · exact ⟨rfl, rfl, by simp [Pair.start, Node.start]⟩
  · rw [hba]; exact localInv_start K sidA sidB wA keyA
  · rw [hab]; exact localInv_start K sidB sidA wB keyB

/-- Every allowed step keeps it. -/
theorem pairInv_step (s : Pair) (input : PairInput) (h : PairInv K ka kb s)
    (hok : Allowed K s input) : PairInv K ka kb (s.step K input) := by
  cases input with
  | atA input => exact pairInv_atA h input hok
  | atB input => exact pairInv_atB h input hok

theorem PairInv.stream (h : PairInv K ka kb s) : returnedIn s.b.hist <+: writtenIn s.a.hist := by
  have hread : returnedIn s.b.hist <+: (consumedIn s.b.hist).flatten := ⟨_, h.localB.stream⟩
  have hlink : (consumedIn s.b.hist).flatten <+: (markedIn s.a.hist).flatten := by
    -- the link delivers whole payloads, in the order of their IDs
    obtain ⟨rest, hrest⟩ := h.link.delivered
    have hrest' : consumedIn s.b.hist ++ rest = markedIn s.a.hist := hrest
    exact ⟨rest.flatten, by rw [← hrest', List.flatten_append]⟩
  exact (hread.trans hlink).trans h.sender.written

/--
**Stream integrity.** Two connections with mirrored keys, started afresh; in every
run in which the first end's application sends from one goroutine, and no more once a
send has failed, hands every packet to `Deliver`, and `Unwrap` takes only what the
peer's `Wrap` made, whatever is lost, repeated, delayed or reordered, the bytes `Read`
has returned at the second end are at every moment a prefix of the bytes passed to
`Write` at the first.
-/
theorem control_stream_integrity (K : Crypto) (sidA sidB : SessionID) (wA wB : Wrapper)
    (keyA keyB : UInt8) (hab : wA.encrypt = wB.decrypt) (hba : wB.encrypt = wA.decrypt)
    (ins : List PairInput)
    (h : Machine.Along (Pair.step K) (Allowed K) (Pair.start sidA sidB wA wB keyA keyB) ins) :
    Machine.Always (Pair.step K) (fun s => returnedIn s.b.hist <+: writtenIn s.a.hist)
      (Pair.start sidA sidB wA wB keyA keyB) ins :=
  Machine.always_mono (fun _ hs => PairInv.stream hs)
    (Machine.always_invariant (fun s input hs hok => pairInv_step s input hs hok)
      (pairInv_start K sidA sidB keyA keyB hab hba) h)

/-- The datagram the first end sends for the bytes 7 and 8. -/
def firstDatagram : Bytes :=
  (handedIn (Machine.run (Node.step toyCrypto) (Node.start .zero .zero (toyWrapper true) 0)
    (.write [7, 8] :: List.replicate 6 (Input.run 0 calm))).hist).headD []

/-- A write; the datagram arrives, its retransmission too; the reader reads what is there. -/
def writeAndRead : List PairInput :=
  .atA (.write [7, 8]) :: (List.replicate 6 (PairInput.atA (.run 0 calm))
    ++ [PairInput.atB (.receive firstDatagram (some .flush)), .atA (.retransmit 0),
      .atA (.run 1 calm), .atB (.receive firstDatagram (some .flush))]
    ++ List.replicate 5 (PairInput.atB (.run 0 calm)) ++ [PairInput.atB (.read 10)])

/-- The reader gets both bytes once, although their datagram arrived twice. -/
theorem control_stream_writeAndRead :
    Machine.Always (Pair.step toyCrypto) (fun s => returnedIn s.b.hist <+: writtenIn s.a.hist)
        (Pair.start .zero .zero (toyWrapper true) (toyWrapper false) 0 0) writeAndRead
      ∧ returnedIn (Machine.run (Pair.step toyCrypto)
          (Pair.start .zero .zero (toyWrapper true) (toyWrapper false) 0 0) writeAndRead).b.hist
        = [7, 8] :=
  ⟨control_stream_integrity toyCrypto .zero .zero (toyWrapper true) (toyWrapper false) 0 0 rfl rfl
    writeAndRead (by decide +kernel), by decide +kernel⟩

end GoVpn.Proof
