import GoVpn.Proof.CtrlNode

/-!
# A record of the packet IDs given out

Beside a connection runs a record of every packet ID `MarkActive` gives out: the goroutine it went
to, the slot, the chunk, and what has become of the packet since. A goroutine sends one packet at a
time, so what it does next concerns the one packet of its own it has not sent yet. A locked section
is a move of its goroutine's hand, from the slot `Next` gives it to the datagram it passes to the
transport.
-/

namespace GoVpn.Proof

open GoVpn.Control Tally

/-- A packet ID that was given out. -/
structure Issue where
  /-- The goroutine. -/
  call : Nat
  id : PacketID
  slot : Nat
  chunk : Bytes
  /-- The acknowledgements drained for the packet. -/
  acks : List PacketID := []
  /-- The datagram built for it. -/
  wire : Option Bytes := none
  /-- `SetPayload` is done. -/
  stored : Bool := false
  /-- `writeChunk` returned without an error. -/
  sent : Bool := false
  /-- The peer acknowledged it. -/
  acked : Bool := false
  deriving DecidableEq

/-- What a locked section does for the packet its goroutine is sending. -/
inductive SendAct
  | quiet
  | numbers (idx : Nat) (id : PacketID) (chunk : Bytes)
  | drains (acks : List PacketID)
  | builds (wire : Bytes)
  | stores
  | sends
  | acks (ids : List PacketID)

/-- The goroutine `i` has this packet under way. -/
def Issue.under (i : Nat) (x : Issue) : Bool := x.call == i && !x.sent

namespace SendAct

/-- What the act of goroutine `i` changes in the record of a packet. -/
def update (i : Nat) : SendAct → Issue → Issue
  | .drains ids, x => if x.under i then { x with acks := ids } else x
  | .builds wire, x => if x.under i then { x with wire := some wire } else x
  | .stores, x => if x.under i then { x with stored := true } else x
  | .sends, x => if x.under i then { x with sent := true } else x
  | .acks ids, x => if ids.contains x.id then { x with acked := true } else x
  | _, x => x

/-- The packet ID the act gives out. -/
def issue (i : Nat) : SendAct → List Issue
  | .numbers idx id chunk => [{ call := i, id := id, slot := idx, chunk := chunk }]
  | _ => []

def apply (i : Nat) (a : SendAct) (xs : List Issue) : List Issue := xs.map (a.update i) ++ a.issue i

end SendAct

/-- The act of a task's next locked section. -/
def sendAct (K : Crypto) (c : Conn) (env : Env) : Task → SendAct
  | .mark idx _ chunk _ => .numbers idx c.sendRel.packetID chunk
  | .build (some _) _ _ _ _ => .drains (AckSet.drain c.acks).1
  | .wrap (some _) cp _ =>
    match (c.wrapper.wrap K env.clock cp.header cp.plaintext).2 with
    | .ok wire => .builds wire
    | .error _ => .quiet
  | .setPayload _ _ _ => .stores
  | .transmit _ _ => if env.delivered then .sends else .quiet
  | .absorb cp _ => .acks cp.acks
  | _ => .quiet

/-- A connection with the record beside it, and the calls of `Write` made on it. -/
structure SendLog where
  node : Node
  issued : List Issue := []
  writes : List (Nat × Bytes) := []

/-- What an input adds to the record. -/
def recorded (K : Crypto) (n : Node) (xs : List Issue) : Input → List Issue
  | .run i env =>
    match n.tasks[i]? with
    | some t => (sendAct K n.conn env t).apply i xs
    | none => xs
  | _ => xs

def SendLog.step (K : Crypto) (s : SendLog) (input : Input) : SendLog where
  node := s.node.step K input
  issued := recorded K s.node s.issued input
  writes := match input with
    | .write p => s.writes ++ [(s.node.tasks.length, p)]
    | _ => s.writes

def SendLog.start (localSID remoteSID : SessionID) (wrapper : Wrapper) (keyID : UInt8) : SendLog :=
  { node := Node.start localSID remoteSID wrapper keyID }

/-! ## What a locked section does -/

/-- How far a goroutine is with its packet. -/
inductive Hand
  /-- It has no slot, or sends no packet of its own. -/
  | free
  /-- It is about to call `Next`. -/
  | asks
  /-- `Next` gave it a slot. -/
  | taken (idx : Nat)
  /-- `MarkActive` gave it a packet ID. -/
  | numbered (idx : Nat)
  | built (idx : Nat) (wire : Bytes)
  /-- The datagram goes to the transport. -/
  | sending (wire : Bytes)
  | done
  deriving DecidableEq

def hand : Task → Hand
  | .waitSlot _ _ _ => .asks
  | .mark idx _ _ _ => .taken idx
  | .build (some idx) _ _ _ _ => .numbered idx
  | .wrap (some idx) _ _ => .numbered idx
  | .setPayload idx wire _ => .built idx wire
  | .transmit wire _ => .sending wire
  | .done => .done
  | _ => .free

/-- The slot in hand: `Next` has given it out, and `SetPayload` is still to come. -/
def Hand.slot : Hand → Option Nat
  | .taken idx | .numbered idx | .built idx _ => some idx
  | _ => none

/-- The goroutine has no packet under way. -/
def Hand.idle (h : Hand) : Prop := h = .free ∨ h = .asks

/-- A locked section, as the send window sees it. -/
inductive SlotMove (r : Reliable) (es : List Event) : Hand → SendAct → Reliable → Hand → Prop
  | waits {h h' : Hand} : h.idle → h'.idle → SlotMove r es h .quiet r h'
  /-- The goroutine ends, after an error or not. -/
  | ends {h : Hand} : SlotMove r es h .quiet r .done
  /-- A bare acknowledgement is built. -/
  | bare {wire : Bytes} : SlotMove r es .free .quiet r (.sending wire)
  | takes {idx : Nat} : r.next = some idx → SlotMove r es .asks .quiet r (.taken idx)
  | numbers {idx : Nat} {chunk : Bytes} :
      SlotMove r es (.taken idx) (.numbers idx r.packetID chunk) (r.markActive idx) (.numbered idx)
  | drains {idx : Nat} {acks : List PacketID} :
      SlotMove r es (.numbered idx) (.drains acks) r (.numbered idx)
  | builds {idx : Nat} {wire : Bytes} :
      SlotMove r es (.numbered idx) (.builds wire) r (.built idx wire)
  | stores {idx : Nat} {wire : Bytes} :
      SlotMove r es (.built idx wire) .stores (r.setPayload idx wire) (.sending wire)
  | sends {wire : Bytes} {h : Hand} : h.idle ∨ h = .done → wire ∈ handedIn es →
      SlotMove r es (.sending wire) .sends r h
  | acks {ids : List PacketID} : SlotMove r es .free (.acks ids) (r.ack ids) .free

theorem hand_sent (rest : Option Bytes) :
    (hand (Task.sent rest)).idle ∨ hand (Task.sent rest) = .done := by
  cases rest with
  | none => exact .inr rfl
  | some p =>
    unfold Task.sent Task.write
    dsimp only
    split
    · exact .inl (.inr rfl)
    · exact .inr rfl

theorem hand_after (after : After) : (hand after.task).idle := by
  cases after with
  | flush => exact .inl rfl
  | respond => exact .inr rfl

/-- **A locked section** moves the hand of its goroutine one step. -/
theorem exec_slotMove (K : Crypto) (c : Conn) (env : Env) (t : Task) :
    SlotMove c.sendRel (c.exec K env t).2.2 (hand t) (sendAct K c env t)
      (c.exec K env t).1.sendRel (hand (c.exec K env t).2.1) := by
  have free : Hand.free.idle := .inl rfl
  have asks : Hand.asks.idle := .inr rfl
  cases t with
  | waitSlot op payload rest =>
    simp only [Conn.exec]
    cases hn : c.sendRel.next with
    | some idx => exact .takes hn
    | none => exact .waits asks free
  | blocked op payload rest =>
    simp only [Conn.exec]
    split
    · exact .ends
    · exact .waits free asks
  | mark idx op payload rest => exact .numbers
  | build slot op id payload rest =>
    cases slot with
    | none => exact .waits free free
    | some idx => exact .drains
  | wrap slot cp rest =>
    cases slot with
    | none =>
      simp only [Conn.exec, sendAct]
      cases (c.wrapper.wrap K env.clock cp.header cp.plaintext).2
      · exact .ends
      · exact .bare
    | some idx =>
      simp only [Conn.exec, sendAct]
      cases (c.wrapper.wrap K env.clock cp.header cp.plaintext).2
      · exact .ends
      · exact .builds
  | setPayload idx wire rest => exact .stores
  | transmit wire rest =>
    simp only [Conn.exec, sendAct]
    split
    · exact .sends (hand_sent rest) (by simp [handedIn])
    · exact .ends
  | absorb cp after =>
    simp only [Conn.exec]
    split <;> exact .acks
  | put cp after =>
    simp only [Conn.exec]
    split
    · exact .waits free free
    · exact .waits free free
    · exact .waits free (hand_after after)
  | addAck id after => exact .waits free free
  | drain after =>
    simp only [Conn.exec]
    split
    · exact .waits free free
    · exact .waits free (hand_after after)
  | flush =>
    simp only [Conn.exec]
    split
    · exact .waits free free
    · exact .ends
  | done => exact .ends

/-- What a step does to the goroutines, the send window and the record. -/
inductive LogStep (s : SendLog) (input : Input) (s' : SendLog) : Prop
  /-- Goroutines start; none of them has a slot. -/
  | calls (ts : List Task) (es : List Event) : s'.node.tasks = s.node.tasks ++ ts →
      (∀ t ∈ ts, (hand t).slot = none) → s'.node.hist = s.node.hist ++ es →
      (∀ idx, slotAt s'.node.conn.sendRel idx = slotAt s.node.conn.sendRel idx) →
      (∀ idx, FreeSlot s.node.conn.sendRel idx → FreeSlot s'.node.conn.sendRel idx) →
      s'.issued = s.issued → LogStep s input s'
  | runs (i : Nat) (env : Env) (t t' : Task) (es : List Event) (a : SendAct) :
      input = .run i env → s.node.tasks[i]? = some t →
      s'.node.tasks = s.node.tasks.set i t' → s'.node.hist = s.node.hist ++ es →
      SlotMove s.node.conn.sendRel es (hand t) a s'.node.conn.sendRel (hand t') →
      s'.issued = a.apply i s.issued → LogStep s input s'

theorem hand_write (p : Bytes) : (hand (Task.write p)).slot = none := by
  unfold Task.write
  split <;> rfl

variable {es : List Event} {x : Issue}

variable {a : SendAct} {h h' : Hand} {i : Nat} {input : Input} {r r' : Reliable} {s s' : SendLog}

theorem LogStep.of_extend {c : Conn} {ts : List Task} (hn : s'.node = extend s.node c ts es)
    (hc : c.sendRel = s.node.conn.sendRel) (hts : ∀ t ∈ ts, (hand t).slot = none)
    (hx : s'.issued = s.issued) : LogStep s input s' := by
  refine .calls ts es (by rw [hn]; rfl) hts (by rw [hn]; rfl) (fun idx => ?_) (fun idx h => ?_) hx
  · rw [hn]; exact congrArg (slotAt · idx) hc
  · rw [hn]; exact (congrArg (FreeSlot · idx) hc).mpr h

theorem LogStep.refl (hn : s'.node = s.node) (hx : s'.issued = s.issued) : LogStep s input s' := by
  have hnone : s'.node = extend s.node s.node.conn [] [] := by rw [hn]; simp [extend]
  exact .of_extend hnone rfl (by simp) hx

theorem logStep (K : Crypto) (s : SendLog) (input : Input) : LogStep s input (s.step K input) := by
  cases input with
  | write p => exact .of_extend (step_write K s.node p) rfl (by simp [hand_write]) rfl
  | sendReset op =>
    exact .of_extend (step_sendReset K s.node op) rfl (by simp [hand, Hand.slot]) rfl
  | deliver cp after =>
    exact .of_extend (step_deliver K s.node cp after) rfl (by simp [hand, Hand.slot]) rfl
  | receive datagram after =>
    rcases receive_cases K s.node datagram after with he | ⟨_, _, _, ts, _, he, hts⟩
    · exact .refl he rfl
    · refine .of_extend he rfl ?_ rfl
      rcases hts with rfl | ⟨cp, after', -, -, rfl⟩
      · simp
      · simp [hand, Hand.slot]
  | run i env =>
    cases hi : s.node.tasks[i]? with
    | none => exact .refl (run_none hi env) (by simp [SendLog.step, recorded, hi])
    | some t =>
      have hn : (s.step K (.run i env)).node = _ := run_eq hi env
      refine .runs i env t (s.node.conn.exec K env t).2.1 (s.node.conn.exec K env t).2.2
        (sendAct K s.node.conn env t) rfl hi (by rw [hn]) (by rw [hn]) ?_
        (by simp [SendLog.step, recorded, hi])
      rw [hn]
      exact exec_slotMove K s.node.conn env t
  | retransmit now =>
    rcases retransmitLoop_cases s.node now with he | ⟨idx, r, hd, he⟩
    · exact .refl he rfl
    · have hn : (s.step K (.retransmit now)).node = _ := he
      refine .calls _ _ (by rw [hn]; rfl) (by simp [hand, Hand.slot]) (by rw [hn]; rfl) ?_ ?_ rfl
      · intro j
        rw [hn]
        exact slotAt_due hd j
      · intro j hj
        rw [hn]
        exact hj.due hd
  | read k => exact .of_extend (step_read K s.node k) rfl (by simp) rfl
  | close => exact .of_extend (step_close K s.node) rfl (by simp) rfl

/-! ## The packet a goroutine has under way -/

theorem under_iff : x.under i = true ↔ x.call = i ∧ x.sent = false := by
  unfold Issue.under
  simp

theorem under_other {j : Nat} (h : x.under j = true) (hne : j ≠ i) : x.under i = false := by
  refine Bool.eq_false_iff.mpr fun hi => hne ?_
  rw [← (under_iff.mp h).1, (under_iff.mp hi).1]

namespace SendAct

theorem mem_apply {i : Nat} {a : SendAct} {xs : List Issue} {y : Issue} :
    y ∈ a.apply i xs ↔ (∃ x ∈ xs, a.update i x = y) ∨ y ∈ a.issue i := by
  unfold apply
  rw [List.mem_append, List.mem_map]

theorem apply_quiet (i : Nat) (xs : List Issue) : SendAct.quiet.apply i xs = xs :=
  (List.append_nil _).trans (List.map_id xs)

section Update

variable (a : SendAct) (i : Nat) (x : Issue)

/-- An issue keeps its identity. -/
theorem update_frame :
    (a.update i x).call = x.call ∧ (a.update i x).id = x.id ∧ (a.update i x).slot = x.slot
      ∧ (a.update i x).chunk = x.chunk
      ∧ (x.sent = true → (a.update i x).sent = true) ∧
      (x.acked = true → (a.update i x).acked = true) := by
  cases a with
  | quiet | numbers => exact ⟨rfl, rfl, rfl, rfl, id, id⟩
  | drains | builds | stores | sends | acks =>
    simp only [update]
    split <;> simp

@[simp] theorem update_call : (a.update i x).call = x.call := (a.update_frame i x).1

@[simp] theorem update_id : (a.update i x).id = x.id := (a.update_frame i x).2.1

@[simp] theorem update_slot : (a.update i x).slot = x.slot := (a.update_frame i x).2.2.1

@[simp] theorem update_chunk : (a.update i x).chunk = x.chunk := (a.update_frame i x).2.2.2.1

variable {a i x}

theorem sent_update (h : x.sent = true) :
    (a.update i x).sent = true := (a.update_frame i x).2.2.2.2.1 h

theorem acked_of_update (h : (a.update i x).acked = false) : x.acked = false := by
  refine Bool.eq_false_iff.mpr fun hx => ?_
  rw [(a.update_frame i x).2.2.2.2.2 hx] at h
  cases h

theorem under_of_update {j : Nat} (h : (a.update i x).under j = true) : x.under j = true := by
  obtain ⟨hc, hs⟩ := under_iff.mp h
  refine under_iff.mpr ⟨(a.update_call i x).symm.trans hc, Bool.eq_false_iff.mpr fun hx => ?_⟩
  rw [sent_update hx] at hs
  cases hs

theorem update_other (h : x.under i = false) :
    (a.update i x).wire = x.wire ∧ (a.update i x).stored = x.stored ∧ (a.update i x).sent = x.sent
      ∧ (a.update i x).acks = x.acks := by
  cases a with
  | acks =>
    simp only [update]
    split <;> simp
  | quiet | numbers => exact ⟨rfl, rfl, rfl, rfl⟩
  | drains | builds | stores | sends => simp [update, h]

theorem under_update (h : x.under i = false) (j : Nat) : (a.update i x).under j = x.under j := by
  unfold Issue.under
  rw [update_call, (update_other h).2.2.1]

end Update

theorem call_of_mem_issue {a : SendAct} {i : Nat} {y : Issue} (h : y ∈ a.issue i) :
    y.call = i ∧ y.sent = false := by
  cases a <;> simp only [issue, List.not_mem_nil, List.mem_singleton] at h
  subst h
  exact ⟨rfl, rfl⟩

end SendAct

/-- What the record says of the packet a goroutine has under way. -/
def InHand : Hand → Issue → Prop
  | .free, _ | .asks, _ | .taken _, _ => False
  | .numbered idx, x => x.slot = idx ∧ x.stored = false
  | .built idx wire, x => x.slot = idx ∧ x.wire = some wire
  | .sending wire, x => x.wire = some wire
  | .done, _ => True

theorem inHand_update (hx : x.under i = false) (h : Hand) :
    InHand h (a.update i x) ↔ InHand h x := by
  obtain ⟨hw, hst, -⟩ := SendAct.update_other (a := a) hx
  cases h <;> simp only [InHand, hw, hst, SendAct.update_slot]

/-- The record agrees with where the goroutines are. -/
structure CallInv (s : SendLog) : Prop where
  calls : ∀ x ∈ s.issued, x.call < s.node.tasks.length
  under : ∀ {i t}, s.node.tasks[i]? = some t → ∀ x ∈ s.issued, x.under i = true → InHand (hand t) x
  sent : ∀ x ∈ s.issued, x.sent = true → ∃ w, x.wire = some w ∧ w ∈ handedIn s.node.hist

theorem SlotMove.inHand (hm : SlotMove r es h a r' h') (hx : x.under i = true) (hin : InHand h x)
    (hx' : (a.update i x).under i = true) : InHand h' (a.update i x) := by
  cases hm with
  | waits hh => rcases hh with rfl | rfl <;> exact hin.elim
  | ends => trivial
  | bare | takes | numbers | acks => exact hin.elim
  | drains => simpa [SendAct.update, hx, InHand] using hin
  | builds => simpa [SendAct.update, hx, InHand] using hin.1
  | stores => simpa [SendAct.update, hx, InHand] using hin.2
  | sends => simp [SendAct.update, hx, under_iff] at hx'

theorem SlotMove.inHand_issue (hm : SlotMove r es h a r' h') (hx : x ∈ a.issue i) :
    InHand h' x := by
  cases hm with
  | numbers =>
    rw [SendAct.issue, List.mem_singleton] at hx
    subst hx
    exact ⟨rfl, rfl⟩
  | _ => cases hx

theorem SlotMove.handed (hm : SlotMove r es h a r' h') (hx : x.under i = true) (hin : InHand h x)
    (hx' : (a.update i x).sent = true) : ∃ w, (a.update i x).wire = some w ∧ w ∈ handedIn es := by
  have hns := (under_iff.mp hx).2
  cases hm with
  | sends _ hw => exact ⟨_, by simpa [SendAct.update, hx, InHand] using hin, hw⟩
  | acks => exact hin.elim
  | _ => simp [SendAct.update, hx, hns] at hx'

theorem callInv_start (localSID remoteSID : SessionID) (wrapper : Wrapper) (keyID : UInt8) :
    CallInv (SendLog.start localSID remoteSID wrapper keyID) :=
  ⟨fun _ h => absurd h List.not_mem_nil, fun _ _ h => absurd h List.not_mem_nil,
    fun _ h => absurd h List.not_mem_nil⟩

/-- Every step keeps the record of the calls. -/
theorem callInv_step (hs : CallInv s) (h : LogStep s input s') : CallInv s' := by
  cases h with
  | calls ts es htasks _ hhist _ _ hx =>
    refine ⟨?_, ?_, ?_⟩
    · intro x hxi
      rw [hx] at hxi
      rw [htasks, List.length_append]
      exact Nat.lt_of_lt_of_le (hs.calls x hxi) (Nat.le_add_right _ _)
    · intro i t hi x hxi hu
      rw [hx] at hxi
      -- the goroutines that start have no packet yet
      have hlt := hs.calls x hxi
      rw [(under_iff.mp hu).1] at hlt
      rw [htasks, List.getElem?_append_left hlt] at hi
      exact hs.under hi x hxi hu
    · intro x hxi hsent
      rw [hx] at hxi
      obtain ⟨w, hw, hh⟩ := hs.sent x hxi hsent
      refine ⟨w, hw, ?_⟩
      rw [hhist, handedIn_append]
      exact List.mem_append_left _ hh
  | runs i _ t t' es a _ hi htasks hhist hm hx =>
    have hlt := (List.getElem?_eq_some_iff.mp hi).1
    refine ⟨?_, ?_, ?_⟩
    · intro y hy
      rw [htasks, List.length_set]
      rw [hx] at hy
      rcases SendAct.mem_apply.mp hy with ⟨x, hxi, rfl⟩ | hnew
      · rw [SendAct.update_call]
        exact hs.calls x hxi
      · rw [(SendAct.call_of_mem_issue hnew).1]
        exact hlt
    · intro j u hj y hy hu
      rw [htasks] at hj
      rw [hx] at hy
      rcases SendAct.mem_apply.mp hy with ⟨x, hxi, rfl⟩ | hnew
      · have hxu := SendAct.under_of_update hu
        rcases getElem?_set_cases hj with ⟨rfl, rfl⟩ | ⟨hne, hj⟩
        · exact hm.inHand hxu (hs.under hi x hxi hxu) hu
        · exact (inHand_update (under_other hxu hne) _).mpr (hs.under hj x hxi hxu)
      · rcases getElem?_set_cases hj with ⟨rfl, rfl⟩ | ⟨hne, -⟩
        · exact hm.inHand_issue hnew
        · have hcall := (under_iff.mp hu).1
          exact absurd ((SendAct.call_of_mem_issue hnew).1.symm.trans hcall) (Ne.symm hne)
    · intro y hy hsent
      rw [hx] at hy
      rw [hhist, handedIn_append]
      rcases SendAct.mem_apply.mp hy with ⟨x, hxi, rfl⟩ | hnew
      · cases hu : x.under i with
        | true =>
          obtain ⟨w, hw, hh⟩ := hm.handed hu (hs.under hi x hxi hu) hsent
          exact ⟨w, hw, List.mem_append_right _ hh⟩
        | false =>
          obtain ⟨hw, -, hsn, -⟩ := SendAct.update_other (a := a) hu
          obtain ⟨w, hxw, hh⟩ := hs.sent x hxi (hsn.symm.trans hsent)
          exact ⟨w, hw.trans hxw, List.mem_append_left _ hh⟩
      · rw [(SendAct.call_of_mem_issue hnew).2] at hsent
        cases hsent

end GoVpn.Proof
