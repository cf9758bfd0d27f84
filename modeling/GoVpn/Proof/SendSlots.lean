import GoVpn.Proof.CtrlSender
import GoVpn.Proof.RetransmitDrain
import GoVpn.Proof.SendLog

/-!
# Senders and their slots

`Next` finds a free slot and `MarkActive` takes it, and between the two any other goroutine may run.
Two that send at once can be given the same slot: the second `MarkActive` overwrites the first
packet's ID, and whichever `SetPayload` comes last leaves its datagram under the other's ID.

Nothing is overwritten as long as `Next` gives out no slot that is in another goroutine's hand. Even
then an entry is due from `MarkActive` on, while its payload is what the slot held before until
`SetPayload`, and for good when `Wrap` fails.
-/

namespace GoVpn.Proof

open GoVpn.Control Tally

/-- `Next` gives out no slot that another goroutine has in hand. -/
def SlotUntaken (n : Node) : Input → Prop
  | .run i _ => ∀ t ∈ n.tasks[i]?, hand t = .asks →
      ∀ idx ∈ n.conn.sendRel.next, ∀ u ∈ n.tasks, (hand u).slot ≠ some idx
  | _ => True

instance decidableSlotUntaken (n : Node) : (input : Input) → Decidable (SlotUntaken n input)
  | .run i _ =>
    inferInstanceAs (Decidable (∀ t ∈ n.tasks[i]?, hand t = .asks →
      ∀ idx ∈ n.conn.sendRel.next, ∀ u ∈ n.tasks, (hand u).slot ≠ some idx))
  | .write _ | .sendReset _ | .deliver _ _ | .receive _ _ | .retransmit _ | .read _ | .close =>
    .isTrue trivial

/-- The window still has the packet, with its datagram once that is stored. -/
def Keeps (r : Reliable) (x : Issue) : Prop :=
  ∃ p, slotAt r x.slot = some (x.id, p) ∧ (x.stored = true → x.wire = some p)

/-- No sender has overwritten another's packet. -/
structure Unclobbered (s : SendLog) : Prop where
  /-- `MarkActive` finds its entry inactive. -/
  marks : ∀ t ∈ s.node.tasks, ∀ idx, hand t = .taken idx → slotAt s.node.conn.sendRel idx = none
  /-- A packet ID stays active, with its datagram, until it is acknowledged. -/
  kept : ∀ x ∈ s.issued, x.acked = false → Keeps s.node.conn.sendRel x

structure SlotsInv (s : SendLog) : Prop where
  call : CallInv s
  alone : ∀ {i j : Nat} {t u : Task} {idx : Nat}, s.node.tasks[i]? = some t →
    s.node.tasks[j]? = some u →
    (hand t).slot = some idx → (hand u).slot = some idx → i = j
  /-- What is in a slot that a goroutine has in hand is the packet it has under way. -/
  mine : ∀ {i : Nat} {t : Task} {idx : Nat}, s.node.tasks[i]? = some t → (hand t).slot = some idx →
    ∀ x ∈ s.issued, x.acked = false → x.slot = idx → x.under i = true
  free : ∀ {i : Nat} {t : Task} {idx : Nat}, s.node.tasks[i]? = some t → hand t = .taken idx →
    FreeSlot s.node.conn.sendRel idx
  kept : ∀ x ∈ s.issued, x.acked = false → Keeps s.node.conn.sendRel x
  covered : ∀ {idx : Nat} {id : PacketID} {p : Bytes}, slotAt s.node.conn.sendRel idx =
    some (id, p) →
    ∃ x ∈ s.issued, x.acked = false ∧ x.slot = idx ∧ x.id = id

theorem SlotsInv.unclobbered {s : SendLog} (h : SlotsInv s) : Unclobbered s := by
  refine ⟨fun t ht idx hh => ?_, h.kept⟩
  obtain ⟨i, hi⟩ := List.mem_iff_getElem?.mp ht
  exact (h.free hi hh).slotAt

/-! ## One move -/

section Move

variable {r r' : Reliable} {es : List Event} {h h' : Hand} {a : SendAct} {i : Nat}

variable {idx : Nat}

theorem SlotMove.slot (hm : SlotMove r es h a r' h') (hs : h'.slot = some idx) :
    h.slot = some idx ∨ h = .asks ∧ r.next = some idx := by
  cases hm with
  | waits _ hh => rcases hh with rfl | rfl <;> cases hs
  | takes hn =>
    obtain rfl := Option.some.inj hs
    exact .inr ⟨rfl, hn⟩
  | sends hh => rcases hh with (rfl | rfl) | rfl <;> cases hs
  | numbers | drains | builds => exact .inl hs
  | ends | bare | stores | acks => cases hs

theorem SlotMove.taken (hm : SlotMove r es h a r' (.taken idx)) : FreeSlot r' idx := by
  cases hm with
  | waits _ hh => rcases hh with hh | hh <;> cases hh
  | takes hn => exact next_freeSlot hn
  | sends hh => rcases hh with (hh | hh) | hh <;> cases hh

section

variable (hm : SlotMove r es h a r' h')

include hm

theorem SlotMove.under (hs : h'.slot = some idx) {x : Issue} (hx : x.under i = true) :
    (a.update i x).under i = true := by
  cases hm with
  | sends hh => rcases hh with (rfl | rfl) | rfl <;> cases hs
  | stores | acks => cases hs
  | drains | builds =>
    simp only [SendAct.update, hx, if_pos]
    exact under_iff.mpr (under_iff.mp hx)
  | _ => exact hx

theorem SlotMove.freeSlot (hne : h ≠ .taken idx) (hf : FreeSlot r idx) : FreeSlot r' idx := by
  cases hm with
  | numbers => exact hf.markActive fun he => hne (he ▸ rfl)
  | stores => exact hf.setPayload _ _
  | acks => exact hf.ack _
  | _ => exact hf

theorem SlotMove.keeps {x : Issue} (hfree : ∀ idx, h = .taken idx → FreeSlot r idx)
    (hin : x.under i = true → InHand h x)
    (hmine : ∀ idx, h.slot = some idx → x.slot = idx → x.under i = true)
    (hlive : (a.update i x).acked = false) (hk : Keeps r x) : Keeps r' (a.update i x) := by
  obtain ⟨p, hp, hw⟩ := hk
  cases hm with
  | numbers =>
    rename_i idx chunk
    obtain ⟨p', hp'⟩ := slotAt_markActive (hfree idx rfl) x.slot
    -- the slot that is marked held nothing
    have hne : idx ≠ x.slot := by
      rintro rfl
      rw [(hfree _ rfl).slotAt] at hp
      cases hp
    rw [if_neg hne] at hp'
    exact ⟨p, hp'.trans hp, hw⟩
  | drains | sends =>
    simp only [SendAct.update]
    split <;> exact ⟨p, hp, hw⟩
  | builds =>
    simp only [SendAct.update]
    split
    · rename_i hx
      exact ⟨p, hp, fun hst => absurd ((hin hx).2.symm.trans hst) (by simp)⟩
    · exact ⟨p, hp, hw⟩
  | stores =>
    rename_i idx wire
    by_cases hslot : x.slot = idx
    · have hx := hmine idx rfl hslot
      refine ⟨wire, ?_, fun _ => ?_⟩
      · simp [SendAct.update, hx, slotAt_setPayload, hslot, hslot ▸ hp]
      · simpa [SendAct.update, hx] using (hin hx).2
    · have hx : x.under i = false := Bool.eq_false_iff.mpr fun hx => hslot (hin hx).1
      refine ⟨p, ?_, ?_⟩
      · simp [SendAct.update, hx, slotAt_setPayload, Ne.symm hslot, hp]
      · simpa [SendAct.update, hx] using hw
  | acks =>
    rename_i ids
    simp only [SendAct.update] at hlive ⊢
    split at hlive
    · cases hlive
    · rename_i hids
      rw [if_neg hids]
      exact ⟨p, slotAt_ack.mpr ⟨hp, by simpa using hids⟩, hw⟩
  | _ => exact ⟨p, hp, hw⟩

theorem SlotMove.keeps_issue (hfree : ∀ idx, h = .taken idx → FreeSlot r idx) {x : Issue}
    (hx : x ∈ a.issue i) : Keeps r' x ∧ h.slot = some x.slot := by
  cases hm with
  | numbers =>
    rename_i idx chunk
    rw [SendAct.issue, List.mem_singleton] at hx
    subst hx
    obtain ⟨p, hp⟩ := slotAt_markActive (hfree idx rfl) idx
    rw [if_pos rfl] at hp
    exact ⟨⟨p, hp, fun hst => absurd hst (by simp)⟩, rfl⟩
  | _ => cases hx

/-- What is in a slot was there before, or has just been given its packet ID. -/
theorem SlotMove.slotAt_cases (hfree : ∀ idx, h = .taken idx → FreeSlot r idx) {id : PacketID}
    {p : Bytes} (hp : slotAt r' idx = some (id, p)) :
    (∃ p', slotAt r idx = some (id, p') ∧ ∀ x : Issue, x.id = id → x.acked = false →
        (a.update i x).acked = false)
      ∨ ∃ x ∈ a.issue i, x.acked = false ∧ x.slot = idx ∧ x.id = id := by
  cases hm with
  | numbers =>
    rename_i j chunk
    obtain ⟨p', hp'⟩ := slotAt_markActive (hfree j rfl) idx
    rw [hp] at hp'
    by_cases hj : j = idx
    · rw [if_pos hj, Option.some.injEq, Prod.mk.injEq] at hp'
      exact .inr ⟨_, List.mem_singleton.mpr rfl, rfl, hj, hp'.1.symm⟩
    · rw [if_neg hj] at hp'
      exact .inl ⟨p, hp'.symm, fun _ _ hx => hx⟩
  | stores =>
    rename_i j wire
    refine .inl ?_
    rw [slotAt_setPayload] at hp
    have hacked : ∀ x : Issue, x.id = id → x.acked = false →
        (SendAct.stores.update i x).acked = false := by
      intro x _ hx
      simp only [SendAct.update]
      split <;> exact hx
    split at hp
    · obtain ⟨y, hy, he⟩ := Option.map_eq_some_iff.mp hp
      rw [Prod.mk.injEq] at he
      exact ⟨y.2, by rw [hy, ← he.1], hacked⟩
    · exact ⟨p, hp, hacked⟩
  | acks =>
    rename_i ids
    obtain ⟨hp, hids⟩ := slotAt_ack.mp hp
    refine .inl ⟨p, hp, fun x hx ha => ?_⟩
    simp only [SendAct.update]
    rw [if_neg (by simpa [hx] using hids)]
    exact ha
  | drains | builds | sends =>
    refine .inl ⟨p, hp, fun x _ hx => ?_⟩
    simp only [SendAct.update]
    split <;> exact hx
  | _ => exact .inl ⟨p, hp, fun _ _ hx => hx⟩

end

end Move

/-! ## Runs -/

theorem slotsInv_start (localSID remoteSID : SessionID) (wrapper : Wrapper) (keyID : UInt8) :
    SlotsInv (SendLog.start localSID remoteSID wrapper keyID) where
  call := callInv_start _ _ _ _
  alone h := absurd (List.mem_of_getElem? h) List.not_mem_nil
  mine h := absurd (List.mem_of_getElem? h) List.not_mem_nil
  free h := absurd (List.mem_of_getElem? h) List.not_mem_nil
  kept _ h := absurd h List.not_mem_nil
  covered h := absurd ((slotAt_new _ _).symm.trans h) (by simp)

theorem slotsInv_calls {s s' : SendLog} (hs : SlotsInv s) (hcall : CallInv s') {ts : List Task}
    (htasks : s'.node.tasks = s.node.tasks ++ ts) (hts : ∀ t ∈ ts, (hand t).slot = none)
    (hslots : ∀ idx, slotAt s'.node.conn.sendRel idx = slotAt s.node.conn.sendRel idx)
    (hfree : ∀ idx, FreeSlot s.node.conn.sendRel idx → FreeSlot s'.node.conn.sendRel idx)
    (hx : s'.issued = s.issued) : SlotsInv s' := by
  have old : ∀ {i : Nat} {t : Task} {idx : Nat}, s'.node.tasks[i]? = some t →
    (hand t).slot = some idx →
      s.node.tasks[i]? = some t := by
    intro i t idx hi hslot
    rw [htasks] at hi
    by_cases hlt : i < s.node.tasks.length
    · rwa [List.getElem?_append_left hlt] at hi
    · rw [List.getElem?_append_right (Nat.le_of_not_lt hlt)] at hi
      rw [hts t (List.mem_of_getElem? hi)] at hslot
      cases hslot
  refine ⟨hcall, ?_, ?_, ?_, ?_, ?_⟩
  · intro i j t u idx hi hj hti huj
    exact hs.alone (old hi hti) (old hj huj) hti huj
  · intro i t idx hi hti x hxi
    rw [hx] at hxi
    exact hs.mine (old hi hti) hti x hxi
  · intro i t idx hi hti
    exact hfree idx (hs.free (old hi (congrArg Hand.slot hti)) hti)
  · intro x hxi ha
    rw [hx] at hxi
    obtain ⟨p, hp, hw⟩ := hs.kept x hxi ha
    exact ⟨p, (hslots _).trans hp, hw⟩
  · intro idx id p hp
    rw [hslots] at hp
    rw [hx]
    exact hs.covered hp

section Run

variable {s s' : SendLog} {i : Nat} {t t' : Task} {es : List Event} {a : SendAct} (hs : SlotsInv s)
  (hi : s.node.tasks[i]? = some t)
  (hm : SlotMove s.node.conn.sendRel es (hand t) a s'.node.conn.sendRel (hand t'))

include hi hm in
theorem SlotsInv.given {env : Env} (hc : SlotUntaken s.node (.run i env)) {idx : Nat}
    (h' : (hand t').slot = some idx) (hne : (hand t).slot ≠ some idx) :
    FreeSlot s.node.conn.sendRel idx ∧ ∀ u ∈ s.node.tasks, (hand u).slot ≠ some idx := by
  rcases hm.slot h' with h0 | ⟨hasks, hn⟩
  · exact absurd h0 hne
  · exact ⟨next_freeSlot hn, hc t hi hasks idx hn⟩

include hs hi hm in
theorem SlotsInv.only {env : Env} (hc : SlotUntaken s.node (.run i env)) {j : Nat} {u : Task}
    {idx : Nat} (hj : s.node.tasks[j]? = some u) (huj : (hand u).slot = some idx)
    (h' : (hand t').slot = some idx) : j = i := by
  by_cases h0 : (hand t).slot = some idx
  · exact hs.alone hj hi huj h0
  · exact absurd huj ((SlotsInv.given hi hm hc h' h0).2 u (List.mem_of_getElem? hj))

include hs hi hm in
/-- What is in the slots in hand is under way, after the move as before. -/
theorem SlotsInv.mine_run {env : Env} (hc : SlotUntaken s.node (.run i env)) {j : Nat} {u : Task}
    {idx : Nat} (hj : (s.node.tasks.set i t')[j]? = some u) (huj : (hand u).slot = some idx)
    {y : Issue} (hy : y ∈ a.apply i s.issued) (hya : y.acked = false) (hys : y.slot = idx) :
    y.under j = true := by
  rcases SendAct.mem_apply.mp hy with ⟨x, hxi, rfl⟩ | hyn
  · have hxa := SendAct.acked_of_update hya
    rw [SendAct.update_slot] at hys
    rcases getElem?_set_cases hj with ⟨rfl, rfl⟩ | ⟨hne, hj⟩
    · refine hm.under huj (hs.mine hi ?_ x hxi hxa hys)
      -- were the slot just given out, it would be free
      by_contra h0
      obtain ⟨p, hp, -⟩ := hs.kept x hxi hxa
      rw [hys, (SlotsInv.given hi hm hc huj h0).1.slotAt] at hp
      cases hp
    · have hxu := hs.mine hj huj x hxi hxa hys
      exact (SendAct.under_update (under_other hxu hne) j).trans hxu
  · have hslot := (hm.keeps_issue (fun idx => hs.free hi) hyn).2
    rw [hys] at hslot
    rcases getElem?_set_cases hj with ⟨rfl, rfl⟩ | ⟨hne, hj⟩
    · exact under_iff.mpr (SendAct.call_of_mem_issue hyn)
    · exact absurd (hs.alone hj hi huj hslot) hne

end Run

/-- A step that takes no slot twice keeps the senders apart. -/
theorem slotsInv_step {s s' : SendLog} {input : Input} (hs : SlotsInv s)
    (hc : SlotUntaken s.node input) (h : LogStep s input s') : SlotsInv s' := by
  have hcall := callInv_step hs.call h
  cases h with
  | calls ts es htasks hts _ hslots hfree hx =>
    exact slotsInv_calls hs hcall htasks hts hslots hfree hx
  | runs i env t t' es a hin hi htasks _ hm hx =>
    subst hin
    have hfree : ∀ idx, hand t = .taken idx → FreeSlot s.node.conn.sendRel idx :=
      fun idx => hs.free hi
    refine ⟨hcall, ?_, ?_, ?_, ?_, ?_⟩
    · intro j k u v idx hj hk huj hvk
      rw [htasks] at hj hk
      rcases getElem?_set_cases hj with ⟨rfl, rfl⟩ | ⟨-, hj'⟩
      · rcases getElem?_set_cases hk with ⟨rfl, -⟩ | ⟨-, hk'⟩
        · rfl
        · exact (hs.only hi hm hc hk' hvk huj).symm
      · rcases getElem?_set_cases hk with ⟨rfl, rfl⟩ | ⟨-, hk'⟩
        · exact hs.only hi hm hc hj' huj hvk
        · exact hs.alone hj' hk' huj hvk
    · intro j u idx hj huj y hy hya hys
      rw [htasks] at hj
      rw [hx] at hy
      exact hs.mine_run hi hm hc hj huj hy hya hys
    · intro j u idx hj huj
      rw [htasks] at hj
      rcases getElem?_set_cases hj with ⟨rfl, rfl⟩ | ⟨hne, hj⟩
      · rw [huj] at hm
        exact hm.taken
      · refine hm.freeSlot (fun he => hne ?_) (hs.free hj huj)
        exact hs.alone hj hi (congrArg Hand.slot huj) (congrArg Hand.slot he)
    · intro y hy hya
      rw [hx] at hy
      rcases SendAct.mem_apply.mp hy with ⟨x, hxi, rfl⟩ | hyn
      · have hxa := SendAct.acked_of_update hya
        exact hm.keeps hfree (hs.call.under hi x hxi)
          (fun idx h0 hxs => hs.mine hi h0 x hxi hxa hxs) hya
          (hs.kept x hxi hxa)
      · exact (hm.keeps_issue hfree hyn).1
    · intro idx id p hp
      rw [hx]
      rcases hm.slotAt_cases (i := i) hfree hp with ⟨p', hp', hacked⟩ | ⟨x, hxn, hxa, hxs, hxid⟩
      · obtain ⟨x, hxi, hxa, hxs, hxid⟩ := hs.covered hp'
        exact ⟨_, SendAct.mem_apply.mpr (.inl ⟨x, hxi, rfl⟩), hacked x hxid hxa,
          (a.update_slot i x).trans hxs, (a.update_id i x).trans hxid⟩
      · exact ⟨x, SendAct.mem_apply.mpr (.inr hxn), hxa, hxs, hxid⟩

section Runs

variable (K : Crypto) (localSID remoteSID : SessionID) (wrapper : Wrapper) (keyID : UInt8)
  (ins : List Input)

theorem slotsInv_always (h : Machine.Along (Node.step K) SlotUntaken
    (Node.start localSID remoteSID wrapper keyID) ins) :
    Machine.Always (SendLog.step K) SlotsInv
      (SendLog.start localSID remoteSID wrapper keyID) ins := by
  refine Machine.always_invariant (P := fun s a => SlotUntaken s.node a) ?_
    (slotsInv_start _ _ _ _) ?_
  · intro s input hs hc
    exact slotsInv_step hs hc (logStep K s input)
  · exact (Machine.along_view SendLog.node fun _ _ => rfl).mpr h

/-- So does a run. -/
theorem slotsInv_run (h : Machine.Along (Node.step K) SlotUntaken
    (Node.start localSID remoteSID wrapper keyID) ins) :
    SlotsInv (Machine.run (SendLog.step K) (SendLog.start localSID remoteSID wrapper keyID) ins) :=
  Machine.always_run (slotsInv_always K localSID remoteSID wrapper keyID ins h)

/--
**Concurrent senders do not clobber each other**, as long as `Next` gives out no
slot that another goroutine has in hand: `MarkActive` always finds its entry
inactive, and every packet ID given out stays active, with the datagram built for
it, until it is acknowledged.
-/
theorem senders_keep_apart (h : Machine.Along (Node.step K) SlotUntaken
    (Node.start localSID remoteSID wrapper keyID) ins) :
    Machine.Always (SendLog.step K) Unclobbered
      (SendLog.start localSID remoteSID wrapper keyID) ins :=
  Machine.always_mono (fun _ hs => hs.unclobbered)
    (slotsInv_always K localSID remoteSID wrapper keyID ins h)

end Runs

/-! ## One writer -/

/-- The application sends from one goroutine, and hands the peer's packets to `Deliver`. -/
def OneWriter (n : Node) : Input → Prop
  | .write _ => Idle n
  | .sendReset op => Idle n ∧ validOpcode op = true
  | .deliver _ after => after = .flush
  | .receive _ after => after.getD .flush = .flush
  | _ => True

variable {K : Crypto} {n : Node}

/-- It never has two sends under way. -/
theorem oneSender_step (h : OneSender n) {input : Input} (hw : OneWriter n input) :
    OneSender (n.step K input) := by
  have hs := stepped K n input
  generalize n.step K input = n' at hs
  cases hs with
  | stays => exact h
  | @runs i env t hi =>
    obtain ⟨hmove, hok⟩ := exec_sendMove K n.conn env (h.ok t (List.mem_of_getElem? hi))
    rw [run_eq hi]
    exact h.set hi hmove hok
  | write => exact h.begin hw (writerOk_write _)
  | sendReset => exact h.begin hw.1 ⟨rfl, hw.2⟩
  | deliver =>
    refine h.around fun t ht => ?_
    rw [List.mem_singleton.mp ht]
    exact ⟨hw, rfl⟩
  | receive _ hts =>
    refine h.around fun t ht => ?_
    rcases hts with rfl | ⟨cp, after, -, rfl, rfl⟩
    · cases ht
    · rw [List.mem_singleton.mp ht]
      exact ⟨hw, rfl⟩
  | retransmit =>
    refine h.around fun t ht => ?_
    rw [List.mem_singleton.mp ht]
    exact ⟨trivial, rfl⟩
  | read | close => exact h.around (by simp)

theorem unsent_of_slot {u : Task} {idx : Nat} (h : (hand u).slot = some idx) : unsent u ≠ none := by
  cases u with
  | mark | setPayload => simp [unsent]
  | build slot | wrap slot =>
    cases slot with
    | none => cases h
    | some => simp [unsent]
  | _ => cases h

theorem OneSender.slotUntaken (h : OneSender n) (input : Input) : SlotUntaken n input := by
  cases input with
  | run i env =>
    intro t ht hasks idx _ u hu hslot
    cases t with
    | waitSlot =>
      obtain ⟨hlt, hself⟩ := List.getElem?_eq_some_iff.mp ht
      rw [← List.set_getElem_self hlt] at hu
      rcases others_idle h.one ht (by simp [unsent]) hu with rfl | hidle
      · rw [hself] at hslot
        cases hslot
      · exact unsent_of_slot hslot hidle
    | build slot | wrap slot => cases slot <;> cases hasks
    | _ => cases hasks
  | _ => trivial

theorem slotUntaken_of_oneWriter (localSID remoteSID : SessionID) (wrapper : Wrapper)
    (keyID : UInt8) {ins : List Input}
    (h : Machine.Along (Node.step K) OneWriter (Node.start localSID remoteSID wrapper keyID) ins) :
    Machine.Along (Node.step K) SlotUntaken (Node.start localSID remoteSID wrapper keyID) ins :=
  Machine.along_imp (I := OneSender) (fun _ _ hs hw => oneSender_step hs hw)
    (fun _ input hs _ => hs.slotUntaken input) ⟨Nat.zero_le _, by simp [Node.start]⟩ h

/-- Two `Write`s, the second asking for its slot while the first is about to wrap. -/
def writesInTurn : List Input :=
  [.write [1], .write [2], .run 0 calm, .run 0 calm, .run 0 calm, .run 1 calm, .run 1 calm,
    .run 0 calm, .run 1 calm, .run 0 calm, .run 1 calm, .run 1 calm]

/-- They get two slots, and the second packet's datagram is stored in its own. -/
theorem writes_in_turn_apart :
    Machine.Always (SendLog.step toyCrypto) Unclobbered
      (SendLog.start .zero .zero (toyWrapper true) 0)
        writesInTurn
      ∧ ((Machine.run (SendLog.step toyCrypto) (SendLog.start .zero .zero (toyWrapper true) 0)
          writesInTurn).issued.map fun x => (x.slot, x.id, x.stored)) =
            [(0, 0, true), (1, 1, true)] :=
  ⟨senders_keep_apart toyCrypto .zero .zero (toyWrapper true) 0 writesInTurn (by decide +kernel),
    by decide +kernel⟩

/-- Two `Write`s that both call `Next` before either calls `MarkActive`. -/
def slotShared : SendLog :=
  Machine.run (SendLog.step toyCrypto) (SendLog.start .zero .zero (toyWrapper true) 0)
    [.write [1], .write [2], .run 0 calm, .run 1 calm, .run 0 calm, .run 1 calm]

/-- The first packet's ID is gone from the window, and nobody acknowledged it. -/
theorem shared_slot_loses_packet :
    ¬ Unclobbered slotShared
      ∧ (slotShared.issued.map fun x => (x.slot, x.id, x.acked)) = [(0, 0, false), (0, 1, false)]
      ∧ slotShared.node.conn.sendRel.holds 0 = false := by
  refine ⟨fun h => ?_, by decide +kernel, by decide +kernel⟩
  obtain ⟨p, hp, -⟩ :=
    h.kept { call := 0, id := 0, slot := 0, chunk := [1] } (by decide +kernel) rfl
  cases hp

/-! ## What `Due` returns -/

/-- `SetPayload` is done for the entry that `Due` returns. -/
def DueStored (s : SendLog) (now : Int) : Prop :=
  ∀ d ∈ s.node.conn.sendRel.due now, ∀ x ∈ s.issued, x.acked = false → x.slot = d.1 →
    x.stored = true

/-- What `Due` returns is the datagram built for the packet ID it returns. -/
def DueRight (s : SendLog) (now : Int) : Prop :=
  ∀ d ∈ s.node.conn.sendRel.due now, ∃ x ∈ s.issued, x.acked = false
    ∧ d.2.entries[d.1]?.map Entry.packetID = some x.id ∧ x.wire = some (d.2.payloadAt d.1)

instance (s : SendLog) (now : Int) : Decidable (DueStored s now) :=
  inferInstanceAs (Decidable (∀ d ∈ s.node.conn.sendRel.due now, ∀ x ∈ s.issued, x.acked = false →
    x.slot = d.1 → x.stored = true))

instance (s : SendLog) (now : Int) : Decidable (DueRight s now) :=
  inferInstanceAs (Decidable (∀ d ∈ s.node.conn.sendRel.due now, ∃ x ∈ s.issued, x.acked = false
    ∧ d.2.entries[d.1]?.map Entry.packetID = some x.id ∧ x.wire = some (d.2.payloadAt d.1)))

theorem due_slotAt {r r' : Reliable} {now : Int} {idx : Nat} (h : r.due now = some (idx, r')) :
    ∃ e, r'.entries[idx]? = some e ∧ slotAt r idx = some (e.packetID, e.payload) := by
  rw [due_eq] at h
  obtain ⟨i, hi, he⟩ := Option.map_eq_some_iff.mp h
  obtain ⟨rfl, rfl⟩ := Prod.mk.injEq .. ▸ he
  obtain ⟨e, he, hd⟩ := (pickDue_picks now).some hi
  have ha : e.active = true := (Bool.and_eq_true_iff.mp hd).1
  refine ⟨e.backOff now, by simp [he], ?_⟩
  exact slotAt_eq_some.mpr ⟨e, he, ha, rfl, rfl⟩

/--
**The retransmitter sends the right bytes**, whatever one writer, the peer's
acknowledgements and other calls of `Due` did before, provided `SetPayload` is done
for the entry that `Due` returns.
-/
theorem retransmits_own_datagram (K : Crypto) (localSID remoteSID : SessionID) (wrapper : Wrapper)
    (keyID : UInt8) (ins : List Input) (now : Int)
    (h : Machine.Along (Node.step K) SlotUntaken (Node.start localSID remoteSID wrapper keyID) ins)
    (hst : DueStored
      (Machine.run (SendLog.step K) (SendLog.start localSID remoteSID wrapper keyID) ins) now) :
    DueRight (Machine.run (SendLog.step K) (SendLog.start localSID remoteSID wrapper keyID) ins)
      now := by
  have hs := slotsInv_run K localSID remoteSID wrapper keyID ins h
  rintro ⟨idx, r'⟩ hd
  obtain ⟨e, he, hslot⟩ := due_slotAt hd
  obtain ⟨x, hxi, hxa, hxs, hxid⟩ := hs.covered hslot
  obtain ⟨p, hp, hw⟩ := hs.kept x hxi hxa
  rw [hxs, hslot, Option.some.injEq, Prod.mk.injEq] at hp
  refine ⟨x, hxi, hxa, by simp [he, hxid], ?_⟩
  rw [hw (hst _ hd x hxi hxa hxs), Reliable.payloadAt, he, ← hp.2]
  rfl

/-- A packet is sent and the clock reaches its timeout. -/
theorem stored_datagram_resent :
    DueStored
      (Machine.run (SendLog.step toyCrypto)
        (SendLog.start .zero .zero (toyWrapper true) 0) sendOnce) 0
      ∧ DueRight
        (Machine.run (SendLog.step toyCrypto)
          (SendLog.start .zero .zero (toyWrapper true) 0) sendOnce) 0 :=
  ⟨by decide +kernel, retransmits_own_datagram toyCrypto .zero .zero (toyWrapper true) 0 sendOnce 0
    (by decide +kernel) (by decide +kernel)⟩

def ackOf (id : PacketID) : ControlPacket :=
  { opcode := opAckV1, keyID := 0, sessionID := .zero, acks := [id], remoteSessionID := .zero
    packetID := 0, payload := [] }

/-- A packet is sent and acknowledged, and `MarkActive` numbers the next one. -/
def markedAfterAck : SendLog :=
  Machine.run (SendLog.step toyCrypto) (SendLog.start .zero .zero (toyWrapper true) 0)
    (sendOnce ++ [.deliver (ackOf 0) .flush, .run 1 calm, .write [8], .run 2 calm, .run 2 calm])

/-- `Due` returns the first packet's datagram under the second's ID. -/
theorem stale_datagram_resent :
    ¬ DueRight markedAfterAck 0
      ∧ ∃ d ∈ markedAfterAck.node.conn.sendRel.due 0, d.2.entries[d.1]?.map Entry.packetID = some 1
        ∧ (markedAfterAck.issued.map fun x => (x.id, x.wire)) =
          [(0, some (d.2.payloadAt d.1)), (1, none)] := by
  refine ⟨by decide +kernel, ?_⟩
  decide +kernel

end GoVpn.Proof
