import GoVpn.Lib.SlidingWindow
import GoVpn.Proof.CtrlAck
import GoVpn.Proof.CtrlSender

/-!
# Two connections as a sliding-window link

The direction from one end `a` to the other end `b`, as the link of `SlidingWindow`: its messages
are the payloads `a` gave packet IDs to, its window is `a`'s send window, what it holds is in `b`'s
receive window.

A message is on its way while a goroutine of `a` is making its datagram, while the datagram's
sequence number is not yet taken by `b`, and while a goroutine of `b` is bringing it to the receive
window. Copies do not count, as `b` takes a sequence number once. Acknowledgements are on their way
in the same places, the other way round.
-/

namespace GoVpn.Proof

open GoVpn.Control Tally

/-! ## What is on its way -/

/-- The packet a goroutine of the sender is making a datagram of. -/
def carries (x : PacketID × Bytes) : Task → Nat
  | .build (some _) _ id payload _ => if (id, payload) = x then 1 else 0
  | .wrap (some _) cp _ => if (cp.packetID, cp.payload) = x then 1 else 0
  | _ => 0

/-- The packet in a datagram that the receiver has not taken. -/
def wireCarries (taken : List (BitVec 32)) (x : PacketID × Bytes) (w : ControlPacket × Bytes) :
    Nat :=
  if w.1.opcode ≠ opAckV1 ∧ packetSeq w.2 ∉ taken ∧ (w.1.packetID, w.1.payload) = x then 1 else 0

/-- The packet a goroutine of the receiver is about to put into the window. -/
def brings (x : PacketID × Bytes) : Task → Nat
  | .absorb cp _ => if cp.opcode ≠ opAckV1 ∧ (cp.packetID, cp.payload) = x then 1 else 0
  | .put cp _ => if (cp.packetID, cp.payload) = x then 1 else 0
  | _ => 0

/-- The acknowledgements a goroutine of the receiver has in hand. -/
def acksInHand (id : PacketID) : Task → Nat
  | .addAck id' _ => if id' = id then 1 else 0
  | .wrap _ cp _ => cp.acks.count id
  | _ => 0

/-- The acknowledgements in a datagram that the sender has not taken. -/
def wireAcks (taken : List (BitVec 32)) (id : PacketID) (w : ControlPacket × Bytes) : Nat :=
  if packetSeq w.2 ∉ taken then w.1.acks.count id else 0

/-- The acknowledgements a goroutine of the sender is about to apply. -/
def acksArrived (id : PacketID) : Task → Nat
  | .absorb cp _ => cp.acks.count id
  | _ => 0

def link (a b : Node) : SlidingWindow.Link 32 Bytes where
  log := markedIn a.hist
  out := consumedIn b.hist
  window id := a.conn.sendRel.holds id = true
  held := held b.conn.recvRel
  flight x := tally (carries x) a.tasks + tally (wireCarries (tookIn b.hist) x) (wrappedIn a.hist)
    + tally (brings x) b.tasks
  acks id := b.conn.acks.count id + tally (acksInHand id) b.tasks
    + tally (wireAcks (tookIn a.hist) id) (wrappedIn b.hist) + tally (acksArrived id) a.tasks

/-- One step of the link. -/
abbrev LinkStep : SlidingWindow.Link 32 Bytes → SlidingWindow.Link 32 Bytes → Prop :=
  SlidingWindow.Step nSendBuffers nRecBuffers

/-! ## The sender's goroutines -/

variable {i : Nat} {es : List Event} {cp : ControlPacket}

variable {a b : Node}

variable {K : Crypto} {after : After} {c : Conn} {t t' : Task}

theorem link_sender_quiet (hi : a.tasks[i]? = some t) (hm : markedIn es = []) (ht : tookIn es = [])
    (hh : ∀ id, c.sendRel.holds id = a.conn.sendRel.holds id)
    (hfl : ∀ x, carries x t' + tally (wireCarries (tookIn b.hist) x) (wrappedIn es) ≤ carries x t)
    (hack : ∀ id, acksArrived id t' ≤ acksArrived id t) :
    LinkStep (link a b)
      (link { conn := c, tasks := a.tasks.set i t', hist := a.hist ++ es } b) := by
  refine .quiet (by simp [link, hm]) rfl (fun id => by simp [link, hh]) (fun x => rfl) ?_ ?_
  · intro x
    have h1 := tally_set (carries x) (y := t') hi
    have h2 := hfl x
    simp only [link, wrappedIn_append, tally_append]
    omega
  · intro id
    have h1 := tally_set (acksArrived id) (y := t') hi
    have h2 := hack id
    simp only [link, tookIn_append, ht, List.append_nil]
    omega

theorem rests_weights (h : Rests t) :
    (∀ x, carries x t = 0) ∧ (∀ id, acksArrived id t = 0)
      ∧ (∀ x, brings x t = 0) ∧ (∀ id, acksInHand id t = 0) := by
  cases t with
  | build slot op id payload rest =>
    obtain ⟨rfl, -⟩ := h
    exact ⟨fun _ => rfl, fun _ => rfl, fun _ => rfl, fun _ => rfl⟩
  | wrap | absorb | put | addAck => exact h.elim
  | _ => exact ⟨fun _ => rfl, fun _ => rfl, fun _ => rfl, fun _ => rfl⟩

/-- The send window and the goroutine that has been given a slot of it. -/
structure SlotInv (n : Node) : Prop where
  next : n.conn.sendRel.packetID = BitVec.ofNat 32 (markedIn n.hist).length
  size : n.conn.sendRel.size = nSendBuffers
  /-- The slot is still free, and there is room in the window for one more ID. -/
  slot : ∀ idx op payload rest, Task.mark idx op payload rest ∈ n.tasks →
    FreeSlot n.conn.sendRel idx
      ∧ ∀ id, n.conn.sendRel.holds id = true → behind n.conn.sendRel id < nSendBuffers

theorem link_mark (hs : SlotInv a) {idx : Nat} {op : Opcode} {payload : Bytes}
    {rest : Option Bytes} (hi : a.tasks[i]? = some (.mark idx op payload rest)) :
    LinkStep (link a b)
      (link { conn := { a.conn with sendRel := a.conn.sendRel.markActive idx }
              tasks := a.tasks.set i (.build (some idx) op a.conn.sendRel.packetID payload rest)
              hist := a.hist ++ [.marked payload] } b) := by
  obtain ⟨⟨e, he, hfree⟩, hroom⟩ := hs.slot idx op payload rest (List.mem_of_getElem? hi)
  have hnext : BitVec.ofNat 32 (link a b).log.length = a.conn.sendRel.packetID := hs.next.symm
  refine .send payload ?_ (by simp [link, markedIn]) rfl ?_ (fun x => rfl) ?_ ?_
  · intro id hid
    rw [hnext]; exact hroom id hid
  · intro id
    rw [hnext]; exact holds_markActive he hfree id
  · intro x
    rw [hnext]
    have h1 := tally_set (carries x)
      (y := .build (some idx) op a.conn.sendRel.packetID payload rest) hi
    have h3 : carries x (.build (some idx) op a.conn.sendRel.packetID payload rest)
        = if x = (a.conn.sendRel.packetID, payload) then 1 else 0 := by
      simp only [carries, eq_comm]
    have h4 : wrappedIn [.marked payload] = [] := rfl
    simp only [link, wrappedIn_append, h4, List.append_nil]
    omega
  · intro id
    have h1 := tally_set (acksArrived id)
      (y := .build (some idx) op a.conn.sendRel.packetID payload rest) hi
    have h3 : acksArrived id (.build (some idx) op a.conn.sendRel.packetID payload rest) = 0 := rfl
    have h4 : tookIn [.marked payload] = [] := rfl
    simp only [link, tookIn_append, h4, List.append_nil]
    omega

theorem link_absorb (hi : a.tasks[i]? = some (.absorb cp after)) (hc : ∀ x, carries x t' = 0)
    (ha : ∀ id, acksArrived id t' = 0) :
    LinkStep (link a b)
      (link { conn := { a.conn with sendRel := a.conn.sendRel.ack cp.acks }
              tasks := a.tasks.set i t', hist := a.hist ++ [] } b) := by
  refine .acked cp.acks (by simp [link]) rfl (fun id => holds_ack _ _ id) (fun x => rfl) ?_ ?_
  · intro x
    have h1 := tally_set (carries x) (y := t') hi
    have h3 := hc x
    simp only [link, List.append_nil]
    omega
  · intro id
    have h1 := tally_set (acksArrived id) (y := t') hi
    have h2 : acksArrived id (.absorb cp after) = cp.acks.count id := rfl
    have h3 := ha id
    simp only [link, List.append_nil]
    omega

theorem wrapped_le (taken : List (BitVec 32)) {x : PacketID × Bytes} {slot : Option Nat}
    {rest : Option Bytes} (hok : TaskOk (.wrap slot cp rest)) (wire : Bytes) :
    tally (wireCarries taken x) (wrappedIn [.wrapped cp wire]) ≤
      carries x (.wrap slot cp rest) := by
  have h1 : wrappedIn [.wrapped cp wire] = [(cp, wire)] := rfl
  rw [h1, tally_cons, tally_nil, Nat.add_zero]
  unfold wireCarries
  split
  · rename_i hc
    cases slot with
    | none => exact absurd (hok.2 rfl) hc.1
    | some idx => simp only [carries, if_pos hc.2.2]; exact Nat.le_refl _
  · exact Nat.zero_le _

/-- **A goroutine of the sender** takes the link one step. -/
theorem link_sender_run (hs : SlotInv a) (hi : a.tasks[i]? = some t) (hok : TaskOk t) (env : Env) :
    LinkStep (link a b) (link (a.run K i env) b) := by
  have quiet : ∀ {t' es}, Rests t' → markedIn es = [] → tookIn es = [] → wrappedIn es = [] →
      LinkStep (link a b)
        (link { conn := a.conn, tasks := a.tasks.set i t', hist := a.hist ++ es } b) := by
    intro t' es hr hm ht hw
    obtain ⟨hc, ha, -, -⟩ := rests_weights hr
    exact link_sender_quiet hi hm ht (fun _ => rfl)
      (fun x => by rw [hc, hw]; exact Nat.zero_le _) (fun id => by rw [ha]; exact Nat.zero_le _)
  rw [run_eq hi]
  have h := ran K a.conn env t
  generalize a.conn.exec K env t = o at h
  cases h with
  | rests hr hf => exact quiet hr hf.marked hf.took hf.wrapped
  | hands he hf => exact quiet he.rests hf.marked hf.took hf.wrapped
  | marks => exact link_mark hs hi
  | @builds slot =>
    refine link_sender_quiet hi rfl rfl (fun _ => rfl) ?_ (fun _ => Nat.le_refl _)
    intro x
    cases slot <;> exact Nat.le_refl _
  | fails _ hf =>
    exact link_sender_quiet hi hf.marked hf.took (fun _ => rfl)
      (fun x => by rw [hf.wrapped]; exact Nat.zero_le _) (fun _ => Nat.zero_le _)
  | @wraps _ _ _ _ wire _ | @wrapsAck _ _ _ wire _ =>
    -- the packet leaves the goroutine for the wire
    have hle := fun x => wrapped_le (tookIn b.hist) (x := x) hok wire
    exact link_sender_quiet hi rfl rfl (fun _ => rfl)
      (fun x => Nat.le_trans (Nat.le_of_eq (Nat.zero_add _)) (hle x)) (fun _ => Nat.zero_le _)
  | stores =>
    exact link_sender_quiet hi rfl rfl (fun id => holds_setPayload _ _ _ id)
      (fun _ => Nat.le_refl _) (fun _ => Nat.le_refl _)
  | absorbs | absorbsAck => exact link_absorb hi (fun _ => rfl) (fun _ => rfl)
  | _ =>
    exact link_sender_quiet hi rfl rfl (fun _ => rfl) (fun _ => Nat.le_refl _)
      (fun _ => Nat.le_refl _)

/-! ## The receiver's goroutines -/

theorem link_receiver_quiet (hi : b.tasks[i]? = some t) (hc : consumedIn es = [])
    (ht : tookIn es = []) (hr : c.recvRel = b.conn.recvRel) (hfl : ∀ x, brings x t' ≤ brings x t)
    (hack : ∀ id, c.acks.count id + acksInHand id t'
        + tally (wireAcks (tookIn a.hist) id) (wrappedIn es)
      ≤ b.conn.acks.count id + acksInHand id t) :
    LinkStep (link a b)
      (link a { conn := c, tasks := b.tasks.set i t', hist := b.hist ++ es }) := by
  refine .quiet rfl (by simp [link, hc]) (fun id => Iff.rfl) (fun x => by simp [link, hr]) ?_ ?_
  · intro x
    have h1 := tally_set (brings x) (y := t') hi
    have h2 := hfl x
    simp only [link, tookIn_append, ht, List.append_nil]
    omega
  · intro id
    have h1 := tally_set (acksInHand id) (y := t') hi
    have h2 := hack id
    simp only [link, wrappedIn_append, tally_append]
    omega

theorem held_room (r : Reliable) :
    ∃ ids : List PacketID, ids.length ≤ r.size ∧ ∀ y, 0 < held r y → y.1 ∈ ids := by
  refine ⟨r.entries.map Entry.packetID, by simp [Reliable.size], ?_⟩
  intro y hy
  obtain ⟨e, he, -, hq⟩ := heldBy_pos.mp hy
  rw [beq_iff_eq] at hq
  exact List.mem_map.mpr ⟨e, he, by rw [← hq]⟩

theorem link_accept {r : Reliable} (hi : b.tasks[i]? = some (.put cp after))
    (hroom : b.conn.recvRel.size = nRecBuffers)
    (hst : Stored b.conn.recvRel cp.packetID cp.payload r) :
    LinkStep (link a b)
      (link a { conn := { b.conn with recvRel := r }
                tasks := b.tasks.set i (.addAck cp.packetID after)
                hist := b.hist ++ [.accepted cp.packetID] }) := by
  have hw : wrappedIn [.accepted cp.packetID] = [] := rfl
  have ht : tookIn [.accepted cp.packetID] = [] := rfl
  refine .accept (cp.packetID, cp.payload) ?_ rfl (by simp [link, consumedIn]) (fun id => Iff.rfl)
    ?_ ?_ ?_
  -- the window accepts no more packets than it has entries
  · obtain ⟨ids, hlen, hmem⟩ := held_room r
    exact ⟨ids, by rw [hst.size, hroom] at hlen; exact hlen, hmem⟩
  · exact hst.held_eq
  · intro y
    have h1 := tally_set (brings y) (y := .addAck cp.packetID after) hi
    have h2 : brings y (.put cp after) = if y = (cp.packetID, cp.payload) then 1 else 0 := by
      simp only [brings, eq_comm]
    have h3 : brings y (.addAck cp.packetID after) = 0 := rfl
    simp only [link, tookIn_append, ht, List.append_nil]
    omega
  · intro id
    have h1 := tally_set (acksInHand id) (y := .addAck cp.packetID after) hi
    have h3 : acksInHand id (.addAck cp.packetID after) = if id = cp.packetID then 1 else 0 := by
      simp only [acksInHand, eq_comm]
    simp only [link, wrappedIn_append, hw, List.append_nil]
    omega

theorem link_consume {payload : Bytes} {r : Reliable} (hi : b.tasks[i]? = some (.drain after))
    (hfloor : b.conn.recvRel.packetID = BitVec.ofNat 32 (consumedIn b.hist).length)
    (hget : b.conn.recvRel.get = some (payload, r)) (c : Conn) (hc : c.recvRel = r)
    (hacks : c.acks = b.conn.acks) :
    LinkStep (link a b)
      (link a { conn := c, tasks := b.tasks.set i (.drain after)
                hist := b.hist ++ [.consumed payload] }) := by
  have hw : wrappedIn [.consumed payload] = [] := rfl
  have ht : tookIn [.consumed payload] = [] := rfl
  have hnum : BitVec.ofNat 32 (link a b).out.length = b.conn.recvRel.packetID := hfloor.symm
  refine .consume payload rfl (by simp [link, consumedIn]) (fun id => Iff.rfl) ?_ ?_ ?_
  · intro y
    rw [hnum]
    show held c.recvRel y + _ = held b.conn.recvRel y
    rw [hc]; exact held_get hget y
  · intro x
    have h1 := tally_set (brings x) (y := .drain after) hi
    simp only [link, tookIn_append, ht, List.append_nil]
    omega
  · intro id
    have h1 := tally_set (acksInHand id) (y := .drain after) hi
    simp only [link, wrappedIn_append, hw, List.append_nil, hacks]
    omega

theorem put_not_duplicate (hl : SlidingWindow.Inv nSendBuffers nRecBuffers (link a b))
    (hi : b.tasks[i]? = some (.put cp after)) : b.conn.recvRel.holds cp.packetID = false := by
  apply Bool.eq_false_iff.mpr
  intro hh
  obtain ⟨p, hp⟩ := holds_iff_held.mp hh
  have hfl : 0 < (link a b).flight (cp.packetID, cp.payload) := by
    have : 0 < tally (brings (cp.packetID, cp.payload)) b.tasks :=
      tally_pos.mpr ⟨_, List.mem_of_getElem? hi, by simp [brings]⟩
    simp only [link]; omega
  have h0 : held b.conn.recvRel (cp.packetID, p) = 0 := hl.not_held (by decide) hfl p
  omega

theorem count_add (acks : AckSet) (id id' : PacketID) :
    (AckSet.add acks id').count id ≤ acks.count id + if id' = id then 1 else 0 := by
  unfold AckSet.add
  split
  · omega
  · rw [List.count_append, List.count_cons, List.count_nil]
    simp only [beq_iff_eq]; omega

/-- **A goroutine of the receiver** takes the link one step. -/
theorem link_receiver_run (hl : SlidingWindow.Inv nSendBuffers nRecBuffers (link a b))
    (hfloor : b.conn.recvRel.packetID = BitVec.ofNat 32 (consumedIn b.hist).length)
    (hroom : b.conn.recvRel.size = nRecBuffers) (hi : b.tasks[i]? = some t) (env : Env) :
    LinkStep (link a b) (link a (b.run K i env)) := by
  have quiet : ∀ {t' es}, Rests t' → consumedIn es = [] → tookIn es = [] → wrappedIn es = [] →
      LinkStep (link a b)
        (link a { conn := b.conn, tasks := b.tasks.set i t', hist := b.hist ++ es }) := by
    intro t' es hr hc ht hw
    obtain ⟨-, -, hb, ha⟩ := rests_weights hr
    exact link_receiver_quiet hi hc ht rfl (fun x => by rw [hb]; exact Nat.zero_le _)
      (fun id => by rw [ha, hw]; exact Nat.le_add_right _ _)
  rw [run_eq hi]
  have h := ran K b.conn env t
  generalize b.conn.exec K env t = o at h
  cases h with
  | rests hr hf => exact quiet hr hf.consumed hf.took hf.wrapped
  | hands he hf => exact quiet he.rests hf.consumed hf.took hf.wrapped
  | builds =>
    refine link_receiver_quiet hi rfl rfl rfl (fun _ => Nat.le_refl _) ?_
    intro x
    -- the acknowledgements taken from the pending set are in the packet
    show (b.conn.acks.drop ackSize).count x + (b.conn.acks.take ackSize).count x + 0 ≤ _ + 0
    exact Nat.le_of_eq
      (by rw [Nat.add_comm (List.count _ _), ← List.count_append, List.take_append_drop])
  | fails _ hf =>
    exact link_receiver_quiet hi hf.consumed hf.took rfl (fun _ => Nat.le_refl _)
      (fun id => by rw [hf.wrapped]; exact Nat.le_add_right _ _)
  | @wraps _ cp _ _ wire _ | @wrapsAck cp _ _ wire _ =>
    have hle : ∀ id, tally (wireAcks (tookIn a.hist) id) (wrappedIn [.wrapped cp wire])
        ≤ cp.acks.count id := by
      intro id
      have h1 : wrappedIn [.wrapped cp wire] = [(cp, wire)] := rfl
      rw [h1, tally_cons, tally_nil, Nat.add_zero]
      unfold wireAcks
      split
      · exact Nat.le_refl _
      · exact Nat.zero_le _
    exact link_receiver_quiet hi rfl rfl rfl (fun _ => Nat.le_refl _)
      (fun id => Nat.add_le_add_left (hle id) _)
  | absorbs hop =>
    refine link_receiver_quiet hi rfl rfl rfl (fun x => ?_) (fun _ => Nat.le_refl _)
    simp [brings, hop]
  | absorbsAck =>
    exact link_receiver_quiet hi rfl rfl rfl (fun _ => Nat.zero_le _) (fun _ => Nat.le_refl _)
  | accepts hst => exact link_accept hi hroom hst
  | repeats hdup =>
    -- what is on its way is not held, so `Put` cannot find it there
    rw [put_not_duplicate hl hi] at hdup; cases hdup
  | notes =>
    -- the acknowledgement moves from the goroutine into the pending set
    exact link_receiver_quiet hi rfl rfl rfl (fun _ => Nat.le_refl _) fun x =>
      count_add b.conn.acks x _
  | consumes hget => exact link_consume hi hfloor hget _ rfl rfl
  | _ => exact link_receiver_quiet hi rfl rfl rfl (fun _ => Nat.le_refl _) (fun _ => Nat.le_refl _)

/-! ## Around the goroutines -/

theorem link_sender_around {ts : List Task}
    (hts : ∀ t ∈ ts, (∀ x, carries x t = 0) ∧ ∀ id, acksArrived id t = 0)
    (hh : ∀ id, c.sendRel.holds id = a.conn.sendRel.holds id) (hm : markedIn es = [])
    (hw : wrappedIn es = []) (ht : tookIn es = []) :
    LinkStep (link a b) (link (extend a c ts es) b) := by
  refine .quiet (by simp [link, extend, hm]) rfl (fun id => by simp [link, extend, hh])
    (fun x => rfl) ?_ ?_
  · intro x
    have h0 := tally_eq_zero (l := ts) fun t h => (hts t h).1 x
    simp only [link, extend, wrappedIn_append, hw, List.append_nil, tally_append]; omega
  · intro id
    have h0 := tally_eq_zero (l := ts) fun t h => (hts t h).2 id
    simp only [link, extend, tookIn_append, ht, List.append_nil, tally_append]; omega

theorem link_receiver_around {ts : List Task}
    (hts : ∀ t ∈ ts, (∀ x, brings x t = 0) ∧ ∀ id, acksInHand id t = 0)
    (hr : c.recvRel = b.conn.recvRel) (hacks : c.acks = b.conn.acks) (hc : consumedIn es = [])
    (hw : wrappedIn es = []) (ht : tookIn es = []) :
    LinkStep (link a b) (link a (extend b c ts es)) := by
  refine .quiet rfl (by simp [link, extend, hc]) (fun id => Iff.rfl)
    (fun x => by simp [link, extend, hr]) ?_ ?_
  · intro x
    have h0 := tally_eq_zero (l := ts) fun t h => (hts t h).1 x
    simp only [link, extend, tookIn_append, ht, List.append_nil, tally_append]; omega
  · intro id
    have h0 := tally_eq_zero (l := ts) fun t h => (hts t h).2 id
    simp only [link, extend, wrappedIn_append, hw, hacks, List.append_nil, tally_append]; omega

/-! ## Datagrams arrive -/

theorem unwrap_peer {enc dec : KeySlot} {n : Node} (hn : LocalInv K enc dec n)
    {datagram header plaintext : Bytes} {w : Wrapper} (hwire : WrapOf K dec cp datagram)
    (hu : n.conn.wrapper.unwrap K datagram = .ok (header, plaintext, w)) :
    packetSeq datagram ∉ tookIn n.hist ∧ header = cp.header ∧ plaintext = cp.plaintext := by
  obtain ⟨r, hacc, -⟩ := unwrap_frame hu
  refine ⟨fun hmem => ?_, ?_⟩
  -- every sequence number taken before is covered by the replay window
  · rw [accept_covered (hn.replay _ hmem)] at hacc; cases hacc
  · obtain ⟨-, seq, ts, rfl⟩ := hwire
    rw [unwrap_wrapped K dec cp.plaintext (length_header cp) (length_pidBytes seq ts) _ hn.decrypt,
      hacc] at hu
    simp only [Except.ok.injEq, Prod.mk.injEq] at hu
    exact ⟨hu.1.symm, hu.2.1.symm⟩

theorem wireCarries_took (taken : List (BitVec 32)) (seq : BitVec 32) (x : PacketID × Bytes)
    (w : ControlPacket × Bytes) : wireCarries (taken ++ [seq]) x w ≤ wireCarries taken x w := by
  unfold wireCarries
  split
  · rename_i h
    exact Nat.le_of_eq (by rw [if_pos ⟨h.1, fun hm => h.2.1 (List.mem_append_left _ hm), h.2.2⟩])
  · exact Nat.zero_le _

theorem wireAcks_took (taken : List (BitVec 32)) (seq : BitVec 32) (id : PacketID)
    (w : ControlPacket × Bytes) : wireAcks (taken ++ [seq]) id w ≤ wireAcks taken id w := by
  unfold wireAcks
  split
  · rename_i h
    exact Nat.le_of_eq (by rw [if_pos fun hm => h (List.mem_append_left _ hm)])
  · exact Nat.zero_le _

section Receive

variable {K : Crypto} {enc dec : KeySlot} {datagram header plaintext : Bytes} {after : Option After}
  {w : Wrapper} {ts : List Task}

theorem link_sender_receive (ha : LocalInv K enc dec a) (hb : LocalInv K dec enc b)
    (hcp : (cp, datagram) ∈ wrappedIn b.hist)
    (hu : a.conn.wrapper.unwrap K datagram = .ok (header, plaintext, w))
    (hts : Absorbing header plaintext after ts) :
    LinkStep (link a b)
      (link (extend a { a.conn with wrapper := w } ts [.took (packetSeq datagram)]) b) := by
  obtain ⟨hnew, rfl, rfl⟩ := unwrap_peer ha (hb.wires _ hcp) hu
  have ht : tookIn [.took (packetSeq datagram)] = [packetSeq datagram] := rfl
  have hw : wrappedIn [.took (packetSeq datagram)] = [] := rfl
  have hcarry : ∀ x, tally (carries x) ts = 0 := by
    intro x
    rcases hts with rfl | ⟨cp', after', -, -, rfl⟩ <;> rfl
  have harrive : ∀ id, tally (acksArrived id) ts ≤ cp.acks.count id := by
    intro id
    rcases hts with rfl | ⟨cp', after', hp, -, rfl⟩
    · exact Nat.zero_le _
    · rw [← parseUnwrapped_acks (hb.wires _ hcp).1 hp]; exact Nat.le_refl _
  refine .quiet (by simp [link, extend, markedIn]) rfl (fun id => Iff.rfl) (fun x => rfl) ?_ ?_
  · intro x
    have := hcarry x
    simp only [link, extend, wrappedIn_append, hw, List.append_nil, tally_append]; omega
  · intro id
    have h1 := harrive id
    have h2 := tally_drop (wireAcks (tookIn a.hist ++ [packetSeq datagram]) id)
      (wireAcks (tookIn a.hist) id) (fun y _ => wireAcks_took _ _ id y) hcp
      (by simp [wireAcks])
    have h3 : wireAcks (tookIn a.hist) id (cp, datagram) = cp.acks.count id := by
      simp only [wireAcks, if_pos hnew]
    -- the acknowledgements in the datagram change from the wire to the goroutine
    simp only [link, extend, tookIn_append, ht, tally_append]
    omega

theorem link_receiver_receive (ha : LocalInv K enc dec a) (hb : LocalInv K dec enc b)
    (hops : ∀ x ∈ wrappedIn a.hist, validOpcode x.1.opcode = true)
    (hcp : (cp, datagram) ∈ wrappedIn a.hist)
    (hu : b.conn.wrapper.unwrap K datagram = .ok (header, plaintext, w))
    (hts : Absorbing header plaintext after ts) :
    LinkStep (link a b)
      (link a (extend b { b.conn with wrapper := w } ts [.took (packetSeq datagram)])) := by
  obtain ⟨hnew, rfl, rfl⟩ := unwrap_peer hb (ha.wires _ hcp) hu
  have ht : tookIn [.took (packetSeq datagram)] = [packetSeq datagram] := rfl
  have hw : wrappedIn [.took (packetSeq datagram)] = [] := rfl
  have hacks : ∀ id, tally (acksInHand id) ts = 0 := by
    intro id
    rcases hts with rfl | ⟨cp', after', -, -, rfl⟩ <;> rfl
  have hbring : ∀ x, tally (brings x) ts ≤ wireCarries (tookIn b.hist) x (cp, datagram) := by
    intro x
    rcases hts with rfl | ⟨cp', after', hp, -, rfl⟩
    · exact Nat.zero_le _
    · rw [parseUnwrapped_packet (ha.wires _ hcp).1 (hops _ hcp), Option.some.injEq] at hp
      subst hp
      unfold brings wireCarries
      by_cases hop : cp.opcode = opAckV1
      · simp [ControlPacket.carried, hop]
      · simp [ControlPacket.carried, hop, hnew]
  refine .quiet rfl (by simp [link, extend, consumedIn]) (fun id => Iff.rfl) (fun x => rfl) ?_ ?_
  · intro x
    have h1 := hbring x
    have h2 := tally_drop (wireCarries (tookIn b.hist ++ [packetSeq datagram]) x)
      (wireCarries (tookIn b.hist) x) (fun y _ => wireCarries_took _ _ x y) hcp
      (by simp [wireCarries])
    simp only [link, extend, tookIn_append, ht, tally_append]
    omega
  · intro id
    have := hacks id
    simp only [link, extend, wrappedIn_append, hw, List.append_nil, tally_append]; omega

end Receive

end GoVpn.Proof
