import GoVpn.Proof.CtrlNode

/-!
# Acknowledging a packet again

A packet that arrives a second time is acknowledged a second time while the receive window still
holds it. Once `Get` has given it up, `Put` rejects it as too old, and `absorb` returns before the
packet is noted for acknowledgement. A peer whose acknowledgement was lost never gets another.

`Put` compares with the floor of the window modulo `2 ^ 32`, so what was consumed counts as old for
the next `2 ^ 31` packets.
-/

namespace GoVpn.Proof

open GoVpn.Control

/-- The packet ID of the `m`-th packet given up, for some `m`. -/
def ConsumedID (n : Node) (id : PacketID) : Prop :=
  ∃ m, m < (consumedIn n.hist).length ∧ id = BitVec.ofNat 32 m

/-- What the receive window holds, against the record. -/
structure WindowInv (n : Node) : Prop where
  floor : n.conn.recvRel.packetID = BitVec.ofNat 32 (consumedIn n.hist).length
  /-- Nothing held is behind the floor. -/
  ahead : ∀ id, n.conn.recvRel.holds id = true → (id - n.conn.recvRel.packetID).toNat < 2 ^ 31
  once : ∀ id, heldBy (fun x => x.1 == id) n.conn.recvRel ≤ 1
  /-- What was accepted is held, or was given up. -/
  kept : ∀ id ∈ acceptedIn n.hist, n.conn.recvRel.holds id = true ∨ ConsumedID n id

/-- A new connection has accepted nothing. -/
theorem windowInv_start (lsid rsid : SessionID) (w : Wrapper) (keyID : UInt8) :
    WindowInv (Node.start lsid rsid w keyID) where
  floor := rfl
  ahead id h := absurd h (holds_new _ id)
  once id := Nat.le_trans (Nat.le_of_eq (heldBy_new _ _)) (Nat.zero_le 1)
  kept id h := absurd h (by simp [acceptedIn, Node.start])

variable {K : Crypto} {after : After} {cp : ControlPacket} {i : Nat} {id : PacketID} {n n' : Node}

theorem ConsumedID.mono (h : ConsumedID n id)
    (hle : (consumedIn n.hist).length ≤ (consumedIn n'.hist).length) : ConsumedID n' id := by
  obtain ⟨m, hm, hid⟩ := h
  exact ⟨m, by omega, hid⟩

theorem windowInv_accepted (h : WindowInv n) {payload : Bytes}
    (hput : Stored n.conn.recvRel id payload n'.conn.recvRel)
    (ha : acceptedIn n'.hist = acceptedIn n.hist ++ [id])
    (hc : consumedIn n'.hist = consumedIn n.hist) : WindowInv n' := by
  have hholds := hput.holds_iff
  refine ⟨by rw [hput.floor, hc]; exact h.floor, ?_, hput.once h.once, ?_⟩
  · intro x hx
    rw [hput.floor]
    rcases (hholds x).mp hx with hold | rfl
    · exact h.ahead x hold
    · exact pidMin_false_iff.mp hput.current
  · intro x hx
    rw [ha] at hx
    rcases List.mem_append.mp hx with hold | hnew
    · rcases h.kept x hold with hk | hk
      · exact .inl ((hholds x).mpr (.inl hk))
      · exact .inr (hk.mono (Nat.le_of_eq (by rw [hc])))
    · exact .inl ((hholds x).mpr (.inr (by simpa using hnew)))

theorem windowInv_consumed (h : WindowInv n) {payload : Bytes}
    (hget : n.conn.recvRel.get = some (payload, n'.conn.recvRel))
    (ha : acceptedIn n'.hist = acceptedIn n.hist)
    (hc : consumedIn n'.hist = consumedIn n.hist ++ [payload]) : WindowInv n' := by
  obtain ⟨hfloor, -, -⟩ := get_some hget
  have hlen : (consumedIn n'.hist).length = (consumedIn n.hist).length + 1 := by rw [hc]; simp
  obtain ⟨-, hholds⟩ := holds_get hget h.once
  refine ⟨?_, ?_, get_once hget h.once, ?_⟩
  · rw [hfloor, h.floor, hlen, BitVec.ofNat_add]; rfl
  · intro x hx
    obtain ⟨hx', hne⟩ := (hholds x).mp hx
    have := h.ahead x hx'
    bv_omega
  · intro x hx
    rw [ha] at hx
    rcases h.kept x hx with hk | hk
    · by_cases hxf : x = n.conn.recvRel.packetID
      · exact .inr ⟨(consumedIn n.hist).length, by omega, hxf.trans h.floor⟩
      · exact .inl ((hholds x).mpr ⟨hk, hxf⟩)
    · exact .inr (hk.mono (by omega))

/-- Every step keeps the window and what was accepted in agreement. -/
theorem windowInv_step (K : Crypto) (n : Node) (input : Input) (h : WindowInv n) :
    WindowInv (n.step K input) := by
  rcases recvStep K n input with ⟨hrel, ha, hc⟩ | ⟨id, payload, hput, ha, hc⟩ | ⟨payload, hget, ha,
    hc⟩
  · refine ⟨by rw [hrel, hc]; exact h.floor, by rw [hrel]; exact h.ahead,
      by rw [hrel]; exact h.once, ?_⟩
    intro id hid
    rw [ha] at hid
    rw [hrel]
    exact (h.kept id hid).imp_right fun hk => hk.mono (Nat.le_of_eq (by rw [hc]))
  · exact windowInv_accepted h hput ha hc
  · exact windowInv_consumed h hget ha hc

/-- So they agree in every run. -/
theorem windowInv_after (K : Crypto) (lsid rsid : SessionID) (w : Wrapper) (keyID : UInt8)
    (ins : List Input) : WindowInv (Machine.run (Node.step K) (Node.start lsid rsid w keyID) ins) :=
  Machine.run_invariant' (windowInv_step K) (windowInv_start lsid rsid w keyID) ins

/-! ## A second delivery -/

theorem absorb_to_put (h : n.tasks[i]? = some (.absorb cp after)) (hop : cp.opcode ≠ opAckV1)
    (env : Env) : (n.step K (.run i env)).tasks[i]? = some (.put cp after) := by
  have hlt := (List.getElem?_eq_some_iff.mp h).1
  simp only [Node.step]
  rw [run_eq h]
  simp [Conn.exec, hop, hlt]

theorem put_held (hinv : WindowInv n) (h : n.tasks[i]? = some (.put cp after))
    (hheld : n.conn.recvRel.holds cp.packetID = true) (env : Env) :
    (n.step K (.run i env)).tasks[i]? = some (.addAck cp.packetID after) := by
  have hlt := (List.getElem?_eq_some_iff.mp h).1
  have hput := put_duplicate cp.payload (pidMin_false_iff.mpr (hinv.ahead _ hheld)) hheld
  simp only [Node.step]
  rw [run_eq h]
  simp [Conn.exec, hput, hlt]

theorem put_consumed (hinv : WindowInv n) (h : n.tasks[i]? = some (.put cp after)) {m : Nat}
    (hm : m < (consumedIn n.hist).length) (hrecent : (consumedIn n.hist).length ≤ m + 2 ^ 31)
    (hid : cp.packetID = BitVec.ofNat 32 m) (env : Env) :
    (n.step K (.run i env)).conn = n.conn
      ∧ (n.step K (.run i env)).tasks[i]? = some after.task := by
  have hlt := (List.getElem?_eq_some_iff.mp h).1
  have hold : pidMin cp.packetID n.conn.recvRel.packetID = true := by
    apply Classical.byContradiction
    intro hn
    have hd := pidMin_false_iff.mp (Bool.eq_false_iff.mpr hn)
    rw [hid, hinv.floor] at hd
    have hback := Serial.toNat_ofNat_sub_ofNat (w := 32) (Nat.le_of_lt hm) (by omega)
    have hne : BitVec.ofNat 32 (consumedIn n.hist).length ≠ BitVec.ofNat 32 m := fun he => by
      have := Serial.eq_of_ofNat_eq he (by omega) (by omega)
      omega
    bv_omega
  simp only [Node.step]
  rw [run_eq h]
  simp [Conn.exec, put_old cp.payload hold, hlt]

theorem addAck_pending (h : n.tasks[i]? = some (.addAck id after)) (env : Env) :
    id ∈ (n.step K (.run i env)).conn.acks := by
  simp only [Node.step]
  rw [run_eq h]
  simp only [Conn.exec, AckSet.add]
  split
  · assumption
  · simp

/--
**A second delivery.** From every state a connection reaches, deliver a packet that
has an ID of its own, with anything happening between the delivering goroutine's
locked sections. If its ID was accepted before, the window holds it or has given it
up. If at the time of `Put` the window holds it, the ID ends up pending
acknowledgement. If it was given up, within the last `2 ^ 31` packets, it is
rejected: the connection stays as it is, and no acknowledgement is noted.
-/
theorem second_delivery_acknowledged (K : Crypto) (lsid rsid : SessionID) (w : Wrapper)
    (keyID : UInt8) (ins : List Input) (cp : ControlPacket) (after : After)
    (hop : cp.opcode ≠ opAckV1) (gap₁ gap₂ gap₃ : List Input) (e₁ e₂ e₃ : Env) :
    let n := Machine.run (Node.step K) (Node.start lsid rsid w keyID) ins
    let i := n.tasks.length
    let p := Machine.run (Node.step K) n (.deliver cp after :: gap₁ ++ .run i e₁ :: gap₂)
    (∀ x ∈ gap₁, Others i x) → (∀ x ∈ gap₂, Others i x) → (∀ x ∈ gap₃, Others i x) →
    (cp.packetID ∈ acceptedIn p.hist →
        p.conn.recvRel.holds cp.packetID = true ∨ ConsumedID p cp.packetID)
      ∧ (p.conn.recvRel.holds cp.packetID = true →
        cp.packetID
          ∈ (Machine.run (Node.step K) p (.run i e₂ :: gap₃ ++ [.run i e₃])).conn.acks)
      ∧ (∀ m, m < (consumedIn p.hist).length → (consumedIn p.hist).length ≤ m + 2 ^ 31 →
        cp.packetID = BitVec.ofNat 32 m →
        (p.step K (.run i e₂)).conn = p.conn
          ∧ (p.step K (.run i e₂)).tasks[i]? = some after.task) := by
  intro n i p h₁ h₂ h₃
  have hinv : WindowInv p := by
    show WindowInv (Machine.run _ (Machine.run _ _ _) _)
    rw [← Machine.run_append]
    exact windowInv_after K lsid rsid w keyID _
  -- follow the delivering goroutine up to its `Put`
  have hput : p.tasks[i]? = some (.put cp after) := by
    show (Machine.run _ n (.deliver cp after :: (gap₁ ++ .run i e₁ :: gap₂))).tasks[i]? = _
    rw [Machine.run_cons, Machine.run_append, Machine.run_cons]
    refine task_kept_run (absorb_to_put (task_kept_run ?_ h₁) hop e₁) h₂
    simp [Node.step, Node.spawn, i]
  refine ⟨hinv.kept _, ?_, fun m hm hrecent hid => put_consumed hinv hput hm hrecent hid e₂⟩
  intro hheld
  show _ ∈ (Machine.run _ p (.run i e₂ :: (gap₃ ++ [.run i e₃]))).conn.acks
  rw [Machine.run_cons, Machine.run_append]
  exact addAck_pending (task_kept_run (put_held hinv hput hheld e₂) h₃) e₃

/-- A connection with nothing happening around it, and a packet for it with the ID `id`. -/
def ackDemo : Node := Node.start .zero .zero (toyWrapper true) 0

def demoPacket (id : PacketID) : ControlPacket :=
  { opcode := opControlV1, keyID := 0, sessionID := .zero, acks := [], remoteSessionID := .zero
    packetID := id, payload := [7] }

/-- A packet that arrived early is still held when it arrives again. -/
theorem second_delivery_of_held :
    (1 : PacketID) ∈ (Machine.run (Node.step toyCrypto) ackDemo
      [.deliver (demoPacket 1) .flush, .run 0 calm, .run 0 calm,
        .deliver (demoPacket 1) .flush, .run 1 calm, .run 1 calm, .run 1 calm]).conn.acks :=
  (second_delivery_acknowledged toyCrypto .zero .zero (toyWrapper true) 0
    [.deliver (demoPacket 1) .flush, .run 0 calm, .run 0 calm] (demoPacket 1) .flush (by decide)
    [] [] [] calm calm calm (by simp) (by simp) (by simp)).2.1 (by decide)

/-- A packet delivered, consumed and acknowledged. -/
def deliveredOnce : Node :=
  Machine.run (Node.step toyCrypto) ackDemo
    (.deliver (demoPacket 0) .flush :: List.replicate 9 (.run 0 calm))

/-- Its second delivery, up to the end of the delivering goroutine. -/
def deliveredAgain : List Input :=
  .deliver (demoPacket 0) .flush :: List.replicate 3 (.run 1 calm)

/-- Delivered again, a consumed packet is never pending acknowledgement, and nothing is sent. -/
theorem consumed_not_acknowledged :
    (0 : PacketID) ∈ acceptedIn deliveredOnce.hist
      ∧ Machine.Always (Node.step toyCrypto) (fun n => (0 : PacketID) ∉ n.conn.acks) deliveredOnce
          deliveredAgain
      ∧ (Machine.run (Node.step toyCrypto) deliveredOnce deliveredAgain).tasks = [.done, .done]
      ∧ handedIn (Machine.run (Node.step toyCrypto) deliveredOnce deliveredAgain).hist
          = handedIn deliveredOnce.hist := by
  decide +kernel

end GoVpn.Proof
