import Mathlib.Algebra.GroupWithZero.Nat
import GoVpn.Netstack.UdpQueue

/-!
# What becomes of a datagram

A call of `handlePacket` that finds the queue full counts one loss, whatever it then does. Under
`UDPDropOldest` it takes a datagram out and tries to send its own again, and between the two another
call may take the place, or a `ReadFrom` may have been there first. So it can lose two datagrams, or
none. The books are kept with what each call has still to account for, and balance once these two
kinds of calls are entered.
-/

namespace GoVpn.Netstack

namespace UdpQueue

/-- The datagrams a step still has to account for. -/
def weight : UdpSection → Nat
  | .send _ | .evict _ | .count => 1
  | .resend _ evicted => if evicted then 2 else 1
  | .checkDeadline | .receive => 0

/-- The books of a queue while the steps `todo` are still to come. -/
structure Ledger (dropped : Nat) (q : UdpQueue) (todo : List UdpSection) : Prop where
  counted : dropped ≤ q.queueFullDropped
  balance : q.arrived.length + q.lostNone + dropped
    = q.returned.length + q.conn.inbound.length + q.queueFullDropped + q.lostTwo +
      (todo.map weight).sum

/-- The second send finds room where the call itself has made it, and only there. -/
def OwnPlace (q : UdpQueue) : UdpSection → Prop
  | .resend _ evicted => evicted = decide (q.conn.inbound.length < q.conn.depth)
  | _ => True

instance decidableOwnPlace (q : UdpQueue) : ∀ sec, Decidable (OwnPlace q sec)
  | .resend _ evicted =>
    inferInstanceAs (Decidable (evicted = decide (q.conn.inbound.length < q.conn.depth)))
  | .send _ | .evict _ | .count | .checkDeadline | .receive => .isTrue trivial

/-- No datagram is lost without being counted, and none counted without being lost. -/
def Conserves (dropped : Nat) (s : Threads.Sys UdpQueue UdpSection) : Prop :=
  s.pending = [] → s.shared.arrived.length
    = s.shared.returned.length + s.shared.conn.inbound.length +
      (s.shared.queueFullDropped - dropped)

instance decidableConserves (dropped : Nat) (s : Threads.Sys UdpQueue UdpSection) :
    Decidable (Conserves dropped s) :=
  inferInstanceAs (Decidable (s.pending = [] → s.shared.arrived.length
    = s.shared.returned.length + s.shared.conn.inbound.length +
      (s.shared.queueFullDropped - dropped)))

/-! ## One step -/

/-- `trySend` appends, or finds the queue full. -/
theorem trySend_cases (c : UdpConn) (dgram : UdpDatagram) :
    c.inbound.length < c.depth ∧ c.trySend dgram = some { c with inbound := c.inbound ++ [dgram] }
      ∨ ¬ c.inbound.length < c.depth ∧ c.trySend dgram = none := by
  unfold UdpConn.trySend
  split
  · next h => exact .inl ⟨h, rfl⟩
  · next h => exact .inr ⟨h, rfl⟩

variable {dropped : Nat} {q : UdpQueue} {sec : UdpSection} {todo : List UdpSection}

theorem Ledger.perm (q : UdpQueue) (l l' : List UdpSection) (h : l.Perm l')
    (hl : Ledger dropped q l) : Ledger dropped q l' where
  counted := hl.counted
  balance := by rw [← (h.map weight).sum_nat]; exact hl.balance

/-- A call keeps the books in balance. -/
theorem Ledger.start (h : Ledger dropped q todo) (call : UdpCall) :
    Ledger dropped (q.start call).1 ((q.start call).2 ++ todo) := by
  have hbalance := h.balance
  cases call with
  | readFrom =>
    refine ⟨h.counted, ?_⟩
    simp only [UdpQueue.start, List.cons_append, List.nil_append, List.map_cons, List.sum_cons,
      weight]
    omega
  | handlePacket src dst payload =>
    dsimp only [UdpQueue.start]
    split
    · exact h
    · refine ⟨h.counted, ?_⟩
      simp only [List.cons_append, List.nil_append, List.map_cons, List.sum_cons, weight,
        List.length_append, List.length_singleton]
      omega

/-- So does a section. -/
theorem Ledger.exec (expired : Bool) (h : Ledger dropped q (sec :: todo)) :
    Ledger dropped (q.exec sec expired).1 ((q.exec sec expired).2 ++ todo) := by
  have hcounted := h.counted
  have hbalance := h.balance
  rw [List.map_cons, List.sum_cons] at hbalance
  cases sec with
  | send dgram =>
    simp only [weight] at hbalance
    dsimp only [UdpQueue.exec]
    rcases trySend_cases q.conn dgram with ⟨-, hsend⟩ | ⟨-, hsend⟩
    · rw [hsend]
      refine ⟨hcounted, ?_⟩
      simp only [List.nil_append, List.length_append, List.length_singleton]
      omega
    · rw [hsend]
      cases q.conn.policy with
      | dropOldest | dropNewest => exact ⟨hcounted, by simpa [weight] using hbalance⟩
  | evict dgram =>
    simp only [weight] at hbalance
    refine ⟨hcounted, ?_⟩
    dsimp only [UdpQueue.exec, UdpConn.evict]
    cases hq : q.conn.inbound with
    | nil =>
      rw [hq] at hbalance
      simpa [weight] using hbalance
    | cons oldest rest =>
      rw [hq, List.length_cons] at hbalance
      simp only [List.isEmpty_cons, Bool.not_false, List.tail_cons, List.cons_append,
        List.nil_append, List.map_cons, List.sum_cons, weight, if_true]
      omega
  | resend dgram evicted =>
    dsimp only [UdpQueue.exec]
    rcases trySend_cases q.conn dgram with ⟨-, hsend⟩ | ⟨-, hsend⟩
    all_goals
      rw [hsend]
      refine ⟨hcounted, ?_⟩
      cases evicted with
      | true =>
        simp [weight] at hbalance ⊢
        omega
      | false =>
        simp [weight] at hbalance ⊢
        omega
  | count =>
    simp only [weight] at hbalance
    refine ⟨Nat.le_succ_of_le hcounted, ?_⟩
    simp only [UdpQueue.exec, List.nil_append]
    omega
  | checkDeadline =>
    cases expired with
    | true | false => exact ⟨hcounted, by simpa [UdpQueue.exec, weight] using hbalance⟩
  | receive =>
    dsimp only [UdpQueue.exec]
    split
    · exact ⟨hcounted, by simpa [weight] using hbalance⟩
    · split
      · exact ⟨hcounted, by simpa [weight] using hbalance⟩
      · next dgram rest hq =>
          refine ⟨hcounted, ?_⟩
          simp only [weight, hq, List.length_cons] at hbalance
          simp only [List.nil_append, List.length_append, List.length_singleton]
          omega

/-- No call so far has lost two datagrams, or none. -/
def Exact (q : UdpQueue) : Prop := q.lostTwo = 0 ∧ q.lostNone = 0

theorem exact_start (h : Exact q) (call : UdpCall) : Exact (q.start call).1 := by
  cases call with
  | readFrom => exact h
  | handlePacket src dst payload =>
    dsimp only [UdpQueue.start]
    split <;> exact h

/-- A section that finds its own place loses one datagram, not two or none. -/
theorem exact_exec (expired : Bool) (h : Exact q) (hown : OwnPlace q sec) :
    Exact (q.exec sec expired).1 := by
  cases sec with
  | send dgram =>
    dsimp only [UdpQueue.exec]
    split
    · exact h
    · split <;> exact h
  | resend dgram evicted =>
    dsimp only [UdpQueue.exec]
    rcases trySend_cases q.conn dgram with ⟨hroom, hsend⟩ | ⟨hroom, hsend⟩
    · rw [hsend, hown, decide_eq_true hroom]
      exact h
    · rw [hsend, hown, decide_eq_false hroom]
      exact h
  | receive =>
    dsimp only [UdpQueue.exec]
    split
    · exact h
    · split <;> exact h
  | evict dgram | count | checkDeadline => exact h

/-! ## One call alone -/

theorem run_alone (q : UdpQueue) (sec : UdpSection) (rest : List UdpSection) (expired : Bool) :
    Threads.step udpQueue { shared := q, threads := [sec :: rest] } (.run 0 expired)
      = { shared := (q.exec sec expired).1, threads := [(q.exec sec expired).2 ++ rest] } := rfl

theorem enqueue_alone (q : UdpQueue) (dgram : UdpDatagram) (expired : Bool) :
    ∃ q' : UdpQueue, Machine.run (Threads.step udpQueue) { shared := q, threads := [[.send dgram]] }
        (List.replicate 4 (.run 0 expired)) = { shared := q', threads := [[]] }
      ∧ q'.conn = (q.conn.enqueue dgram).1
      ∧ q'.queueFullDropped = q.queueFullDropped + if (q.conn.enqueue dgram).2 then 1 else 0 := by
  have hdone : ∀ q' : UdpQueue, ∀ n,
      Machine.run (Threads.step udpQueue) { shared := q', threads := [[]] }
      (List.replicate n (.run 0 expired)) = { shared := q', threads := [[]] } := by
    intro q' n
    induction n with
    | zero => rfl
    | succ n ih => exact ih
  -- the second send and the count, with the queue as the eviction leaves it
  have hresend : ∀ evicted, ∃ q' : UdpQueue, Machine.run (Threads.step udpQueue)
      { shared := { q with conn := q.conn.evict }, threads := [[.resend dgram evicted]] }
        (List.replicate 2 (.run 0 expired)) = { shared := q', threads := [[]] }
      ∧ q'.conn = (q.conn.evict.trySend dgram).getD q.conn.evict
      ∧ q'.queueFullDropped = q.queueFullDropped + 1 := by
    intro evicted
    rw [List.replicate_succ, Machine.run_cons, run_alone]
    dsimp only [UdpQueue.exec]
    cases q.conn.evict.trySend dgram with
    | none | some conn => exact ⟨_, rfl, rfl, rfl⟩
  rw [List.replicate_succ, Machine.run_cons, run_alone]
  cases hsend : q.conn.trySend dgram with
  | some conn =>
    simp only [UdpQueue.exec, UdpConn.enqueue, hsend]
    exact ⟨_, hdone _ 3, rfl, rfl⟩
  | none =>
    cases hpolicy : q.conn.policy with
    | dropNewest =>
      simp only [UdpQueue.exec, UdpConn.enqueue, hsend, hpolicy]
      exact ⟨_, hdone _ 2, rfl, rfl⟩
    | dropOldest =>
      simp only [UdpQueue.exec, UdpConn.enqueue, hsend, hpolicy]
      exact hresend _

/-- What `handlePacket` does to a listener that is the only one. -/
structure Handled (s s' : UdpStack) (conn : UdpConn) (arrival : Option UdpDatagram) : Prop where
  ports : s'.demux.ports =
    AList.singleton conn.port ((arrival.map fun dgram => (conn.enqueue dgram).1).getD conn)
  count : s'.demux.queueFullDropped
    = s.demux.queueFullDropped + if arrival.any fun dgram => (conn.enqueue dgram).2 then 1 else 0

theorem handled {s : UdpStack} {conn : UdpConn}
    (hs : s.demux.ports = AList.singleton conn.port conn) (src dst : Addr) (payload : Bytes) :
    Handled s (s.handlePacket src dst payload) conn (udpArrival conn.port src dst payload) := by
  cases hparse : parseUDP payload with
  | error e =>
    simp only [udpArrival, UdpStack.handlePacket, hparse]
    exact ⟨hs, rfl⟩
  | ok seg =>
    simp only [udpArrival, UdpStack.handlePacket, hparse]
    split
    · exact ⟨hs, rfl⟩
    · by_cases hport : seg.dstPort = conn.port
      · rw [if_neg (not_not.mpr hport), hs, hport, ← AList.insert_empty, AList.lookup_insert]
        exact ⟨AList.insert_insert .., rfl⟩
      · rw [if_pos hport, hs, ← AList.insert_empty, AList.lookup_insert_ne hport,
          AList.lookup_empty]
        exact ⟨rfl, rfl⟩

/-- **A call that nobody interrupts does what `handlePacket` does to the only listener.** -/
theorem handlePacket_alone (s : UdpStack) (conn : UdpConn) (src dst : Addr) (payload : Bytes) :
    let s := { s with demux := { s.demux with ports := AList.singleton conn.port conn } }
    ∃ q : UdpQueue, Machine.run (Threads.step udpQueue)
        { shared := { conn := conn, queueFullDropped := s.demux.queueFullDropped } }
        (.start (.handlePacket src dst payload) :: List.replicate 4 (.run 0 false))
          = { shared := q, threads := [[]] }
      ∧ (s.handlePacket src dst payload).demux.ports = AList.singleton conn.port q.conn
      ∧ (s.handlePacket src dst payload).demux.queueFullDropped = q.queueFullDropped := by
  intro s
  rw [Machine.run_cons]
  dsimp only [Threads.step, udpQueue, UdpQueue.start]
  have hhandled := handled (s := s) rfl src dst payload
  cases harr : udpArrival conn.port src dst payload with
  | none => exact ⟨_, rfl, (harr ▸ hhandled).ports, (harr ▸ hhandled).count⟩
  | some dgram =>
    rw [harr] at hhandled
    obtain ⟨q, hrun, hconn, hdropped⟩ := enqueue_alone
      { conn := conn, queueFullDropped := s.demux.queueFullDropped, arrived := [dgram] } dgram false
    exact ⟨q, hrun, hconn ▸ hhandled.ports, hhandled.count.trans hdropped.symm⟩

/-! ## A queue that drops the newest -/

/-- A step that only `UDPDropOldest` has. -/
def makesRoom : UdpSection → Bool
  | .evict _ | .resend _ _ => true
  | _ => false

structure Newest (q : UdpQueue) (todo : List UdpSection) : Prop where
  policy : q.conn.policy = .dropNewest
  sends : ∀ sec ∈ todo, makesRoom sec = false

theorem Newest.perm (q : UdpQueue) (l l' : List UdpSection) (h : l.Perm l') (hn : Newest q l) :
    Newest q l' :=
  ⟨hn.policy, fun sec hsec => hn.sends sec (h.mem_iff.mpr hsec)⟩

theorem Newest.cons (h : Newest q todo) (hsec : makesRoom sec = false) : Newest q (sec :: todo) :=
  ⟨h.policy, List.forall_mem_cons.mpr ⟨hsec, h.sends⟩⟩

theorem Newest.start (h : Newest q todo) (call : UdpCall) :
    Newest (q.start call).1 ((q.start call).2 ++ todo) := by
  cases call with
  | readFrom => exact h.cons rfl
  | handlePacket src dst payload =>
    dsimp only [UdpQueue.start]
    split
    · exact h
    · exact ⟨h.policy, (h.cons rfl).sends⟩

/-- Under `dropNewest`, no section goes on to make room. -/
theorem Newest.exec (expired : Bool) (h : Newest q (sec :: todo)) :
    Newest (q.exec sec expired).1 ((q.exec sec expired).2 ++ todo) := by
  obtain ⟨hsec, htodo⟩ := List.forall_mem_cons.mp h.sends
  have hrest : Newest q todo := ⟨h.policy, htodo⟩
  cases sec with
  | send dgram =>
    dsimp only [UdpQueue.exec]
    rcases trySend_cases q.conn dgram with ⟨-, hsend⟩ | ⟨-, hsend⟩
    · rw [hsend]
      exact ⟨h.policy, htodo⟩
    · rw [hsend, h.policy]
      exact hrest.cons rfl
  | evict dgram | resend dgram evicted => cases hsec
  | count => exact ⟨h.policy, htodo⟩
  | checkDeadline =>
    cases expired with
    | true => exact hrest
    | false => exact hrest.cons rfl
  | receive =>
    dsimp only [UdpQueue.exec]
    split
    · exact hrest
    · split
      · exact hrest.cons rfl
      · exact ⟨h.policy, htodo⟩

theorem ownPlace_of_sends (q : UdpQueue) (h : makesRoom sec = false) : OwnPlace q sec := by
  cases sec with
  | resend dgram evicted => cases h
  | send | evict | count | checkDeadline | receive => trivial

/-- No call makes room, so none can find it taken. -/
theorem along_newest (port : Port) (depth dropped : Nat) (ms : List (Threads.Move UdpCall Bool)) :
    Machine.Along (Threads.step udpQueue) (Threads.Runs OwnPlace)
      { shared := listening port .dropNewest depth dropped } ms := by
  refine Machine.along_mono (fun s m hs sec hsec => ?_)
    (Machine.along_of_invariant (I := fun s => Newest s.shared s.pending) ?_ ms
      ⟨rfl, fun sec hsec => by cases hsec⟩)
  · exact ownPlace_of_sends _ (hs.sends sec (Threads.mem_pending_of_next hsec))
  · intro s m hs
    exact Threads.step_keeps (P := fun _ _ _ => True) Newest.perm (fun _ _ call h _ => h.start call)
      (fun _ _ expired _ h => h.exec expired) s m hs fun _ _ => trivial

/-! ## Runs -/

section Runs

variable (port : Port) (policy : UdpDropPolicy) (depth dropped : Nat)

theorem ledger_listening : Ledger dropped (listening port policy depth dropped) [] :=
  ⟨Nat.le_refl _, by simp [listening]⟩

theorem conserves_iff_lost {s : Threads.Sys UdpQueue UdpSection}
    (h : Ledger dropped s.shared s.pending) (hidle : s.pending = []) :
    Conserves dropped s ↔ s.shared.lostTwo = s.shared.lostNone := by
  have hcounted := h.counted
  have hbalance := h.balance
  rw [hidle, List.map_nil, List.sum_nil] at hbalance
  constructor
  · intro hc
    have := hc hidle
    omega
  · intro heq _
    omega

/-- **At rest, the books are right exactly if as many calls have lost two datagrams as none.** -/
theorem conserves_after_iff (ms : List (Threads.Move UdpCall Bool))
    {s : Threads.Sys UdpQueue UdpSection}
    (hs : Machine.run (Threads.step udpQueue) { shared := listening port policy depth dropped } ms =
    s) (hidle : s.pending = []) : Conserves dropped s ↔ s.shared.lostTwo = s.shared.lostNone := by
  have hledger := Threads.run_keeps' (p := udpQueue) Ledger.perm (fun _ _ call h => h.start call)
    (fun _ _ expired _ h => h.exec expired) (s := { shared := listening port policy depth dropped })
    ms (ledger_listening port policy depth dropped)
  rw [hs] at hledger
  exact conserves_iff_lost dropped hledger hidle

/--
**The UDP queue loses nothing silently, as long as every call finds its own place.**

For a listener of any depth and policy, and every interleaving of calls of `handlePacket` and
`ReadFrom`: under `UDPDropNewest`, and wherever a second send finds room exactly if its own call
has taken a datagram out, the datagrams that arrived are those returned, those queued and those
counted as dropped, in every state in which no call is under way.
-/
theorem ownPlace_conserves (ms : List (Threads.Move UdpCall Bool))
    (h : policy = .dropNewest ∨ Machine.Along (Threads.step udpQueue) (Threads.Runs OwnPlace)
      { shared := listening port policy depth dropped } ms) :
    Machine.Always (Threads.step udpQueue) (Conserves dropped)
      { shared := listening port policy depth dropped } ms := by
  have hown : Machine.Along (Threads.step udpQueue) (Threads.Runs OwnPlace)
      { shared := listening port policy depth dropped } ms := by
    rcases h with rfl | h
    · exact along_newest port depth dropped ms
    · exact h
  have hinv := Machine.always_invariant
    (I := fun s => Ledger dropped s.shared s.pending ∧ Exact s.shared) (P := Threads.Runs OwnPlace)
    ?_ ⟨ledger_listening port policy depth dropped, rfl, rfl⟩ hown
  · refine Machine.always_mono (fun s hs hidle => ?_) hinv
    exact (conserves_iff_lost dropped hs.1 hidle).mpr (hs.2.1.trans hs.2.2.symm) hidle
  · intro s m hs
    exact (Threads.step_dichotomy (I := fun q l => Ledger dropped q l ∧ Exact q)
      (B := fun _ _ => True)
      (fun q l l' hp hq => ⟨hq.1.perm q l l' hp, hq.2⟩) (fun _ _ _ _ _ => trivial)
      (fun _ _ call hq => ⟨hq.1.start call, exact_start hq.2 call⟩)
      (fun _ _ expired _ hq hown => ⟨hq.1.exec expired, exact_exec expired hq.2 hown⟩)
      (fun _ _ _ _ _ _ => trivial) s m hs).1

end Runs

/-- A datagram of one byte for port 5000, without a checksum. -/
def oneByte (b : UInt8) : UdpCall :=
  .handlePacket 0x0A080002 0x0A080001 [0x9C, 0x40, 0x13, 0x88, 0, 9, 0, 0, b]

/-- Two datagrams for a queue of one: the second call takes the first datagram out and its place. -/
def evictsFirst : List (Threads.Move UdpCall Bool) :=
  [.start (oneByte 1), .run 0 false, .start (oneByte 2), .run 1 false, .run 1 false, .run 1 false,
    .run 1 false]

/-- The second call counts the datagram it took out. -/
theorem evictsFirst_conserves :
    Machine.Always (Threads.step udpQueue) (Conserves 0)
      { shared := listening 5000 .dropOldest 1 0 } evictsFirst :=
  ownPlace_conserves 5000 .dropOldest 1 0 evictsFirst (.inr (by decide +kernel))

/-- Another session's datagram takes the place the second call has made. -/
def placeTaken : List (Threads.Move UdpCall Bool) :=
  [.start (oneByte 1), .run 0 false, .start (oneByte 2), .run 1 false, .run 1 false,
    .start (oneByte 3), .run 2 false, .run 1 false, .run 1 false]

/-- One call has lost two datagrams, and none has lost none. -/
theorem placeTaken_lost :
    Conserves 0
      (Machine.run (Threads.step udpQueue) { shared := listening 5000 .dropOldest 1 0 } placeTaken)
      ↔ (1 : Nat) = 0 :=
  conserves_after_iff 5000 .dropOldest 1 0 placeTaken rfl (by decide +kernel)

/-- A `ReadFrom` takes the first datagram before the second call does. -/
def readFirst : List (Threads.Move UdpCall Bool) :=
  [.start (oneByte 1), .run 0 false, .start (oneByte 2), .run 1 false,
    .start .readFrom, .run 2 false, .run 2 false, .run 1 false, .run 1 false, .run 1 false]

/-- Of three datagrams two are lost and one is counted; of two, none is lost and one is counted. -/
theorem overflow_miscounted :
    ¬ Conserves 0 (Machine.run (Threads.step udpQueue)
        { shared := listening 5000 .dropOldest 1 0 } placeTaken)
      ∧ ¬ Conserves 0 (Machine.run (Threads.step udpQueue)
        { shared := listening 5000 .dropOldest 1 0 } readFirst) := by
  decide +kernel

end UdpQueue

end GoVpn.Netstack
