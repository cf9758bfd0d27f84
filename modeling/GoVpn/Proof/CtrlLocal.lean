import GoVpn.Proof.CtrlNode
import GoVpn.Proof.PacketRoundTrip
import GoVpn.Proof.Replay

/-!
# What holds at one end

The facts about a connection that need nothing from its peer: what its datagrams
are made of, that its replay window accounts for what it took, and that what `Read`
returned and what is left to read are what the receive window gave up.
-/

namespace GoVpn.Proof

open GoVpn.Control

/-- The datagram is this packet, wrapped under `key`. -/
def WrapOf (K : Crypto) (key : KeySlot) (cp : ControlPacket) (wire : Bytes) : Prop :=
  cp.acks.length ≤ maxAcks
    ∧ ∃ seq ts, wire = wrapWithPID K key cp.header (pidBytes seq ts) cp.plaintext

/-- A packet without a slot is a bare acknowledgement, and none has too many acknowledgements. -/
def TaskOk : Task → Prop
  | .build none opcode _ _ _ => opcode = opAckV1
  | .wrap slot cp _ => cp.acks.length ≤ maxAcks ∧ (slot = none → cp.opcode = opAckV1)
  | _ => True

structure LocalInv (K : Crypto) (enc dec : KeySlot) (n : Node) : Prop where
  encrypt : n.conn.wrapper.encrypt = enc
  decrypt : n.conn.wrapper.decrypt = dec
  tasks : ∀ t ∈ n.tasks, TaskOk t
  wires : ∀ x ∈ wrappedIn n.hist, WrapOf K enc x.1 x.2
  replay : ∀ seq ∈ tookIn n.hist, Covered n.conn.wrapper.replay seq
  room : n.conn.recvRel.size = nRecBuffers
  stream : returnedIn n.hist ++ n.conn.readBuf = (consumedIn n.hist).flatten

/-- A new connection has done nothing. -/
theorem localInv_start (K : Crypto) (lsid rsid : SessionID) (w : Wrapper) (keyID : UInt8) :
    LocalInv K w.encrypt w.decrypt (Node.start lsid rsid w keyID) where
  encrypt := rfl
  decrypt := rfl
  tasks t ht := absurd ht (by simp [Node.start])
  wires x hx := absurd hx (by simp [Node.start, wrappedIn])
  replay seq hs := absurd hs (by simp [Node.start, tookIn])
  room := by simp [Node.start, Conn.new, Reliable.new, Reliable.size]
  stream := rfl

/-- What one locked section does to the local state. -/
structure ExecLocal (K : Crypto) (c : Conn) (t : Task) (c' : Conn) (t' : Task) (es : List Event) :
    Prop where
  encrypt : c'.wrapper.encrypt = c.wrapper.encrypt
  decrypt : c'.wrapper.decrypt = c.wrapper.decrypt
  replay : c'.wrapper.replay = c.wrapper.replay
  task : TaskOk t'
  /-- A datagram comes from the packet the goroutine had in hand. -/
  wires : ∀ x ∈ wrappedIn es, WrapOf K c.wrapper.encrypt x.1 x.2 ∧
    ∃ slot rest, t = .wrap slot x.1 rest
  took : tookIn es = []
  room : c'.recvRel.size = c.recvRel.size
  returned : returnedIn es = []
  stream : c'.readBuf = c.readBuf ++ (consumedIn es).flatten

theorem taskOk_rests {t : Task} (h : Rests t) : TaskOk t := by
  cases t with
  | build slot op id payload rest =>
    obtain ⟨rfl, hop⟩ := h
    exact hop
  | wrap slot cp rest => exact h.elim
  | _ => trivial

variable {K : Crypto} {dec enc : KeySlot}

theorem ExecLocal.of_quiet {c c' : Conn} {t t' : Task} {es : List Event}
    (hw : c'.wrapper = c.wrapper) (hr : c'.recvRel = c.recvRel) (hb : c'.readBuf = c.readBuf)
    (ht : TaskOk t') (h1 : wrappedIn es = []) (h2 : tookIn es = []) (h3 : returnedIn es = [])
    (h4 : consumedIn es = []) : ExecLocal K c t c' t' es :=
  ⟨by rw [hw], by rw [hw], by rw [hw], ht, by intro x hx; rw [h1] at hx; exact absurd hx (by simp),
    h2, by rw [hr], h3, by rw [hb, h4]; simp⟩

/-- **A locked section** changes the local state in these ways only. -/
theorem exec_local (K : Crypto) (c : Conn) (env : Env) (t : Task) (ht : TaskOk t) :
    ExecLocal K c t (c.exec K env t).1 (c.exec K env t).2.1 (c.exec K env t).2.2 := by
  have h := ran K c env t
  generalize c.exec K env t = o at h
  cases h with
  | rests hr hs =>
    exact .of_quiet rfl rfl rfl (taskOk_rests hr) hs.wrapped hs.took hs.returned hs.consumed
  | hands he hs =>
    exact .of_quiet rfl rfl rfl (taskOk_rests he.rests) hs.wrapped hs.took hs.returned hs.consumed
  | builds =>
    refine .of_quiet rfl rfl rfl ⟨List.length_take_le _ _, ?_⟩ rfl rfl rfl rfl
    intro hs; subst hs; exact ht
  | fails hw hs =>
    obtain ⟨-, -, he, hd, hr⟩ := wrap_error hw
    exact ⟨he, hd, hr, trivial, by intro x hx; rw [hs.wrapped] at hx; exact absurd hx (by simp),
      hs.took, rfl, hs.returned, by rw [hs.consumed]; simp⟩
  | @wraps _ cp _ _ wire hw | @wrapsAck cp _ _ wire hw =>
    -- the new packet ID touches neither the keys nor the replay window
    obtain ⟨hnext, hwire⟩ := wrap_ok hw
    obtain ⟨he, hd, hr⟩ := nextPID_frame hnext
    refine ⟨he, hd, hr, trivial, ?_, rfl, rfl, rfl, by simp [consumedIn]⟩
    intro x hx
    obtain rfl : x = (cp, wire) := by simpa [wrappedIn] using hx
    exact ⟨⟨ht.1, _, _, by rw [← he]; exact hwire⟩, _, _, rfl⟩
  | accepts hst =>
    exact ⟨rfl, rfl, rfl, trivial, by simp [wrappedIn], rfl, hst.size, rfl, by simp [consumedIn]⟩
  | consumes hget =>
    exact ⟨rfl, rfl, rfl, trivial, by simp [wrappedIn], rfl, (get_some hget).2.1, rfl,
      by simp [consumedIn]⟩
  | _ => exact .of_quiet rfl rfl rfl trivial rfl rfl rfl rfl

/-- A locked section keeps the local facts. -/
theorem localInv_run {n : Node} (h : LocalInv K enc dec n) {i : Nat} {t : Task}
    (hi : n.tasks[i]? = some t) (env : Env) : LocalInv K enc dec (n.run K i env) := by
  have he := exec_local K n.conn env t (h.tasks t (List.mem_of_getElem? hi))
  rw [run_eq hi]
  refine ⟨he.encrypt.trans h.encrypt, he.decrypt.trans h.decrypt, ?_, ?_, ?_, he.room.trans h.room,
    ?_⟩
  · intro x hx
    rcases List.mem_or_eq_of_mem_set hx with hx | rfl
    · exact h.tasks x hx
    · exact he.task
  · intro x hx
    rw [wrappedIn_append] at hx
    rcases List.mem_append.mp hx with hx | hx
    · exact h.wires x hx
    · rw [← h.encrypt]; exact (he.wires x hx).1
  · intro seq hs
    rw [tookIn_append, he.took, List.append_nil] at hs
    rw [he.replay]; exact h.replay seq hs
  · simp only [returnedIn_append, consumedIn_append, he.returned, he.stream, List.append_nil,
      List.flatten_append]
    rw [← List.append_assoc, h.stream]

theorem LocalInv.around {n : Node} (h : LocalInv K enc dec n) {c : Conn} {ts : List Task}
    {es : List Event} (hw : c.wrapper = n.conn.wrapper) (hr : c.recvRel = n.conn.recvRel)
    (hts : ∀ t ∈ ts, TaskOk t) (h1 : wrappedIn es = []) (h2 : tookIn es = [])
    (h3 : consumedIn es = []) (h4 : returnedIn es ++ c.readBuf = n.conn.readBuf) :
    LocalInv K enc dec (extend n c ts es) where
  encrypt := (congrArg Wrapper.encrypt hw).trans h.encrypt
  decrypt := (congrArg Wrapper.decrypt hw).trans h.decrypt
  tasks t ht := (List.mem_append.mp ht).elim (h.tasks t) (hts t)
  wires := by simp only [extend, wrappedIn_append, h1, List.append_nil]; exact h.wires
  replay := by simp only [extend, tookIn_append, h2, List.append_nil, hw]; exact h.replay
  room := (congrArg Reliable.size hr).trans h.room
  stream := by
    simp only [extend, returnedIn_append, consumedIn_append, h3, List.append_nil]
    -- what `Read` takes out of the buffer it returns
    rw [List.append_assoc, h4]; exact h.stream

theorem localInv_receive {n : Node} (h : LocalInv K enc dec n) {datagram header plaintext : Bytes}
    {w : Wrapper} {ts : List Task}
    (hu : n.conn.wrapper.unwrap K datagram = .ok (header, plaintext, w))
    (hts : ∀ t ∈ ts, TaskOk t) :
    LocalInv K enc dec (extend n { n.conn with wrapper := w } ts [.took (packetSeq datagram)]) := by
  obtain ⟨r, hacc, rfl⟩ := unwrap_frame hu
  refine ⟨h.encrypt, h.decrypt, fun t ht => (List.mem_append.mp ht).elim (h.tasks t) (hts t), ?_,
    ?_, h.room, ?_⟩
  · simp only [extend, wrappedIn_append]
    intro x hx
    exact h.wires x (by simpa [wrappedIn] using hx)
  · intro seq hs
    simp only [extend, tookIn_append] at hs
    rcases List.mem_append.mp hs with hs | hs
    · exact covered_mono hacc (h.replay seq hs)
    · obtain rfl : seq = packetSeq datagram := by simpa [tookIn] using hs
      exact covered_accept hacc
  · simpa [extend, returnedIn, consumedIn] using h.stream

/-- **The local facts hold in every run**, whatever the environment does. -/
theorem localInv_step (n : Node) (input : Input) (h : LocalInv K enc dec n) :
    LocalInv K enc dec (n.step K input) := by
  have hs := stepped K n input
  generalize n.step K input = n' at hs
  cases hs with
  | stays => exact h
  | runs hi => exact localInv_run h hi _
  | @write p =>
    refine h.around rfl rfl ?_ rfl rfl rfl rfl
    intro t ht
    rw [List.mem_singleton.mp ht]; exact taskOk_rests (sent_emptyHanded (some p)).rests
  | receive hu hts =>
    refine localInv_receive h hu ?_
    rcases hts with rfl | ⟨_, _, -, -, rfl⟩ <;> simp [TaskOk]
  | sendReset | deliver | retransmit => exact h.around rfl rfl (by simp [TaskOk]) rfl rfl rfl rfl
  | read => exact h.around rfl rfl (by simp) rfl rfl rfl (by simp [returnedIn])
  | close => exact h.around rfl rfl (by simp) rfl rfl rfl rfl

end GoVpn.Proof
