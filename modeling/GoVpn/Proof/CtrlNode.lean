import GoVpn.Lib.Run
import GoVpn.Control.CtrlConn
import GoVpn.Proof.ReliableSpec

/-!
# Steps of a control connection

What the record of a run says, and what one step of a connection can do to its
goroutines and to its receive window.
-/

namespace GoVpn.Proof

open GoVpn.Control

/-! ## The record -/

/-- The payloads that were given a packet ID, in the order of their IDs. -/
def markedIn (h : List Event) : List Bytes :=
  h.filterMap fun | .marked p => some p | _ => none

/-- The packets wrapped, with the datagram each became. -/
def wrappedIn (h : List Event) : List (ControlPacket × Bytes) :=
  h.filterMap fun | .wrapped cp wire => some (cp, wire) | _ => none

/-- The datagrams handed to the transport. -/
def handedIn (h : List Event) : List Bytes :=
  h.filterMap fun | .handed wire => some wire | _ => none

/-- The packet IDs the receive window accepted. -/
def acceptedIn (h : List Event) : List PacketID :=
  h.filterMap fun | .accepted id => some id | _ => none

/-- The payloads the receive window gave up. -/
def consumedIn (h : List Event) : List Bytes :=
  h.filterMap fun | .consumed p => some p | _ => none

/-- The sequence numbers `Unwrap` took. -/
def tookIn (h : List Event) : List (BitVec 32) :=
  h.filterMap fun | .took seq => some seq | _ => none

/-- The bytes `Read` returned. -/
def returnedIn (h : List Event) : Bytes :=
  h.flatMap fun | .returned p => p | _ => []

/-- The bytes passed to `Write`. -/
def writtenIn (h : List Event) : Bytes :=
  h.flatMap fun | .wrote p => p | _ => []

section

variable (h h' : List Event)

@[simp] theorem markedIn_append : markedIn (h ++ h') = markedIn h ++ markedIn h' :=
  List.filterMap_append

@[simp] theorem wrappedIn_append :
    wrappedIn (h ++ h') = wrappedIn h ++ wrappedIn h' := List.filterMap_append

@[simp] theorem handedIn_append : handedIn (h ++ h') = handedIn h ++ handedIn h' :=
  List.filterMap_append

@[simp] theorem acceptedIn_append :
    acceptedIn (h ++ h') = acceptedIn h ++ acceptedIn h' := List.filterMap_append

@[simp] theorem consumedIn_append :
    consumedIn (h ++ h') = consumedIn h ++ consumedIn h' := List.filterMap_append

@[simp] theorem tookIn_append : tookIn (h ++ h') = tookIn h ++ tookIn h' :=
  List.filterMap_append

@[simp] theorem returnedIn_append :
    returnedIn (h ++ h') = returnedIn h ++ returnedIn h' := List.flatMap_append

@[simp] theorem writtenIn_append :
    writtenIn (h ++ h') = writtenIn h ++ writtenIn h' := List.flatMap_append

end

/-- A piece of the record that adds to none of the lists above. -/
structure Silent (es : List Event) : Prop where
  marked : markedIn es = []
  wrapped : wrappedIn es = []
  handed : handedIn es = []
  accepted : acceptedIn es = []
  consumed : consumedIn es = []
  took : tookIn es = []
  returned : returnedIn es = []

theorem Silent.nil : Silent [] := ⟨rfl, rfl, rfl, rfl, rfl, rfl, rfl⟩

theorem sendFailed_silent (rest : Option Bytes) : Silent (sendFailed rest) := by
  cases rest <;> constructor <;> rfl

/-! ## Goroutines -/

/-- The goroutine has no packet, no acknowledgement and no slot in hand. -/
def EmptyHanded : Task → Prop
  | .waitSlot _ _ _ | .flush | .done => True
  | _ => False

theorem sent_emptyHanded (rest : Option Bytes) : EmptyHanded (Task.sent rest) := by
  cases rest with
  | none => trivial
  | some p => unfold Task.sent Task.write; dsimp only; split <;> trivial

theorem after_emptyHanded (after : After) : EmptyHanded after.task := by
  cases after <;> trivial

/-- It waits for a slot, has ended, or has only to acknowledge. -/
def Rests : Task → Prop
  | .blocked _ _ _ => True
  | .build slot opcode _ _ _ => slot = none ∧ opcode = opAckV1
  | t => EmptyHanded t

variable {K : Crypto} {i : Nat} {n : Node} {t : Task}

theorem EmptyHanded.rests (h : EmptyHanded t) : Rests t := by
  cases t <;> first | exact h | exact h.elim

/-- What a locked section can do. -/
inductive Ran (K : Crypto) (c : Conn) (env : Env) : Task → Conn × Task × List Event → Prop
  | rests {t t' es} : Rests t' → Silent es → Ran K c env t (c, t', es)
  | finds {op payload rest idx} : c.sendRel.next = some idx →
      Ran K c env (.waitSlot op payload rest) (c, .mark idx op payload rest, [])
  | marks {idx op payload rest} :
      Ran K c env (.mark idx op payload rest) ({ c with sendRel := c.sendRel.markActive idx },
        .build (some idx) op c.sendRel.packetID payload rest, [.marked payload])
  | builds {slot op id payload rest} :
      Ran K c env (.build slot op id payload rest) ({ c with acks := c.acks.drop ackSize },
        .wrap slot (c.packet op id (c.acks.take ackSize) payload) rest, [])
  | fails {slot cp rest w e es} :
      c.wrapper.wrap K env.clock cp.header cp.plaintext = (w, .error e) → Silent es →
      Ran K c env (.wrap slot cp rest) ({ c with wrapper := w }, .done, es)
  | wraps {idx cp rest w wire} :
      c.wrapper.wrap K env.clock cp.header cp.plaintext = (w, .ok wire) →
      Ran K c env (.wrap (some idx) cp rest)
        ({ c with wrapper := w }, .setPayload idx wire rest, [.wrapped cp wire])
  | wrapsAck {cp rest w wire} :
      c.wrapper.wrap K env.clock cp.header cp.plaintext = (w, .ok wire) →
      Ran K c env (.wrap none cp rest)
        ({ c with wrapper := w }, .transmit wire rest, [.wrapped cp wire])
  | stores {idx wire rest} :
      Ran K c env (.setPayload idx wire rest)
        ({ c with sendRel := c.sendRel.setPayload idx wire }, .transmit wire rest, [])
  | hands {wire rest t' es} : EmptyHanded t' → Silent es →
      Ran K c env (.transmit wire rest) (c, t', .handed wire :: es)
  | absorbs {cp after} : cp.opcode ≠ opAckV1 →
      Ran K c env (.absorb cp after)
      ({ c with sendRel := c.sendRel.ack cp.acks }, .put cp after, [])
  | absorbsAck {cp after} :
      Ran K c env (.absorb cp after) ({ c with sendRel := c.sendRel.ack cp.acks }, .drain after, [])
  | accepts {cp after r} : Stored c.recvRel cp.packetID cp.payload r →
      Ran K c env (.put cp after)
        ({ c with recvRel := r }, .addAck cp.packetID after, [.accepted cp.packetID])
  | repeats {cp after} : c.recvRel.holds cp.packetID = true →
      Ran K c env (.put cp after) (c, .addAck cp.packetID after, [])
  | notes {id after} :
      Ran K c env (.addAck id after) ({ c with acks := AckSet.add c.acks id }, .drain after, [])
  | consumes {after payload r} : c.recvRel.get = some (payload, r) →
      Ran K c env (.drain after) ({ c with recvRel := r, readBuf := c.readBuf ++ payload },
        .drain after, [.consumed payload])

theorem ran (K : Crypto) (c : Conn) (env : Env) (t : Task) : Ran K c env t (c.exec K env t) := by
  cases t with
  | waitSlot op payload rest =>
    simp only [Conn.exec]
    split
    · next hn => exact .finds hn
    · exact .rests trivial .nil
  | blocked op payload rest =>
    simp only [Conn.exec]
    split
    · exact .rests trivial (sendFailed_silent rest)
    · exact .rests trivial .nil
  | mark idx op payload rest => exact .marks
  | build slot op id payload rest => exact .builds
  | wrap slot cp rest =>
    simp only [Conn.exec]
    rcases hw : c.wrapper.wrap K env.clock cp.header cp.plaintext with ⟨w, res⟩
    cases res with
    | error e => exact .fails hw (sendFailed_silent rest)
    | ok wire =>
      cases slot with
      | some idx => exact .wraps hw
      | none => exact .wrapsAck hw
  | setPayload idx wire rest => exact .stores
  | transmit wire rest =>
    simp only [Conn.exec]
    split
    · exact .hands (sent_emptyHanded rest) .nil
    · exact .hands trivial (sendFailed_silent rest)
  | absorb cp after =>
    simp only [Conn.exec]
    split
    · next hop => exact .absorbs (by simpa using hop)
    · exact .absorbsAck
  | put cp after =>
    have hp := put_shape c.recvRel cp.packetID cp.payload
    simp only [Conn.exec]
    cases hr : c.recvRel.put cp.packetID cp.payload with
    | mk r res =>
      rw [hr] at hp
      cases hp with
      | rejected => exact .rests (after_emptyHanded after).rests .nil
      | duplicate _ hdup => exact .repeats hdup
      | accepted hst => exact .accepts hst
  | addAck id after => exact .notes
  | drain after =>
    simp only [Conn.exec]
    split
    · next hg => exact .consumes hg
    · exact .rests (after_emptyHanded after).rests .nil
  | flush =>
    simp only [Conn.exec]
    split
    · exact .rests ⟨rfl, rfl⟩ .nil
    · exact .rests trivial .nil
  | done => exact .rests trivial .nil

/-- Primitives to compute with: a checksum for a tag, and a key stream of one repeated byte. -/
def toyCrypto : Crypto where
  hmac key msg := List.replicate tagSize (msg.foldl (· + ·) (key.foldl (· + ·) 1))
  ctr key iv data := data.map (· ^^^ (key ++ iv).foldl (· + ·) 1)
  hmac_length _ _ := by simp
  ctr_length _ _ _ := by simp
  ctr_ctr key iv data := by
    rw [List.map_map]
    refine (List.map_congr_left fun b _ => ?_).trans (List.map_id data)
    show b ^^^ _ ^^^ _ = b
    rw [UInt8.xor_assoc, UInt8.xor_self, UInt8.xor_zero]

/-- The two ends of a session with short keys. -/
def toyWrapper (server : Bool) : Wrapper :=
  if server then { encrypt := ⟨[1], [2]⟩, decrypt := ⟨[3], [4]⟩ }
  else { encrypt := ⟨[3], [4]⟩, decrypt := ⟨[1], [2]⟩ }

/-- Nothing goes wrong while a goroutine runs. -/
def calm : Env := { clock := 1, expired := false, delivered := true }

/-- A connection that was just made. -/
def Node.start (localSID remoteSID : SessionID) (wrapper : Wrapper) (keyID : UInt8) : Node :=
  { conn := Conn.new localSID remoteSID wrapper keyID }

/-- One chunk written and sent. -/
def sendOnce : List Input := .write [7] :: List.replicate 6 (.run 0 calm)

/-- Running a goroutine executes its task. -/
theorem run_eq (h : n.tasks[i]? = some t) (env : Env) :
    n.run K i env
      = { conn := (n.conn.exec K env t).1, tasks := n.tasks.set i (n.conn.exec K env t).2.1
          hist := n.hist ++ (n.conn.exec K env t).2.2 } := by
  unfold Node.run; rw [h]

/-- Where there is no goroutine, nothing runs. -/
theorem run_none (h : n.tasks[i]? = none) (env : Env) : n.run K i env = n := by
  unfold Node.run; rw [h]

/-! ## Calls from outside -/

/-- The goroutines `ts` start and `es` is recorded, the connection being `c` from now on. -/
def extend (n : Node) (c : Conn) (ts : List Task) (es : List Event) : Node :=
  { conn := c, tasks := n.tasks ++ ts, hist := n.hist ++ es }

section Calls

variable (K : Crypto) (n : Node)

theorem step_write (p : Bytes) :
    n.step K (.write p) = extend n n.conn [Task.write p] [.wrote p] := rfl

theorem step_sendReset (op : Opcode) :
    n.step K (.sendReset op) = extend n n.conn [.waitSlot op [] (some [])] [] := by
  simp [Node.step, Node.spawn, extend]

theorem step_deliver (cp : ControlPacket) (after : After) :
    n.step K (.deliver cp after) = extend n n.conn [.absorb cp after] [] := by
  simp [Node.step, Node.spawn, extend]

theorem step_read (k : Nat) :
    n.step K (.read k) = extend n { n.conn with readBuf := n.conn.readBuf.drop k } []
      [.returned (n.conn.readBuf.take k)] := by
  simp [Node.step, Node.read, Node.log, extend]

theorem step_close : n.step K .close = extend n { n.conn with closed := true } [] [] := by
  simp [Node.step, extend]

/-- The goroutine that starts with what `Unwrap` gave, unless the datagram is dropped. -/
def Absorbing (header plaintext : Bytes) (after : Option After) (ts : List Task) : Prop :=
  ts = [] ∨ ∃ cp after', parseUnwrapped header plaintext = some cp ∧ after = some after'
    ∧ ts = [.absorb cp after']

/-- A datagram is refused by `Unwrap`, or taken and, unless dropped, handed to a goroutine. -/
theorem receive_cases (datagram : Bytes) (after : Option After) :
    n.receive K datagram after = n ∨ ∃ header plaintext w ts,
      n.conn.wrapper.unwrap K datagram = .ok (header, plaintext, w)
        ∧ n.receive K datagram after
          = extend n { n.conn with wrapper := w } ts [.took (packetSeq datagram)]
        ∧ Absorbing header plaintext after ts := by
  unfold Node.receive
  split
  · exact .inl rfl
  · rename_i header plaintext w hu
    right
    split
    · rename_i after' cp hp
      exact ⟨header, plaintext, w, [.absorb cp after'], hu, rfl, .inr ⟨cp, after', hp, rfl, rfl⟩⟩
    · exact ⟨header, plaintext, w, [], hu, by simp [Node.log, extend], .inl rfl⟩

/-- `retransmitLoop` finds nothing due, or sends a due entry's datagram. -/
theorem retransmitLoop_cases (now : Int) :
    n.retransmit now = n ∨ ∃ i r, n.conn.sendRel.due now = some (i, r)
      ∧ n.retransmit now
        = extend n { n.conn with sendRel := r } [.transmit (r.payloadAt i) none] [] := by
  unfold Node.retransmit
  split
  · exact .inl rfl
  · rename_i i r hd
    exact .inr ⟨i, r, hd, by simp [Node.spawn, extend]⟩

/-- What an input does. -/
inductive Stepped : Input → Node → Prop
  | stays {input} : Stepped input n
  | runs {i env t} : n.tasks[i]? = some t → Stepped (.run i env) (n.run K i env)
  | write {p} : Stepped (.write p) (extend n n.conn [Task.write p] [.wrote p])
  | sendReset {op} : Stepped (.sendReset op) (extend n n.conn [.waitSlot op [] (some [])] [])
  | deliver {cp after} : Stepped (.deliver cp after) (extend n n.conn [.absorb cp after] [])
  | receive {datagram after header plaintext w ts} :
      n.conn.wrapper.unwrap K datagram = .ok (header, plaintext, w) →
      Absorbing header plaintext after ts →
      Stepped (.receive datagram after)
        (extend n { n.conn with wrapper := w } ts [.took (packetSeq datagram)])
  | retransmit {now i r} : n.conn.sendRel.due now = some (i, r) →
      Stepped (.retransmit now)
        (extend n { n.conn with sendRel := r } [.transmit (r.payloadAt i) none] [])
  | read {k} : Stepped (.read k) (extend n { n.conn with readBuf := n.conn.readBuf.drop k } []
      [.returned (n.conn.readBuf.take k)])
  | close : Stepped .close (extend n { n.conn with closed := true } [] [])

theorem stepped (input : Input) : Stepped K n input (n.step K input) := by
  cases input with
  | write p => exact .write
  | sendReset op => rw [step_sendReset]; exact .sendReset
  | deliver cp after => rw [step_deliver]; exact .deliver
  | receive datagram after =>
    simp only [Node.step]
    rcases receive_cases K n datagram after with he | ⟨_, _, _, _, hu, he, hts⟩ <;> rw [he]
    · exact .stays
    · exact .receive hu hts
  | run i env =>
    cases hi : n.tasks[i]? with
    | none =>
      simp only [Node.step]
      rw [run_none hi]
      exact .stays
    | some t => exact .runs hi
  | retransmit now =>
    simp only [Node.step]
    rcases retransmitLoop_cases n now with he | ⟨_, _, hd, he⟩ <;> rw [he]
    · exact .stays
    · exact .retransmit hd
  | read k => rw [step_read]; exact .read
  | close => rw [step_close]; exact .close

end Calls

/-- The input lets a goroutine other than `i` run, or none. -/
def Others (i : Nat) : Input → Prop
  | .run j _ => j ≠ i
  | _ => True

/-- An input is another goroutine's, or runs this one. -/
theorem others_or_run (i : Nat) (input : Input) : Others i input ∨ ∃ env, input = .run i env := by
  cases input with
  | run j env =>
    by_cases hj : j = i
    · subst hj; exact .inr ⟨env, rfl⟩
    · exact .inl hj
  | _ => exact .inl trivial

theorem getElem_extend (h : n.tasks[i]? = some t) (c : Conn) (ts : List Task) (es : List Event) :
    (extend n c ts es).tasks[i]? = some t := by
  unfold extend
  rw [List.getElem?_append_left (List.getElem?_eq_some_iff.mp h).1]; exact h

theorem task_kept (h : n.tasks[i]? = some t) {input : Input} (ho : Others i input) :
    (n.step K input).tasks[i]? = some t := by
  have hs := stepped K n input
  generalize n.step K input = n' at hs
  cases hs with
  | stays => exact h
  | runs hj => rw [run_eq hj, List.getElem?_set_ne ho]; exact h
  | _ => exact getElem_extend h _ _ _

/-- Its task stays in a whole run of others. -/
theorem task_kept_run {ins : List Input} (h : n.tasks[i]? = some t) (ho : ∀ x ∈ ins, Others i x) :
    (Machine.run (Node.step K) n ins).tasks[i]? = some t := by
  refine Machine.run_invariant (I := fun n => n.tasks[i]? = some t)
    (P := fun _ x => Others i x) ?_ h
    (Machine.along_of_mem n ho)
  intro s x hs hx
  exact task_kept hs hx

/-! ## The receive window -/

/-- What a step does to the receive window and its record. -/
inductive RecvStep (n n' : Node) : Prop
  | quiet : n'.conn.recvRel = n.conn.recvRel → acceptedIn n'.hist = acceptedIn n.hist →
      consumedIn n'.hist = consumedIn n.hist → RecvStep n n'
  | accepted (id : PacketID) (payload : Bytes) :
      Stored n.conn.recvRel id payload n'.conn.recvRel →
      acceptedIn n'.hist = acceptedIn n.hist ++ [id] → consumedIn n'.hist = consumedIn n.hist →
      RecvStep n n'
  | consumed (payload : Bytes) : n.conn.recvRel.get = some (payload, n'.conn.recvRel) →
      acceptedIn n'.hist = acceptedIn n.hist →
      consumedIn n'.hist = consumedIn n.hist ++ [payload] → RecvStep n n'

theorem RecvStep.of_quiet {n' : Node} (es : List Event) (hrel : n'.conn.recvRel = n.conn.recvRel)
    (hh : n'.hist = n.hist ++ es) (ha : acceptedIn es = []) (hc : consumedIn es = []) :
    RecvStep n n' :=
  .quiet hrel (by rw [hh, acceptedIn_append, ha, List.append_nil])
    (by rw [hh, consumedIn_append, hc, List.append_nil])

/-- A locked section does one of these. -/
theorem exec_recvStep (K : Crypto) (n : Node) (env : Env) (t : Task) (ts : List Task) :
    RecvStep n { conn := (n.conn.exec K env t).1, tasks := ts
                 hist := n.hist ++ (n.conn.exec K env t).2.2 } := by
  have h := ran K n.conn env t
  generalize n.conn.exec K env t = o at h
  cases h with
  | rests _ hs | hands _ hs | fails _ hs => exact .of_quiet _ rfl rfl hs.accepted hs.consumed
  | accepts hst => exact .accepted _ _ hst (by simp [acceptedIn]) (by simp [consumedIn])
  | consumes hget => exact .consumed _ hget (by simp [acceptedIn]) (by simp [consumedIn])
  | _ => exact .of_quiet _ rfl rfl rfl rfl

theorem recvStep (K : Crypto) (n : Node) (input : Input) : RecvStep n (n.step K input) := by
  have h := stepped K n input
  generalize n.step K input = n' at h
  cases h with
  | stays => exact .quiet rfl rfl rfl
  | runs hi => rw [run_eq hi]; exact exec_recvStep K n _ _ _
  | _ => exact .of_quiet _ rfl rfl rfl rfl

end GoVpn.Proof
