import GoVpn.Lib.ThreadErasure
import GoVpn.Ovpn.Inbound
import GoVpn.Proof.CtrlNode
import GoVpn.Proof.DataChannel

/-!
# Datagrams that do not authenticate

A datagram whose tag is right neither under the tls-crypt key nor under a data key that is live in
the session it names is dropped, and only the count of such datagrams tells that it was there. Its
call never gets past the first key it fails under, so none of its sections writes anything
(`harmless_exec`). What is known of such a call while others run beside it (`Harmless`) stays true,
because a wrapper never changes its keys and a lame duck that is dead stays dead.
-/

namespace GoVpn.Ovpn.Inbound

open GoVpn.Control (Bytes Crypto Opcode SessionID Header ControlPacket Task parseHeaderByte
  validOpcode parseControlPacket)
open GoVpn.Data (Aead)
open GoVpn.Proof (Authenticates)

variable {K : Crypto} {A : Aead} {cfg : Config} {key256 : Bytes}

/-! ## Authentic datagrams -/

/-- The tag of a control packet is right. -/
def TlsAuthentic (K : Crypto) (key256 packet : Bytes) : Prop :=
  Control.offCT ≤ packet.length
    ∧ (packet.drop Control.offTag).take Control.tagSize =
      Control.expectedTag K (tlsCryptKeys key256) packet

instance (K : Crypto) (key256 packet : Bytes) : Decidable (TlsAuthentic K key256 packet) :=
  inferInstanceAs (Decidable (_ ∧ _))

/-- The data keys that are live in a session. -/
def Peer.liveKeys (p : Peer key256) : List Data.Wrapper :=
  let key (slot : KeySlot) := slot.wrapper.bind fun g => p.gens[g]?
  (key p.primary).toList ++ if before p.clock p.lameDuck.mustDie then (key p.lameDuck).toList
    else []

/-- No live data key of the session authenticates the packet. -/
def NoLiveKey (A : Aead) (s : Server key256) (id : Nat) (packet : Bytes) : Prop :=
  ∀ p ∈ s.sess[id]?, ∀ w ∈ p.liveKeys, ¬ Authenticates A w packet

instance (s : Server key256) (id : Nat) (packet : Bytes) : Decidable (NoLiveKey A s id packet) :=
  inferInstanceAs (Decidable (∀ p ∈ s.sess[id]?, ∀ w ∈ p.liveKeys, ¬ Authenticates A w packet))

/-- The packet authenticates neither under the tls-crypt key nor in the session it names. -/
def Unauthenticated (K : Crypto) (A : Aead) (s : Server key256) (packet : Bytes) : Prop :=
  ¬ TlsAuthentic K key256 packet
    ∧ ∀ id ∈ s.dataSessions.lookup (peerIDOf packet), NoLiveKey A s id packet

instance (s : Server key256) (packet : Bytes) : Decidable (Unauthenticated K A s packet) :=
  inferInstanceAs
    (Decidable (_ ∧ ∀ id ∈ s.dataSessions.lookup (peerIDOf packet), NoLiveKey A s id packet))

variable {packet : Bytes} {p : Peer key256} {s : Server key256} {x : Section key256}

theorem tlsUnwrap_of_not_authentic (h : ¬ TlsAuthentic K key256 packet)
    (w : TlsWrapper key256) : w.unwrap K packet = none := by
  unfold TlsWrapper.unwrap
  split
  · rfl
  · rename_i hw
    unfold Control.Wrapper.unwrap at hw
    rw [w.keyed] at hw
    split at hw
    · cases hw
    · rename_i hlen
      split at hw
      · cases hw
      · rename_i htag
        exact absurd ⟨Nat.not_lt.mp hlen, Decidable.not_not.mp htag⟩ h

/-- Generation `g` was made, and it does not authenticate the packet. -/
def Peer.Refuses (A : Aead) (p : Peer key256) (g : Nat) (packet : Bytes) : Prop :=
  ∃ w, p.gens[g]? = some w ∧ ¬ Authenticates A w packet

/-- A lame duck, as it was read, does not authenticate the packet while it is live. -/
def Peer.DuckRefuses (A : Aead) (p : Peer key256) (lameDuck : KeySlot) (packet : Bytes) : Prop :=
  ∀ g ∈ lameDuck.wrapper, before p.clock lameDuck.mustDie = true → p.Refuses A g packet

theorem openUnder_of_refuses {g : Nat} (h : p.Refuses A g packet)
    (id : Nat) (failed : List (Section key256)) :
    Peer.openUnder A id g packet failed p = { peer := p, next := failed } := by
  obtain ⟨w, hw, hauth⟩ := h
  obtain ⟨hsame, hfail⟩ := Proof.open_of_not_authentic hauth
  have hset : p.gens.set g w = p.gens := by
    obtain ⟨hlt, rfl⟩ := List.getElem?_eq_some_iff.mp hw
    exact List.set_getElem_self hlt
  have hping : (w.open A packet).2 ≠ .error .pingAbsorbed := by
    unfold Data.Wrapper.open
    split
    · simp
    · cases hd : w.decrypt A packet with
      | none => simp
      | some q => exact absurd ⟨Nat.not_lt.mp ‹_›, by simp [hd]⟩ hauth
  have hopen : Session.openUnder A p.toSession g packet = (p.toSession, (w.open A packet).2) := by
    unfold Session.openUnder
    rw [hw]
    dsimp only
    rw [hsame, hset]
  unfold Peer.openUnder
  simp only [hopen]
  congr 1
  split
  · exact absurd ‹_› (hfail _)
  · exact absurd ‹_› hping
  · rfl

theorem refuses_of_noLiveKey (h : ∀ w ∈ p.liveKeys, ¬ Authenticates A w packet) :
    (∀ g ∈ p.primary.wrapper, p.Refuses A g packet) ∧ p.DuckRefuses A p.lameDuck packet := by
  have made : ∀ g, g < p.gens.length → ∃ w, p.gens[g]? = some w :=
    fun g hg => ⟨p.gens[g], List.getElem?_eq_getElem hg⟩
  constructor
  · intro g hg
    obtain ⟨w, hw⟩ := made g (p.made.1 g hg)
    refine ⟨w, hw, h w ?_⟩
    simp [Peer.liveKeys, Option.mem_def.mp hg, hw]
  · intro g hg hlive
    obtain ⟨w, hw⟩ := made g (p.made.2 g hg)
    refine ⟨w, hw, h w ?_⟩
    simp [Peer.liveKeys, Option.mem_def.mp hg, hw, hlive]

/-! ## Later -/

theorem keysKept_refl (gens : List Data.Wrapper) :
    KeysKept gens gens := fun _ w hw => ⟨w, hw, rfl, rfl⟩

theorem Peer.Later.refl (p : Peer key256) : p.Later p := ⟨Int.le_refl _, keysKept_refl _⟩

theorem Server.Later.refl (s : Server key256) : s.Later s := fun _ p hp => ⟨p, hp, .refl p⟩

theorem Server.Later.of_sess {s' : Server key256} (h : s'.sess = s.sess) : s.Later s' := by
  intro id p hp
  exact ⟨p, h ▸ hp, .refl p⟩

/-- A turn leads on if what it does to its peer does. -/
theorem later_turn (s : Server key256) (id : Nat) {f : Peer key256 → Turn key256}
    (h : ∀ p : Peer key256, p.Later (f p).peer) : s.Later (s.turn id f).server := by
  unfold Server.turn
  split
  · exact .refl s
  · rename_i q hq
    intro i p hp
    by_cases hi : id = i
    · subst hi
      obtain rfl : q = p := Option.some.inj (hq.symm.trans hp)
      have hlt := (List.getElem?_eq_some_iff.mp hq).1
      exact ⟨_, List.getElem?_set_self hlt, h q⟩
    · exact ⟨p, (List.getElem?_set_ne hi).trans hp, .refl p⟩

variable {p' : Peer key256}

theorem Peer.Later.of_same (hc : p'.clock = p.clock) (hg : p'.gens = p.gens) : p.Later p' := by
  refine ⟨Int.le_of_eq hc.symm, ?_⟩
  rw [hg]
  exact keysKept_refl _

theorem openUnder_keeps (s : Session) (g : Nat) (packet : Bytes) :
    (Session.openUnder A s g packet).1.clock = s.clock
      ∧ KeysKept s.gens (Session.openUnder A s g packet).1.gens := by
  unfold Session.openUnder
  split
  · exact ⟨rfl, keysKept_refl _⟩
  · rename_i w hw
    refine ⟨rfl, fun i v hv => ?_⟩
    by_cases hi : g = i
    · subst hi
      obtain rfl : w = v := Option.some.inj (hw.symm.trans hv)
      have hlt := (List.getElem?_eq_some_iff.mp hw).1
      refine ⟨_, List.getElem?_set_self hlt, ?_⟩
      rw [Proof.open_frame A w packet]
      exact ⟨rfl, rfl⟩
    · exact ⟨v, (List.getElem?_set_ne hi).trans hv, rfl, rfl⟩

theorem later_openUnder (id g : Nat) (packet : Bytes) (failed : List (Section key256))
    (p : Peer key256) : p.Later (Peer.openUnder A id g packet failed p).peer :=
  ⟨Int.le_of_eq (openUnder_keeps p.toSession g packet).1.symm,
    (openUnder_keeps p.toSession g packet).2⟩

theorem startRenegotiation_same (s : Session) (want : Option KeyID) :
    (s.startRenegotiation cfg want).clock = s.clock ∧
    (s.startRenegotiation cfg want).gens = s.gens := by
  unfold Session.startRenegotiation
  dsimp only
  repeat' split
  all_goals exact ⟨rfl, rfl⟩

/-- No section of a call takes away a session, changes a key or turns back a clock. -/
theorem later_exec (s : Server key256) (x : Section key256) (c : Choice) :
    s.Later (s.exec K A cfg x c).server := by
  cases x with
  | lookup addr hdr packet =>
    refine .of_sess ?_
    unfold Server.exec Server.lookup
    dsimp only
    repeat' split
    all_goals rfl
  | candidate addr hdr packet =>
    refine .of_sess ?_
    unfold Server.exec Server.candidate
    dsimp only
    repeat' split
    all_goals rfl
  | publish p cp =>
    intro id q hq
    have hlt := (List.getElem?_eq_some_iff.mp hq).1
    unfold Server.exec Server.publish
    dsimp only
    split
    · exact ⟨q, hq, .refl q⟩
    · exact ⟨q, (List.getElem?_append_left hlt).trans hq, .refl q⟩
  | opened id cp => exact .of_sess rfl
  | dataLookup packet =>
    refine .of_sess ?_
    unfold Server.exec Server.dataLookup
    dsimp only
    split <;> rfl
  | openPrimary id g lameDuck packet | openLameDuck id g packet =>
    exact later_turn s id fun p => later_openUnder id g packet _ p
  | beginRenegotiation id cp =>
    refine later_turn s id fun p => ?_
    unfold Peer.beginRenegotiation
    dsimp only
    split
    · exact .refl p
    · exact .of_same (startRenegotiation_same _ _).1 (startRenegotiation_same _ _).2
  | _ =>
    refine later_turn s _ fun p => ?_
    dsimp only [Peer.unwrap, Peer.softReset, Peer.goRenegotiation, Peer.enqueue, Peer.pump,
      Peer.dispatch,
      Peer.route, Peer.task, Peer.touchAuthTraffic, Peer.handleDataPacket, Peer.tryLameDuck,
      Peer.keepalive, Peer.deliver, Peer.queueIP]
    repeat' split
    all_goals exact .of_same rfl rfl

/-- The triage of a datagram drops it or starts with one of two lookups. -/
theorem handleDatagram_cases (s : Server key256) (addr : String) (packet : Bytes) :
    s.handleDatagram addr packet = { server := s, rejected := true }
      ∨ (∃ hdr, s.handleDatagram addr packet = { server := s, next := [.lookup addr hdr packet] })
      ∨ s.handleDatagram addr packet = { server := s, next := [.dataLookup packet] } := by
  unfold Server.handleDatagram Server.handleDataDatagram
  repeat' split
  all_goals first
    | exact .inl rfl
    | exact .inr (.inl ⟨_, rfl⟩)
    | exact .inr (.inr rfl)

theorem handleDatagram_server (s : Server key256) (addr : String) (packet : Bytes) :
    (s.handleDatagram addr packet).server = s := by
  rcases handleDatagram_cases s addr packet with h | ⟨hdr, h⟩ | h <;> rw [h]

theorem later_start (s : Server key256) (e : Event key256) : s.Later (s.start e).server := by
  cases e with
  | datagram addr packet => exact .of_sess (by rw [Server.start, handleDatagram_server])
  | pump id =>
    refine .of_sess ?_
    unfold Server.start
    dsimp only
    split <;> rfl
  | other a => exact a.later s
  | nothing => exact .refl s

/-! ## The call of such a datagram -/

/-- What is known of a section that the call has still to run. -/
def Harmless (K : Crypto) (A : Aead) (s : Server key256) : Section key256 → Prop
  | .lookup _ _ packet | .candidate _ _ packet | .unwrap _ _ packet =>
    ¬ TlsAuthentic K key256 packet
  | .dataLookup _ | .handleDataPacket _ _ => True
  | .openPrimary id g lameDuck packet =>
    ∃ p, s.sess[id]? = some p ∧ p.Refuses A g packet ∧ p.DuckRefuses A lameDuck packet
  | .tryLameDuck id lameDuck packet => ∃ p, s.sess[id]? = some p ∧ p.DuckRefuses A lameDuck packet
  | .openLameDuck id g packet => ∃ p, s.sess[id]? = some p ∧ p.Refuses A g packet
  | _ => False

theorem Peer.Refuses.later {g : Nat} (h : p.Refuses A g packet) (hl : p.Later p') :
    p'.Refuses A g packet := by
  obtain ⟨w, hw, hauth⟩ := h
  obtain ⟨w', hw', hkey, hiv⟩ := hl.gens g w hw
  refine ⟨w', hw', fun h => hauth ?_⟩
  unfold Authenticates Data.Wrapper.decrypt at h ⊢
  rwa [hkey, hiv] at h

theorem Peer.DuckRefuses.later {lameDuck : KeySlot} (h : p.DuckRefuses A lameDuck packet)
    (hl : p.Later p') : p'.DuckRefuses A lameDuck packet :=
  fun g hg hb => (h g hg (before_mono hl.clock hb)).later hl

theorem Harmless.later {s' : Server key256} (h : Harmless K A s x)
    (hl : s.Later s') : Harmless K A s' x := by
  cases x with
  | openPrimary id g lameDuck packet =>
    obtain ⟨p, hp, hr, hd⟩ := h
    obtain ⟨p', hp', hlp⟩ := hl id p hp
    exact ⟨p', hp', hr.later hlp, hd.later hlp⟩
  | tryLameDuck id lameDuck packet =>
    obtain ⟨p, hp, hd⟩ := h
    obtain ⟨p', hp', hlp⟩ := hl id p hp
    exact ⟨p', hp', hd.later hlp⟩
  | openLameDuck id g packet =>
    obtain ⟨p, hp, hr⟩ := h
    obtain ⟨p', hp', hlp⟩ := hl id p hp
    exact ⟨p', hp', hr.later hlp⟩
  | _ => exact h

/-- When `handleDataPacket` reads the slots, no live key authenticates the packet. -/
def ReadsNoKey (A : Aead) (s : Server key256) : Section key256 → Prop
  | .handleDataPacket id packet => NoLiveKey A s id packet
  | _ => True

instance (s : Server key256) : ∀ x : Section key256, Decidable (ReadsNoKey A s x)
  | .handleDataPacket id packet => inferInstanceAs (Decidable (NoLiveKey A s id packet))
  | .lookup _ _ _ | .candidate _ _ _ | .unwrap _ _ _ | .publish _ _ | .opened _ _ | .softReset _ _
  | .beginRenegotiation _ _ | .goRenegotiation _ _ | .enqueue _ _ | .pump _ | .dispatch _ _ | .route
      _ _
  | .task _ _ _ | .touchAuthTraffic _ | .dataLookup _ | .openPrimary _ _ _ _ | .tryLameDuck _ _ _
  | .openLameDuck _ _ _ | .keepalive _ | .deliver _ _ | .queueIP _ _ => .isTrue trivial

/-- The same of the session that the packet names, if it is still to be looked up. -/
def Aimed (A : Aead) (s : Server key256) : Section key256 → Prop
  | .dataLookup packet => ∀ id ∈ s.dataSessions.lookup (peerIDOf packet), NoLiveKey A s id packet
  | x => ReadsNoKey A s x

/-- How many sections the call can still have. -/
def left : Section key256 → Nat
  | .lookup _ _ _ => 2
  | .candidate _ _ _ | .unwrap _ _ _ => 1
  | .dataLookup _ => 5
  | .handleDataPacket _ _ => 4
  | .openPrimary _ _ _ _ => 3
  | .tryLameDuck _ _ _ => 2
  | .openLameDuck _ _ _ => 1
  | _ => 0

theorem Harmless.left_pos (h : Harmless K A s x) : 0 < left x := by
  cases x <;> first | exact Nat.succ_pos _ | exact h.elim

/-- The section writes nothing; then the call is over, counted or not, or goes on to another. -/
inductive Passed (K : Crypto) (A : Aead) (s : Server key256) (x : Section key256) :
    Outcome key256 → Prop
  | ended (rejected : Bool) : Passed K A s x { server := s, rejected := rejected }
  | onward {y : Section key256} (hy : Harmless K A s y) (ha : Aimed A s x → Aimed A s y)
      (hl : left y < left x) : Passed K A s x { server := s, next := [y] }

/-- What a section that leaves its session alone says about it. -/
inductive PassedOn (K : Crypto) (A : Aead) (s : Server key256) (x : Section key256)
    (p : Peer key256) :
    Turn key256 → Prop
  | ended (rejected : Bool) : PassedOn K A s x p { peer := p, rejected := rejected }
  | onward {y : Section key256} (hy : Harmless K A s y) (hl : left y < left x) (ha : Aimed A s y) :
      PassedOn K A s x p { peer := p, next := [y] }

/-- A turn leaves the server as it is, if it does so with its peer. -/
theorem passed_turn {id : Nat} {f : Peer key256 → Turn key256}
    (h : ∀ p, s.sess[id]? = some p → PassedOn K A s x p (f p)) : Passed K A s x (s.turn id f) := by
  unfold Server.turn
  split
  · exact .ended false
  · rename_i p hp
    have hset : s.sess.set id p = s.sess := by
      obtain ⟨hlt, rfl⟩ := List.getElem?_eq_some_iff.mp hp
      exact List.set_getElem_self hlt
    have hf := h p hp
    generalize f p = t at hf
    cases hf with
    | ended rejected =>
      simp only [hset, List.map_nil, List.append_nil]
      exact .ended rejected
    | onward hy hl ha =>
      simp only [hset, List.map_nil, List.append_nil]
      exact .onward hy (fun _ => ha) hl

theorem passedOn_handleDataPacket {id : Nat} (h : NoLiveKey A s id packet)
    (hp : s.sess[id]? = some p) :
    PassedOn K A s (.handleDataPacket id packet) p (Peer.handleDataPacket id packet p) := by
  obtain ⟨hprimary, hduck⟩ := refuses_of_noLiveKey (h p hp)
  unfold Peer.handleDataPacket
  split
  · exact .ended false
  · exact .onward ⟨p, hp, hprimary _ ‹_›, hduck⟩ (by simp [left]) trivial

theorem passedOn_tryLameDuck {id : Nat} {lameDuck : KeySlot} (hp : s.sess[id]? = some p)
    (h : p.DuckRefuses A lameDuck packet) :
    PassedOn K A s (.tryLameDuck id lameDuck packet) p (Peer.tryLameDuck id lameDuck packet p) := by
  unfold Peer.tryLameDuck
  split
  · exact .ended false
  · split
    · exact .onward ⟨p, hp, h _ ‹_› ‹_›⟩ (by simp [left]) trivial
    · exact .ended false

/-- **No section of the call writes anything.** -/
theorem harmless_exec (cfg : Config) (h : Harmless K A s x)
    (hr : ReadsNoKey A s x) (c : Choice) : Passed K A s x (s.exec K A cfg x c) := by
  cases x with
  | lookup addr hdr packet =>
    show Passed K A s _ (s.lookup addr hdr packet)
    unfold Server.lookup
    split
    · exact .onward h (fun _ => trivial) (by simp [left])
    · split
      · exact .ended true
      · exact .onward h (fun _ => trivial) (by simp [left])
  | candidate addr hdr packet =>
    show Passed K A s _ (s.candidate K addr hdr packet c.now c.draw)
    unfold Server.candidate
    split
    · rw [tlsUnwrap_of_not_authentic h]
      exact .ended true
    · exact .ended false
  | unwrap id hdr packet =>
    refine passed_turn fun p _ => ?_
    unfold Peer.unwrap
    rw [tlsUnwrap_of_not_authentic h]
    exact .ended true
  | dataLookup packet =>
    show Passed K A s _ (s.dataLookup packet)
    unfold Server.dataLookup
    split
    · exact .ended true
    · exact .onward trivial (fun ha => ha _ ‹_›) (by simp [left])
  | handleDataPacket id packet => exact passed_turn fun p hp => passedOn_handleDataPacket hr hp
  | openPrimary id g lameDuck packet =>
    obtain ⟨p, hp, hrefuses, hduck⟩ := h
    refine passed_turn fun q hq => ?_
    obtain rfl : p = q := Option.some.inj (hp.symm.trans hq)
    unfold Peer.openPrimary
    rw [openUnder_of_refuses hrefuses]
    exact .onward ⟨p, hp, hduck⟩ (by simp [left]) trivial
  | tryLameDuck id lameDuck packet =>
    obtain ⟨p, hp, hduck⟩ := h
    refine passed_turn fun q hq => ?_
    obtain rfl : p = q := Option.some.inj (hp.symm.trans hq)
    exact passedOn_tryLameDuck hp hduck
  | openLameDuck id g packet =>
    obtain ⟨p, hp, hrefuses⟩ := h
    refine passed_turn fun q hq => ?_
    obtain rfl : p = q := Option.some.inj (hp.symm.trans hq)
    unfold Peer.openLameDuck
    rw [openUnder_of_refuses hrefuses]
    exact .ended false
  | _ => exact h.elim

/-! ## Alone -/

/-- The call alone: over, or at a section with at most `fuel` of them to go. -/
def Alone (K : Crypto) (A : Aead) (s : Server key256) (n fuel : Nat)
    (t : Threads.Sys (Counted key256) (Section key256)) : Prop :=
  (∃ m, m ≤ n + 1 ∧ t = { shared := { server := s, datagramsRejected := m }, threads := [[]] })
    ∨ ∃ x, Harmless K A s x ∧ Aimed A s x ∧ left x ≤ fuel
      ∧ t = { shared := { server := s, datagramsRejected := n }, threads := [[x]] }

theorem Aimed.readsNoKey (h : Aimed A s x) : ReadsNoKey A s x := by
  cases x with
  | dataLookup packet => trivial
  | _ => exact h

/-- A section leaves the server as it is, and one section fewer to go. -/
theorem alone_step (cfg : Config) {n fuel : Nat}
    {t : Threads.Sys (Counted key256) (Section key256)} (h : Alone K A s n fuel t) (c : Choice) :
    Alone K A s n (fuel - 1) (Threads.step (program K A cfg key256) t (.run 0 c)) := by
  rcases h with ⟨m, hm, rfl⟩ | ⟨x, hx, ha, hl, rfl⟩
  · exact .inl ⟨m, hm, rfl⟩
  · have hp := harmless_exec cfg hx ha.readsNoKey c
    rw [Threads.step_run_of_cons _ c rfl]
    simp only [program, Outcome.counted, List.set_cons_zero, List.append_nil]
    generalize s.exec K A cfg x c = o at hp
    cases hp with
    | ended rejected => exact .inl ⟨_, by split <;> omega, rfl⟩
    | onward hy hay hly => exact .inr ⟨_, hy, hay ha, by omega, rfl⟩

/-- So does each of a run. -/
theorem alone_run (cfg : Config) {n fuel : Nat}
    {t : Threads.Sys (Counted key256) (Section key256)} (h : Alone K A s n fuel t)
    (cs : List Choice) :
    Alone K A s n (fuel - cs.length)
      (Machine.run (Threads.step (program K A cfg key256)) t (cs.map (.run 0))) := by
  induction cs generalizing fuel t with
  | nil => exact h
  | cons c cs ih =>
    rw [List.length_cons, Nat.add_comm, ← Nat.sub_sub]
    exact ih (alone_step cfg h c)

/-- Such a datagram starts a call of at most five sections. -/
theorem alone_start (cfg : Config) {s : Counted key256}
    (h : Unauthenticated K A s.server packet) (addr : String) :
    Alone K A s.server s.datagramsRejected 5
      (Threads.step (program K A cfg key256) { shared := s } (.start (.datagram addr packet))) := by
  have hd := handleDatagram_cases s.server addr packet
  show Alone K A s.server s.datagramsRejected 5
    { shared := ((s.server.handleDatagram addr packet).counted s.datagramsRejected).1
      threads := [((s.server.handleDatagram addr packet).counted s.datagramsRejected).2] }
  generalize s.server.handleDatagram addr packet = o at hd ⊢
  rcases hd with rfl | ⟨hdr, rfl⟩ | rfl
  · exact .inl ⟨_, Nat.le_refl _, rfl⟩
  · exact .inr ⟨.lookup addr hdr packet, h.1, trivial, by simp [left], rfl⟩
  · exact .inr ⟨.dataLookup packet, trivial, h.2, by simp [left], rfl⟩

/-! ## Beside others -/

/-- A datagram that the tls-crypt key does not authenticate. -/
def Event.Forged (K : Crypto) : Event key256 → Prop
  | .datagram _ packet => ¬ TlsAuthentic K key256 packet
  | _ => False

instance : ∀ e : Event key256, Decidable (e.Forged K)
  | .datagram _ packet => inferInstanceAs (Decidable (¬ TlsAuthentic K key256 packet))
  | .pump _ | .other _ | .nothing => .isFalse id

theorem unnoticed (K : Crypto) (A : Aead) (cfg : Config) (key256 : Bytes) :
    Threads.Unnoticed (program K A cfg key256) .nothing Counted.server (fun _ e => e.Forged K)
      (fun s x => ReadsNoKey A s.server x) (Harmless K A) where
  idle _ := ⟨rfl, rfl⟩
  start_view e h := by
    simp only [program, Outcome.counted, h, and_self]
  exec_view x c h := by
    simp only [program, Outcome.counted, h, and_self]
  start_drop {s e} h := by
    cases e with
    | datagram addr packet =>
      have hd := handleDatagram_cases s.server addr packet
      show (s.server.handleDatagram addr packet).server = s.server
        ∧ ∀ x ∈ (s.server.handleDatagram addr packet).next, Harmless K A s.server x
      generalize s.server.handleDatagram addr packet = o at hd ⊢
      rcases hd with rfl | ⟨hdr, rfl⟩ | rfl
      · exact ⟨rfl, by simp⟩
      · refine ⟨rfl, fun x hx => ?_⟩
        rw [List.mem_singleton.mp hx]
        exact h
      · refine ⟨rfl, fun x hx => ?_⟩
        rw [List.mem_singleton.mp hx]
        exact trivial
    | _ => exact h.elim
  exec_drop {s x} c hq hr := by
    have hp := harmless_exec cfg hq hr c
    simp only [program, Outcome.counted]
    generalize s.server.exec K A cfg x c = o at hp
    cases hp with
    | ended rejected => exact ⟨rfl, by simp⟩
    | onward hy =>
      refine ⟨rfl, fun y hy' => ?_⟩
      rw [List.mem_singleton.mp hy']
      exact hy
  start_keeps s e _ h := h.later (later_start s.server e)
  exec_keeps s x c _ h := h.later (later_exec s.server x c)

/--
**Datagrams that do not authenticate have no effect.** The call of one ends within five
sections, whatever they are told, and leaves the server as it was but for the count of
dropped datagrams. And in any run, with anything going on beside them, the server is at
the end what it is without them, and so is what every other call has still to do: whether
a datagram authenticates under a data key is asked when its call reads the slots.
-/
theorem unauthenticated_no_effect (K : Crypto) (A : Aead) (cfg : Config) (key256 : Bytes) :
    (∀ (s : Counted key256) (addr : String) (packet : Bytes) (cs : List Choice),
      Unauthenticated K A s.server packet →
        let r := Machine.run (Threads.step (program K A cfg key256)) { shared := s }
          (.start (.datagram addr packet) :: cs.map (.run 0))
        r.shared.server = s.server ∧ r.shared.datagramsRejected ≤ s.datagramsRejected + 1
          ∧ (5 ≤ cs.length → r.pending = []))
    ∧ ∀ (s : Threads.Sys (Counted key256) (Section key256))
        (ms : List (Threads.Move (Event key256) Choice)) (drop : Nat → Bool),
        (∀ i < s.threads.length, drop i = false) →
        Machine.Along (Threads.step (program K A cfg key256))
          (Threads.Dropped drop (fun _ e => e.Forged K) fun s x => ReadsNoKey A s.server x) s ms →
        let r := Machine.run (Threads.step (program K A cfg key256)) s ms
        let r' := Machine.run (Threads.step (program K A cfg key256)) s
          (Threads.without .nothing drop s.threads.length ms)
        r'.shared.server = r.shared.server ∧ ∀ i, drop i = false →
          r'.threads[i]? = r.threads[i]? := by
  constructor
  · intro s addr packet cs h
    have halone := alone_run cfg (alone_start cfg h addr) cs
    rw [Machine.run_cons]
    rcases halone with ⟨m, hm, hr⟩ | ⟨x, hx, -, hl, hr⟩
    · rw [hr]
      exact ⟨rfl, hm, fun _ => rfl⟩
    · rw [hr]
      refine ⟨rfl, Nat.le_succ _, fun hlen => ?_⟩
      have := hx.left_pos
      omega
  · intro s ms drop hfresh hms
    have hb := Threads.run_without (unnoticed K A cfg key256) (.refl _ _ hfresh) hms
    exact ⟨hb.view, hb.kept⟩

def staticKey : Bytes := List.replicate 256 0

/-- A server with one client, whose peer-id is 5. -/
def oneClient : Server staticKey where
  dataSessions := (∅ : AList fun _ : PeerID => Nat).insert 5 0
  sess :=
    [{ Session.new 0 0 with
        primary := { conn := some 0, wrapper := some 0, established := some 0 }
        gens :=
          [{ peerID := 5, keyID := 0, encryptKey := [], encryptIV := [], decryptKey := []
             decryptIV := [] }]
        made := ⟨by simp, by simp [Session.new]⟩
        sessionID := .zero
        remoteAddr := "10.0.0.1:1194"
        clientSessionID := .zero
        wrapper := ⟨{ encrypt := ⟨[], []⟩, decrypt := tlsCryptKeys staticKey }, rfl⟩
        ipInboundSize := 4 }]

/-- A hard reset with a wrong tag. -/
def forgedReset : Bytes :=
  Control.headerByte Control.opControlHardResetClientV2 0 :: List.replicate 60 7

/-- A data packet for peer-id 5 with the given tag bytes. -/
def dataPacket (tag : UInt8) : Bytes :=
  [Data.opDataV2 <<< 3, 0, 0, 5, 0, 0, 0, 1] ++ List.replicate 16 tag ++ [1, 2, 3]

def quiet : Choice := { env := Proof.calm, draw := some .zero }

/-- Two forged datagrams and an authentic one, handled at once. -/
def threeAtOnce : List (Threads.Move (Event staticKey) Choice) :=
  [.start (.datagram "192.0.2.1:4000" forgedReset),
   .start (.datagram "192.0.2.1:4001" (dataPacket 9)),
   .start (.datagram "10.0.0.1:1194" (dataPacket 0))]
    ++ [0, 1, 2, 2, 1, 0, 2, 1, 1, 2, 2, 2].map (.run · quiet)

def oneClientConfig : Config := { renegSec := 0, renegMinInterval := 0 }

/-- The server with one client goes through some moves. -/
def fromOneClient (ms : List (Threads.Move (Event staticKey) Choice)) :
    Threads.Sys (Counted staticKey) (Section staticKey) :=
  Machine.run (Threads.step (program Proof.toyCrypto Data.zeroTagAead oneClientConfig _))
    { shared := { server := oneClient } } ms

/-- A forged reset changes nothing, and the authentic packet arrives as if it had come alone. -/
theorem forged_beside_authentic :
    (fromOneClient (.start (.datagram "192.0.2.1:4000" forgedReset)
        :: (List.replicate 5 quiet).map (.run 0))).shared.server = oneClient
      ∧ (fromOneClient threeAtOnce).shared.server.sess.map (·.ipInbound) = [[[1, 2, 3]]]
      ∧ (fromOneClient (Threads.without .nothing (· < 2) 0 threeAtOnce)).shared.server
        = (fromOneClient threeAtOnce).shared.server := by
  have hforged : Unauthenticated Proof.toyCrypto Data.zeroTagAead oneClient forgedReset := by
    decide +kernel
  have hdropped : Machine.Along
      (Threads.step (program Proof.toyCrypto Data.zeroTagAead oneClientConfig staticKey))
      (Threads.Dropped (· < 2) (fun _ e => e.Forged Proof.toyCrypto)
        fun s x => ReadsNoKey Data.zeroTagAead s.server x)
      { shared := { server := oneClient } } threeAtOnce := by decide +kernel
  obtain ⟨halone, hbeside⟩ :=
    unauthenticated_no_effect Proof.toyCrypto Data.zeroTagAead oneClientConfig staticKey
  refine ⟨?_, by decide +kernel, ?_⟩
  · unfold fromOneClient
    exact (halone { server := oneClient } _ forgedReset _ hforged).1
  · unfold fromOneClient
    exact (hbeside { shared := { server := oneClient } } threeAtOnce (· < 2) (by simp) hdropped).1

end GoVpn.Ovpn.Inbound
