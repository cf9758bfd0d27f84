import GoVpn.Ovpn.Shutdown
import GoVpn.Proof.ConnsClosed
import GoVpn.Proof.Unauthenticated

/-!
# The table of sessions

The session table lists the sessions whose teardown has not reached `removeSession` yet.
The goroutines of a session and the calls of its datagrams keep it that way: only the
body of `stopOnce` takes a session out, and only the registering section of
`handleDatagram` enters one.
-/

namespace GoVpn.Ovpn

/-- The body of `stopOnce` has taken the session out of the table. -/
def Once.removed : Once → Bool
  | .running _ (.closeConns _) | .running _ .loadPublished | .done => true
  | _ => false

/-- The teardown of a session is in order. -/
structure Session.Ending (s : Session) : Prop where
  stop : s.life.StopClosed
  waited : ∀ x ∈ s.closers, x.2.waited = true → s.stopOnce = .done

end GoVpn.Ovpn

namespace GoVpn.Ovpn.Inbound

open GoVpn.Control (Bytes Crypto parseHeaderByte parseControlPacket opControlHardResetClientV2)
open GoVpn.Data (Aead)
open GoVpn.Proof
open Tally (getElem?_set_cases getElem?_concat_cases)

variable {K : Crypto} {A : Aead} {cfg : Config} {key256 : Bytes}

/-! ## One session -/

section Session

variable {s : Session}

/-- The step takes the session out of the table. -/
def Removing (s : Session) (inp : Input) : Prop :=
  inp = .teardown ∧ ∃ r cs, s.stopOnce = .running r (.remove cs)

/-- Only its own teardown removes a session. -/
theorem removed_step {inp : Input} (h : ¬ Removing s inp) :
    (s.step A cfg inp).stopOnce.removed = s.stopOnce.removed := by
  by_cases hinp : inp = .teardown
  · subst hinp
    simp only [Session.step, Session.teardown]
    cases ho : s.stopOnce with
    | fresh | done => rw [ho]
    | running r pc =>
      cases pc with
      | remove cs => exact absurd ⟨rfl, r, cs, ho⟩ h
      | release ip => cases ip <;> rfl
      | closeConns cs => cases cs <;> rfl
      | _ => rfl
  · rcases (bodyKept_step A cfg hinp).2 with heq | ⟨hfresh, r, heq⟩
    · rw [heq]
    · rw [heq, hfresh]
      rfl

theorem removed_removing {inp : Input} (h : Removing s inp) :
    (s.step A cfg inp).stopOnce.removed = true := by
  obtain ⟨rfl, r, cs, ho⟩ := h
  simp only [Session.step, Session.teardown, ho]
  rfl

/-- Every step keeps the teardown in order. -/
theorem ending_step (h : s.Ending) (inp : Input) : (s.step A cfg inp).Ending :=
  ⟨stopClosed_step h.stop inp, closers_step A cfg h.waited inp⟩

end Session

/-! ## The table -/

/-- The session keeps its key, its teardown stays in order, and it is where it was in its
removal. -/
structure Peer.Keeps (p p' : Peer key256) : Prop where
  key : p'.key = p.key
  ending : p.Ending → p'.Ending
  removed : p'.stopOnce.removed = p.stopOnce.removed

/-- The table is as it was, and so are the sessions as far as it is concerned. -/
structure Server.Quiet (s s' : Server key256) : Prop where
  sessions : s'.sessions = s.sessions
  length : s'.sess.length = s.sess.length
  sess : ∀ (id : Nat) (p' : Peer key256), s'.sess[id]? = some p' →
    ∃ p : Peer key256, s.sess[id]? = some p ∧ p.Keeps p'

/-- The table lists the sessions that have not been removed. -/
structure Server.Tabled (s : Server key256) : Prop where
  listed : ∀ id p, s.sess[id]? = some p → s.sessions.lookup p.key = some id ∨
    p.stopOnce.removed = true
  own : ∀ key id, s.sessions.lookup key = some id → ∃ p, s.sess[id]? = some p ∧ p.key = key
  gone : ∀ id p, s.sess[id]? = some p → p.stopOnce.removed = true →
    s.sessions.lookup p.key ≠ some id
  ending : ∀ (id : Nat) (p : Peer key256), s.sess[id]? = some p → p.Ending

/-- The sessions that have not been removed are among `rest`. -/
def Server.Covered (s : Server key256) (rest : List Nat) : Prop :=
  ∀ id p, s.sess[id]? = some p → p.stopOnce.removed = true ∨ id ∈ rest

theorem Peer.Keeps.refl (p : Peer key256) : p.Keeps p := ⟨rfl, id, rfl⟩

variable {p p' : Peer key256} {s s' : Server key256}

theorem Peer.Keeps.aside (hkey : p'.key = p.key) (hlife : p'.life = p.life)
    (hcl : ∀ x ∈ p'.closers, x ∈ p.closers ∨ x.2 = .enter) : p.Keeps p' := by
  have honce : p'.stopOnce = p.stopOnce := congrArg Life.stopOnce hlife
  refine ⟨hkey, fun h => ⟨by rw [hlife]; exact h.stop, fun x hx hw => ?_⟩, by rw [honce]⟩
  rcases hcl x hx with hold | hnew
  · rw [honce]
    exact h.waited x hold hw
  · rw [hnew] at hw
    cases hw

theorem Peer.Keeps.same (hkey : p'.key = p.key) (hlife : p'.life = p.life)
    (hcl : p'.closers = p.closers) : p.Keeps p' :=
  .aside hkey hlife fun _ hx => .inl (hcl ▸ hx)

namespace Server

variable {s s' : Server key256}

theorem Quiet.of_sess (hsessions : s'.sessions = s.sessions) (hsess : s'.sess = s.sess) :
    s.Quiet s' :=
  ⟨hsessions, by rw [hsess], fun id p' hp => ⟨p', hsess ▸ hp, .refl p'⟩⟩

theorem Quiet.of_set {id : Nat} {p p' : Peer key256} (hsessions : s'.sessions = s.sessions)
    (hp : s.sess[id]? = some p) (hsess : s'.sess = s.sess.set id p') (h : p.Keeps p') :
    s.Quiet s' := by
  refine ⟨hsessions, by rw [hsess, List.length_set], fun i q hq => ?_⟩
  rw [hsess] at hq
  rcases getElem?_set_cases hq with ⟨rfl, rfl⟩ | ⟨-, hq⟩
  · exact ⟨p, hp, h⟩
  · exact ⟨q, hq, .refl q⟩

/-- A turn that keeps its peer keeps the table. -/
theorem quiet_turn (s : Server key256) (id : Nat) {f : Peer key256 → Turn key256}
    (h : ∀ p, Peer.Keeps p (f p).peer) : s.Quiet (s.turn id f).server := by
  unfold Server.turn
  cases hp : s.sess[id]? with
  | none => exact .of_sess rfl rfl
  | some p => exact .of_set rfl hp rfl (h p)

theorem Tabled.quiet (h : s.Tabled) (hq : s.Quiet s') : s'.Tabled where
  listed id p' hp' := by
    obtain ⟨p, hp, hk⟩ := hq.sess id p' hp'
    rw [hq.sessions, hk.key, hk.removed]
    exact h.listed id p hp
  own key id hid := by
    rw [hq.sessions] at hid
    obtain ⟨p, hp, hkey⟩ := h.own key id hid
    have hlt : id < s'.sess.length := by
      rw [hq.length]
      exact (List.getElem?_eq_some_iff.mp hp).1
    obtain ⟨q, hq', hk⟩ := hq.sess id _ (List.getElem?_eq_getElem hlt)
    rw [hp] at hq'
    cases hq'
    exact ⟨_, List.getElem?_eq_getElem hlt, hk.key.trans hkey⟩
  gone id p' hp' hr := by
    obtain ⟨p, hp, hk⟩ := hq.sess id p' hp'
    rw [hq.sessions, hk.key]
    exact h.gone id p hp (hk.removed ▸ hr)
  ending id p' hp' := by
    obtain ⟨p, hp, hk⟩ := hq.sess id p' hp'
    exact hk.ending (h.ending id p hp)

theorem Covered.quiet {rest : List Nat} (h : s.Covered rest) (hq : s.Quiet s') :
    s'.Covered rest := by
  intro id p' hp'
  obtain ⟨p, hp, hk⟩ := hq.sess id p' hp'
  rw [hk.removed]
  exact h id p hp

theorem mem_listed {id : Nat} : id ∈ s.listed ↔ ∃ key, s.sessions.lookup key = some id := by
  constructor
  · intro h
    obtain ⟨⟨key, i⟩, hmem, rfl⟩ := List.mem_map.mp h
    exact ⟨key, AList.mem_lookup_iff.mpr hmem⟩
  · rintro ⟨key, h⟩
    exact List.mem_map.mpr ⟨⟨key, id⟩, AList.mem_lookup_iff.mp h, rfl⟩

theorem Tabled.register (h : s.Tabled) {p : Peer key256} (hfree : s.sessions.lookup p.key = none)
    (hending : p.Ending) (hthere : p.stopOnce.removed = false)
    (hsessions : s'.sessions = s.sessions.insert p.key s.sess.length)
    (hsess : s'.sess = s.sess ++ [p]) : s'.Tabled := by
  have hcases : ∀ id q, s'.sess[id]? = some q → id = s.sess.length ∧ q = p ∨ s.sess[id]? = some q :=
    fun id q hq => getElem?_concat_cases (hsess ▸ hq)
  have hlt : ∀ {id q}, s.sess[id]? = some q → id < s.sess.length :=
    fun hq => (List.getElem?_eq_some_iff.mp hq).1
  refine ⟨fun id q hq => ?_, fun key id hid => ?_, fun id q hq hr => ?_, fun id q hq => ?_⟩
  · rcases hcases id q hq with ⟨rfl, rfl⟩ | hq
    · exact .inl (by rw [hsessions, AList.lookup_insert])
    · refine (h.listed id q hq).imp_left fun hl => ?_
      rw [hsessions, AList.lookup_insert_ne]
      · exact hl
      · intro hkey
        rw [hkey, hfree] at hl
        cases hl
  · rw [hsessions] at hid
    by_cases hkey : key = p.key
    · rw [hkey, AList.lookup_insert] at hid
      cases hid
      exact ⟨p, by rw [hsess]; simp, hkey.symm⟩
    · rw [AList.lookup_insert_ne hkey] at hid
      obtain ⟨q, hq, hqkey⟩ := h.own key id hid
      exact ⟨q, by rw [hsess, List.getElem?_append_left (hlt hq)]; exact hq, hqkey⟩
  · rcases hcases id q hq with ⟨rfl, rfl⟩ | hq
    · rw [hthere] at hr
      cases hr
    · intro hl
      rw [hsessions] at hl
      by_cases hkey : q.key = p.key
      · rw [hkey, AList.lookup_insert] at hl
        cases hl
        exact Nat.lt_irrefl _ (hlt hq)
      · rw [AList.lookup_insert_ne hkey] at hl
        exact h.gone id q hq hr hl
  · rcases hcases id q hq with ⟨rfl, rfl⟩ | hq
    · exact hending
    · exact h.ending id q hq

theorem lookup_removeSession {id i : Nat} {key k : SessionKey} :
    (s.removeSession id k).sessions.lookup key = some i ↔ s.sessions.lookup key = some i ∧
    (key = k → i ≠ id) := by
  unfold Server.removeSession
  split
  · rename_i hthere
    by_cases hkey : key = k
    · subst hkey
      rw [AList.lookup_erase, hthere]
      simp [eq_comm]
    · simp [hkey]
  · rename_i hother
    refine ⟨fun h => ⟨h, ?_⟩, fun h => h.1⟩
    rintro rfl rfl
    exact hother h

theorem Tabled.remove (h : s.Tabled) {id : Nat} {p p' : Peer key256} (hp : s.sess[id]? = some p)
    (hkey : p'.key = p.key) (hending : p'.Ending) (hr : p'.stopOnce.removed = true)
    (hsessions : s'.sessions = (s.removeSession id p.key).sessions)
    (hsess : s'.sess = s.sess.set id p') : s'.Tabled := by
  have hcases : ∀ i q, s'.sess[i]? = some q → i = id ∧ q = p' ∨ i ≠ id ∧ s.sess[i]? = some q :=
    fun i q hq => getElem?_set_cases (hsess ▸ hq)
  refine ⟨fun i q hq => ?_, fun key i hi => ?_, fun i q hq hrem => ?_, fun i q hq => ?_⟩
  · rcases hcases i q hq with ⟨-, rfl⟩ | ⟨hne, hq⟩
    · exact .inr hr
    · refine (h.listed i q hq).imp_left fun hl => ?_
      rw [hsessions, lookup_removeSession]
      exact ⟨hl, fun _ => hne⟩
  · rw [hsessions, lookup_removeSession] at hi
    obtain ⟨q, hq, hqkey⟩ := h.own key i hi.1
    refine ⟨q, ?_, hqkey⟩
    rw [hsess, List.getElem?_set_ne]
    · exact hq
    · rintro rfl
      rw [hp] at hq
      cases hq
      exact hi.2 hqkey.symm rfl
  · intro hl
    rw [hsessions, lookup_removeSession] at hl
    rcases hcases i q hq with ⟨rfl, rfl⟩ | ⟨hne, hq⟩
    · exact hl.2 hkey rfl
    · exact h.gone i q hq hrem hl.1
  · rcases hcases i q hq with ⟨-, rfl⟩ | ⟨-, hq⟩
    · exact hending
    · exact h.ending i q hq

end Server

/-- No session is entered. -/
structure Server.Shrinks (s s' : Server key256) : Prop where
  length : s'.sess.length = s.sess.length
  listed : ∀ id ∈ s'.listed, id ∈ s.listed

theorem Server.Quiet.shrinks (h : s.Quiet s') : s.Shrinks s' := by
  refine ⟨h.length, fun id hid => ?_⟩
  unfold Server.listed at hid ⊢
  rwa [h.sessions] at hid

theorem Server.Shrinks.trans {s'' : Server key256} (h : s.Shrinks s') (h' : s'.Shrinks s'') :
    s.Shrinks s'' :=
  ⟨h'.length.trans h.length, fun id hid => h.listed id (h'.listed id hid)⟩

variable {inp : Input} {x : Section key256}

/-- Only a removal changes the table. -/
theorem serve_frame (s : Server key256) (id : Nat) (h : ¬ Removing p.toSession inp) :
    (s.serve id p inp).sessions = s.sessions := by
  unfold Server.serve
  split
  · repeat' split
    all_goals rfl
  · split
    · split <;> rfl
    · rename_i r cs honce
      exact absurd ⟨rfl, r, cs, honce⟩ h
    · rfl
  · rfl

theorem serve_removing (s : Server key256) (id : Nat) (h : Removing p.toSession inp) :
    s.serve id p inp = s.removeSession id p.key := by
  obtain ⟨rfl, r, cs, honce⟩ := h
  simp only [Server.serve, honce]

theorem Peer.Keeps.step (p : Peer key256) (h : ¬ Removing p.toSession inp) :
    p.Keeps (p.step A cfg inp) :=
  ⟨rfl, fun he => ending_step he inp, removed_step h⟩

/-- A step of a session keeps the table in order and adds nothing to it. -/
theorem session_step (A : Aead) (cfg : Config) (h : s.Tabled) (id : Nat) (inp : Input) :
    (s.session A cfg id inp).Tabled ∧ s.Shrinks (s.session A cfg id inp)
      ∧ ∀ rest, s.Covered rest → (s.session A cfg id inp).Covered rest := by
  unfold Server.session
  cases hp : s.sess[id]? with
  | none => exact ⟨h, (Server.Quiet.of_sess rfl rfl).shrinks, fun _ hcov => hcov⟩
  | some p =>
    dsimp only
    by_cases hrem : Removing p.toSession inp
    · have hkey : (p.step A cfg inp).key = p.key := rfl
      have hending : (p.step A cfg inp).Ending := ending_step (h.ending id p hp) inp
      have hgone : (p.step A cfg inp).stopOnce.removed = true := removed_removing hrem
      refine ⟨h.remove hp hkey hending hgone ?_ rfl, ⟨?_, ?_⟩, ?_⟩
      · rw [serve_removing s id hrem]
      · exact List.length_set
      · intro i hi
        rw [Server.mem_listed] at hi ⊢
        obtain ⟨key, hkey⟩ := hi
        rw [serve_removing s id hrem, Server.lookup_removeSession] at hkey
        exact ⟨key, hkey.1⟩
      · intro rest hcov i q hq
        rcases getElem?_set_cases hq with ⟨-, rfl⟩ | ⟨-, hq⟩
        · exact .inl hgone
        · exact hcov i q hq
    · have hq : s.Quiet { s.serve id p inp with sess := s.sess.set id (p.step A cfg inp) } :=
        .of_set (serve_frame s id hrem) hp rfl (.step p hrem)
      exact ⟨h.quiet hq, hq.shrinks, fun _ hcov => hcov.quiet hq⟩

/-! ## Sections of datagrams -/

/-- The section may end in a new session. -/
def Section.CanOpen (K : Crypto) : Section key256 → Prop
  | .lookup _ hdr packet =>
    hdr.opcode = opControlHardResetClientV2 ∧ hdr.keyID = 0 ∧ TlsAuthentic K key256 packet
  | .candidate _ _ packet => TlsAuthentic K key256 packet
  | .publish _ _ => True
  | _ => False

instance : DecidablePred (Section.CanOpen K : Section key256 → Prop)
  | .lookup _ _ _ => inferInstanceAs (Decidable (_ ∧ _))
  | .candidate _ _ packet => inferInstanceAs (Decidable (TlsAuthentic K key256 packet))
  | .publish _ _ => .isTrue trivial
  | .unwrap _ _ _ | .opened _ _ | .softReset _ _ | .beginRenegotiation _ _ | .goRenegotiation
      _ _ | .enqueue _ _
  | .pump _ | .dispatch _ _ | .route _ _ | .task _ _ _ | .touchAuthTraffic _ | .dataLookup
      _ | .handleDataPacket _ _
  | .openPrimary _ _ _ _ | .tryLameDuck _ _ _ | .openLameDuck _ _ _ | .keepalive _ | .deliver _ _
  | .queueIP _ _ => .isFalse not_false

/-- The candidate of a registering section is as it was made. -/
def Section.Fresh : Section key256 → Prop
  | .publish p _ => p.stopOnce = .fresh ∧ p.closers = []
  | _ => True

/-- The section comes after the session was found or made. -/
def Section.inSession : Section key256 → Bool
  | .lookup _ _ _ | .candidate _ _ _ | .publish _ _ => false
  | _ => true

theorem Section.not_canOpen (h : x.inSession = true) : ¬ x.CanOpen K := by
  cases x <;> first | exact not_false | cases h

theorem Section.fresh_of_inSession (h : x.inSession = true) : x.Fresh := by
  cases x <;> first | exact trivial | cases h

theorem inSession_received (id : Nat) (cp : Control.ControlPacket) :
    (received id cp : Section key256).inSession = true := by
  unfold received
  split <;> rfl

theorem keeps_openUnder (p : Peer key256) (id g : Nat) (packet : Bytes)
    (failed : List (Section key256)) : p.Keeps (p.openUnder A id g packet failed).peer := by
  obtain ⟨_, -, h⟩ := p.toSession.openUnder_frame A g packet
  exact .same rfl ((congrArg Session.life h).trans rfl) ((congrArg Session.closers h).trans rfl)

theorem inSession_openUnder (p : Peer key256) (id g : Nat) (packet : Bytes)
    {failed : List (Section key256)} (h : failed.all Section.inSession = true) :
    (p.openUnder A id g packet failed).next.all Section.inSession = true := by
  unfold Peer.openUnder
  dsimp only
  split
  · rfl
  · rfl
  · exact h

theorem keeps_beginRenegotiation (p : Peer key256) (id : Nat) (cp : Control.ControlPacket) :
    p.Keeps (p.beginRenegotiation cfg id cp).peer := by
  unfold Peer.beginRenegotiation
  dsimp only
  split
  · exact .refl p
  · obtain ⟨_, _, _, _, _, h⟩ := p.toSession.startRenegotiation_frame cfg (some cp.keyID)
    exact .same rfl ((congrArg Session.life h).trans rfl) ((congrArg Session.closers h).trans rfl)

/-- What a section does that registers nothing and leads to no registering. -/
structure Ordinary (s : Server key256) (o : Outcome key256) : Prop where
  quiet : s.Quiet o.server
  next : o.next.all Section.inSession = true

/-- A turn that keeps its peer is ordinary. -/
theorem ordinary_turn {id : Nat} {f : Peer key256 → Turn key256}
    (h : ∀ p, Peer.Keeps p (f p).peer ∧ (f p).next.all Section.inSession = true) :
    Ordinary s (s.turn id f) := by
  refine ⟨Server.quiet_turn s id fun p => (h p).1, ?_⟩
  unfold Server.turn
  cases s.sess[id]? with
  | none => rfl
  | some p => exact (h p).2

/-- A section after the lookup is ordinary. -/
theorem ordinary_exec (K : Crypto) (A : Aead) (cfg : Config) (s : Server key256)
    (hx : x.inSession = true) (c : Choice) : Ordinary s (s.exec K A cfg x c) := by
  cases x with
  | lookup | candidate | publish => cases hx
  | unwrap id hdr packet =>
    refine ordinary_turn fun p => ?_
    unfold Peer.unwrap
    repeat' split
    · exact ⟨.same rfl rfl rfl, rfl⟩
    · exact ⟨.same rfl rfl rfl, rfl⟩
    · refine ⟨.same rfl rfl rfl, ?_⟩
      simp only [List.all_cons, inSession_received, List.all_nil, Bool.and_true]
  | beginRenegotiation id cp =>
    refine ordinary_turn fun p => ⟨keeps_beginRenegotiation p id cp, ?_⟩
    unfold Peer.beginRenegotiation
    dsimp only
    split <;> rfl
  | openPrimary id g lameDuck packet =>
    exact ordinary_turn fun p =>
      ⟨keeps_openUnder p id g packet _, inSession_openUnder p id g packet rfl⟩
  | openLameDuck id g packet =>
    exact ordinary_turn fun p =>
      ⟨keeps_openUnder p id g packet _, inSession_openUnder p id g packet rfl⟩
  | opened id cp => exact ⟨.of_sess rfl rfl, rfl⟩
  | dataLookup packet =>
    unfold Server.exec Server.dataLookup
    dsimp only
    split <;> exact ⟨.of_sess rfl rfl, rfl⟩
  | deliver id plaintext =>
    refine ordinary_turn fun p => ?_
    unfold Peer.deliver
    split
    · refine ⟨.aside rfl rfl fun x hx => ?_, rfl⟩
      rcases List.mem_append.mp hx with hx | hx
      · exact .inl hx
      · exact .inr (by rw [List.mem_singleton.mp hx])
    · exact ⟨.same rfl rfl rfl, rfl⟩
  | _ =>
    refine ordinary_turn fun p => ?_
    dsimp only [Peer.softReset, Peer.goRenegotiation, Peer.enqueue, Peer.pump, Peer.dispatch,
      Peer.route, Peer.task, Peer.touchAuthTraffic, Peer.handleDataPacket, Peer.tryLameDuck,
      Peer.keepalive, Peer.queueIP]
    repeat' split
    all_goals exact ⟨.same rfl rfl rfl, rfl⟩

/-- Nothing before the publication touches the table. -/
theorem exec_before (K : Crypto) (A : Aead) (cfg : Config) (s : Server key256)
    (hx : ∀ p cp, x ≠ .publish p cp) (c : Choice) :
    s.Quiet (s.exec K A cfg x c).server
      ∧ ∀ y ∈ (s.exec K A cfg x c).next, (y.CanOpen K → x.CanOpen K) ∧ y.Fresh := by
  have hother : x.inSession = true → s.Quiet (s.exec K A cfg x c).server
      ∧ ∀ y ∈ (s.exec K A cfg x c).next, (y.CanOpen K → x.CanOpen K) ∧ y.Fresh := by
    intro h
    have hord := ordinary_exec K A cfg s h c
    refine ⟨hord.quiet, fun y hy => ?_⟩
    have hin := List.all_eq_true.mp hord.next y hy
    exact ⟨fun ho => absurd ho (Section.not_canOpen hin), Section.fresh_of_inSession hin⟩
  cases x with
  | publish p cp => exact absurd rfl (hx p cp)
  | lookup addr hdr packet =>
    unfold Server.exec Server.lookup
    dsimp only
    split
    · refine ⟨.of_sess rfl rfl, fun y hy => ?_⟩
      rw [List.mem_singleton.mp hy]
      exact ⟨not_false.elim, trivial⟩
    · split
      · exact ⟨.of_sess rfl rfl, fun y hy => nomatch hy⟩
      · rename_i hreset
        refine ⟨.of_sess rfl rfl, fun y hy => ?_⟩
        rw [List.mem_singleton.mp hy]
        refine ⟨fun ho => ⟨?_, ?_, ho⟩, trivial⟩
        · exact Decidable.not_not.mp fun h => hreset (.inl h)
        · exact Decidable.not_not.mp fun h => hreset (.inr h)
  | candidate addr hdr packet =>
    unfold Server.exec Server.candidate
    dsimp only
    split
    · split
      · exact ⟨.of_sess rfl rfl, fun y hy => nomatch hy⟩
      · rename_i hopen
        split
        · exact ⟨.of_sess rfl rfl, fun y hy => nomatch hy⟩
        · refine ⟨.of_sess rfl rfl, fun y hy => ?_⟩
          rw [List.mem_singleton.mp hy]
          refine ⟨fun _ => ?_, rfl, rfl⟩
          by_contra hforged
          rw [tlsUnwrap_of_not_authentic hforged] at hopen
          cases hopen
    · exact ⟨.of_sess rfl rfl, fun y hy => nomatch hy⟩
  | _ => exact hother rfl

/-- The registering section: another call was first, or the candidate enters the table. -/
theorem exec_publish (K : Crypto) (A : Aead) (cfg : Config) (s : Server key256) (p : Peer key256)
    (cp : Control.ControlPacket) (c : Choice) :
    Ordinary s (s.exec K A cfg (.publish p cp) c)
      ∨ s.sessions.lookup p.key = none ∧
      (s.exec K A cfg (.publish p cp) c).next.all Section.inSession = true
        ∧ ∃ p' : Peer key256, p'.key = p.key ∧ p'.stopOnce = p.stopOnce ∧ p'.closers = p.closers
          ∧ (s.exec K A cfg (.publish p cp) c).server.sessions =
            s.sessions.insert p.key s.sess.length
          ∧ (s.exec K A cfg (.publish p cp) c).server.sess = s.sess ++ [p'] := by
  unfold Server.exec Server.publish
  dsimp only
  split
  · refine .inl ⟨.of_sess rfl rfl, ?_⟩
    simp only [List.all_cons, inSession_received, List.all_nil, Bool.and_true]
  · rename_i hfree
    let conn := Control.Conn.new p.sessionID p.clientSessionID p.wrapper.wrapper 0
    exact .inr ⟨hfree, rfl, { p with self := s.sess.length, channels := [conn] }, rfl, rfl, rfl,
      rfl, rfl⟩

/-- The datagram is a client's hard reset, and authentic. -/
def Opens (K : Crypto) (key256 packet : Bytes) : Prop :=
  packet.head?.map parseHeaderByte = some (opControlHardResetClientV2, 0) ∧
    TlsAuthentic K key256 packet

instance (K : Crypto) (key256 packet : Bytes) : Decidable (Opens K key256 packet) :=
  inferInstanceAs (Decidable (_ ∧ _))

/-- The sections of a datagram can open only what it opens. -/
theorem start_datagram (s : Server key256) (addr : String) (packet : Bytes) :
    (s.handleDatagram addr packet).server = s
      ∧ ∀ y ∈ (s.handleDatagram addr packet).next, (y.CanOpen K → Opens K key256 packet) ∧
      y.Fresh := by
  refine ⟨handleDatagram_server s addr packet, fun y hy => ?_⟩
  cases packet with
  | nil => cases hy
  | cons b rest =>
    unfold Server.handleDatagram Server.handleDataDatagram at hy
    dsimp only at hy
    repeat' split at hy
    all_goals first
      | exact absurd hy List.not_mem_nil
      | rw [List.mem_singleton.mp hy]
    · exact ⟨not_false.elim, trivial⟩
    · refine ⟨fun ho => ⟨?_, ho.2.2⟩, trivial⟩
      exact congrArg some (Prod.ext ho.1 ho.2.1)

end GoVpn.Ovpn.Inbound
