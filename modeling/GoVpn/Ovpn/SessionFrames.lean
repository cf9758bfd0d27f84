import GoVpn.Ovpn.Renegotiation

/-!
# What each function of a session leaves alone

A session is one record that many goroutines write to. For each function of the
renegotiation and of the data path: which fields it can change, and what it can append
to the ones that only grow. What is proved of a part of the record then needs no look
into the functions that stay away from that part.
-/

namespace GoVpn.Ovpn

open GoVpn.Control (Bytes)
open GoVpn.Data (Aead Wrapper)

/-- What reached the inbound queue. -/
def Event.ofData : Event → Bool
  | .queued _ _ _ => true
  | _ => false

/-- What a key swap records. -/
def Event.ofSwap : Event → Bool
  | .demoted _ _ => true
  | _ => false

/-- Renegotiations are asked for, given up or polled for, and packets handed over to be sealed. -/
def Input.books : Input → Bool
  | .softReset _ | .beginRenegotiation _ | .renegotiationWindow _ _ | .runReneg _ | .write _ => true
  | _ => false

theorem filter_append_of_all {p q : Event → Bool} {l es : List Event} (hes : es.all q = true)
    (hpq : ∀ e, q e = true → p e = false) : (l ++ es).filter p = l.filter p := by
  have hnil : es.filter p = [] := by
    refine List.filter_eq_nil_iff.mpr fun e he => ?_
    rw [hpq e (List.all_eq_true.mp hes e he)]
    exact Bool.false_ne_true
  rw [List.filter_append, hnil, List.append_nil]

namespace Session

/-! ## Bring-up and teardown -/

variable (s : Session)

/-- A `closeWithReason` call starts the body, closes the first connection, or does nothing. -/
theorem callClose_cases (r : CloseReason) (pc : ClosePc) :
    (s.callClose r pc).1 = s
      ∨ s.stopOnce = .fresh ∧ (s.callClose r pc).1 = { s with stopOnce := .running r .storeReason }
      ∨ pc = .closeConn ∧ (s.callClose r pc).1 = (s.closeConn 0 .teardown).log .closeReturned := by
  unfold callClose
  cases pc with
  | enter =>
    cases h : s.stopOnce with
    | fresh => exact .inr (.inl ⟨rfl, rfl⟩)
    | running | done => exact .inl rfl
  | wait => cases s.stopOnce <;> exact .inl rfl
  | closeConn => exact .inr (.inr ⟨rfl, rfl⟩)
  | returned => exact .inl rfl

theorem callClose_frame (r : CloseReason) (pc : ClosePc) :
    ∃ o conns hist, (s.callClose r pc).1 =
      { s with stopOnce := o, conns := conns, hist := hist } := by
  rcases callClose_cases s r pc with h | ⟨_, h⟩ | ⟨_, h⟩
  · exact ⟨s.stopOnce, s.conns, s.hist, h⟩
  · exact ⟨_, s.conns, s.hist, h⟩
  · exact ⟨s.stopOnce, _, _, h⟩

theorem record_cases (o : Outcome) :
    s.recordHandshakeOutcome o = s
      ∨ s.outcomeRecorded = false
        ∧ s.recordHandshakeOutcome o = { s with outcomeRecorded := true }.log (.counted o) := by
  unfold recordHandshakeOutcome
  split
  · exact .inl rfl
  · rename_i h
    exact .inr ⟨eq_false_of_ne_true h, rfl⟩

theorem record_frame (o : Outcome) :
    ∃ b hist, s.recordHandshakeOutcome o = { s with outcomeRecorded := b, hist := hist } := by
  rcases record_cases s o with h | ⟨_, h⟩
  · exact ⟨s.outcomeRecorded, s.hist, h⟩
  · exact ⟨true, _, h⟩

/-- The session's own fields, where its bring-up is, and who calls `closeWithReason`, are as
they were. -/
structure Aside (s t : Session) : Prop where
  self : t.self = s.self
  assignedIP : t.assignedIP = s.assignedIP
  peerID : t.peerID = s.peerID
  hs : t.hs = s.hs
  window : t.window = s.window
  closers : t.closers = s.closers

theorem aside_callClose (r : CloseReason) (pc : ClosePc) : s.Aside (s.callClose r pc).1 := by
  obtain ⟨_, _, _, h⟩ := callClose_frame s r pc
  rw [h]
  exact ⟨rfl, rfl, rfl, rfl, rfl, rfl⟩

theorem aside_record (o : Outcome) : s.Aside (s.recordHandshakeOutcome o) := by
  obtain ⟨_, _, h⟩ := record_frame s o
  rw [h]
  exact ⟨rfl, rfl, rfl, rfl, rfl, rfl⟩

theorem aside_teardown (cfg : Config) (s : Session) : s.Aside (s.teardown cfg)
    ∧ (.closeReturned ∈ (s.teardown cfg).hist → .closeReturned ∈ s.hist) := by
  unfold teardown
  cases s.stopOnce with
  | fresh | done => exact ⟨⟨rfl, rfl, rfl, rfl, rfl, rfl⟩, id⟩
  | running r pc =>
    cases pc with
    | storeReason | closeStopCh | snapshot | remove | loadPublished =>
      exact ⟨⟨rfl, rfl, rfl, rfl, rfl, rfl⟩, id⟩
    | closeConns cs => cases cs <;> exact ⟨⟨rfl, rfl, rfl, rfl, rfl, rfl⟩, id⟩
    | release ip peerID conns =>
      cases ip with
      | none => exact ⟨⟨rfl, rfl, rfl, rfl, rfl, rfl⟩, id⟩
      | some ip => exact ⟨⟨rfl, rfl, rfl, rfl, rfl, rfl⟩, fun hm => by simpa [log] using hm⟩

/-! ## Renegotiation -/

/-- The marker is where it was, or gone. -/
def MarkerLeft (s : Session) (p : Option Nat) : Prop := p = s.pendingReneg ∨ p = none

theorem clearPending_frame (c : Nat) :
    ∃ p, s.MarkerLeft p ∧ s.clearPending c = { s with pendingReneg := p } := by
  unfold clearPending
  split
  · exact ⟨none, .inr rfl, rfl⟩
  · exact ⟨s.pendingReneg, .inl rfl, rfl⟩

/-- `startRenegotiation` refuses, or it makes a connection and takes the marker. -/
theorem startRenegotiation_cases (cfg : Config) (s : Session) (want : Option KeyID) :
    s.startRenegotiation cfg want = s
      ∨ s.stopped = false ∧ s.primary.conn.isSome = true ∧ s.primary.established.isSome = true
        ∧ s.pendingReneg = none
        ∧ s.startRenegotiation cfg want =
          { s with
            conns := s.conns ++ [{}]
            pendingReneg := some s.conns.length
            pendingRenegKeyID := nextKeyID s.primary.keyID
            lastRenegAccepted := some s.clock
            renegs :=
              s.renegs ++ [{ conn := s.conns.length, keyID := nextKeyID s.primary.keyID }] } := by
  unfold startRenegotiation
  split
  · exact .inl rfl
  rename_i hstop
  split
  · exact .inl rfl
  rename_i hc
  split
  · exact .inl rfl
  rename_i hp
  split
  · exact .inl rfl
  dsimp only
  split
  · exact .inl rfl
  rw [not_or] at hc
  refine .inr ⟨Bool.eq_false_iff.mpr hstop, ?_, ?_, by simpa using hp, rfl⟩
  · simpa [Option.isSome_iff_ne_none] using hc.1
  · simpa [Option.isSome_iff_ne_none] using hc.2

theorem startRenegotiation_frame (cfg : Config) (s : Session) (want : Option KeyID) :
    ∃ conns p k t ns, s.startRenegotiation cfg want =
      { s with
        conns := conns, pendingReneg := p, pendingRenegKeyID := k, lastRenegAccepted := t
        renegs := ns } := by
  rcases startRenegotiation_cases cfg s want with h | ⟨_, _, _, _, h⟩
  · exact ⟨s.conns, s.pendingReneg, s.pendingRenegKeyID, s.lastRenegAccepted, s.renegs, h⟩
  · exact ⟨_, _, _, _, _, h⟩

theorem renegotiationWindow_frame (i : Nat) (expired : Bool) :
    ∃ conns p ns, s.MarkerLeft p ∧ s.renegotiationWindow i expired =
      { s with conns := conns, pendingReneg := p, renegs := ns } := by
  unfold renegotiationWindow
  split
  · exact ⟨s.conns, s.pendingReneg, s.renegs, .inl rfl, rfl⟩
  rename_i n _
  cases n.window with
  | notStarted | returned => exact ⟨s.conns, s.pendingReneg, s.renegs, .inl rfl, rfl⟩
  | closeConn => exact ⟨_, s.pendingReneg, _, .inl rfl, rfl⟩
  | waiting =>
    dsimp only
    split
    · split
      · obtain ⟨p, hp, h⟩ := clearPending_frame s n.conn
        rw [h]
        exact ⟨s.conns, p, _, hp, rfl⟩
      · exact ⟨s.conns, s.pendingReneg, _, .inl rfl, rfl⟩
    · split
      · exact ⟨s.conns, s.pendingReneg, _, .inl rfl, rfl⟩
      · exact ⟨s.conns, s.pendingReneg, s.renegs, .inl rfl, rfl⟩

theorem swapKeys_frame (n : Reneg) (keys : Bytes) (w : Wrapper) :
    ∃ primary duck p count conns es, s.MarkerLeft p ∧ es.all Event.ofSwap = true
      ∧ s.swapKeys n keys w =
        { s with
          primary := primary, lameDuck := duck, pendingReneg := p, renegotiations := count
          dataKeys := keys, conns := conns, gens := s.gens ++ [w], hist := s.hist ++ es } := by
  unfold swapKeys
  dsimp only
  have hswap : (s.primary.wrapper.map fun g =>
      Event.demoted g (s.clock + transitionWindow)).toList.all Event.ofSwap = true := by
    cases s.primary.wrapper <;> rfl
  generalize (s.primary.wrapper.map fun g => Event.demoted g (s.clock + transitionWindow)).toList =
    es
    at hswap
  unfold clearPending
  split
  · split
    · exact ⟨_, _, none, _, _, es, Or.inr rfl, hswap, rfl⟩
    · exact ⟨_, _, s.pendingReneg, _, _, es, Or.inl rfl, hswap, rfl⟩
  · split
    · exact ⟨_, _, none, _, s.conns, es, Or.inr rfl, hswap, rfl⟩
    · exact ⟨_, _, s.pendingReneg, _, s.conns, es, Or.inl rfl, hswap, rfl⟩

/-- A renegotiation may add a generation, and may call `closeWithReason`. -/
def RenegFrame (s t : Session) : Prop :=
  ∃ primary duck p count keys conns ns ws cs es,
    s.MarkerLeft p ∧ (∀ x ∈ cs, x.2 = .enter) ∧ es.all Event.ofSwap = true
    ∧ t =
      { s with
        primary := primary, lameDuck := duck, pendingReneg := p, renegotiations := count
        dataKeys := keys, conns := conns, renegs := ns, gens := s.gens ++ ws
        closers := s.closers ++ cs, hist := s.hist ++ es }

theorem runRenegotiation_frame (i : Nat) (e : Env) : RenegFrame s (s.runRenegotiation i e) := by
  have calls : ∀ {t : Session} (p : Option Nat) (conns : List Conn) (ns : List Reneg)
      (cs : List (CloseReason × ClosePc)), s.MarkerLeft p → (∀ x ∈ cs, x.2 = .enter) →
      t = { s with pendingReneg := p, conns := conns, renegs := ns, closers := s.closers ++ cs } →
      RenegFrame s t := by
    rintro t p conns ns cs hp hcs rfl
    refine ⟨s.primary, s.lameDuck, p, s.renegotiations, s.dataKeys, conns, ns, [], cs, [], hp, hcs,
      rfl, ?_⟩
    rw [List.append_nil, List.append_nil]
  have moves : ∀ {t : Session} (p : Option Nat) (conns : List Conn) (ns : List Reneg),
    s.MarkerLeft p →
      t = { s with pendingReneg := p, conns := conns, renegs := ns } → RenegFrame s t := by
    intro t p conns ns hp ht
    refine calls p conns ns [] hp (by simp) ?_
    rw [List.append_nil]; exact ht
  unfold runRenegotiation
  split
  · exact moves s.pendingReneg s.conns s.renegs (.inl rfl) rfl
  rename_i n _
  cases n.pc with
  | begin | tls | readKeyMethod2 | deriveKeys | verifyUserPass =>
    exact moves s.pendingReneg s.conns _ (.inl rfl) rfl
  | failed | completed => exact moves s.pendingReneg s.conns s.renegs (.inl rfl) rfl
  | abandon auth =>
    obtain ⟨p, hp, h⟩ := clearPending_frame s n.conn
    rw [h]
    exact moves p s.conns _ hp rfl
  | closeConn auth =>
    cases auth with
    | false => exact moves s.pendingReneg _ _ (.inl rfl) rfl
    | true => exact calls s.pendingReneg _ _ [(.authFailed, .enter)] (.inl rfl) (by simp) rfl
  | commit keys =>
    dsimp only
    unfold commitRenegotiation
    split
    · exact moves s.pendingReneg s.conns _ (.inl rfl) rfl
    split
    · obtain ⟨p, hp, h⟩ := clearPending_frame s n.conn
      rw [h]
      exact moves p s.conns _ hp rfl
    · rename_i w _
      obtain ⟨primary, duck, p, count, conns, es, hp, hes, h⟩ := swapKeys_frame s n keys w
      refine ⟨primary, duck, p, count, keys, conns, s.renegs.set i { n with pc := .completed }, [w],
        [], es, hp, by simp, hes, ?_⟩
      rw [h, List.append_nil]
      rfl

/-! ## The data path -/

theorem write_frame (p : Bytes) : ∃ ws, s.write p = { s with writes := ws } := by
  unfold write
  split
  · exact ⟨s.writes, rfl⟩
  · exact ⟨_, rfl⟩

/-- What is asked for, given up or handed over changes the books only, and a poll may sweep the
lame duck. -/
theorem books_rule {P : Session → Prop} {A : Aead} {cfg : Config} {inp : Input}
    (hP : ∀ duck poll conns p k t ns rs ws, duck = s.lameDuck ∨ duck = {} →
      P { s with
        lameDuck := duck, poll := poll, conns := conns, pendingReneg := p, pendingRenegKeyID := k
        lastRenegAccepted := t, renegs := ns, softResets := rs, writes := ws })
    (h : inp.books = true) : P (s.step A cfg inp) := by
  have still : ∀ poll conns rs ws,
      P { s with poll := poll, conns := conns, softResets := rs, writes := ws } :=
    fun poll conns rs ws => hP s.lameDuck poll conns s.pendingReneg s.pendingRenegKeyID
      s.lastRenegAccepted s.renegs rs ws (.inl rfl)
  have begins : ∀ poll rs want,
      P (({ s with poll := poll, softResets := rs } : Session).startRenegotiation cfg want) := by
    intro poll rs want
    obtain ⟨conns, p, k, t, ns, hs⟩ :=
      startRenegotiation_frame cfg { s with poll := poll, softResets := rs } want
    rw [hs]
    exact hP s.lameDuck poll conns p k t ns rs s.writes (.inl rfl)
  cases inp with
  | softReset k =>
    show P (s.softReset k)
    unfold softReset
    split
    · exact still s.poll s.conns s.softResets s.writes
    · exact still s.poll s.conns _ s.writes
  | beginRenegotiation i =>
    show P (s.beginRenegotiation cfg i)
    unfold beginRenegotiation
    split
    · exact still s.poll s.conns s.softResets s.writes
    · exact begins s.poll _ _
  | renegotiationWindow i expired =>
    show P (s.renegotiationWindow i expired)
    obtain ⟨conns, p, ns, _, hs⟩ := renegotiationWindow_frame s i expired
    rw [hs]
    exact hP s.lameDuck s.poll conns p s.pendingRenegKeyID s.lastRenegAccepted ns s.softResets
      s.writes (.inl rfl)
  | runReneg tick =>
    show P (s.runReneg cfg tick)
    unfold runReneg
    cases s.poll with
    | notStarted | ended => exact still s.poll s.conns s.softResets s.writes
    | closeSwept c => exact still _ _ s.softResets s.writes
    | idle =>
      dsimp only
      split
      · unfold sweepLameDuck
        split
        · exact hP {} _ s.conns s.pendingReneg s.pendingRenegKeyID s.lastRenegAccepted s.renegs
            s.softResets s.writes (.inr rfl)
        · exact still _ s.conns s.softResets s.writes
      · split
        · exact still _ s.conns s.softResets s.writes
        · exact still s.poll s.conns s.softResets s.writes
    | check =>
      dsimp only
      split <;> exact still _ s.conns s.softResets s.writes
    | start => exact begins .idle s.softResets none
  | write p =>
    show P (s.write p)
    obtain ⟨ws, hs⟩ := write_frame s p
    rw [hs]
    exact still s.poll s.conns s.softResets ws
  | _ => cases h

theorem sealWrite_frame (A : Aead) (s : Session) (i : Nat) :
    ∃ gens ws, gens.length = s.gens.length
      ∧ s.sealWrite A i = { s with gens := gens, writes := ws } := by
  unfold sealWrite
  split
  · exact ⟨s.gens, s.writes, rfl, rfl⟩
  · dsimp only
    split
    · exact ⟨s.gens, _, rfl, rfl⟩
    · exact ⟨_, _, List.length_set, rfl⟩

theorem openUnder_frame (A : Aead) (s : Session) (g : Nat) (packet : Bytes) :
    ∃ gens, gens.length = s.gens.length ∧ (s.openUnder A g packet).1 = { s with gens := gens } := by
  unfold openUnder
  split
  · exact ⟨s.gens, rfl, rfl⟩
  · exact ⟨_, List.length_set, rfl⟩

/-- A packet may be queued, or be the client's goodbye. -/
def DataFrame (s t : Session) : Prop :=
  ∃ gens calls cs es, gens.length = s.gens.length ∧ (∀ x ∈ cs, x.2 = .enter)
    ∧ es.all Event.ofData = true
    ∧ t =
      { s with
        gens := gens, calls := calls, closers := s.closers ++ cs, hist := s.hist ++ es }

theorem dataStep_frame (A : Aead) (s : Session) (i : Nat) (e : Env) :
    DataFrame s (s.dataStep A i e) := by
  have moves : ∀ {t : Session} (gens : List Wrapper) (calls : List DataCall),
      gens.length = s.gens.length → t = { s with gens := gens, calls := calls } →
        DataFrame s t := by
    rintro t gens calls hlen rfl
    refine ⟨gens, calls, [], [], hlen, by simp, rfl, ?_⟩
    rw [List.append_nil, List.append_nil]
  unfold dataStep
  split
  · exact moves s.gens s.calls rfl rfl
  rename_i c _
  cases c.pc with
  | ended => exact moves s.gens s.calls rfl rfl
  | tryLameDuck =>
    dsimp only
    split <;> exact moves s.gens _ rfl rfl
  | openPrimary | openLameDuck =>
    dsimp only
    split
    · exact moves s.gens _ rfl rfl
    · rename_i g _
      obtain ⟨gens, hlen, h⟩ := openUnder_frame A s g c.packet
      split <;> exact moves gens _ hlen (by rw [h]; rfl)
  | deliver g q =>
    dsimp only
    split
    · refine ⟨s.gens, s.calls.set i { c with pc := .ended }, [(.clientExitNotify, .enter)], [], rfl,
        by simp, rfl, ?_⟩
      rw [List.append_nil]
      rfl
    · split
      · refine ⟨s.gens, s.calls.set i { c with pc := .ended }, [], [.queued c g q], rfl,
          by simp, rfl, ?_⟩
        rw [List.append_nil]
        rfl
      · exact moves s.gens _ rfl rfl

end Session

/-! ## The goroutines that wait -/

/-- The handshake window, the other callers of `closeWithReason` and the callback goroutine. -/
def Input.waits : Input → Bool
  | .handshakeWindow _ | .closer _ | .callback => true
  | _ => false

theorem waits_rule {P : Session → Prop} {A : Aead} {cfg : Config} {s : Session} {inp : Input}
    (hsame : ∀ w, P { s with window := w })
    (hrecord : ∀ x, inp = .handshakeWindow x → s.window = .record →
      ∀ w, P { s.recordHandshakeOutcome .timedOut with window := w })
    (hclose : ∀ r pc w cs, P { (s.callClose r pc).1 with window := w, closers := cs })
    (hcallback : inp = .callback → ∀ r, P ({ s with callback := none }.log (.onSessionClosed r)))
    (h : inp.waits = true) : P (s.step A cfg inp) := by
  cases inp with
  | handshakeWindow x =>
    show P (s.handshakeWindow x)
    unfold Session.handshakeWindow
    split
    · split
      · exact hsame _
      · split
        · exact hsame _
        · exact hsame s.window
    · rename_i hw
      exact hrecord x rfl hw _
    · exact hclose .unknown _ _ _
    · exact hsame s.window
  | closer i =>
    show P (s.closer i)
    unfold Session.closer
    split
    · exact hsame s.window
    · exact hclose _ _ _ _
  | callback =>
    show P s.callOnSessionClosed
    unfold Session.callOnSessionClosed
    split
    · exact hcallback rfl _
    · exact hsame s.window
  | _ => cases h

end GoVpn.Ovpn
