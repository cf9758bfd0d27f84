import GoVpn.Proof.Grants

/-!
# The key slots as a protocol

Soft resets, renegotiations, their windows, the sweep and the teardown meet in a few
fields: the two key slots, the pending marker, and the connections. `SlotStep` lists
everything a step of any goroutine can do to them, so that each invariant is one case
analysis over that list and none looks at the code again.
-/

namespace GoVpn.Ovpn

open GoVpn.Data (Aead)

/-- The generations demoted, with the time each must die. -/
def demotions (hist : List Event) : List (Nat × Int) :=
  hist.filterMap fun
    | .demoted g t => some (g, t)
    | _ => none

/-- What renegotiation and teardown share. -/
structure Slots where
  clock : Int
  stopped : Bool
  stopOnce : Once
  /-- The first keys are published. -/
  keyed : Bool
  primary : KeySlot
  lameDuck : KeySlot
  pending : Option Nat
  pendingKeyID : KeyID
  conns : List Conn
  /-- How many generations of keys there have been. -/
  gens : Nat
  renegs : List Reneg
  poll : PollPc
  demotions : List (Nat × Int)

def Session.slots (s : Session) : Slots where
  clock := s.clock
  stopped := s.stopped
  stopOnce := s.stopOnce
  keyed := s.assignedIP.isSome
  primary := s.primary
  lameDuck := s.lameDuck
  pending := s.pendingReneg
  pendingKeyID := s.pendingRenegKeyID
  conns := s.conns
  gens := s.gens.length
  renegs := s.renegs
  poll := s.poll
  demotions := Ovpn.demotions s.hist

namespace Slots

def closeConn (v : Slots) (c : Nat) (cause : CloseCause) : Slots :=
  { v with conns := v.conns.modify c fun k => { k with closedBy := k.closedBy ++ [cause] } }

def setReneg (v : Slots) (i : Nat) (n : Reneg) : Slots := { v with renegs := v.renegs.set i n }

def clearPending (v : Slots) (c : Nat) : Slots :=
  if v.pending = some c then { v with pending := none } else v

/-- What the body of `stopOnce` will close. -/
def held (v : Slots) : List Nat := [v.primary.conn, v.lameDuck.conn, v.pending].filterMap id

/-- A new renegotiation is on its way. -/
def start (v : Slots) : Slots :=
  { v with
    conns := v.conns ++ [{}]
    pending := some v.conns.length
    pendingKeyID := nextKeyID v.primary.keyID
    renegs := v.renegs ++ [{ conn := v.conns.length, keyID := nextKeyID v.primary.keyID }] }

/-- The swap, before the replaced lame duck is closed. -/
def swap (v : Slots) (n : Reneg) : Slots :=
  { v with
    lameDuck := { v.primary with mustDie := some (v.clock + transitionWindow) }
    primary :=
      { keyID := n.keyID, conn := some n.conn, wrapper := some v.gens, established := some v.clock }
    pending := none
    gens := v.gens + 1
    demotions := v.demotions
      ++ (v.primary.wrapper.map fun g => (g, v.clock + transitionWindow)).toList }

/-- Closing the lame duck the swap replaced. -/
def closeReplaced (v : Slots) : Option Nat → Slots
  | some c => v.closeConn c .swap
  | none => v

end Slots

/-- The moves of the body of `stopOnce` between its reads and its closes. -/
inductive BodyMove : Once → Once → Prop
  | storeReason {r : CloseReason} : BodyMove (.running r .storeReason) (.running r .closeStopCh)
  | release {r : CloseReason} {ip : Option IPv4} {peerID : PeerID} {conns : List Nat} :
      BodyMove (.running r (.release ip peerID conns)) (.running r (.remove conns))
  | remove {r : CloseReason} {conns : List Nat} :
      BodyMove (.running r (.remove conns)) (.running r (.closeConns conns))
  | closed {r : CloseReason} : BodyMove (.running r (.closeConns [])) (.running r .loadPublished)
  | done {r : CloseReason} : BodyMove (.running r .loadPublished) .done

/-- Where the poller holds nothing. -/
def PollPc.quiet : PollPc → Bool
  | .idle | .check | .start | .ended => true
  | .notStarted | .closeSwept _ => false

/-- A renegotiation that has neither committed nor given up. -/
def RenegPc.live : RenegPc → Bool
  | .closeConn _ | .failed | .completed => false
  | _ => true

/-- The moves of a renegotiation and of its window that change nothing else. -/
inductive RenegMove (v : Slots) (n : Reneg) : Reneg → Prop
  | begin (h : n.pc = .begin) : RenegMove v n { n with pc := .tls, window := .waiting }
  | go {pc : RenegPc} (h : n.pc.live = true) (h' : pc.live = true) : RenegMove v n
      { n with pc := pc }
  | refuse {keys : Control.Bytes} (h : n.pc = .commit keys)
      (hr : v.stopped = true ∨ v.pending ≠ some n.conn) :
      RenegMove v n { n with pc := .closeConn false }
  | window (h : n.window = .waiting) : RenegMove v n { n with window := .returned }

/-- Everything a step can do to the slots. -/
inductive SlotStep (v : Slots) : Slots → Prop
  | same : SlotStep v v
  | elapse (ns : Nat) : SlotStep v { v with clock := v.clock + ns }
  -- teardown
  | startClose (r : CloseReason) (h : v.stopOnce = .fresh) :
      SlotStep v { v with stopOnce := .running r .storeReason }
  | closeFirst : SlotStep v (v.closeConn 0 .teardown)
  | stop {r : CloseReason} (h : v.stopOnce = .running r .closeStopCh) :
      SlotStep v { v with stopped := true, stopOnce := .running r .snapshot }
  | snapshot {r : CloseReason} {ip : Option IPv4} {peerID : PeerID}
      (h : v.stopOnce = .running r .snapshot) :
      SlotStep v { v with stopOnce := .running r (.release ip peerID v.held) }
  | body {o : Once} (h : BodyMove v.stopOnce o) : SlotStep v { v with stopOnce := o }
  | closeNext {r : CloseReason} {c : Nat} {cs : List Nat}
      (h : v.stopOnce = .running r (.closeConns (c :: cs))) :
      SlotStep v ({ v with stopOnce := .running r (.closeConns cs) }.closeConn c .teardown)
  -- bring-up
  | publishKeys (hk : v.keyed = false) (hstop : v.stopped = false) :
      SlotStep v
        { v with
          keyed := true
          primary :=
            { keyID := 0, conn := some 0, wrapper := some v.gens, established := some v.clock }
          gens := v.gens + 1
          poll := .idle }
  -- the poller
  | poll {p : PollPc} (h : v.poll.quiet = true) (h' : p.quiet = true) : SlotStep v
      { v with poll := p }
  | sweep (h : v.poll = .idle) (hw : v.lameDuck.wrapper.isSome = true) :
      SlotStep v
        { v with
          lameDuck := {}
          poll := match v.lameDuck.conn with
            | some c => .closeSwept c
            | none => .check }
  | closeSwept {c : Nat} (h : v.poll = .closeSwept c) :
      SlotStep v ({ v with poll := .check }.closeConn c .sweep)
  -- renegotiations
  | start {p : PollPc} (hstop : v.stopped = false) (hc : v.primary.conn.isSome = true)
      (hp : v.pending = none) (hpoll : p = v.poll ∨ v.poll.quiet = true ∧ p.quiet = true) :
      SlotStep v { v.start with poll := p }
  | reneg {i : Nat} {n m : Reneg} (h : v.renegs[i]? = some n) (hm : RenegMove v n m) :
      SlotStep v (v.setReneg i m)
  | drop {i : Nat} {n : Reneg} {auth : Bool} (h : v.renegs[i]? = some n) (hpc : n.pc.live = true) :
      SlotStep v ((v.clearPending n.conn).setReneg i { n with pc := .closeConn auth })
  | closeOwn {i : Nat} {n : Reneg} {auth : Bool} (h : v.renegs[i]? = some n)
      (hpc : n.pc = .closeConn auth) :
      SlotStep v ((v.closeConn n.conn .renegotiation).setReneg i { n with pc := .failed })
  | swap {i : Nat} {n : Reneg} {keys : Control.Bytes} (h : v.renegs[i]? = some n)
      (hpc : n.pc = .commit keys) (hstop : v.stopped = false) (hp : v.pending = some n.conn) :
      SlotStep v (((v.swap n).closeReplaced v.lameDuck.conn).setReneg i { n with pc := .completed })
  | expire {i : Nat} {n : Reneg} (h : v.renegs[i]? = some n) (hw : n.window = .waiting)
      (hp : v.pending = some n.conn) :
      SlotStep v ({ v with pending := none }.setReneg i { n with window := .closeConn })
  | closeExpired {i : Nat} {n : Reneg} (h : v.renegs[i]? = some n) (hw : n.window = .closeConn) :
      SlotStep v ((v.closeConn n.conn .renegWindow).setReneg i { n with window := .returned })

end GoVpn.Ovpn

namespace GoVpn.Proof

open GoVpn.Data (Aead)
open GoVpn.Ovpn

variable {A : Aead} {cfg : Config} {s : Session}

theorem demotions_log (s : Session) (e : Event) :
    demotions (s.log e).hist = demotions s.hist ++ demotions [e] := List.filterMap_append

theorem slots_log {e : Event} (h : demotions [e] = []) : (s.log e).slots = s.slots := by
  have hd : demotions (s.log e).hist = demotions s.hist := by
    rw [demotions_log, h, List.append_nil]
  unfold Session.slots
  rw [hd]
  rfl

/-! ## Bring-up and teardown -/

theorem slots_callClose (s : Session) (r : CloseReason) (pc : ClosePc) :
    SlotStep s.slots (s.callClose r pc).1.slots := by
  rcases s.callClose_cases r pc with h | ⟨ho, h⟩ | ⟨_, h⟩
  · rw [h]; exact .same
  · rw [h]; exact .startClose r ho
  · rw [h, slots_log rfl]; exact .closeFirst

theorem slots_record (s : Session) (o : Outcome) :
    (s.recordHandshakeOutcome o).slots = s.slots := by
  rcases s.record_cases o with h | ⟨_, h⟩
  · rw [h]
  · rw [h]; exact slots_log rfl

theorem slots_handshake (h : s.life.Grants) (e : Env) :
    SlotStep s.slots (s.handshake cfg e).slots := by
  have hstep := handshake_cases cfg s e
  generalize s.handshake cfg e = s' at hstep
  cases hstep with
  | move | establish | publish => exact .same
  | @record o _ _ =>
    show SlotStep _ (s.recordHandshakeOutcome o).slots
    rw [slots_record]; exact .same
  | grant | release | callOnSession => rw [slots_log rfl]; exact .same
  | @publishKeys g w hpc hstop =>
    have hip : s.assignedIP = none := h.unassigned (show s.hs.unpublished = true by rw [hpc]; rfl)
    have hgens : (s.gens ++ [w]).length = s.gens.length + 1 := List.length_append
    have hk : s.slots.keyed = false := by
      show s.assignedIP.isSome = false
      rw [hip]; rfl
    have hnew := SlotStep.publishKeys (v := s.slots) hk hstop
    show SlotStep s.slots { s.slots with
      keyed := true
      primary :=
        { keyID := 0, conn := some 0, wrapper := some s.gens.length, established := some s.clock }
      gens := (s.gens ++ [w]).length
      poll := .idle }
    rw [hgens]
    exact hnew
  | @close r pc _ => exact slots_callClose s r pc

theorem slots_teardown (cfg : Config) (s : Session) : SlotStep s.slots (s.teardown cfg).slots := by
  unfold Session.teardown
  cases h : s.stopOnce with
  | fresh | done => exact .same
  | running r pc =>
    have body : ∀ {o : Once}, BodyMove (.running r pc) o →
        SlotStep s.slots { s.slots with stopOnce := o } := by
      intro o ho
      exact .body (show BodyMove s.stopOnce o by rw [h]; exact ho)
    cases pc with
    | storeReason => exact body .storeReason
    | closeStopCh => exact .stop h
    | snapshot => exact .snapshot h
    | release ip peerID conns =>
      cases ip with
      | none => exact body .release
      | some ip =>
        rw [slots_log rfl]
        exact body .release
    | remove conns => exact body .remove
    | closeConns cs =>
      cases cs with
      | nil => exact body .closed
      | cons c cs => exact .closeNext h
    | loadPublished => exact body .done

/-! ## Renegotiation -/

theorem slots_clearPending (s : Session) (c : Nat) :
    (s.clearPending c).slots = s.slots.clearPending c := by
  unfold Session.clearPending Slots.clearPending
  by_cases h : s.pendingReneg = some c
  · rw [if_pos h, if_pos (show s.slots.pending = some c from h)]; rfl
  · rw [if_neg h, if_neg (show ¬ s.slots.pending = some c from h)]

theorem slots_startRenegotiation (cfg : Config) (s : Session) (want : Option KeyID) :
    (s.startRenegotiation cfg want).slots = s.slots
      ∨ s.stopped = false ∧ s.primary.conn.isSome = true ∧ s.pendingReneg = none
        ∧ (s.startRenegotiation cfg want).slots = s.slots.start := by
  rcases s.startRenegotiation_cases cfg want with h | ⟨hstop, hc, _, hp, h⟩
  · exact .inl (by rw [h])
  · exact .inr ⟨hstop, hc, hp, by rw [h]; rfl⟩

theorem slots_beginRenegotiation (s : Session) (i : Nat) :
    SlotStep s.slots (s.beginRenegotiation cfg i).slots := by
  unfold Session.beginRenegotiation
  split
  · exact .same
  · rename_i k _
    let t : Session := { s with softResets := s.softResets.eraseIdx i }
    show SlotStep s.slots (t.startRenegotiation cfg (some k)).slots
    rcases slots_startRenegotiation cfg t (some k) with ht | ⟨hstop, hc, hp, ht⟩
    · rw [ht]; exact .same
    · rw [ht]; exact .start hstop hc hp (.inl rfl)

theorem slots_swapKeys {n : Reneg} (keys : Control.Bytes) (w : Data.Wrapper)
    (hp : s.pendingReneg = some n.conn) :
    (s.swapKeys n keys w).slots = (s.slots.swap n).closeReplaced s.lameDuck.conn := by
  have hd : demotions (s.hist ++ (s.primary.wrapper.map fun g =>
      .demoted g (s.clock + transitionWindow)).toList)
      = demotions s.hist ++
        (s.primary.wrapper.map fun g => (g, s.clock + transitionWindow)).toList := by
    unfold demotions
    rw [List.filterMap_append]
    cases s.primary.wrapper <;> rfl
  have hg : (s.gens ++ [w]).length = s.gens.length + 1 := List.length_append
  unfold Session.swapKeys
  rw [slots_clearPending]
  unfold Slots.closeReplaced Slots.swap
  cases s.lameDuck.conn with
  | none =>
    unfold Slots.clearPending
    rw [if_pos (show Slots.pending _ = some n.conn from hp)]
    unfold Session.slots
    simp only [hd, hg]
  | some c =>
    unfold Slots.clearPending
    rw [if_pos (show Slots.pending _ = some n.conn from hp)]
    unfold Session.slots Session.closeConn Slots.closeConn
    simp only [hd, hg]

theorem slots_commit {i : Nat} {n : Reneg} {keys : Control.Bytes} (h : s.renegs[i]? = some n)
    (hpc : n.pc = .commit keys) : SlotStep s.slots (s.commitRenegotiation i n keys).slots := by
  have hlive : n.pc.live = true := by rw [hpc]; rfl
  unfold Session.commitRenegotiation
  split
  · rename_i hr
    exact .reneg h (.refuse hpc hr)
  rename_i hr
  rw [not_or, Classical.not_not] at hr
  obtain ⟨hstop, hp⟩ := hr
  split
  · show SlotStep s.slots ((s.clearPending n.conn).slots.setReneg i _)
    rw [slots_clearPending]
    exact .drop h hlive
  · rename_i w _
    show SlotStep s.slots ((s.swapKeys n keys w).slots.setReneg i _)
    rw [slots_swapKeys keys w hp]
    exact .swap h hpc (Bool.eq_false_iff.mpr hstop) hp

theorem slots_runRenegotiation (s : Session) (i : Nat) (e : Env) :
    SlotStep s.slots (s.runRenegotiation i e).slots := by
  unfold Session.runRenegotiation
  split
  · exact .same
  rename_i n h
  have go : ∀ {pc : RenegPc}, n.pc.live = true → pc.live = true →
      SlotStep s.slots (s.slots.setReneg i { n with pc := pc }) := by
    intro pc h1 h2
    exact .reneg h (.go h1 h2)
  have live : ∀ {b : Bool} {p q : RenegPc}, p.live = true → q.live = true →
      (if b then p else q).live = true := by
    intro b p q hp hq
    cases b
    · exact hq
    · exact hp
  cases hpc : n.pc with
  | begin => exact .reneg h (.begin hpc)
  | tls | readKeyMethod2 | deriveKeys | verifyUserPass =>
    exact go (by rw [hpc]; rfl) (live rfl rfl)
  | commit keys => exact slots_commit h hpc
  | abandon auth =>
    show SlotStep s.slots ((s.clearPending n.conn).slots.setReneg i _)
    rw [slots_clearPending]
    exact .drop h (by rw [hpc]; rfl)
  | closeConn auth =>
    have hclose := SlotStep.closeOwn (v := s.slots) h hpc
    cases auth <;> exact hclose
  | failed | completed => exact .same

theorem slots_renegotiationWindow (s : Session) (i : Nat) (expired : Bool) :
    SlotStep s.slots (s.renegotiationWindow i expired).slots := by
  unfold Session.renegotiationWindow
  split
  · exact .same
  rename_i n h
  cases hw : n.window with
  | notStarted | returned => exact .same
  | waiting =>
    dsimp only
    split
    · split
      · rename_i hp
        show SlotStep s.slots ((s.clearPending n.conn).slots.setReneg i _)
        rw [slots_clearPending, Slots.clearPending, if_pos (show s.slots.pending = _ from hp)]
        exact .expire h hw hp
      · exact .reneg h (.window hw)
    · split
      · exact .reneg h (.window hw)
      · exact .same
  | closeConn => exact .closeExpired h hw

theorem slots_runReneg (cfg : Config) (s : Session) (tick : Bool) :
    SlotStep s.slots (s.runReneg cfg tick).slots := by
  unfold Session.runReneg
  have quiet : ∀ {p q : PollPc}, s.poll = p → p.quiet = true → q.quiet = true →
      SlotStep s.slots { s.slots with poll := q } := by
    intro p q hp h h'
    exact .poll (show s.poll.quiet = true by rw [hp]; exact h) h'
  cases hp : s.poll with
  | notStarted | ended => exact .same
  | idle =>
    dsimp only
    split
    · unfold Session.sweepLameDuck
      split
      · rename_i hw
        exact .sweep hp hw.1
      · exact quiet hp rfl rfl
    · split
      · exact quiet hp rfl rfl
      · exact .same
  | closeSwept c => exact .closeSwept hp
  | check =>
    dsimp only
    split
    · exact quiet hp rfl rfl
    · refine quiet hp rfl ?_
      split <;> rfl
  | start =>
    let t : Session := { s with poll := .idle }
    show SlotStep s.slots (t.startRenegotiation cfg none).slots
    rcases slots_startRenegotiation cfg t none with ht | ⟨hstop, hc, hn, ht⟩
    · rw [ht]; exact quiet hp rfl rfl
    · rw [ht]
      exact .start (v := s.slots) hstop hc hn (.inr ⟨show s.poll.quiet = true by rw [hp]; rfl, rfl⟩)

/-! ## The data path -/

theorem demotions_append {hist es : List Event} (hes : es.all Event.ofData = true) :
    demotions (hist ++ es) = demotions hist := by
  have hnil : demotions es = [] := by
    refine List.filterMap_eq_nil_iff.mpr fun e he => ?_
    have hd := List.all_eq_true.mp hes e he
    cases e <;> first | rfl | cases hd
  unfold demotions at hnil ⊢
  rw [List.filterMap_append, hnil, List.append_nil]

theorem slots_dataStep (A : Aead) (s : Session) (i : Nat) (e : Env) :
    (s.dataStep A i e).slots = s.slots := by
  obtain ⟨gens, calls, cs, es, hlen, _, hes, h⟩ := s.dataStep_frame A i e
  rw [h]
  unfold Session.slots
  rw [hlen, demotions_append hes]

theorem slots_sealWrite (A : Aead) (s : Session) (i : Nat) : (s.sealWrite A i).slots = s.slots := by
  obtain ⟨gens, ws, hlen, h⟩ := s.sealWrite_frame A i
  rw [h]
  unfold Session.slots
  rw [hlen]

/-- **Every step of a session is a step of the protocol.** -/
theorem slots_step (h : s.life.Grants) (inp : Input) :
    SlotStep s.slots (s.step A cfg inp).slots := by
  cases inp with
  | handshake e => exact slots_handshake h e
  | handshakeWindow | closer | callback =>
    refine waits_rule (P := fun t => SlotStep s.slots t.slots) (fun _ => .same)
      (fun _ _ _ _ => ?_) (fun r pc _ _ => slots_callClose s r pc) (fun _ _ => ?_) rfl
    · show SlotStep _ (s.recordHandshakeOutcome .timedOut).slots
      rw [slots_record]; exact .same
    · rw [slots_log rfl]; exact .same
  | close | packet => exact .same
  | teardown => exact slots_teardown cfg s
  | softReset k => unfold Session.step Session.softReset; dsimp only; split <;> exact .same
  | beginRenegotiation i => exact slots_beginRenegotiation s i
  | runRenegotiation i e => exact slots_runRenegotiation s i e
  | renegotiationWindow i x => exact slots_renegotiationWindow s i x
  | runReneg t => exact slots_runReneg cfg s t
  | data i e =>
    show SlotStep _ (s.dataStep A i e).slots
    rw [slots_dataStep]; exact .same
  | write p => unfold Session.step Session.write; dsimp only; split <;> exact .same
  | sealWrite i =>
    show SlotStep _ (s.sealWrite A i).slots
    rw [slots_sealWrite]; exact .same
  | elapse ns => exact .elapse ns

end GoVpn.Proof
