import GoVpn.Lib.Tally
import GoVpn.Netstack.TcpDemux
import GoVpn.Proof.TcpStep

/-!
# What a step of the demux can do

First the states a connection can go through, as far as the calls around it depend on
them. Then the critical sections: `ExecStep` lists what a section can do, and
`exec_step` is the only place where `exec` is unfolded. `release` and `dec` come in
pairs that differ in a field, so `Budget` names the field.
-/

namespace GoVpn.Netstack

open TcpDemux GoVpn.Proof

/-! ## The state of a connection -/

section States

variable {w : World} {act : Action}

theorem act_state (hact : ∀ seg, act ≠ .segment seg) :
    (w.act act).conn.state = w.conn.state ∨ (w.act act).conn.state = .closed
      ∨ w.conn.state = .established ∧ (w.act act).conn.state = .finWait1
      ∨ w.conn.state = .closeWait ∧ (w.act act).conn.state = .lastAck := by
  generalize hw : w.act act = w'
  have hstep : WorldStep w act w' := hw ▸ act_step w act
  cases hstep with
  | segment => exact absurd rfl (hact _)
  | rto hr =>
    rcases rto_state hr with hs | hs
    · exact .inl hs
    · exact .inr (.inl hs)
  | teardown => exact .inr (.inl rfl)
  | write _ hwr => exact .inl (write_state hwr.step)
  | @read n d _ =>
    obtain ⟨_, _, _, heq⟩ := read_shape w n d
    rw [heq]
    exact .inl rfl
  | closeWrite _ hc =>
    cases hc with
    | nothing => exact .inl rfl
    | fin _ hst =>
      rcases hst with ⟨hst, rfl⟩ | ⟨hst, rfl⟩
      · exact .inr (.inr (.inl ⟨hst, rfl⟩))
      · exact .inr (.inr (.inr ⟨hst, rfl⟩))
  | nothing => exact .inl rfl

theorem act_closed (h : w.conn.state = .closed) : (w.act act).conn.state = .closed := by
  by_cases hact : ∃ seg, act = .segment seg
  · obtain ⟨seg, rfl⟩ := hact
    have hstep := handleSegment_step w.conn seg
    show (w.conn.handleSegment seg).conn.state = .closed
    generalize w.conn.handleSegment seg = o at hstep
    cases hstep with
    | ignored => exact h
    | reset => rfl
    | refused hst | handshake hst => cases h.symm.trans hst
    | sync hst =>
      rw [h] at hst
      cases hst
    | reAck hst => cases h.symm.trans hst
  · have hact : ∀ seg, act ≠ .segment seg := fun seg he => hact ⟨seg, he⟩
    rcases act_state (w := w) hact with hs | hs | ⟨hs, -⟩ | ⟨hs, -⟩
    · exact hs.trans h
    · exact hs
    · cases h.symm.trans hs
    · cases h.symm.trans hs

theorem act_opened (h : w.conn.state ≠ .synRcvd) : (w.act act).conn.state ≠ .synRcvd := by
  by_cases hact : ∃ seg, act = .segment seg
  · obtain ⟨seg, rfl⟩ := hact
    exact seg_opened (handleSegment_step w.conn seg) h
  · have hact : ∀ seg, act ≠ .segment seg := fun seg he => hact ⟨seg, he⟩
    rcases act_state (w := w) hact with hs | hs | ⟨-, hs⟩ | ⟨-, hs⟩
    · rw [hs]; exact h
    · rw [hs]; decide
    · rw [hs]; decide
    · rw [hs]; decide

theorem removes_of_closed (h : w.conn.state ≠ .closed) (h' : (w.act act).conn.state = .closed) :
    removes w act = true := by
  have hby : closedBy w (w.act act) = true := by simp [closedBy, h, h']
  unfold removes
  split
  · rename_i seg
    split
    · rename_i hrst
      cases hin : w.conn.rstInWindowLocked seg with
      | true => rfl
      | false =>
        -- an RST outside the window does nothing
        have hsame : (w.act (.segment seg)).conn = w.conn := by
          simp [World.act, World.apply, TcpConn.handleSegment, hrst, hin]
        rw [hsame] at h'
        exact absurd h' h
    · exact hby
  · exact hby

theorem closed_of_removes (h : removes w act = true) : (w.act act).conn.state = .closed := by
  have hby : closedBy w (w.act act) = true → (w.act act).conn.state = .closed := by
    intro hc
    simp only [closedBy, Bool.and_eq_true, decide_eq_true_eq] at hc
    exact hc.2
  unfold removes at h
  split at h
  · rename_i seg
    split at h
    · rename_i hrst
      simp [World.act, World.apply, TcpConn.handleSegment, hrst, h, TcpConn.teardown,
        TcpConn.stopTimersLocked]
    · exact hby h
  · exact hby h

theorem opened_of_opens (h : opens w act = true) : (w.act act).conn.state ≠ .synRcvd := by
  cases act with
  | segment seg =>
    have hstep := handleSegment_step w.conn seg
    have henq : (w.conn.handleSegment seg).enqueue = true := h
    show (w.conn.handleSegment seg).conn.state ≠ _
    generalize w.conn.handleSegment seg = o at hstep henq
    cases hstep with
    | handshake hst =>
      rw [handleData_state]
      show TcpState.established ≠ .synRcvd
      decide
    | ignored | reset | refused | sync | reAck => cases henq
  | _ => cases h

theorem opens_or_removes (h : w.conn.state = .synRcvd) (h' : (w.act act).conn.state ≠ .synRcvd) :
    opens w act = true ∨ removes w act = true := by
  by_cases hcl : (w.act act).conn.state = .closed
  · exact .inr (removes_of_closed (by rw [h]; decide) hcl)
  by_cases hact : ∃ seg, act = .segment seg
  · left
    obtain ⟨seg, rfl⟩ := hact
    have hstep := handleSegment_step w.conn seg
    have h2 : (w.conn.handleSegment seg).conn.state ≠ .synRcvd := h'
    have h3 : (w.conn.handleSegment seg).conn.state ≠ .closed := hcl
    show (w.conn.handleSegment seg).enqueue = true
    generalize w.conn.handleSegment seg = o at hstep h2 h3
    cases hstep with
    | handshake => rfl
    | ignored => exact absurd h h2
    | reset | refused => exact absurd rfl h3
    | sync hst =>
      rw [h] at hst
      cases hst
    | reAck hst => cases h.symm.trans hst
  · have hact : ∀ seg, act ≠ .segment seg := fun seg he => hact ⟨seg, he⟩
    rcases act_state (w := w) hact with hs | hs | ⟨hs, -⟩ | ⟨hs, -⟩
    · exact absurd (hs.trans h) h'
    · exact absurd hs hcl
    · cases h.symm.trans hs
    · cases h.symm.trans hs

end States

/-! ## The two budgets -/

/-- What a client has a limited number of. -/
inductive Budget
  | halfOpen
  | live
  deriving DecidableEq

namespace Budget

def cap : Budget → Nat
  | .halfOpen => maxHalfOpenPerSession
  | .live => maxLiveConnsPerSession

def counter : Budget → TcpDemux → Addr → Nat
  | .halfOpen => TcpDemux.halfOpen
  | .live => TcpDemux.liveConns

def flag : Budget → DemuxConn → Bool
  | .halfOpen => DemuxConn.halfOpenCounted
  | .live => DemuxConn.liveCounted

def clear : Budget → DemuxConn → DemuxConn
  | .halfOpen, c => { c with halfOpenCounted := false }
  | .live, c => { c with liveCounted := false }

def release : Budget → Nat → DemuxSection
  | .halfOpen => .releaseHalfOpen
  | .live => .releaseLiveConn

def dec : Budget → Nat → Addr → DemuxSection
  | .halfOpen => .decHalfOpen
  | .live => .decLiveConn

def give : Budget → TcpDemux → Nat → Addr → TcpDemux
  | .halfOpen, d, id, ip =>
    { d with halfOpen := Function.update d.halfOpen ip (d.halfOpen ip - 1)
             halfOpenReleased := d.halfOpenReleased ++ [id] }
  | .live, d, id, ip =>
    { d with liveConns := Function.update d.liveConns ip (d.liveConns ip - 1)
             liveReleased := d.liveReleased ++ [id] }

end Budget

/-! ## The sections -/

namespace DemuxSection

/-- The packet of a section that comes before it is known what becomes of the packet. -/
def undecided : DemuxSection → Option Inbound
  | .lookup p | .findListener p | .checkOpen _ p | .count _ p => some p
  | _ => none

/-- The connection a section is one of, and what it does there. -/
def acts : DemuxSection → Option (Nat × Action)
  | .segment _ id seg => some (id, .segment seg)
  | .conn id act => some (id, act)
  | _ => none

/-- A section of a listener, or one of a connection that no packet has led to. -/
def inside : DemuxSection → Bool
  | .conn .. | .enqueue _ | .accept _ | .closeListener _ | .removeListener _ | .closeCh _ | .drain
      _ => true
  | _ => false

/-- A section of a listener. -/
def ofListener : DemuxSection → Bool
  | .enqueue _ | .accept _ | .closeListener _ | .removeListener _ | .closeCh _ | .drain _ => true
  | _ => false

end DemuxSection

/-- What a section does, and what follows it. -/
inductive ExecStep (d : TcpDemux) : DemuxSection → TcpDemux → List DemuxSection → Prop
  | dropped {sec p} (hsec : sec.undecided = some p) : ExecStep d sec d []
  | passed {sec sec' p} (hsec : sec.undecided = some p) (hsec' : sec'.undecided = some p) :
      ExecStep d sec d [sec']
  | found {p id} (hid : d.conns.lookup p.key = some id) : ExecStep d (.lookup p) d
      [.segment p.a id p.seg]
  | counted {l p} (hroom : ∀ b : Budget, b.counter d p.src < b.cap) :
      ExecStep d (.count l p)
        { d with halfOpen := Function.update d.halfOpen p.src (d.halfOpen p.src + 1)
                 liveConns := Function.update d.liveConns p.src (d.liveConns p.src + 1) }
        [.insert l p]
  | inserted {l p} :
      ExecStep d (.insert l p)
        { d with pool := d.pool ++ [d.newConn l p], conns := d.conns.insert p.key d.pool.length } []
  | acted {sec id act c} (hsec : sec.acts = some (id, act)) (hc : d.pool[id]? = some c) :
      ExecStep d sec { d with pool := d.pool.set id { c with world := c.world.act act } }
        (afterwards id c.world act)
  | deleted {id c} (hc : d.pool[id]? = some c) (hk : d.conns.lookup c.key = some id) :
      ExecStep d (.delete id) { d with conns := d.conns.erase c.key } []
  | absent {id c} (hc : d.pool[id]? = some c) (hk : d.conns.lookup c.key ≠ some id) :
      ExecStep d (.delete id) d []
  | released {id c} (b : Budget) (hc : d.pool[id]? = some c) :
      ExecStep d (b.release id) { d with pool := d.pool.set id (b.clear c) }
        (if b.flag c then [b.dec id c.halfOpenIP] else [])
  | missing {sec id} (hc : d.pool[id]? = none)
      (hsec : (∃ act, sec.acts = some (id, act)) ∨ sec = .delete id ∨ ∃ b : Budget,
      sec = b.release id) :
      ExecStep d sec d []
  | given {id ip} (b : Budget) : ExecStep d (b.dec id ip) (b.give d id ip) []
  | listened {sec more} (ports listeners) (hsec : sec.ofListener = true)
      (hmore : ∀ s ∈ more, s.inside = true) :
      ExecStep d sec { d with ports := ports, listeners := listeners } more
  | stopped {a} :
      ExecStep d (.stop a)
        { d with attachments := d.attachments.modify a fun att => { att with stopped := true } } []

/-- The listener's sections leave the rest of the demux as it is. -/
theorem exec_ofListener (d : TcpDemux) {sec : DemuxSection} (takes : Bool)
    (hsec : sec.ofListener = true) : ExecStep d sec (d.exec sec takes).1 (d.exec sec takes).2 := by
  have hidle : ∀ {more}, (∀ s ∈ more, s.inside = true) → ExecStep d sec d more :=
    fun hmore => .listened d.ports d.listeners hsec hmore
  cases sec with
  | enqueue id =>
    dsimp only [exec]
    split
    · exact hidle (by simp)
    split
    · exact hidle (by simp)
    · refine .listened d.ports _ rfl fun s hs => ?_
      split at hs
      · rw [List.mem_singleton.mp hs]
        rfl
      · cases hs
  | accept l =>
    dsimp only [exec]
    split
    · exact hidle (by simp)
    split
    · exact hidle (by simp)
    split
    · exact .listened d.ports _ rfl (by simp)
    · refine hidle fun s hs => ?_
      split at hs
      · cases hs
      · rw [List.mem_singleton.mp hs]
        rfl
  | closeListener l =>
    dsimp only [exec]
    split
    · exact hidle (by simp)
    split
    · exact hidle (by simp)
    · exact .listened d.ports _ rfl (by simp [DemuxSection.inside])
  | removeListener l =>
    dsimp only [exec]
    split
    · exact hidle (by simp)
    · exact .listened _ d.listeners rfl (by simp)
  | closeCh l =>
    dsimp only [exec]
    split
    · exact hidle (by simp)
    · exact .listened d.ports _ rfl (by simp)
  | drain l =>
    dsimp only [exec]
    split
    · exact hidle (by simp)
    split
    · exact .listened d.ports _ rfl (by simp [DemuxSection.inside])
    · exact hidle (by simp)
  | _ => cases hsec

/-- Every section does one of these. -/
theorem exec_step (d : TcpDemux) (sec : DemuxSection) (takes : Bool) :
    ExecStep d sec (d.exec sec takes).1 (d.exec sec takes).2 := by
  have hconn : ∀ {s id act}, s.acts = some (id, act) →
      ExecStep d s (d.execConn id act).1 (d.execConn id act).2 := by
    intro s id act hs
    unfold execConn
    cases hc : d.pool[id]? with
    | none => exact .missing hc (.inl ⟨act, hs⟩)
    | some c => exact .acted hs hc
  cases sec with
  | lookup p =>
    dsimp only [exec]
    split
    · rename_i id hid
      exact .found hid
    · split
      · exact .passed rfl rfl
      · exact .dropped rfl
  | findListener p =>
    dsimp only [exec]
    split
    · exact .passed rfl rfl
    · exact .dropped rfl
  | checkOpen l p =>
    dsimp only [exec]
    split
    · exact .dropped rfl
    · exact .passed rfl rfl
  | count l p =>
    dsimp only [exec]
    split
    · exact .dropped rfl
    rename_i h1
    split
    · exact .dropped rfl
    rename_i h2
    refine .counted fun b => ?_
    cases b with
    | halfOpen => exact Nat.lt_of_not_le h1
    | live => exact Nat.lt_of_not_le h2
  | insert l p => exact .inserted
  | segment a id seg | conn id act => exact hconn rfl
  | delete id =>
    dsimp only [exec]
    cases hc : d.pool[id]? with
    | none => exact .missing hc (.inr (.inl rfl))
    | some c =>
      dsimp only
      split
      · rename_i hk
        exact .deleted hc hk
      · rename_i hk
        exact .absent hc hk
  | releaseHalfOpen id =>
    dsimp only [exec]
    cases hc : d.pool[id]? with
    | none => exact .missing hc (.inr (.inr ⟨.halfOpen, rfl⟩))
    | some c => exact .released .halfOpen hc
  | decHalfOpen id ip => exact .given .halfOpen
  | releaseLiveConn id =>
    dsimp only [exec]
    cases hc : d.pool[id]? with
    | none => exact .missing hc (.inr (.inr ⟨.live, rfl⟩))
    | some c => exact .released .live hc
  | decLiveConn id ip => exact .given .live
  | enqueue id | accept l | closeListener l | removeListener l | closeCh l | drain l =>
    exact exec_ofListener d takes rfl
  | stop a => exact .stopped

/-- What an event does, and the call it starts. -/
inductive StartStep (d : TcpDemux) : DemuxEvent → TcpDemux → List DemuxSection → Prop
  | attached {ip} (hserver : ip ≠ d.serverIP) (hfree : d.routes ip = none) :
      StartStep d (.attach ip)
        { d with routes := Function.update d.routes ip (some d.attachments.length)
                 attachments := d.attachments ++ [{ ip := ip }] } []
  | detached {e a} (routes) : StartStep d e { d with routes := routes } [.stop a]
  | packet {a att seg isn} (hatt : d.attachments[a]? = some att) (hopen : att.stopped = false) :
      StartStep d (.packet a seg isn) d [.lookup { a := a, src := att.ip, seg := seg, isn := isn }]
  | other {e more} (ports listeners) (hmore : ∀ s ∈ more, s.inside = true) :
      StartStep d e { d with ports := ports, listeners := listeners } more

/-- **The inversion of `start`.** -/
theorem start_step (d : TcpDemux) (e : DemuxEvent) : StartStep d e (d.start e).1 (d.start e).2 := by
  have hidle : ∀ {more}, (∀ s ∈ more, s.inside = true) → StartStep d e d more :=
    fun hmore => .other d.ports d.listeners hmore
  have hone : ∀ {sec : DemuxSection}, sec.inside = true → StartStep d e d [sec] :=
    fun hsec => hidle fun s hs => List.mem_singleton.mp hs ▸ hsec
  cases e with
  | listen port =>
    dsimp only [start]
    split
    · exact hidle (by simp)
    · exact .other _ _ (by simp)
  | accept l | closeListener l => exact hone rfl
  | attach ip =>
    dsimp only [start]
    split
    · exact hidle (by simp)
    · rename_i h
      have hfree : ¬ (d.routes ip).isSome = true := fun hs => h (.inr hs)
      exact .attached (fun he => h (.inl he)) (Option.not_isSome_iff_eq_none.mp hfree)
  | detach ip =>
    dsimp only [start]
    split
    · exact hidle (by simp)
    · exact .detached _
  | readFailed a =>
    dsimp only [start]
    split
    · exact hidle (by simp)
    · split
      · exact .detached _
      · exact .detached d.routes
  | packet a seg isn =>
    dsimp only [start]
    split
    · rename_i att hatt
      cases hstop : att.stopped with
      | true => exact hidle (by simp)
      | false => exact .packet hatt hstop
    · exact hidle (by simp)
  | timer id => exact hone rfl
  | noticeStop id =>
    dsimp only [start]
    split
    · exact hidle (by simp)
    · split
      · exact hone rfl
      · exact hidle (by simp)
  | app id act =>
    dsimp only [start]
    split
    all_goals first | exact hone rfl | exact hidle (by simp)

/-! ## What follows a section of a connection -/

section Afterwards

variable {id : Nat} {w : World} {act : Action} {sec : DemuxSection}

theorem mem_afterwards (h : sec ∈ afterwards id w act) :
    opens w act = true ∧ (sec = Budget.halfOpen.release id ∨ sec = .enqueue id)
      ∨ removes w act = true ∧ (sec = .delete id ∨ ∃ b : Budget, sec = b.release id)
      ∨ sec = .conn id .closeWrite := by
  rcases List.mem_append.mp h with h | h
  · left
    split at h
    · rename_i ho
      refine ⟨ho, ?_⟩
      simpa [Budget.release] using h
    · cases h
  · right
    split at h
    · rename_i hr
      left
      refine ⟨hr, ?_⟩
      simp only [removeConn, List.mem_cons, List.not_mem_nil, or_false] at h
      rcases h with h | h | h
      · exact .inl h
      · exact .inr ⟨.halfOpen, h⟩
      · exact .inr ⟨.live, h⟩
    · right
      split at h
      · exact List.mem_singleton.mp h
      · cases h

theorem release_mem_of_opens (h : opens w act = true) :
    Budget.halfOpen.release id ∈ afterwards id w act := by
  simp [afterwards, h, Budget.release]

theorem release_mem_of_removes (h : removes w act = true) (b : Budget) :
    b.release id ∈ afterwards id w act := by
  cases b <;> simp [afterwards, removeConn, h, Budget.release]

theorem delete_mem_of_removes (h : removes w act = true) : .delete id ∈ afterwards id w act := by
  simp [afterwards, removeConn, h]

end Afterwards

/-! ## The table -/

/-- What a connection is made with and keeps. -/
structure DemuxConn.Same (c c' : DemuxConn) : Prop where
  owner : c'.owner = c.owner
  key : c'.key = c.key
  ip : c'.halfOpenIP = c.halfOpenIP

section Table

variable {d d' : TcpDemux} {sec : DemuxSection} {more : List DemuxSection} {id : Nat}
  {c c' : DemuxConn}

theorem same_clear (b : Budget) : c.Same (b.clear c) := by
  cases b <;> exact ⟨rfl, rfl, rfl⟩

theorem pool_set_after {x : DemuxConn} {i : Nat} (hx : d.pool[i]? = some x) (hs : x.Same c')
    (hc : d.pool[id]? = some c) : ∃ y, (d.pool.set i c')[id]? = some y ∧ c.Same y := by
  by_cases hi : id = i
  · subst hi
    obtain rfl : c = x := Option.some.inj (hc.symm.trans hx)
    exact ⟨c', List.getElem?_set_self (List.getElem?_eq_some_iff.mp hc).1, hs⟩
  · exact ⟨c, by rw [List.getElem?_set_ne (Ne.symm hi), hc], rfl, rfl, rfl⟩

theorem pool_set_before {x y : DemuxConn} {i : Nat} (hx : d.pool[i]? = some x) (hs : x.Same c')
    (hy : (d.pool.set i c')[id]? = some y) : ∃ c, d.pool[id]? = some c ∧ c.Same y := by
  rcases Tally.getElem?_set_cases hy with ⟨rfl, rfl⟩ | ⟨-, hy⟩
  · exact ⟨x, hx, hs⟩
  · exact ⟨y, hy, rfl, rfl, rfl⟩

/-- A connection keeps its identity. -/
theorem ExecStep.conn_after (h : ExecStep d sec d' more) (hc : d.pool[id]? = some c) :
    ∃ c', d'.pool[id]? = some c' ∧ c.Same c' := by
  have hid : ∃ c', d.pool[id]? = some c' ∧ c.Same c' := ⟨c, hc, rfl, rfl, rfl⟩
  cases h with
  | inserted =>
    exact ⟨c,
      by rw [List.getElem?_append_left (List.getElem?_eq_some_iff.mp hc).1, hc], rfl, rfl, rfl⟩
  | acted _ hx => exact pool_set_after hx ⟨rfl, rfl, rfl⟩ hc
  | released b hx => exact pool_set_after hx (same_clear b) hc
  | given b => cases b <;> exact hid
  | _ => exact hid

theorem ExecStep.conn_before (h : ExecStep d sec d' more) (hc : d'.pool[id]? = some c') :
    (∃ c, d.pool[id]? = some c ∧ c.Same c')
      ∨ ∃ l p, sec = .insert l p ∧ id = d.pool.length ∧ c' = d.newConn l p := by
  have hid : d.pool[id]? = some c' → (∃ c, d.pool[id]? = some c ∧ c.Same c')
      ∨ ∃ l p, sec = .insert l p ∧ id = d.pool.length ∧ c' = d.newConn l p :=
    fun hc => .inl ⟨c', hc, rfl, rfl, rfl⟩
  cases h with
  | inserted =>
    rcases Tally.getElem?_concat_cases hc with ⟨rfl, rfl⟩ | hc
    · exact .inr ⟨_, _, rfl, rfl, rfl⟩
    · exact hid hc
  | @acted _ _ act x _ hx =>
    have hs : x.Same { x with world := x.world.act act } := ⟨rfl, rfl, rfl⟩
    exact .inl (pool_set_before hx hs hc)
  | released b hx => exact .inl (pool_set_before hx (same_clear b) hc)
  | given b => cases b <;> exact hid hc
  | _ => exact hid hc

theorem ExecStep.lookup_before (h : ExecStep d sec d' more) {k : FourTuple}
    (hk : d'.conns.lookup k = some id) :
    d.conns.lookup k = some id
      ∨ ∃ l p, sec = .insert l p ∧ k = p.key ∧ d'.pool[id]? = some (d.newConn l p) := by
  cases h with
  | @inserted l p =>
    by_cases he : k = p.key
    · subst he
      rw [AList.lookup_insert] at hk
      obtain rfl : d.pool.length = id := Option.some.inj hk
      refine .inr ⟨l, p, rfl, rfl, ?_⟩
      rw [List.getElem?_append_right (Nat.le_refl _), Nat.sub_self]
      rfl
    · rw [AList.lookup_insert_ne he] at hk
      exact .inl hk
  | @deleted i c hc hi =>
    by_cases he : k = c.key
    · subst he
      rw [AList.lookup_erase] at hk
      cases hk
    · rw [AList.lookup_erase_ne he] at hk
      exact .inl hk
  | given b => cases b <;> exact .inl hk
  | _ => exact .inl hk

theorem StartStep.same {e : DemuxEvent} (h : StartStep d e d' more) :
    d'.pool = d.pool ∧ d'.conns = d.conns := by
  cases h <;> exact ⟨rfl, rfl⟩

/-- A connection stands in the table under its own key. -/
def Keyed (d : TcpDemux) : Prop :=
  ∀ k id, d.conns.lookup k = some id → ∃ c, d.pool[id]? = some c ∧ c.key = k

theorem Keyed.key_eq (hd : Keyed d) {k : FourTuple} {id : Nat} {c : DemuxConn}
    (hk : d.conns.lookup k = some id) (hc : d.pool[id]? = some c) : c.key = k := by
  obtain ⟨c', hc', hkey⟩ := hd k id hk
  obtain rfl : c' = c := Option.some.inj (hc'.symm.trans hc)
  exact hkey

/-- A section keeps connections under their own keys. -/
theorem Keyed.exec (hd : Keyed d) (h : ExecStep d sec d' more) : Keyed d' := by
  intro k i hk
  rcases h.lookup_before hk with hk | ⟨l, p, -, rfl, hc⟩
  · obtain ⟨c, hc, hkey⟩ := hd k i hk
    obtain ⟨c', hc', hs⟩ := h.conn_after hc
    exact ⟨c', hc', hs.key.trans hkey⟩
  · exact ⟨_, hc, rfl⟩

end Table

end GoVpn.Netstack
