import GoVpn.Lib.Ledger
import GoVpn.Lib.Tally
import GoVpn.Ovpn.Server
import GoVpn.Proof.KeySlots

/-!
# Tunnel addresses and routes

The pool keeps two lists of what is taken and trusts the sessions to give it back. It
can: what a session takes it holds, in hand or in its fields, until it gives exactly
that back. So the pool's lists and what the sessions hold form a ledger, whichever
way their steps interleave.
-/

namespace GoVpn.Ovpn

open GoVpn.Data (Aead)

/-- What the `i`-th session has taken and not given back. -/
def Server.heldAt (v : Server) (i : Nat) : Option Grant :=
  v.sess[i]?.bind fun s => s.holding.held

/-- What the pool does. -/
inductive PoolStep (p : IpPool) : PoolOp → IpPool → Prop
  | none : PoolStep p .none p
  | grant {g : Grant} (hip : g.ip - p.base ∉ p.usedIPs) (hid : g.peerID ∉ p.usedPeerIDs) :
      PoolStep p (.grant g) (p.take (g.ip - p.base) g.peerID)
  | release (g : Grant) : PoolStep p (.release g) (p.release g)

/-- The pool and the sessions agree, and so do the routes. -/
structure Server.Accounts (v : Server) : Prop where
  ips : Ledger (fun g : Grant => g.ip - v.pool.base) v.pool.usedIPs v.heldAt
  peerIDs : Ledger Grant.peerID v.pool.usedPeerIDs v.heldAt
  routes : ∀ (p : PeerID) (i : Nat), (p, i) ∈ v.dataSessions → ∃ s : Session, v.sess[i]? = some s
    ∧ s.assignedIP.isSome = true ∧ s.peerID = p ∧ s.stopOnce.unrouted = false

/-- Granted to the session, and not given back by it. -/
def Session.Outstanding (s : Session) (g : Grant) : Prop :=
  .granted g ∈ s.hist ∧ .released g ∉ s.hist

/-- What holds of the pool, the routes and the sessions at any time. -/
structure Server.Exclusive (v : Server) : Prop where
  /-- Sessions that are not closing have different addresses and different peer-ids. -/
  holders : ∀ (i j : Nat) (s t : Session) (g h : Grant),
    v.sess[i]? = some s → v.sess[j]? = some t → i ≠ j → s.stopped = false → t.stopped = false →
    s.holds = some g → t.holds = some h → g.ip ≠ h.ip ∧ g.peerID ≠ h.peerID
  /-- A route leads to the session that published the peer-id. -/
  routes : ∀ (p : PeerID) (i : Nat), (p, i) ∈ v.dataSessions →
    ∃ s : Session, v.sess[i]? = some s ∧ s.assignedIP.isSome = true ∧ s.peerID = p
  /-- A session is granted at most one pair and gives that back at most once. -/
  once : ∀ s ∈ v.sess, poolEvents s.hist = []
    ∨ ∃ g, poolEvents s.hist = [.granted g] ∨ poolEvents s.hist = [.granted g, .released g]
  /-- The pool has out what was granted and not given back, and nothing else. -/
  usedIPs : ∀ k, k ∈ v.pool.usedIPs ↔ ∃ s ∈ v.sess, ∃ g, s.Outstanding g ∧ g.ip - v.pool.base = k
  usedPeerIDs : ∀ k, k ∈ v.pool.usedPeerIDs ↔ ∃ s ∈ v.sess, ∃ g, s.Outstanding g ∧ g.peerID = k

/-- All sessions are torn down and all handshakes have ended. -/
def Server.AllDown (v : Server) : Prop := ∀ s ∈ v.sess, s.stopOnce = .done ∧ s.hs = .returned

instance (v : Server) : Decidable v.AllDown :=
  inferInstanceAs (Decidable (∀ s ∈ v.sess, s.stopOnce = .done ∧ s.hs = .returned))

/-- Nothing is out, nothing is routed, and every grant was given back by who got it. -/
structure Server.NothingLeft (v : Server) : Prop where
  usedIPs : v.pool.usedIPs = []
  usedPeerIDs : v.pool.usedPeerIDs = []
  dataSessions : v.dataSessions = []
  released : ∀ s ∈ v.sess, poolEvents s.hist = []
    ∨ ∃ g, poolEvents s.hist = [.granted g, .released g]

end GoVpn.Ovpn

namespace GoVpn.Proof

open GoVpn.Data (Aead zeroTagAead)
open GoVpn.Ovpn

variable {A : Aead} {cfg : Config}

/-! ## The pool -/

theorem firstFree_not_mem {used : List (BitVec 32)} {n : Nat} {o x : BitVec 32}
    (h : IpPool.firstFree used n o = some x) : x ∉ used := by
  induction n generalizing o with
  | zero => cases h
  | succ n ih =>
    unfold IpPool.firstFree at h
    split at h
    · exact ih h
    · rename_i hc
      cases h
      simpa using hc

variable {i j : Nat} {p p' : IpPool} {s : Session}

/-- `allocate` grants what is free. -/
theorem allocate_step {g : Grant} (h : p.allocate = some (g, p')) : PoolStep p (.grant g) p' := by
  unfold IpPool.allocate at h
  split at h
  · rename_i offset peerID ho hid
    cases h
    have hoff : p.base + offset - p.base = offset := by
      rw [BitVec.add_comm, BitVec.add_sub_cancel]
    have hstep := PoolStep.grant (p := p) (g := ⟨p.base + offset, peerID⟩)
      (by rw [hoff]; exact firstFree_not_mem ho) (firstFree_not_mem hid)
    rw [hoff] at hstep
    exact hstep
  · cases h

/-- **What `reserve` answers**, with what its checks have found. -/
inductive ReserveCase (p : IpPool) : Option IPv4 → ReserveErr ⊕ (PeerID × IpPool) → Prop
  | refused {want : Option IPv4} {err : ReserveErr} (hne : err ≠ .inUse) : ReserveCase p want
      (.inl err)
  | inUse {ip : IPv4} (hused : ip - p.base ∈ p.usedIPs) : ReserveCase p (some ip) (.inl .inUse)
  | reserved {ip : IPv4} {peerID : PeerID} (hlow : p.base ≤ ip) (hhigh : ip - p.base < p.size)
      (hhost : ¬ (ip - p.base = 0 ∨ ip - p.base = 1 ∨ ip - p.base = p.size - 1))
      (hfree : ip - p.base ∉ p.usedIPs) (hid : p.nextFreePeerID = some peerID) :
      ReserveCase p (some ip) (.inr (peerID, p.take (ip - p.base) peerID))

/-- **The inversion of `reserve`.** -/
theorem reserve_cases (p : IpPool) (want : Option IPv4) : ReserveCase p want (p.reserve want) := by
  cases want with
  | none => exact .refused nofun
  | some ip =>
    unfold IpPool.reserve
    dsimp only
    split
    · exact .refused nofun
    rename_i hlow
    split
    · exact .refused nofun
    rename_i hhigh
    split
    · exact .refused nofun
    rename_i hhost
    split
    · rename_i hused
      exact .inUse (List.contains_iff_mem.mp hused)
    rename_i hfree
    split
    · exact .refused nofun
    rename_i hid
    exact .reserved (BitVec.not_lt.mp hlow) (BitVec.not_le.mp hhigh) hhost
      (by simpa using hfree) hid

/-- `reserve` grants what is free. -/
theorem reserve_step {ip : IPv4} {peerID : PeerID} (h : p.reserve (some ip) = .inr (peerID, p')) :
    PoolStep p (.grant { ip := ip, peerID := peerID }) p' := by
  have hcase := reserve_cases p (some ip)
  rw [h] at hcase
  cases hcase with
  | reserved _ _ _ hfree hid => exact .grant hfree (firstFree_not_mem hid)

theorem reserve_none (p : IpPool) : p.reserve none = .inl .notIPv4 := rfl

/-- The two sides of the ledger move together. -/
theorem ledger_step {ι : Type} {held held' : ι → Option Grant} {op : PoolOp} {i : ι}
    {h h' : Holding} (hold : HoldStep h op h') (hpool : PoolStep p op p') (hi : held i = h.held)
    (hi' : held' i = h'.held) (hother : ∀ j, j ≠ i → held' j = held j)
    (hips : Ledger (fun g : Grant => g.ip - p.base) p.usedIPs held)
    (hids : Ledger Grant.peerID p.usedPeerIDs held) :
    p'.base = p.base ∧ Ledger (fun g : Grant => g.ip - p.base) p'.usedIPs held'
      ∧ Ledger Grant.peerID p'.usedPeerIDs held' := by
  cases hold with
  | none =>
    cases hpool
    have hsame : ∀ j, held' j = held j := by
      intro j
      by_cases hji : j = i
      · rw [hji, hi', hi]
      · exact hother j hji
    exact ⟨rfl, hips.congr hsame, hids.congr hsame⟩
  | grant g hn =>
    cases hpool with
    | grant hip hid =>
      have hnone : held i = none := hi.trans hn
      exact ⟨rfl, hips.grant hip hnone hi' hother, hids.grant hid hnone hi' hother⟩
  | release g hg =>
    cases hpool
    refine ⟨rfl, hips.release (hi.trans hg) hi' hother fun k => ?_,
      hids.release (hi.trans hg) hi' hother fun k => ?_⟩ <;>
      simp [IpPool.release]

/-! ## A server's sessions are sessions -/

/-- What a run of the session's own goroutines, with some answers of the rest, leads to. -/
def SessionRun (A : Aead) (cfg : Config) (i : Nat) (s : Session) : Prop :=
  ∃ now ins, s = Machine.run (Session.step A cfg) (.new i now) ins

/-- A step of a session prolongs its run. -/
theorem sessionRun_step (h : SessionRun A cfg i s) (inp : Input) :
    SessionRun A cfg i (s.step A cfg inp) := by
  obtain ⟨now, ins, rfl⟩ := h
  exact ⟨now, ins ++ [inp], by rw [Machine.run_append]; rfl⟩

theorem sessionRun_safe (h : SessionRun A cfg i s) : SlotsSafe s := by
  obtain ⟨now, ins, rfl⟩ := h
  exact slotsSafe_run A cfg i now ins

theorem sessionRun_lawful (h : SessionRun A cfg i s) : s.holding.Lawful := by
  obtain ⟨now, ins, rfl⟩ := h
  let I : Session → Prop := fun s => s.life.Grants ∧ s.holding.Lawful
  have hstep : ∀ s inp, I s → I (s.step A cfg inp) := by
    rintro s inp ⟨hg, hl⟩
    exact ⟨grants_step hg inp, lawful_step hl (hold_step hg inp)⟩
  exact (Machine.run_invariant' (I := I) hstep ⟨grants_new i now, .nothing rfl rfl⟩ ins).2

variable {v : Server} {i : Nat} {s : Session}

/-- A step of the server is a step of one session, served by the rest. -/
theorem step_session (inp : Input) (hi : v.sess[i]? = some s) :
    v.step A cfg (.session i inp) =
      { (v.serve i s inp).1 with
        sess := (v.serve i s inp).1.sess.set i (s.step A cfg (v.serve i s inp).2) } := by
  unfold Server.step
  dsimp only
  rw [hi]

theorem step_absent (inp : Input) (hi : v.sess[i]? = none) : v.step A cfg (.session i inp) = v := by
  unfold Server.step
  dsimp only
  rw [hi]

theorem serve_sess (A : Aead) (cfg : Config) (v : Server) (i : Nat) (s : Session) (inp : Input) :
    (v.serve i s inp).1.sess = v.sess
      ∨ ∃ old t, v.sess[old]? = some t
        ∧ (v.serve i s inp).1.sess = v.sess.set old (t.step A cfg (.close .replaced)) := by
  cases inp with
  | handshake e =>
    show (v.serveHandshake i s e).1.sess = v.sess ∨ ∃ old t, _ ∧ (v.serveHandshake i s e).1.sess = _
    unfold Server.serveHandshake
    cases s.hs with
    | evict want old =>
      cases ht : v.sess[old]? with
      | none =>
        refine .inl ?_
        dsimp only
        rw [ht]
      | some t =>
        refine .inr ⟨old, t, ht, ?_⟩
        dsimp only
        rw [ht]
        rfl
    | allocate | reserve want | publishKeys g => dsimp only; split <;> exact .inl rfl
    | lookup want cs => cases cs <;> exact .inl rfl
    | _ => exact .inl rfl
  | teardown =>
    refine .inl ?_
    show (v.serveTeardown i s).sess = v.sess
    unfold Server.serveTeardown
    split
    · split <;> rfl
    · rfl
    · rfl
    · rfl
  | _ => exact .inl rfl

theorem sess_self (inp : Input) (hi : v.sess[i]? = some s) :
    (v.step A cfg (.session i inp)).sess[i]? = some (s.step A cfg (v.serve i s inp).2) := by
  obtain ⟨hlt, _⟩ := List.getElem?_eq_some_iff.mp hi
  rw [step_session inp hi]
  refine List.getElem?_set_self ?_
  rcases serve_sess A cfg v i s inp with hs | ⟨_, _, _, hs⟩
  · rw [hs]; exact hlt
  · rw [hs, List.length_set]; exact hlt

variable (A cfg) in
theorem sess_other (inp : Input) (hi : v.sess[i]? = some s) (hji : j ≠ i) :
    (v.step A cfg (.session i inp)).sess[j]? = v.sess[j]?
      ∨ ∃ u, v.sess[j]? = some u
        ∧ (v.step A cfg (.session i inp)).sess[j]? = some (u.step A cfg (.close .replaced)) := by
  rw [step_session inp hi]
  rw [List.getElem?_set_ne fun hij => hji hij.symm]
  rcases serve_sess A cfg v i s inp with hs | ⟨old, u, hu, hs⟩
  · rw [hs]; exact .inl rfl
  · rw [hs]
    by_cases hoj : old = j
    · subst hoj
      obtain ⟨hlt, _⟩ := List.getElem?_eq_some_iff.mp hu
      exact .inr ⟨u, hu, List.getElem?_set_self hlt⟩
    · exact .inl (List.getElem?_set_ne hoj)

/-- **What one step of the server makes of its `j`-th session.** -/
inductive SessionMove (A : Aead) (cfg : Config) (v : Server) (j : Nat) :
    ServerInput → Session → Prop
  | accepted {now : Int} (hj : j = v.sess.length) : SessionMove A cfg v j (.accept now) (.new j now)
  | kept {inp : ServerInput} {s : Session} (hj : v.sess[j]? = some s)
      (hother : ∀ i inp', inp = .session i inp' → j ≠ i) : SessionMove A cfg v j inp s
  | stepped {inp : Input} {s : Session} (hj : v.sess[j]? = some s) :
      SessionMove A cfg v j (.session j inp) (s.step A cfg (v.serve j s inp).2)
  /-- Another session takes its address and calls upon it to close. -/
  | evicted {i : Nat} {inp : Input} {s : Session} (hj : v.sess[j]? = some s) (hji : j ≠ i) :
      SessionMove A cfg v j (.session i inp) (s.step A cfg (.close .replaced))

theorem sessionMove {inp : ServerInput} {t : Session} (h : (v.step A cfg inp).sess[j]? = some t) :
    SessionMove A cfg v j inp t := by
  cases inp with
  | accept now =>
    rcases Tally.getElem?_concat_cases h with ⟨rfl, rfl⟩ | hold
    · exact .accepted rfl
    · refine .kept hold ?_
      rintro _ _ heq
      cases heq
  | session i inp =>
    cases hi : v.sess[i]? with
    | none =>
      rw [step_absent inp hi] at h
      refine .kept h ?_
      rintro k _ heq rfl
      cases heq
      rw [hi] at h
      cases h
    | some s =>
      by_cases hji : j = i
      · subst hji
        rw [sess_self inp hi] at h
        cases h
        exact .stepped hi
      rcases sess_other A cfg inp hi hji with hsame | ⟨u, hu, hclose⟩
      · refine .kept (hsame.symm.trans h) ?_
        rintro k _ heq
        cases heq
        exact hji
      · rw [hclose] at h
        cases h
        exact .evicted hu hji

theorem sessionRun_serverStep (h : ∀ i s, v.sess[i]? = some s → SessionRun A cfg i s)
    (inp : ServerInput) : ∀ i s, (v.step A cfg inp).sess[i]? = some s → SessionRun A cfg i s := by
  intro j t ht
  cases sessionMove ht with
  | @accepted now _ => exact ⟨now, [], rfl⟩
  | kept hj => exact h j t hj
  | stepped hj | evicted hj => exact sessionRun_step (h j _ hj) _

/-! ## The pool does what the session's step asks for -/

theorem serve_pool (v : Server) (i : Nat) (s : Session) (inp : Input) :
    PoolStep v.pool (s.poolOp (v.serve i s inp).2) (v.serve i s inp).1.pool := by
  cases inp with
  | handshake e =>
    show PoolStep v.pool (s.poolOp (.handshake (v.serveHandshake i s e).2))
      (v.serveHandshake i s e).1.pool
    unfold Server.serveHandshake Session.poolOp
    cases s.hs with
    | allocate =>
      cases ha : v.pool.allocate with
      | none => exact .none
      | some x => exact allocate_step ha
    | reserve want again =>
      dsimp only
      cases want with
      | none => rw [reserve_none]; exact .none
      | some ip =>
        cases hr : v.pool.reserve (some ip) with
        | inl err => exact .none
        | inr x => exact reserve_step hr
    | releaseGrant g => exact .release g
    | evict want old | publishKeys g => dsimp only; split <;> exact .none
    | lookup want cs => cases cs <;> exact .none
    | _ => exact .none
  | teardown =>
    show PoolStep v.pool (s.poolOp .teardown) (v.serveTeardown i s).pool
    unfold Server.serveTeardown Session.poolOp
    cases s.stopOnce with
    | fresh | done => exact .none
    | running r pc =>
      cases pc with
      | snapshot =>
        dsimp only
        split <;> exact .none
      | release ip peerID conns =>
        cases ip with
        | none => exact .none
        | some ip => exact .release _
      | storeReason | closeStopCh | remove | closeConns | loadPublished => exact .none
  | _ => exact .none

theorem heldAt_eq (hi : v.sess[i]? = some s) : v.heldAt i = s.holding.held := by
  unfold Server.heldAt
  rw [hi]
  rfl

/-- The others hold what they held. -/
theorem heldAt_step_other (inp : Input) (hi : v.sess[i]? = some s) (hji : j ≠ i) :
    (v.step A cfg (.session i inp)).heldAt j = v.heldAt j := by
  rcases sess_other A cfg inp hi hji with hsame | ⟨u, hu, hclose⟩
  · unfold Server.heldAt
    rw [hsame]
  · -- being called upon to close changes nothing about what a session holds
    rw [heldAt_eq hu, heldAt_eq hclose]
    rfl

theorem heldAt_accept (now : Int) (j : Nat) :
    (v.step A cfg (.accept now)).heldAt j = v.heldAt j := by
  unfold Server.heldAt
  show (v.sess ++ [Session.new v.sess.length now])[j]?.bind _ = _
  rw [List.getElem?_append]
  split
  · rfl
  · rename_i hlt
    rw [List.getElem?_singleton, List.getElem?_eq_none (Nat.le_of_not_lt hlt)]
    split <;> rfl

/-! ## Routes -/

theorem fields_handshake (cfg : Config) (s : Session) (e : Env) :
    (s.handshake cfg e).assignedIP = s.assignedIP ∧ (s.handshake cfg e).peerID = s.peerID
      ∨ s.hs.unpublished = true := by
  have hstep := handshake_cases cfg s e
  generalize s.handshake cfg e = s' at hstep
  cases hstep with
  | @record o _ _ =>
    have hu := undisturbed_record s o
    exact .inl ⟨hu.assignedIP, hu.peerID⟩
  | @close r pc _ =>
    have hu := undisturbed_callClose s r pc
    exact .inl ⟨hu.assignedIP, hu.peerID⟩
  | publishKeys hpc => exact .inr (by rw [hpc]; rfl)
  | move | grant | release | establish | publish | callOnSession =>
    exact .inl ⟨rfl, rfl⟩

/-- A published address stays. -/
theorem assigned_step (h : s.life.Grants) (hip : s.assignedIP.isSome = true) (inp : Input) :
    (s.step A cfg inp).assignedIP = s.assignedIP ∧ (s.step A cfg inp).peerID = s.peerID := by
  by_cases hh : ∃ e, inp = .handshake e
  · obtain ⟨e, rfl⟩ := hh
    rcases fields_handshake cfg s e with hsame | hun
    · exact hsame
    · have hnone : s.assignedIP = none := h.unassigned hun
      rw [hnone] at hip; cases hip
  by_cases ht : inp = .teardown
  · subst ht
    exact ⟨(s.aside_teardown cfg).1.assignedIP, (s.aside_teardown cfg).1.peerID⟩
  obtain ⟨hu, _⟩ := undisturbed_step A cfg s (fun e he => hh ⟨e, he⟩) ht
  exact ⟨hu.assignedIP, hu.peerID⟩

/-- The body reads the routes in one step of its own. -/
theorem unrouted_step (ho : s.stopOnce.unrouted = false) (inp : Input) :
    (s.step A cfg inp).stopOnce.unrouted = false
      ∨ inp = .teardown ∧ ∃ r, s.stopOnce = .running r .snapshot := by
  by_cases ht : inp = .teardown
  · subst ht
    show (s.teardown cfg).stopOnce.unrouted = false ∨ _
    unfold Session.teardown
    cases hs : s.stopOnce with
    | fresh | done => exact .inl ho
    | running r pc =>
      rw [hs] at ho
      cases pc with
      | storeReason | closeStopCh => exact .inl rfl
      | snapshot => exact .inr ⟨rfl, r, rfl⟩
      | release | remove | closeConns | loadPublished => cases ho
  refine .inl ?_
  rcases (bodyKept_step A cfg ht).2 with hsame | ⟨_, r, hsame⟩
  · rw [hsame]; exact ho
  · rw [hsame]; rfl

theorem serve_routes {inp : Input} {p : PeerID} (h : (p, j) ∈ (v.serve i s inp).1.dataSessions) :
    (p, j) ∈ v.dataSessions
        ∧ (inp = .teardown → (∃ r, s.stopOnce = .running r .snapshot) →
          s.primary.wrapper.isSome = true → (p, j) ≠ (s.peerID, i))
      ∨ j = i ∧ ∃ e g, (v.serve i s inp).2 = .handshake e ∧ s.hs = .publishKeys g
        ∧ (s.publishKeys g).hs = .pushReply ∧ p = g.peerID := by
  cases inp with
  | handshake e =>
    change (p, j) ∈ (v.serveHandshake i s e).1.dataSessions at h
    show _ ∨ j = i ∧ ∃ e' g, Input.handshake (v.serveHandshake i s e).2 = .handshake e' ∧ _
    unfold Server.serveHandshake at h ⊢
    cases hpc : s.hs with
    | publishKeys g =>
      rw [hpc] at h
      dsimp only at h ⊢
      split at h
      · rename_i hreply
        rcases List.mem_cons.mp h with hnew | hold
        · cases hnew
          exact .inr ⟨rfl, e, g, rfl, rfl, hreply, rfl⟩
        · exact .inl ⟨(List.mem_filter.mp hold).1, nofun⟩
      · exact .inl ⟨h, nofun⟩
    | allocate | reserve want again | evict want old =>
      rw [hpc] at h
      dsimp only at h
      split at h <;> exact .inl ⟨h, nofun⟩
    | lookup want cs =>
      rw [hpc] at h
      cases cs <;> exact .inl ⟨h, nofun⟩
    | _ =>
      rw [hpc] at h
      exact .inl ⟨h, nofun⟩
  | teardown =>
    change (p, j) ∈ (v.serveTeardown i s).dataSessions at h
    unfold Server.serveTeardown at h
    refine .inl ?_
    split at h
    · split at h
      · obtain ⟨hold, hne⟩ := List.mem_filter.mp h
        exact ⟨hold, fun _ _ _ => of_decide_eq_true hne⟩
      · rename_i hw
        exact ⟨h, fun _ _ hw' => absurd hw' hw⟩
    iterate 2
      · rename_i hs
        exact ⟨h, fun _ ⟨r, hr⟩ => by rw [hs] at hr; cases hr⟩
    · rename_i hs _ _
      exact ⟨h, fun _ ⟨r, hr⟩ => absurd hr (hs r)⟩
  | _ => exact .inl ⟨h, nofun⟩

theorem publishKeys_reply {g : Grant} (hpc : s.hs = .publishKeys g)
    (hreply : (s.publishKeys g).hs = .pushReply) (e : Env) :
    (s.step A cfg (.handshake e)).assignedIP = some g.ip
      ∧ (s.step A cfg (.handshake e)).peerID = g.peerID
      ∧ (s.step A cfg (.handshake e)).stopOnce = s.stopOnce ∧ s.stopped = false := by
  have hstep : s.step A cfg (.handshake e) = s.publishKeys g := by
    show s.handshake cfg e = _
    unfold Session.handshake
    rw [hpc]
  rw [hstep]
  unfold Session.publishKeys at hreply ⊢
  split at hreply
  · cases hreply
  split at hreply
  · cases hreply
  · rename_i hstop
    rw [if_neg hstop]
    exact ⟨rfl, rfl, rfl, eq_false_of_ne_true hstop⟩

theorem serve_teardown {inp : Input} (h : (v.serve i s inp).2 = .teardown) : inp = .teardown := by
  cases inp with
  | teardown => rfl
  | _ => cases h

/-- After a step every route still leads to a session that published it. -/
theorem routes_step (hsafe : SlotsSafe s) (h : v.Accounts) (inp : Input) (hi : v.sess[i]? = some s)
    {p : PeerID} (hmem : (p, j) ∈ (v.serve i s inp).1.dataSessions) :
    ∃ t : Session, (v.step A cfg (.session i inp)).sess[j]? = some t
      ∧ t.assignedIP.isSome = true ∧ t.peerID = p ∧ t.stopOnce.unrouted = false := by
  rcases serve_routes hmem with ⟨hold, hkeep⟩ | ⟨rfl, e, g, he, hpc, hreply, rfl⟩
  · obtain ⟨t, ht, hip, hid, hun⟩ := h.routes p j hold
    by_cases hji : j = i
    · subst hji
      rw [hi, Option.some.injEq] at ht
      subst ht
      refine ⟨_, sess_self inp hi, ?_⟩
      obtain ⟨hip', hid'⟩ := assigned_step (A := A) hsafe.grants hip (v.serve j s inp).2
      rcases unrouted_step hun (v.serve j s inp).2 with hun' | ⟨ht, hr⟩
      · exact ⟨by rw [hip']; exact hip, hid'.trans hid, hun'⟩
      · -- the one step that reads the routes also removes this one
        have hw := (hsafe.named.keyed hip).2
        exact absurd (by rw [hid]) (hkeep (serve_teardown ht) hr hw)
    · rcases sess_other A cfg inp hi hji with hsame | ⟨u, hu, hclose⟩
      · exact ⟨t, hsame.trans ht, hip, hid, hun⟩
      · rw [hu, Option.some.injEq] at ht
        subst ht
        exact ⟨_, hclose, hip, hid, hun⟩
  · refine ⟨_, sess_self inp hi, ?_⟩
    rw [he]
    obtain ⟨hip, hid, ho, hstop⟩ := publishKeys_reply (A := A) hpc hreply e
    refine ⟨by rw [hip]; rfl, hid, ?_⟩
    rw [ho]
    refine eq_false_of_ne_true fun hu => ?_
    rw [unrouted_stopped hsafe.grants.stopClosed hu] at hstop
    cases hstop

/-! ## Whole runs -/

theorem accounts_new (hips : p.usedIPs = []) (hids : p.usedPeerIDs = []) :
    ({ pool := p } : Server).Accounts := by
  refine ⟨?_, ?_, nofun⟩
  · rw [show ({ pool := p } : Server).pool.usedIPs = [] from hips]
    exact .empty _ fun _ => rfl
  · rw [show ({ pool := p } : Server).pool.usedPeerIDs = [] from hids]
    exact .empty _ fun _ => rfl

theorem accounts_accept (h : v.Accounts) (now : Int) : (v.step A cfg (.accept now)).Accounts := by
  refine ⟨h.ips.congr (heldAt_accept now), h.peerIDs.congr (heldAt_accept now), ?_⟩
  intro p j hmem
  obtain ⟨t, ht, hroute⟩ := h.routes p j hmem
  obtain ⟨hlt, _⟩ := List.getElem?_eq_some_iff.mp ht
  exact ⟨t, (List.getElem?_append_left hlt).trans ht, hroute⟩

theorem accounts_session (hsafe : SlotsSafe s) (h : v.Accounts) (inp : Input)
    (hi : v.sess[i]? = some s) : (v.step A cfg (.session i inp)).Accounts := by
  have hpool : (v.step A cfg (.session i inp)).pool = (v.serve i s inp).1.pool := by
    rw [step_session inp hi]
  have hroutes : (v.step A cfg (.session i inp)).dataSessions =
      (v.serve i s inp).1.dataSessions := by
    rw [step_session inp hi]
  obtain ⟨hbase, hips, hids⟩ := ledger_step (hold_step (A := A) hsafe.grants (v.serve i s inp).2)
    (serve_pool v i s inp) (heldAt_eq hi) (heldAt_eq (sess_self inp hi))
    (fun _ => heldAt_step_other inp hi) h.ips h.peerIDs
  refine ⟨?_, ?_, ?_⟩
  · rw [hpool, hbase]; exact hips
  · rw [hpool]; exact hids
  · intro p j hmem
    rw [hroutes] at hmem
    exact routes_step hsafe h inp hi hmem

/-- Each session is one of its own runs, and the accounts are in order. -/
structure ServerSafe (A : Aead) (cfg : Config) (v : Server) : Prop where
  sessions : ∀ i s, v.sess[i]? = some s → SessionRun A cfg i s
  accounts : v.Accounts

/-- Every step keeps the sessions lawful and the accounts in order. -/
theorem serverSafe_step (h : ServerSafe A cfg v) (inp : ServerInput) :
    ServerSafe A cfg (v.step A cfg inp) := by
  refine ⟨sessionRun_serverStep h.sessions inp, ?_⟩
  cases inp with
  | accept now => exact accounts_accept h.accounts now
  | session i inp =>
    cases hi : v.sess[i]? with
    | some s => exact accounts_session (sessionRun_safe (h.sessions i s hi)) h.accounts inp hi
    | none =>
      rw [step_absent inp hi]
      exact h.accounts

theorem newIPPool_unused {ip : IPv4} {ones : Nat} (h : newIPPool ip ones = some p) :
    p.usedIPs = [] ∧ p.usedPeerIDs = [] := by
  unfold newIPPool at h
  dsimp only at h
  split at h
  · cases h
  · cases h
    exact ⟨rfl, rfl⟩

theorem held_iff_outstanding (h : s.holding.Lawful) (g : Grant) :
    s.holding.held = some g ↔ s.Outstanding g := by
  have hmem : ∀ e : Event, e.ofPool = true → (e ∈ s.hist ↔ e ∈ s.holding.log) := by
    intro e he
    rw [poolEvents_life]
    exact ⟨fun hm => List.mem_filter.mpr ⟨hm, he⟩, fun hm => (List.mem_filter.mp hm).1⟩
  unfold Session.Outstanding
  rw [hmem _ rfl, hmem _ rfl]
  cases h with
  | nothing hh hl => rw [hh, hl]; simp
  | granted g' hh hl => rw [hh, hl]; simp [eq_comm]
  | released g' hh hl => rw [hh, hl]; simp

theorem held_of_holds (h : s.life.StopClosed) (hstop : s.stopped = false) :
    s.holding.held = s.holds := by
  have hback : s.stopOnce.gaveBack = false := by
    refine eq_false_of_ne_true fun hb => ?_
    rw [unrouted_stopped h (unrouted_of_gaveBack hb)] at hstop
    cases hstop
  show s.life.held = s.life.holds
  unfold Life.held Life.holds
  rw [show s.life.stopOnce.gaveBack = false from hback]
  cases s.life.hs.inHand <;> rfl

theorem exclusive_of_safe (h : ServerSafe A cfg v) : v.Exclusive := by
  have hheld : ∀ i g, v.heldAt i = some g ↔ ∃ s, v.sess[i]? = some s ∧ s.Outstanding g := by
    intro i g
    unfold Server.heldAt
    rw [Option.bind_eq_some_iff]
    refine exists_congr fun s => and_congr_right fun hs => ?_
    exact held_iff_outstanding (sessionRun_lawful (h.sessions i s hs)) g
  have hout : ∀ {κ : Type} (key : Grant → κ) (k : κ),
      (∃ i g, v.heldAt i = some g ∧ key g = k) ↔ ∃ s ∈ v.sess, ∃ g, s.Outstanding g ∧
        key g = k := by
    intro κ key k
    constructor
    · rintro ⟨i, g, hg, hk⟩
      obtain ⟨s, hs, ho⟩ := (hheld i g).mp hg
      exact ⟨s, List.mem_of_getElem? hs, g, ho, hk⟩
    · rintro ⟨s, hs, g, ho, hk⟩
      obtain ⟨i, hi⟩ := List.getElem?_of_mem hs
      exact ⟨i, g, (hheld i g).mpr ⟨s, hi, ho⟩, hk⟩
  refine ⟨?_, ?_, ?_, ?_, ?_⟩
  · intro i j s t g g' hi hj hij hs ht hg hg'
    have hgi : v.heldAt i = some g := by
      rw [heldAt_eq hi, held_of_holds (sessionRun_safe (h.sessions i s hi)).grants.stopClosed hs,
        hg]
    have hgj : v.heldAt j = some g' := by
      rw [heldAt_eq hj, held_of_holds (sessionRun_safe (h.sessions j t hj)).grants.stopClosed ht,
        hg']
    refine ⟨fun hip => hij ?_, fun hid => hij ?_⟩
    · exact h.accounts.ips.holder_unique i j g g' hgi hgj (by rw [hip])
    · exact h.accounts.peerIDs.holder_unique i j g g' hgi hgj hid
  · intro p i hmem
    obtain ⟨s, hs, hip, hid, _⟩ := h.accounts.routes p i hmem
    exact ⟨s, hs, hip, hid⟩
  · intro s hs
    obtain ⟨i, hi⟩ := List.getElem?_of_mem hs
    rw [← poolEvents_life]
    cases sessionRun_lawful (h.sessions i s hi) with
    | nothing _ hl => exact .inl hl
    | granted g _ hl => exact .inr ⟨g, .inl hl⟩
    | released g _ hl => exact .inr ⟨g, .inr hl⟩
  · exact fun k => (h.accounts.ips.mem_iff k).trans (hout _ k)
  · exact fun k => (h.accounts.peerIDs.mem_iff k).trans (hout _ k)

theorem nothingLeft_of_allDown (h : ServerSafe A cfg v) (hdown : v.AllDown) : v.NothingLeft := by
  have hnone : ∀ s ∈ v.sess, s.holding.held = none := by
    intro s hs
    obtain ⟨ho, hpc⟩ := hdown s hs
    have hin : s.life.hs.inHand = none := by rw [show s.life.hs = .returned from hpc]; rfl
    show s.life.held = none
    rw [held_of_inHand_none hin, show s.life.stopOnce = .done from ho]
    rfl
  have hheld : ∀ i, v.heldAt i = none := by
    intro i
    unfold Server.heldAt
    cases hi : v.sess[i]? with
    | none => rfl
    | some s => exact hnone s (List.mem_of_getElem? hi)
  refine ⟨h.accounts.ips.out_eq_nil hheld, h.accounts.peerIDs.out_eq_nil hheld, ?_, ?_⟩
  · refine List.eq_nil_iff_forall_not_mem.mpr ?_
    rintro ⟨p, i⟩ hmem
    obtain ⟨s, hs, _, _, hun⟩ := h.accounts.routes p i hmem
    rw [(hdown s (List.mem_of_getElem? hs)).1] at hun
    cases hun
  · intro s hs
    obtain ⟨i, hi⟩ := List.getElem?_of_mem hs
    rw [← poolEvents_life]
    cases sessionRun_lawful (h.sessions i s hi) with
    | nothing _ hl => exact .inl hl
    | granted g hh => rw [hnone s hs] at hh; cases hh
    | released g _ hl => exact .inr ⟨g, hl⟩

/--
**No address is held twice, and none is lost.** Whichever way the steps of any number
of sessions interleave: sessions that are not closing have different addresses and
peer-ids, a route leads to the session with that peer-id, and what the pool has out is
what was granted and not given back by the session that got it. Once all sessions are
torn down and all handshakes have ended, nothing is out and nothing is routed.
-/
theorem addresses_exclusive (A : Aead) (cfg : Config) {ip : IPv4} {ones : Nat} {p : IpPool}
    (hp : newIPPool ip ones = some p) (ins : List ServerInput) :
    Machine.Always (Server.step A cfg) Server.Exclusive { pool := p } ins
      ∧ ((Machine.run (Server.step A cfg) { pool := p } ins).AllDown →
        (Machine.run (Server.step A cfg) { pool := p } ins).NothingLeft) := by
  obtain ⟨hips, hids⟩ := newIPPool_unused hp
  have h0 : ServerSafe A cfg { pool := p } := by
    refine ⟨fun i s hi => ?_, accounts_new hips hids⟩
    rw [List.getElem?_nil] at hi; cases hi
  have hsafe :=
    Machine.always_invariant (I := ServerSafe A cfg) (fun v inp h _ => serverSafe_step h inp) h0
    (Machine.along_true _ ins)
  exact ⟨Machine.always_mono (fun v h => exclusive_of_safe h) hsafe,
    nothingLeft_of_allDown (Machine.always_run hsafe)⟩

/-- The second client asks for the address of the first, evicts it, and both sessions end. -/
theorem evicted_address_returned :
    let cfg : Config := { renegSec := 3600, renegMinInterval := 60 }
    let down (i : Nat) : List ServerInput :=
      .session i (.closer 0) :: List.replicate 8 (.session i .teardown)
        ++ [.session i (.closer 0), .session i (.closer 0)]
    let ins := [.accept 0] ++ List.replicate 14 (.session 0 (.handshake {}))
      ++ [.accept 0]
      ++ List.replicate 9 (.session 1 (.handshake { assignIP := .want (some 0x0A080002) }))
      ++ down 0 ++ List.replicate 10 (.session 1 (.handshake {}))
      ++ [.session 1 (.close .serverClose)] ++ down 1
    let v := Machine.run (Server.step zeroTagAead cfg)
      { pool := { base := 0x0A080000, size := 256 } } ins
    (v.sess.map fun s => poolEvents s.hist)
        = List.replicate 2 [.granted ⟨0x0A080002, 0⟩, .released ⟨0x0A080002, 0⟩]
      ∧ v.NothingLeft := by
  intro cfg down ins v
  have hp : newIPPool 0x0A080000 24 = some { base := 0x0A080000, size := 256 } := by decide
  have h : v.AllDown ∧ (v.sess.map fun s => poolEvents s.hist)
      = List.replicate 2 [.granted ⟨0x0A080002, 0⟩, .released ⟨0x0A080002, 0⟩] := by decide +kernel
  exact ⟨h.2, (addresses_exclusive zeroTagAead cfg hp ins).2 h.1⟩

end GoVpn.Proof
