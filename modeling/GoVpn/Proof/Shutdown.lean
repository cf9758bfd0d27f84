import GoVpn.Proof.SessionTable

/-!
# What `Close` leaves behind

Every session in the table when `Close` takes its snapshot is torn down before `Close` returns, and
every session that is not in the table any more has been. So nothing is left, provided no session
enters the table after the snapshot. But the registering section of `handleDatagram` does not look
at `closed`: a call that authenticated a client's hard reset before the snapshot registers its
session after it, and so does a reset that arrives while the socket is still open.
-/

namespace GoVpn.Ovpn.Inbound

open GoVpn.Control (Bytes Crypto opControlHardResetClientV2)
open GoVpn.Data (Aead)
open GoVpn.Proof

variable {K : Crypto} {A : Aead} {cfg : Config} {key256 : Bytes}

/-! ## The server -/

/-- The sessions a part of `Close` has still to tear down. -/
def Part.left : Part key256 → Option (List Nat)
  | .datagram _ => none
  | .closeSessions rest => some rest
  | .closing id _ rest => some (id :: rest)
  | .cbWait | .closePC => some []

def Part.CanOpen (K : Crypto) : Part key256 → Prop
  | .datagram x => x.CanOpen K
  | _ => False

instance : DecidablePred (Part.CanOpen K : Part key256 → Prop)
  | .datagram x => inferInstanceAs (Decidable (x.CanOpen K))
  | .closeSessions _ | .closing _ _ _ | .cbWait | .closePC => .isFalse not_false

def Part.Fresh : Part key256 → Prop
  | .datagram x => x.Fresh
  | _ => True

/--
The condition: no call that may end in a new session is under way when `Close` takes its
snapshot, and no authentic hard reset is read from then on.
-/
def ClosesAlone (K : Crypto) (r : Serving key256) (l : List (Part key256)) : Occasion → Prop
  | .close _ => ∀ x ∈ l, ¬ x.CanOpen K
  | .datagram _ packet => r.closed = true → r.pcClosed = false → ¬ Opens K key256 packet
  | .pump _ | .session _ _ => True

instance (r : Serving key256) (l : List (Part key256)) : DecidablePred (ClosesAlone K r l)
  | .close _ => inferInstanceAs (Decidable (∀ x ∈ l, ¬ x.CanOpen K))
  | .datagram _ packet =>
    inferInstanceAs (Decidable (r.closed = true → r.pcClosed = false → ¬ Opens K key256 packet))
  | .pump _ | .session _ _ => .isTrue trivial

structure ShutInv (K : Crypto) (r : Serving key256) (l : List (Part key256)) : Prop where
  tabled : r.server.Tabled
  fresh : ∀ x ∈ l, x.Fresh
  left : ∀ x ∈ l, ∀ rest, x.left = some rest → r.closed = true ∧ r.server.Covered rest
  alone : r.closed = true → ∀ x ∈ l, ¬ x.CanOpen K
  returned : r.closeReturned = true → r.closed = true ∧ r.server.Covered []

namespace ShutInv

variable {r r' : Serving key256} {l l' : List (Part key256)} {x : Part key256}
  {sec : Section key256}

theorem perm (h : ShutInv K r l) (hp : l.Perm l') : ShutInv K r l' where
  tabled := h.tabled
  fresh x hx := h.fresh x (hp.mem_iff.mpr hx)
  left x hx := h.left x (hp.mem_iff.mpr hx)
  alone hc x hx := h.alone hc x (hp.mem_iff.mpr hx)
  returned := h.returned

theorem go (h : ShutInv K r l) (more : List (Section key256)) (htabled : r'.server.Tabled)
    (hclosed : r'.closed = r.closed) (hreturned : r'.closeReturned = r.closeReturned)
    (hcovered : r.closed = true → ∀ rest, r.server.Covered rest → r'.server.Covered rest)
    (hmore : ∀ y ∈ more, y.Fresh ∧ (r.closed = true → ¬ y.CanOpen K)) :
    ShutInv K r' (more.map .datagram ++ l) where
  tabled := htabled
  fresh x hx := by
    rcases List.mem_append.mp hx with hx | hx
    · obtain ⟨y, hy, rfl⟩ := List.mem_map.mp hx
      exact (hmore y hy).1
    · exact h.fresh x hx
  left x hx rest hrest := by
    rcases List.mem_append.mp hx with hx | hx
    · obtain ⟨y, hy, rfl⟩ := List.mem_map.mp hx
      cases hrest
    · obtain ⟨hc, hcov⟩ := h.left x hx rest hrest
      exact ⟨hclosed.trans hc, hcovered hc rest hcov⟩
  alone hc x hx := by
    rw [hclosed] at hc
    rcases List.mem_append.mp hx with hx | hx
    · obtain ⟨y, hy, rfl⟩ := List.mem_map.mp hx
      exact (hmore y hy).2 hc
    · exact h.alone hc x hx
  returned hr := by
    obtain ⟨hc, hcov⟩ := h.returned (hreturned.symm.trans hr)
    exact ⟨hclosed.trans hc, hcovered hc [] hcov⟩

theorem tail (h : ShutInv K r (x :: l)) : ShutInv K r l where
  tabled := h.tabled
  fresh y hy := h.fresh y (List.mem_cons_of_mem x hy)
  left y hy := h.left y (List.mem_cons_of_mem x hy)
  alone hc y hy := h.alone hc y (List.mem_cons_of_mem x hy)
  returned := h.returned

theorem quiet (h : ShutInv K r l) (hq : r.server.Quiet r'.server) (hclosed : r'.closed = r.closed)
    (hreturned : r'.closeReturned = r.closeReturned) : ShutInv K r' l :=
  h.go [] (h.tabled.quiet hq) hclosed hreturned (fun _ _ hcov => hcov.quiet hq) fun _ hy =>
    nomatch hy

theorem cons (h : ShutInv K r l) {y : Part key256} {rest : List Nat} (hy : y.left = some rest)
    (hclosed : r.closed = true) (hcov : r.server.Covered rest) : ShutInv K r ([y] ++ l) := by
  have hclose : y.Fresh ∧ ¬ y.CanOpen K := by
    cases y with
    | datagram x => cases hy
    | _ => exact ⟨trivial, not_false⟩
  refine ⟨h.tabled, ?_, ?_, ?_, h.returned⟩
  · intro x hx
    rcases List.mem_cons.mp hx with rfl | hx
    · exact hclose.1
    · exact h.fresh x hx
  · intro x hx rest' hrest
    rcases List.mem_cons.mp hx with rfl | hx
    · rw [hy] at hrest
      cases hrest
      exact ⟨hclosed, hcov⟩
    · exact h.left x hx rest' hrest
  · intro hc x hx
    rcases List.mem_cons.mp hx with rfl | hx
    · exact hclose.2
    · exact h.alone hc x hx

end ShutInv

variable {l : List (Part key256)} {r : Serving key256}

theorem shutInv_handled (A : Aead) (cfg : Config) {sec : Section key256}
    (h : ShutInv K r (.datagram sec :: l)) (c : Choice) :
    let o := r.handled (r.server.exec K A cfg sec c)
    ShutInv K o.1 (o.2 ++ l) ∧ (r.closed = true → r.server.Shrinks o.1.server) := by
  have hquiet : ∀ o : Outcome key256, r.server.Quiet o.server →
      (∀ y ∈ o.next, (y.CanOpen K → sec.CanOpen K) ∧ y.Fresh) →
      ShutInv K (r.handled o).1 ((r.handled o).2 ++ l) ∧
        (r.closed = true → r.server.Shrinks (r.handled o).1.server) := by
    intro o hq hnext
    refine ⟨h.tail.go o.next (h.tabled.quiet hq) rfl rfl (fun _ _ hcov => hcov.quiet hq) fun y hy =>
      ?_, fun _ => hq.shrinks⟩
    exact ⟨(hnext y hy).2, fun hc ho => h.alone hc _ List.mem_cons_self ((hnext y hy).1 ho)⟩
  by_cases hpub : ∃ p cp, sec = .publish p cp
  · obtain ⟨p, cp, rfl⟩ := hpub
    rcases exec_publish K A cfg r.server p cp c with
      hord | ⟨hfree, hin, p', hkey, honce, hcl, hs, hsess⟩
    · refine hquiet _ hord.quiet fun y hy => ⟨fun _ => trivial, ?_⟩
      exact Section.fresh_of_inSession (List.all_eq_true.mp hord.next y hy)
    · obtain ⟨hfresh, hnone⟩ := h.fresh _ List.mem_cons_self
      have hopen : r.closed = true → False := fun hc => h.alone hc _ List.mem_cons_self trivial
      have hending : p'.Ending := by
        refine ⟨?_, fun x hx => ?_⟩
        · unfold Life.StopClosed
          rw [show p'.life.stopOnce = .fresh from honce.trans hfresh]
          trivial
        · rw [hcl, hnone] at hx
          cases hx
      have htabled : (r.server.exec K A cfg (.publish p cp) c).server.Tabled :=
        h.tabled.register (by rw [hkey]; exact hfree) hending (by rw [honce, hfresh]; rfl)
          (by rw [hkey]; exact hs) hsess
      refine ⟨h.tail.go _ htabled rfl rfl (fun hc => (hopen hc).elim) fun y hy => ?_,
        fun hc => (hopen hc).elim⟩
      have hy' := List.all_eq_true.mp hin y hy
      exact ⟨Section.fresh_of_inSession hy', fun _ => Section.not_canOpen hy'⟩
  · obtain ⟨hq, hnext⟩ := exec_before K A cfg r.server (fun p cp hx => hpub ⟨p, cp, hx⟩) c
    exact hquiet _ hq hnext

/-- Every section keeps the invariant, and a closed server only shrinks. -/
theorem shutInv_exec (A : Aead) (cfg : Config) {x : Part key256} (h : ShutInv K r (x :: l))
    (c : Choice) :
    ShutInv K (r.exec K A cfg x c).1 ((r.exec K A cfg x c).2 ++ l)
      ∧ (r.closed = true → (r.exec K A cfg x c).1.closed = true ∧
      r.server.Shrinks (r.exec K A cfg x c).1.server) := by
  have hhere := h.left x List.mem_cons_self
  cases x with
  | datagram sec =>
    obtain ⟨hinv, hshrinks⟩ := shutInv_handled A cfg h c
    exact ⟨hinv, fun hc => ⟨hc, hshrinks hc⟩⟩
  | closeSessions sessions =>
    cases sessions with
    | nil =>
      obtain ⟨hc, hcov⟩ := hhere [] rfl
      exact ⟨h.tail.cons rfl hc hcov, fun hc => ⟨hc, (Server.Quiet.of_sess rfl rfl).shrinks⟩⟩
    | cons id rest =>
      obtain ⟨hc, hcov⟩ := hhere (id :: rest) rfl
      simp only [Serving.exec]
      cases hp : r.server.sess[id]? with
      | none =>
        refine ⟨h.tail.cons rfl hc fun i q hq => ?_,
          fun hc => ⟨hc, (Server.Quiet.of_sess rfl rfl).shrinks⟩⟩
        rcases hcov i q hq with hrem | hmem
        · exact .inl hrem
        · rcases List.mem_cons.mp hmem with rfl | hmem
          · rw [hp] at hq
            cases hq
          · exact .inr hmem
      | some p =>
        have hrem : ¬ Removing p.toSession (.close .serverClose) := fun hrem => nomatch hrem.1
        let p' := p.step A cfg (.close .serverClose)
        let r' : Serving key256 :=
          { r with server := { r.server with sess := r.server.sess.set id p' } }
        have hq : r.server.Quiet r'.server := .of_set rfl hp rfl (.step p hrem)
        have hkept : ShutInv K r' l := h.tail.quiet hq rfl rfl
        exact ⟨hkept.cons rfl hc (hcov.quiet hq), fun hc => ⟨hc, hq.shrinks⟩⟩
  | closing id caller rest =>
    obtain ⟨hc, hcov⟩ := hhere (id :: rest) rfl
    refine ⟨?_, fun hc => ⟨hc, (Server.Quiet.of_sess rfl rfl).shrinks⟩⟩
    simp only [Serving.exec]
    split
    · rename_i hret
      refine h.tail.cons rfl hc fun i q hq => ?_
      rcases hcov i q hq with hrem | hmem
      · exact .inl hrem
      · rcases List.mem_cons.mp hmem with rfl | hmem
        · rw [hq] at hret
          obtain ⟨y, hy, hpc⟩ := Option.map_eq_some_iff.mp hret
          have hdone :=
            (h.tabled.ending i q hq).waited y (List.mem_of_getElem? hy) (by rw [hpc]; rfl)
          exact .inl (by rw [hdone]; rfl)
        · exact .inr hmem
    · exact h.tail.cons rfl hc hcov
  | cbWait =>
    obtain ⟨hc, hcov⟩ := hhere [] rfl
    refine ⟨?_, fun hc => ⟨hc, (Server.Quiet.of_sess rfl rfl).shrinks⟩⟩
    simp only [Serving.exec]
    split <;> exact h.tail.cons rfl hc hcov
  | closePC =>
    obtain ⟨hc, hcov⟩ := hhere [] rfl
    exact ⟨{ h.tail with returned := fun _ => ⟨hc, hcov⟩ },
      fun hc => ⟨hc, (Server.Quiet.of_sess rfl rfl).shrinks⟩⟩

/-- So does every event that closes alone. -/
theorem shutInv_start (A : Aead) (cfg : Config) {e : Occasion} (h : ShutInv K r l)
    (he : ClosesAlone K r l e) :
    ShutInv K (r.start A cfg e).1 ((r.start A cfg e).2 ++ l)
      ∧ (r.closed = true → (r.start A cfg e).1.closed = true ∧
      r.server.Shrinks (r.start A cfg e).1.server) := by
  cases e with
  | datagram addr packet =>
    unfold Serving.start
    dsimp only
    split
    · exact ⟨h, fun hc => ⟨hc, (Server.Quiet.of_sess rfl rfl).shrinks⟩⟩
    · rename_i hpc
      obtain ⟨hsame, hnext⟩ := start_datagram (K := K) r.server addr packet
      have hq : r.server.Quiet (r.server.handleDatagram addr packet).server := by
        rw [hsame]
        exact .of_sess rfl rfl
      refine ⟨h.go _ (h.tabled.quiet hq) rfl rfl (fun _ _ hcov => hcov.quiet hq) fun y hy => ?_,
        fun hc => ⟨hc, hq.shrinks⟩⟩
      exact ⟨(hnext y hy).2, fun hc ho => he hc (by simpa using hpc) ((hnext y hy).1 ho)⟩
  | pump id =>
    have hq : r.server.Quiet (r.server.start (.pump id)).server := by
      unfold Server.start
      dsimp only
      split <;> exact .of_sess rfl rfl
    refine ⟨h.go _ (h.tabled.quiet hq) rfl rfl (fun _ _ hcov => hcov.quiet hq) fun y hy => ?_,
      fun hc => ⟨hc, hq.shrinks⟩⟩
    unfold Server.start at hy
    dsimp only at hy
    split at hy
    · rw [List.mem_singleton.mp hy]
      exact ⟨trivial, fun _ => not_false⟩
    · cases hy
  | session id inp =>
    unfold Serving.start
    dsimp only
    split
    · exact ⟨h, fun hc => ⟨hc, (Server.Quiet.of_sess rfl rfl).shrinks⟩⟩
    · obtain ⟨htabled, hshrinks, hcov⟩ := session_step A cfg h.tabled id inp
      exact ⟨h.go [] htabled rfl rfl (fun _ => hcov) fun _ hy => (nomatch hy),
        fun hc => ⟨hc, hshrinks⟩⟩
  | close order =>
    have hall : r.server.Covered r.server.listed := by
      intro id p hp
      rcases h.tabled.listed id p hp with hl | hr
      · exact .inr (Server.mem_listed.mpr ⟨p.key, hl⟩)
      · exact .inl hr
    have hcov : r.server.Covered
        (if order.isPerm r.server.listed then order else r.server.listed) := by
      split
      · rename_i hperm
        intro id p hp
        exact (hall id p hp).imp_right fun hm => (List.isPerm_iff.mp hperm).mem_iff.mpr hm
      · exact hall
    have hclosed : ShutInv K { r with closed := true } l :=
      ⟨h.tabled, h.fresh, fun x hx rest hrest => ⟨rfl, (h.left x hx rest hrest).2⟩, fun _ => he,
        fun hr => ⟨rfl, (h.returned hr).2⟩⟩
    exact ⟨hclosed.cons rfl rfl hcov, fun _ => ⟨rfl, (Server.Quiet.of_sess rfl rfl).shrinks⟩⟩

/-! ## Whole runs -/

/-- A new server goes through some moves. -/
def afterServing (K : Crypto) (A : Aead) (cfg : Config) (key256 : Bytes)
    (ms : List (Threads.Move Occasion Choice)) : Threads.Sys (Serving key256) (Part key256) :=
  Machine.run (Threads.step (serving K A cfg key256)) { shared := { server := {} } } ms

/-- Along the moves, `Close` finds no call under way that may end in a new session, and none comes
after. -/
def AlwaysClosesAlone (K : Crypto) (A : Aead) (cfg : Config) (key256 : Bytes)
    (ms : List (Threads.Move Occasion Choice)) : Prop :=
  Machine.Along (Threads.step (serving K A cfg key256)) (Threads.Allowed (ClosesAlone K))
    { shared := { server := {} } } ms

theorem shutInv_empty : ShutInv K { server := {} } ([] : List (Part key256)) where
  tabled :=
    { listed := fun _ _ h => nomatch h
      own := fun _ _ h => nomatch h
      gone := fun _ _ h => nomatch h
      ending := fun _ _ h => nomatch h }
  fresh _ h := nomatch h
  left _ h := nomatch h
  alone h := nomatch h
  returned h := nomatch h

/-- So it holds after any run. -/
theorem shutInv_after {ms : List (Threads.Move Occasion Choice)}
    (h : AlwaysClosesAlone K A cfg key256 ms) :
    ShutInv K (afterServing K A cfg key256 ms).shared (afterServing K A cfg key256 ms).pending :=
  Threads.run_keeps (p := serving K A cfg key256) (I := ShutInv K) (fun _ _ _ hp hi => hi.perm hp)
    (fun _ _ _ hi he => (shutInv_start A cfg hi he).1)
      (fun _ _ c _ hi => (shutInv_exec A cfg hi c).1) shutInv_empty h

/--
**`Close` leaves no session behind** when it is not overtaken by a new client: from its
snapshot on no session is entered, and once it has returned every session there ever was
has been stopped and is out of the table.
-/
theorem close_leaves_nothing (K : Crypto) (A : Aead) (cfg : Config) (key256 : Bytes)
    (ms : List (Threads.Move Occasion Choice)) (halone : AlwaysClosesAlone K A cfg key256 ms) :
    (∀ pre post, ms = pre ++ post → (afterServing K A cfg key256 pre).shared.closed = true →
      (afterServing K A cfg key256 pre).shared.server.Shrinks
        (afterServing K A cfg key256 ms).shared.server)
    ∧ ((afterServing K A cfg key256 ms).shared.closeReturned = true →
      ∀ id p, (afterServing K A cfg key256 ms).shared.server.sess[id]? = some p →
        p.stopped = true ∧ id ∉ (afterServing K A cfg key256 ms).shared.server.listed) := by
  constructor
  · rintro pre post rfl hclosed
    obtain ⟨hpre, hpost⟩ := Machine.along_append.mp halone
    have hrun := Threads.run_keeps (p := serving K A cfg key256)
      (I := fun r l => ShutInv K r l ∧ r.closed = true
        ∧ (afterServing K A cfg key256 pre).shared.server.Shrinks r.server)
      (fun _ _ _ hp hi => ⟨hi.1.perm hp, hi.2⟩) (fun r l e hi he => ?_) (fun r x c l hi => ?_)
      ⟨shutInv_after hpre, hclosed, (Server.Quiet.of_sess rfl rfl).shrinks⟩ hpost
    · unfold afterServing
      rw [Machine.run_append]
      exact hrun.2.2
    · obtain ⟨hinv, hc, hsh⟩ := hi
      obtain ⟨hinv', hnext⟩ := shutInv_start A cfg hinv he
      exact ⟨hinv', (hnext hc).1, hsh.trans (hnext hc).2⟩
    · obtain ⟨hinv, hc, hsh⟩ := hi
      obtain ⟨hinv', hnext⟩ := shutInv_exec A cfg hinv c
      exact ⟨hinv', (hnext hc).1, hsh.trans (hnext hc).2⟩
  · intro hret id p hp
    have hinv := shutInv_after halone
    have hgone : p.stopOnce.removed = true := by
      rcases (hinv.returned hret).2 id p hp with hgone | hmem
      · exact hgone
      · cases hmem
    refine ⟨?_, fun hmem => ?_⟩
    · refine unrouted_stopped (hinv.tabled.ending id p hp).stop ?_
      cases honce : p.stopOnce with
      | fresh => rw [honce] at hgone; cases hgone
      | done => rfl
      | running r pc => cases pc <;> rw [honce] at hgone <;> first | rfl | cases hgone
    · obtain ⟨key, hkey⟩ := Server.mem_listed.mp hmem
      obtain ⟨q, hq, hqkey⟩ := hinv.tabled.own key id hkey
      rw [hp] at hq
      cases hq
      exact hinv.tabled.gone id p hp hgone (hqkey ▸ hkey)

/-- A client's first datagram. -/
def clientReset : Bytes :=
  let cp : Control.ControlPacket :=
    { opcode := opControlHardResetClientV2, keyID := 0, sessionID := .zero, acks := []
      remoteSessionID := .zero, packetID := 0, payload := [] }
  match Control.newWrapper staticKey false with
  | none => []
  | some w => (w.wrap toyCrypto 1 cp.header cp.plaintext).2.toOption.getD []

/-- The datagram arrives, and its call runs for `n` sections. -/
def resetHandled (n : Nat) : List (Threads.Move Occasion Choice) :=
  .start (.datagram "192.0.2.1:4000" clientReset) :: List.replicate n (.run 0 quiet)

/-- The body of `stopOnce` runs, and the call of `closeWithReason` that started it returns. -/
def tornDown : List (Threads.Move Occasion Choice) :=
  let steps : List Input := [.closer 0] ++ List.replicate 8 .teardown ++ [.closer 0, .closer 0]
  steps.map fun inp => .start (.session 0 inp)

/-- A new client's session is open when `Close` is called. -/
def clientServed : List (Threads.Move Occasion Choice) :=
  resetHandled 15 ++ [.start (.close []), .run 1 quiet] ++ tornDown ++
    List.replicate 4 (.run 1 quiet)

/-- The one session it had is stopped and out of the table. -/
theorem served_client_gone :
    (afterServing toyCrypto Data.zeroTagAead oneClientConfig staticKey
      clientServed).shared.server.sess.length = 1
      ∧ ∀ id p,
        (afterServing toyCrypto Data.zeroTagAead oneClientConfig staticKey
          clientServed).shared.server.sess[id]?
        = some p → p.stopped = true
          ∧ id ∉
            (afterServing toyCrypto Data.zeroTagAead oneClientConfig staticKey
              clientServed).shared.server.listed := by
  have halone : AlwaysClosesAlone toyCrypto Data.zeroTagAead oneClientConfig staticKey
      clientServed := by
    unfold AlwaysClosesAlone
    decide +kernel
  have hret :
    (afterServing toyCrypto Data.zeroTagAead oneClientConfig staticKey
      clientServed).shared.closeReturned
      = true := by decide +kernel
  refine ⟨by decide +kernel, ?_⟩
  exact (close_leaves_nothing toyCrypto Data.zeroTagAead oneClientConfig staticKey clientServed
    halone).2 hret

/--
A client's reset has been authenticated when `Close` takes its snapshot. Its session is
entered afterwards; `Close` returns, the call ends, and the session is still there.
-/
theorem late_client_left_behind :
    let after := afterServing toyCrypto Data.zeroTagAead oneClientConfig staticKey
    let snapshot := resetHandled 2 ++ [.start (.close [])]
    let ms := snapshot ++ List.replicate 13 (.run 0 quiet) ++ List.replicate 3 (.run 1 quiet)
    (after snapshot).shared.closed = true ∧ (after snapshot).shared.server.listed = []
      ∧ (after ms).shared.closeReturned = true ∧ (after ms).pending.length = 0
      ∧ (after ms).shared.server.listed = [0] ∧ (after ms).shared.server.sess.map (·.stopped) =
        [false] := by
  decide +kernel

end GoVpn.Ovpn.Inbound
