import GoVpn.Proof.Addresses
import GoVpn.Proof.SessionTable

/-!
# Refused addresses

A session whose static address is in use looks for the holder, closes it and tries once more. It
looks in the session table, by the address each session has published; but who holds an address is
written in the pool, and a session that is closing gives its address back before it leaves the
table, and keeps it in its fields. So the search can stop at a session that no longer holds the
address, or end before the holder publishes it, and then the retry is refused although the holder
is published.

It is refused only for a holder that has not published the address as long as no search overlooks
a published one: none stops at a session that has given the address back while another has
published it, and none is past the session that publishes it.
-/

namespace GoVpn.Ovpn

open GoVpn.Data (Aead)

/-- The `j`-th session has published the address and not given it back. -/
def Server.hasPublished (v : Server) (j : Nat) (ip : IPv4) : Bool :=
  v.sess[j]?.any fun t => t.assignedIP == some ip && !t.stopOnce.gaveBack

/-- Between the first `reserve` and the second. -/
def HandshakePc.searching : HandshakePc → Bool
  | .sessionByIP _ | .lookup _ _ | .evict _ _ | .evicting _ _ _ => true
  | _ => false

/-- The search for the holder of `ip` can no longer come upon session `j`. -/
def HandshakePc.overlooks (ip : IPv4) (j : Nat) : HandshakePc → Bool
  | .lookup want cands => want == some ip && !cands.contains j
  | .evict want old | .evicting want old _ => want == some ip && old != j
  | .reserve want true => want == some ip
  | _ => false

/-- The address the session publishes in its next step. -/
def Session.publishing (s : Session) : Option IPv4 :=
  match s.hs with
  | .publishKeys g => if (s.publishKeys g).hs = .pushReply then some g.ip else none
  | _ => none

/-- The address a session looks for and the session it takes for the holder in its next step. -/
def Server.finding (v : Server) (s : Session) : Option (IPv4 × Nat) :=
  match s.hs with
  | .lookup (some ip) (k :: _) =>
    if v.sess[k]?.bind Session.assignedIP = some ip then some (ip, k) else none
  | _ => none

/-- The session whose `runHandshake` takes a step. -/
def ServerInput.handshakes : ServerInput → Option Nat
  | .session i (.handshake _) => some i
  | _ => none

/-- No search comes to overlook a session that has published the address. -/
def Server.SearchSound (v : Server) (inp : ServerInput) : Prop :=
  ∀ i ∈ inp.handshakes, ∀ s ∈ v.sess[i]?,
    (∀ ip ∈ s.publishing, ∀ u ∈ v.sess, u.hs.overlooks ip i = false)
      ∧ ∀ f ∈ v.finding s, ∀ j < v.sess.length, v.hasPublished j f.1 = true → j = f.2

instance (v : Server) (inp : ServerInput) : Decidable (v.SearchSound inp) :=
  -- an address is a bit vector: left alone, Lean would try all of them
  have (i : Nat) (s : Session) :
      Decidable (∀ ip ∈ s.publishing, ∀ u ∈ v.sess, u.hs.overlooks ip i = false) :=
    Option.decidableForallMem _
  inferInstanceAs (Decidable (∀ i ∈ inp.handshakes, ∀ s ∈ v.sess[i]?,
    (∀ ip ∈ s.publishing, ∀ u ∈ v.sess, u.hs.overlooks ip i = false)
      ∧ ∀ f ∈ v.finding s, ∀ j < v.sess.length, v.hasPublished j f.1 = true → j = f.2))

/-- An address is refused on the retry only while another session holds it that has not published
it. -/
def Server.RefusalsGenuine (v : Server) : Prop :=
  ∀ (i : Nat) (s : Session) (want : Option IPv4), v.sess[i]? = some s → s.hs = .reserve want true →
    v.pool.reserve want = .inl .inUse →
    ∃ (j : Nat) (t : Session) (g : Grant), j ≠ i ∧ v.sess[j]? = some t ∧ t.hs.inHand = some g
      ∧ want = some g.ip ∧ t.assignedIP = none

end GoVpn.Ovpn

namespace GoVpn.Proof

open GoVpn.Data (Aead zeroTagAead)
open GoVpn.Ovpn

variable {A : Aead} {cfg : Config} {v : Server} {s : Session}

variable {i j : Nat}

variable {inp : Input} {ip : IPv4}

theorem hasPublished_iff :
    v.hasPublished j ip = true
      ↔ ∃ t, v.sess[j]? = some t ∧ t.assignedIP = some ip ∧ t.stopOnce.gaveBack = false := by
  unfold Server.hasPublished
  cases v.sess[j]? <;> simp

/-! ## One session -/

/-- An address gets into the fields by being published. -/
theorem assignedIP_step (h : (s.step A cfg inp).assignedIP = some ip) :
    s.assignedIP = some ip ∨ (∃ e, inp = .handshake e) ∧ s.publishing = some ip := by
  by_cases hh : ∃ e, inp = .handshake e
  · obtain ⟨e, rfl⟩ := hh
    change (s.handshake cfg e).assignedIP = some ip at h
    have hstep := handshake_cases cfg s e
    generalize ht : s.handshake cfg e = t at h hstep
    cases hstep with
    | @record o _ _ => exact .inl ((undisturbed_record s o).assignedIP.symm.trans h)
    | @close r pc _ => exact .inl ((undisturbed_callClose s r pc).assignedIP.symm.trans h)
    | @publishKeys g w hpc _ =>
      have heq : s.handshake cfg e = s.publishKeys g := by
        unfold Session.handshake
        rw [hpc]
      refine .inr ⟨⟨e, rfl⟩, ?_⟩
      unfold Session.publishing
      rw [hpc]
      dsimp only
      rw [← heq, ht, if_pos rfl]
      exact h
    | move | grant | release | establish | publish | callOnSession => exact .inl h
  by_cases ht : inp = .teardown
  · subst ht
    exact .inl ((s.aside_teardown cfg).1.assignedIP.symm.trans h)
  · obtain ⟨hu, -⟩ := undisturbed_step A cfg s (fun e he => hh ⟨e, he⟩) ht
    exact .inl (hu.assignedIP.symm.trans h)

/-- An address given back is not taken up again. -/
theorem gaveBack_step (h : (s.step A cfg inp).stopOnce.gaveBack = false) :
    s.stopOnce.gaveBack = false := by
  by_cases ht : inp = .teardown
  · subst ht
    change (s.teardown cfg).stopOnce.gaveBack = false at h
    unfold Session.teardown at h
    cases ho : s.stopOnce with
    | fresh => rfl
    | done =>
      rw [ho] at h
      rw [ho] at h
      cases h
    | running r pc =>
      rw [ho] at h
      cases pc with
      | storeReason | closeStopCh | snapshot | release => rfl
      | remove | loadPublished => cases h
      | closeConns cs => cases cs <;> cases h
  · rcases (bodyKept_step A cfg ht).2 with heq | ⟨hfresh, -⟩
    · rwa [heq] at h
    · rw [hfresh]; rfl

theorem removed_of_gaveBack {o : Once} (h : o.gaveBack = false) : o.removed = false := by
  cases o with
  | fresh => rfl
  | done => cases h
  | running r pc => cases pc <;> first | rfl | cases h

/-- Only the handshake moves its program counter. -/
theorem hs_step (h : ∀ e, inp ≠ .handshake e) : (s.step A cfg inp).hs = s.hs := by
  by_cases ht : inp = .teardown
  · subst ht
    exact (s.aside_teardown cfg).1.hs
  · exact (undisturbed_step A cfg s h ht).2

theorem self_step (inp : Input) : (s.step A cfg inp).self = s.self := by
  cases hof : inp.ofLife with
  | false => exact congrArg Life.self (Session.life_step A cfg s hof)
  | true =>
    cases inp with
    | handshake e =>
      show (s.handshake cfg e).self = s.self
      have hstep := handshake_cases cfg s e
      generalize s.handshake cfg e = t at hstep
      cases hstep with
      | @record o _ _ => exact (s.aside_record o).self
      | @close r pc _ => exact (s.aside_callClose r pc).self
      | _ => rfl
    | handshakeWindow | closer | callback =>
      exact waits_rule (P := fun t => t.self = s.self) (fun _ => rfl)
        (fun _ _ _ _ => (s.aside_record _).self)
        (fun r pc _ _ => (s.aside_callClose r pc).self) (fun _ _ => rfl) rfl
    | teardown => exact (s.aside_teardown cfg).1.self
    | _ => cases hof

theorem sessionRun_self (h : SessionRun A cfg i s) : s.self = i := by
  obtain ⟨now, ins, rfl⟩ := h
  exact Machine.run_invariant' (I := fun s : Session => s.self = i)
    (fun s inp hs => (self_step inp).trans hs) rfl ins

theorem sessionRun_ending (h : SessionRun A cfg i s) : s.Ending := by
  obtain ⟨now, ins, rfl⟩ := h
  exact Machine.run_invariant' (I := Session.Ending) (fun s inp hs => Inbound.ending_step hs inp)
    ⟨stopClosed_new i now, nofun⟩ ins

/-! ## Who has published what, and who is in the table -/

theorem serve_handshake (h : ∃ e, (v.serve i s inp).2 = .handshake e) :
    ∃ e, inp = .handshake e := by
  cases inp with
  | handshake e => exact ⟨e, rfl⟩
  | _ => obtain ⟨e, he⟩ := h; cases he

/-- A published address is in the fields until it is given back, and gets there in a step of its
own. -/
theorem hasPublished_step {inp : ServerInput} (h : (v.step A cfg inp).hasPublished j ip = true) :
    v.hasPublished j ip = true
      ∨ ∃ e s, inp = .session j (.handshake e) ∧ v.sess[j]? = some s ∧ s.publishing = some ip := by
  obtain ⟨t, ht, hip, hback⟩ := hasPublished_iff.mp h
  cases sessionMove ht with
  | accepted => cases hip
  | kept hj => exact .inl (hasPublished_iff.mpr ⟨t, hj, hip, hback⟩)
  | @stepped inp s hj =>
    rcases assignedIP_step hip with hold | ⟨he, hpub⟩
    · exact .inl (hasPublished_iff.mpr ⟨s, hj, hold, gaveBack_step hback⟩)
    · obtain ⟨e, rfl⟩ := serve_handshake he
      exact .inr ⟨e, s, rfl, hj, hpub⟩
  | evicted hj =>
    -- being called upon to close publishes nothing
    exact .inl (hasPublished_iff.mpr ⟨_, hj, hip, hback⟩)

theorem serve_sessions (v : Server) (i : Nat) (s : Session) (inp : Input) :
    (v.serve i s inp).1.sessions = v.sessions
      ∨ Inbound.Removing s inp
        ∧ (v.serve i s inp).1.sessions = v.sessions.filter fun j => decide (j ≠ i) := by
  cases inp with
  | handshake e =>
    refine .inl ?_
    show (v.serveHandshake i s e).1.sessions = v.sessions
    unfold Server.serveHandshake
    cases s.hs with
    | allocate | reserve want | evict want old | publishKeys g => dsimp only; split <;> rfl
    | lookup want cs => cases cs <;> rfl
    | _ => rfl
  | teardown =>
    show (v.serveTeardown i s).sessions = v.sessions ∨ _ ∧ (v.serveTeardown i s).sessions = _
    unfold Server.serveTeardown
    split
    · refine .inl ?_
      split <;> rfl
    · exact .inl rfl
    · rename_i r cs ho
      exact .inr ⟨⟨rfl, r, cs, ho⟩, rfl⟩
    · exact .inl rfl
  | _ => exact .inl rfl

/-- A session stays listed until its teardown removes it. -/
theorem sessions_step (hj : j ∈ v.sessions) (inp : ServerInput)
    (h : ∀ s inp', inp = .session j inp' → v.sess[j]? = some s → ¬ Inbound.Removing s inp') :
    j ∈ (v.step A cfg inp).sessions := by
  cases inp with
  | accept now => exact List.mem_append_left _ hj
  | session i inp =>
    cases hi : v.sess[i]? with
    | none => rw [step_absent inp hi]; exact hj
    | some s =>
      rw [step_session inp hi]
      rcases serve_sessions v i s inp with heq | ⟨hrem, heq⟩
      · rw [heq]; exact hj
      · rw [heq]
        refine List.mem_filter.mpr ⟨hj, decide_eq_true ?_⟩
        rintro rfl
        exact h s inp rfl hi hrem

/-- The table lists every session that was not taken out of it. -/
def Listed (v : Server) : Prop :=
  ∀ j t, v.sess[j]? = some t → t.stopOnce.removed = false → j ∈ v.sessions

/-- Sessions that have not been removed stay listed. -/
theorem listed_step (h : Listed v) (inp : ServerInput) : Listed (v.step A cfg inp) := by
  intro j t ht hr
  cases sessionMove ht with
  | accepted hj => exact List.mem_append_right _ (List.mem_singleton.mpr hj)
  | kept hj hother =>
    exact sessions_step (h j t hj hr) _ fun _ _ heq _ => absurd rfl (hother _ _ heq)
  | @stepped inp s hj =>
    have hnot : ¬ Inbound.Removing s (v.serve j s inp).2 := by
      intro hrem
      rw [Inbound.removed_removing hrem] at hr
      cases hr
    refine sessions_step (h j s hj ((Inbound.removed_step hnot).symm.trans hr)) _ ?_
    rintro s' _ heq hs ⟨rfl, hrem⟩
    cases heq
    rw [hj, Option.some.injEq] at hs
    subst hs
    exact hnot ⟨rfl, hrem⟩
  | evicted hj hji =>
    exact sessions_step (h j _ hj hr) _ fun _ _ heq _ _ => by cases heq; exact hji rfl

/-! ## A search overlooks no published holder -/

theorem overlooks_elsewhere (h : s.hs.searching = false) (e : Env) (ip : IPv4) (j : Nat) :
    (s.handshake cfg e).hs.overlooks ip j = false := by
  unfold Session.handshake
  cases hpc : s.hs with
  | sessionByIP | lookup | evict | evicting => rw [hpc] at h; cases h
  | publishKeys g =>
    show (s.publishKeys g).hs.overlooks ip j = false
    unfold Session.publishKeys
    split
    · rfl
    · split <;> rfl
  | reserve want again =>
    dsimp only
    split
    · rfl
    · split <;> rfl
    · rfl
  | pushRead | pushReply =>
    dsimp only
    split
    · dsimp only
      split <;> rfl
    · rfl
  | tls | keyMethod2 | pushStart | assign | allocate | checkClosing | publish | close =>
    dsimp only
    split <;> rfl
  | returned => rw [hpc]; rfl
  | _ => rfl

theorem searching_of_publishing (h : s.publishing = some ip) : s.hs.searching = false := by
  unfold Session.publishing at h
  split at h
  · rename_i g hpc
    rw [hpc]
    rfl
  · cases h

/-- What every state of the server has, as long as the searches are sound. -/
structure Searches (A : Aead) (cfg : Config) (v : Server) : Prop where
  safe : ServerSafe A cfg v
  listed : Listed v
  seen : ∀ u ∈ v.sess, ∀ j ip, v.hasPublished j ip = true → u.hs.overlooks ip j = false

theorem unassigned_of_fresh (h : ServerSafe A cfg v) (hi : v.sess[i]? = some s)
    (hf : s.hs.fresh = true) : s.assignedIP = none :=
  (sessionRun_safe (h.sessions i s hi)).grants.unassigned (unpublished_of_fresh hf)

theorem overlooks_lookup (h : Searches A cfg v) (hi : v.sess[i]? = some s) {want : Option IPv4}
    {cands : List Nat} (hpc : s.hs = .lookup want cands) (e : Env)
    (hc : v.SearchSound (.session i (.handshake e))) (hpub : v.hasPublished j ip = true) :
    (s.handshake cfg (v.serveHandshake i s e).2).hs.overlooks ip j = false := by
  obtain ⟨t, ht, hip, -⟩ := hasPublished_iff.mp hpub
  have hseen := h.seen s (List.mem_of_getElem? hi) j ip hpub
  rw [hpc] at hseen
  by_cases hw : want = some ip
  · subst hw
    cases cands with
    | nil => simp [HandshakePc.overlooks] at hseen
    | cons k js =>
      have hmem : j ∈ k :: js := by
        simp only [HandshakePc.overlooks, beq_self_eq_true, Bool.true_and,
          Bool.not_eq_false'] at hseen
        exact List.contains_iff_mem.mp hseen
      by_cases hhit : v.sess[k]?.bind Session.assignedIP = some ip
      · have hfind : v.finding s = some (ip, k) := by
          unfold Server.finding
          rw [hpc]
          exact if_pos hhit
        obtain rfl := (hc i rfl s hi).2 _ hfind j (List.getElem?_eq_some_iff.mp ht).1 hpub
        -- the session does not come upon itself
        have hself : j ≠ s.self := by
          rintro rfl
          rw [sessionRun_self (h.safe.sessions i s hi), hi, Option.some.injEq] at ht
          subst ht
          rw [unassigned_of_fresh h.safe hi (by rw [hpc]; rfl)] at hip
          cases hip
        simp [Session.handshake, Server.serveHandshake, hpc, hhit, hself, HandshakePc.overlooks]
      · have hjk : j ≠ k := by
          rintro rfl
          exact hhit (by rw [ht]; exact hip)
        have hjs : j ∈ js := List.mem_of_ne_of_mem hjk hmem
        simp [Session.handshake, Server.serveHandshake, hpc, hhit, HandshakePc.overlooks, hjs]
  · have hno : (want == some ip) = false := beq_eq_false_iff_ne.mpr hw
    cases cands with
    | nil => simp [Session.handshake, hpc, HandshakePc.overlooks, hno]
    | cons k js =>
      simp only [Session.handshake, hpc]
      split
      · split <;> simp [HandshakePc.overlooks, hno]
      · simp [HandshakePc.overlooks, hno]

theorem overlooks_search (h : Searches A cfg v) (hi : v.sess[i]? = some s)
    (hs : s.hs.searching = true) (e : Env) (hc : v.SearchSound (.session i (.handshake e)))
    (hpub : v.hasPublished j ip = true) :
    (s.handshake cfg (v.serveHandshake i s e).2).hs.overlooks ip j = false := by
  obtain ⟨t, ht, hip, hback⟩ := hasPublished_iff.mp hpub
  have hseen := h.seen s (List.mem_of_getElem? hi) j ip hpub
  cases hpc : s.hs with
  | sessionByIP want =>
    -- the snapshot of the table has the holder in it
    have hmem := h.listed j t ht (removed_of_gaveBack hback)
    have hcand : j ∈ if e.candidates.isPerm v.sessions then e.candidates else v.sessions := by
      split
      · rename_i hperm
        exact (List.isPerm_iff.mp hperm).mem_iff.mpr hmem
      · exact hmem
    simp only [Session.handshake, Server.serveHandshake, hpc, HandshakePc.overlooks,
      List.contains_iff_mem.mpr hcand, Bool.not_true, Bool.and_false]
  | lookup want cands => exact overlooks_lookup h hi hpc e hc hpub
  | evict want old =>
    rw [hpc] at hseen
    simp only [Session.handshake, hpc]
    exact hseen
  | evicting want old caller =>
    rw [hpc] at hseen
    simp only [Session.handshake, hpc]
    split
    · rename_i hret
      simp only [Server.serveHandshake, hpc, beq_iff_eq] at hret
      refine beq_eq_false_iff_ne.mpr ?_
      rintro rfl
      obtain rfl : old = j := by simpa [HandshakePc.overlooks] using hseen
      rw [ht, Option.bind_some] at hret
      obtain ⟨x, hx, hx2⟩ := Option.map_eq_some_iff.mp hret
      have hdone :=
        (sessionRun_ending (h.safe.sessions old t ht)).waited x (List.mem_of_getElem? hx)
        (by rw [hx2]; rfl)
      rw [hdone] at hback
      cases hback
    · rw [hpc]; exact hseen
  | _ => rw [hpc] at hs; cases hs

/-- **Every step** of sound searches keeps the published holders in sight. -/
theorem searches_step (h : Searches A cfg v) (inp : ServerInput) (hc : v.SearchSound inp) :
    Searches A cfg (v.step A cfg inp) := by
  refine ⟨serverSafe_step h.safe inp, listed_step h.listed inp, ?_⟩
  intro u' hu' j ip hpub'
  -- a search that stands still overlooks nobody new
  have keep : ∀ u ∈ v.sess, u.hs.overlooks ip j = false := by
    intro u hu
    rcases hasPublished_step hpub' with hpub | ⟨e, s, rfl, hj, hs⟩
    · exact h.seen u hu j ip hpub
    · exact (hc j rfl s hj).1 ip hs u hu
  obtain ⟨i, hi'⟩ := List.mem_iff_getElem?.mp hu'
  cases sessionMove hi' with
  | accepted => rfl
  | kept hi => exact keep u' (List.mem_of_getElem? hi)
  | @evicted _ _ u hi _ => exact keep u (List.mem_of_getElem? hi)
  | @stepped inp s hi =>
    by_cases hh : ∃ e, inp = .handshake e
    · obtain ⟨e, rfl⟩ := hh
      cases hs : s.hs.searching with
      | false => exact overlooks_elsewhere hs _ ip j
      | true =>
        rcases hasPublished_step hpub' with hpub | ⟨e', s', heq, hj, hpubl⟩
        · exact overlooks_search h hi hs e hc hpub
        · cases heq
          rw [hi, Option.some.injEq] at hj
          subst hj
          rw [searching_of_publishing hpubl] at hs
          cases hs
    · have hsame : (s.step A cfg (v.serve i s inp).2).hs = s.hs :=
        hs_step fun e he => hh (serve_handshake ⟨e, he⟩)
      rw [hsame]
      exact keep s (List.mem_of_getElem? hi)

/-! ## Refusals -/

theorem reserve_inUse {p : IpPool} {want : Option IPv4} (h : p.reserve want = .inl .inUse) :
    ∃ ip, want = some ip ∧ ip - p.base ∈ p.usedIPs := by
  have hcase := reserve_cases p want
  rw [h] at hcase
  cases hcase with
  | refused hne => exact absurd rfl hne
  | @inUse ip hused => exact ⟨ip, rfl, hused⟩

/-- Who holds an address has it in hand, or has published it. -/
theorem holder_cases {g : Grant} (h : v.heldAt j = some g) :
    ∃ t, v.sess[j]? = some t ∧ (t.hs.inHand = some g ∨ v.hasPublished j g.ip = true) := by
  obtain ⟨t, ht, hheld⟩ := Option.bind_eq_some_iff.mp h
  refine ⟨t, ht, ?_⟩
  change t.life.held = some g at hheld
  cases hin : t.life.hs.inHand with
  | some g' =>
    rw [held_of_inHand hin] at hheld
    exact .inl (hin.trans hheld)
  | none =>
    refine .inr (hasPublished_iff.mpr ⟨t, ht, ?_⟩)
    unfold Life.held Life.holds at hheld
    rw [hin] at hheld
    dsimp only at hheld
    split at hheld
    · cases hheld
    · rename_i hback
      obtain ⟨ip, hip, rfl⟩ := Option.map_eq_some_iff.mp hheld
      exact ⟨hip, eq_false_of_ne_true hback⟩

theorem refusalsGenuine_of_searches (h : Searches A cfg v) : v.RefusalsGenuine := by
  intro i s want hi hpc hrefused
  obtain ⟨ip, rfl, hused⟩ := reserve_inUse hrefused
  obtain ⟨j, g, hheld, hoff⟩ := (h.safe.accounts.ips.mem_iff _).mp hused
  obtain rfl : g.ip = ip := by
    have := congrArg (· + v.pool.base) hoff
    simpa using this
  obtain ⟨t, ht, hin | hpub⟩ := holder_cases hheld
  · refine ⟨j, t, g, ?_, ht, hin, rfl, ?_⟩
    · rintro rfl
      rw [hi, Option.some.injEq] at ht
      subst ht
      rw [hpc] at hin
      cases hin
    · refine (sessionRun_safe (h.safe.sessions j t ht)).grants.unassigned ?_
      show t.hs.unpublished = true
      unfold HandshakePc.unpublished
      rw [hin]
      simp
  · have hseen := h.seen s (List.mem_of_getElem? hi) j g.ip hpub
    rw [hpc] at hseen
    simp [HandshakePc.overlooks] at hseen

/--
**A static address is refused only on a genuine conflict**, as long as no search comes
to overlook a session that has published the address: in every interleaving of any
number of sessions, whenever the retry of `assignTunnelIP` is refused because the address
is in use, another session holds it and has not published it.
-/
theorem refused_only_unpublished (A : Aead) (cfg : Config) {ip : IPv4} {ones : Nat} {p : IpPool}
    (hp : newIPPool ip ones = some p) (ins : List ServerInput)
    (h : Machine.Along (Server.step A cfg) Server.SearchSound { pool := p } ins) :
    Machine.Always (Server.step A cfg) Server.RefusalsGenuine { pool := p } ins := by
  obtain ⟨hips, hids⟩ := newIPPool_unused hp
  have h0 : Searches A cfg { pool := p } := by
    refine ⟨⟨fun i s hi => ?_, accounts_new hips hids⟩, fun j t ht => ?_,
      fun u hu => absurd hu List.not_mem_nil⟩
    · rw [List.getElem?_nil] at hi; cases hi
    · rw [List.getElem?_nil] at ht; cases ht
  have hs :=
    Machine.always_invariant (I := Searches A cfg) (fun v inp hv hc => searches_step hv inp hc) h0 h
  exact Machine.always_mono (fun v hv => refusalsGenuine_of_searches hv) hs

def conflictConfig : Config := { renegSec := 3600, renegMinInterval := 60 }

/-- `n` steps of the handshake of session `i`, whose `AssignIP` hook returns 10.8.0.2. -/
def wantsStatic (i n : Nat) : List ServerInput :=
  List.replicate n (.session i (.handshake { assignIP := .want (some 0x0A080002) }))

/-- The second session asks while the first has the address in hand. -/
def askedTooEarly : List ServerInput :=
  [.accept 0, .accept 0] ++ wantsStatic 0 6 ++ wantsStatic 1 10

/-- It is refused, and that is a genuine conflict. -/
theorem early_request_refused :
    Machine.Always (Server.step zeroTagAead conflictConfig) Server.RefusalsGenuine
        { pool := { base := 0x0A080000, size := 256 } } askedTooEarly
      ∧ ∃ s ∈ (Machine.run (Server.step zeroTagAead conflictConfig)
          { pool := { base := 0x0A080000, size := 256 } } askedTooEarly).sess[1]?,
        s.hs = .reserve (some 0x0A080002) true
          ∧ (Machine.run (Server.step zeroTagAead conflictConfig)
            { pool := { base := 0x0A080000, size := 256 } } askedTooEarly).pool.reserve
              (some 0x0A080002)
              = .inl .inUse := by
  have hp : newIPPool 0x0A080000 24 = some { base := 0x0A080000, size := 256 } := by decide
  exact ⟨refused_only_unpublished zeroTagAead conflictConfig hp askedTooEarly (by decide +kernel),
    by decide +kernel⟩

/--
The first session is closing and has given the address back; the second gets and
publishes it; the third finds the first, which is still in the table, and waits for it.
-/
def staleHolderFound : Server :=
  Machine.run (Server.step zeroTagAead conflictConfig)
    { pool := { base := 0x0A080000, size := 256 } }
    ([.accept 0, .accept 0, .accept 0] ++ wantsStatic 0 7
      ++ [.session 0 (.close .embedder), .session 0 (.closer 0)]
      ++ List.replicate 4 (.session 0 .teardown) ++ wantsStatic 1 7 ++ wantsStatic 2 9
      ++ List.replicate 4 (.session 0 .teardown) ++ List.replicate 3 (.session 0 (.closer 1))
      ++ wantsStatic 2 1)

/-- The third is refused although the second has published the address. -/
theorem published_holder_overlooked :
    ¬ staleHolderFound.RefusalsGenuine
      ∧ staleHolderFound.hasPublished 1 0x0A080002 = true
      ∧ (∃ s ∈ staleHolderFound.sess[2]?, s.hs = .reserve (some 0x0A080002) true)
      ∧ staleHolderFound.pool.reserve (some 0x0A080002) = .inl .inUse := by
  have hrefused : staleHolderFound.pool.reserve (some 0x0A080002) = .inl .inUse := by decide +kernel
  have hretry : ∃ s ∈ staleHolderFound.sess[2]?, s.hs = .reserve (some 0x0A080002) true := by
    decide +kernel
  refine ⟨fun h => ?_, by decide +kernel, hretry, hrefused⟩
  obtain ⟨s, hs, hpc⟩ := hretry
  obtain ⟨j, t, g, -, ht, hin, -⟩ := h 2 s _ hs hpc hrefused
  have hnone : ∀ t ∈ staleHolderFound.sess, t.hs.inHand = none := by decide +kernel
  rw [hnone t (List.mem_of_getElem? ht)] at hin
  cases hin

end GoVpn.Proof
