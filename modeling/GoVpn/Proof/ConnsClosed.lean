import GoVpn.Proof.KeySlots

/-!
# No connection outlives its session

A connection a renegotiation brought is closed by whoever holds it last: the
renegotiation until it is through, the slots until the teardown reads them, the
teardown from then on, the poller for a lame duck it swept. At every moment someone
holds it or it is closed; after `stopCh` is closed nothing enters a slot, so what the
teardown reads is all there is.
-/

namespace GoVpn.Ovpn

def Slots.Closed (v : Slots) (c : Nat) : Prop :=
  ∃ k, v.conns[c]? = some k ∧ k.closedBy ≠ []

/-- What the body of `stopOnce` has read and not closed yet. -/
def Once.toClose : Once → List Nat
  | .running _ (.release _ _ cs) | .running _ (.remove cs) | .running _ (.closeConns cs) => cs
  | _ => []

/-- Who sees to it that a connection is closed. -/
inductive Slots.Owned (v : Slots) (c : Nat) : Prop
  | closed (h : v.Closed c)
  | reneg {i : Nat} {n : Reneg} (hi : v.renegs[i]? = some n) (hc : n.conn = c)
      (hf : n.pc ≠ .failed) (hd : n.pc ≠ .completed)
  | slot (h : v.primary.conn = some c ∨ v.lameDuck.conn = some c) (ho : v.stopOnce.unrouted = false)
  | teardown (h : c ∈ v.stopOnce.toClose)
  | sweep (h : v.poll = .closeSwept c)

/-- Every connection of a renegotiation is seen to. -/
def Slots.Accounted (v : Slots) : Prop :=
  ∀ c, 0 < c → c < v.conns.length → v.Owned c

/-- Between the locked section of `sweepLameDuck` and its `Close`. -/
def PollPc.sweeping : PollPc → Bool
  | .closeSwept _ => true
  | _ => false

/-- Past waiting for the body of `stopOnce`. -/
def ClosePc.waited : ClosePc → Bool
  | .closeConn | .returned => true
  | .enter | .wait => false

end GoVpn.Ovpn

namespace GoVpn.Proof

open GoVpn.Data (Aead zeroTagAead)
open GoVpn.Ovpn

variable {v v' : Slots}

variable {c : Nat} {k : CloseCause}

theorem closed_closeConn {d : Nat} (h : v.Closed c) : (v.closeConn d k).Closed c := by
  obtain ⟨x, hx, hne⟩ := h
  unfold Slots.Closed Slots.closeConn
  rw [List.getElem?_modify, hx]
  refine ⟨_, rfl, ?_⟩
  split
  · simp
  · exact hne

theorem closed_closeConn_self (h : c < v.conns.length) : (v.closeConn c k).Closed c := by
  unfold Slots.Closed Slots.closeConn
  rw [List.getElem?_modify, List.getElem?_eq_getElem h]
  exact ⟨_, rfl, by simp⟩

theorem closed_start (h : v.Closed c) : v.start.Closed c := by
  obtain ⟨x, hx, hne⟩ := h
  exact ⟨x, (List.getElem?_append_left (List.getElem?_eq_some_iff.mp hx).1).trans hx, hne⟩

/-- What is closed stays closed. -/
theorem closed_step (h : v.Closed c) (hs : SlotStep v v') : v'.Closed c := by
  cases hs with
  | closeFirst | closeNext | closeSwept | closeOwn | closeExpired =>
    exact closed_closeConn h
  | start => exact closed_start h
  | drop => rw [clearPending_eq]; exact h
  | @swap i n _ _ _ _ _ =>
    cases v.lameDuck.conn with
    | none => exact h
    | some d => exact closed_closeConn (v := v.swap n) h
  | _ => exact h

/-! ## Every step hands on what it lets go of -/

theorem owned_of {w : Slots} (h : v.Owned c) (hclosed : v.Closed c → w.Closed c)
    (hr : w.renegs = v.renegs)
    (hslot : v.primary.conn = some c ∨ v.lameDuck.conn = some c → v.stopOnce.unrouted = false →
      w.Owned c) (hteardown : c ∈ v.stopOnce.toClose → w.Owned c)
    (hsweep : v.poll = .closeSwept c → w.Owned c) : w.Owned c := by
  cases h with
  | closed h => exact .closed (hclosed h)
  | reneg hi hk hf hd => exact .reneg (hr ▸ hi) hk hf hd
  | slot h ho => exact hslot h ho
  | teardown h => exact hteardown h
  | sweep h => exact hsweep h

theorem owned_setReneg {i : Nat} {n m : Reneg} (h : v.Owned c) (hi : v.renegs[i]? = some n)
    (hc : m.conn = n.conn) (hm : n.conn = c → n.pc ≠ .failed → n.pc ≠ .completed →
      v.Closed c ∨ m.pc ≠ .failed ∧ m.pc ≠ .completed) : (v.setReneg i m).Owned c := by
  cases h with
  | closed h => exact .closed h
  | @reneg j k hj hk hf hd =>
    by_cases hji : j = i
    · subst hji
      rw [hi, Option.some.injEq] at hj
      subst hj
      rcases hm hk hf hd with hcl | ⟨hf', hd'⟩
      · exact .closed hcl
      · exact .reneg (getElem?_setReneg_self hi) (hc.trans hk) hf' hd'
    · exact .reneg (by rw [getElem?_setReneg_ne hji]; exact hj) hk hf hd
  | slot h ho => exact .slot h ho
  | teardown h => exact .teardown h
  | sweep h => exact .sweep h

theorem owned_pending {p : Option Nat} (h : v.Owned c) :
    ({ v with pending := p } : Slots).Owned c :=
  owned_of h id rfl (fun h ho => .slot h ho) (fun h => .teardown h) fun h => .sweep h

theorem owned_body {t : Int} {b : Bool} {o : Once} (h : v.Owned c)
    (hun : v.stopOnce.unrouted = false → o.unrouted = false)
    (hcs : c ∈ v.stopOnce.toClose → c ∈ o.toClose) :
    ({ v with clock := t, stopped := b, stopOnce := o } : Slots).Owned c :=
  owned_of h id rfl (fun hsl ho => .slot hsl (hun ho)) (fun h => .teardown (hcs h))
    fun h => .sweep h

theorem owned_swap {i : Nat} {n : Reneg} (hlt : c < v.conns.length) (h : v.Owned c)
    (hi : v.renegs[i]? = some n) (ho : v.stopOnce.unrouted = false) :
    (((v.swap n).closeReplaced v.lameDuck.conn).setReneg i { n with pc := .completed }).Owned
      c := by
  have hclosed : v.Closed c → ((v.swap n).closeReplaced v.lameDuck.conn).Closed c := by
    intro hcl
    cases v.lameDuck.conn with
    | none => exact hcl
    | some d => exact closed_closeConn (v := v.swap n) hcl
  have heq := closeReplaced_conns (v.swap n) v.lameDuck.conn
  cases h with
  | closed h => exact .closed (hclosed h)
  | @reneg j k hj hk hf hd =>
    by_cases hji : j = i
    · subst hji
      rw [hi, Option.some.injEq] at hj
      subst hj
      refine .slot (.inl ?_) ?_
      · rw [heq]; exact congrArg some hk
      · rw [heq]; exact ho
    · refine .reneg (i := j) (n := k) ?_ hk hf hd
      rw [getElem?_setReneg_ne hji, heq]
      exact hj
  | slot h =>
    rcases h with hp | hl
    · refine .slot (.inr ?_) ?_
      · rw [heq]; exact hp
      · rw [heq]; exact ho
    · refine .closed ?_
      rw [hl]
      exact closed_closeConn_self (v := v.swap n) hlt
  | teardown h =>
    refine .teardown ?_
    rw [heq]; exact h
  | sweep h =>
    refine .sweep ?_
    rw [heq]; exact h

theorem owned_closeConn {d : Nat} (h : v.Owned c) : (v.closeConn d k).Owned c :=
  owned_of h closed_closeConn rfl (fun h ho => .slot h ho) (fun h => .teardown h)
    fun h => .sweep h

theorem accounted_new (self : Nat) (now : Int) : (Session.new self now).slots.Accounted := by
  intro c h0 hlt
  exact absurd hlt (Nat.not_lt.mpr h0)

/-- Every step hands on what it lets go of. -/
theorem accounted_step (hn : v.Named) (hstop : v.stopOnce.unrouted = true → v.stopped = true)
    (h : v.Accounted) (hs : SlotStep v v') : v'.Accounted := by
  intro c h0 hlt
  cases hs with
  | same => exact h c h0 hlt
  | elapse => exact owned_body (h c h0 hlt) id id
  | startClose _ ho | stop ho =>
    refine owned_body (h c h0 hlt) (fun _ => rfl) ?_
    rw [ho]; exact nofun
  | closeFirst => exact owned_closeConn (h c h0 (length_closeConn v .. ▸ hlt))
  | snapshot ho =>
    -- what the slots hold, the body has read
    refine owned_of (h c h0 hlt) id rfl ?_ ?_ fun h => .sweep h
    · intro hsl _
      refine .teardown (List.mem_filterMap.mpr ⟨some c, ?_, rfl⟩)
      rcases hsl with hsl | hsl
      · rw [← hsl]; exact List.mem_cons_self
      · rw [← hsl]; exact List.mem_cons_of_mem _ List.mem_cons_self
    · rw [ho]; exact nofun
  | @body o hb =>
    have hc := h c h0 hlt
    generalize hso : v.stopOnce = so at hb
    refine owned_body hc ?_ ?_ <;> rw [hso]
    · intro hun
      cases hb <;> first | rfl | cases hun
    · intro hcs
      cases hb <;> exact hcs
  | @closeNext r d cs ho =>
    have hlt' : c < v.conns.length := length_closeConn v .. ▸ hlt
    refine owned_of (h c h0 hlt') (closed_closeConn (v := { v with stopOnce := _ })) rfl ?_ ?_
      fun h => .sweep h
    · intro _ hun
      rw [ho] at hun; cases hun
    · intro hcs
      rw [ho] at hcs
      rcases List.mem_cons.mp hcs with rfl | hcs
      · exact .closed (closed_closeConn_self (v := { v with stopOnce := _ }) hlt')
      · exact .teardown hcs
  | publishKeys hk =>
    obtain ⟨hp, hl, _, _, hpoll⟩ := hn.unkeyed hk
    refine owned_of (h c h0 hlt) id rfl ?_ (fun h => .teardown h) ?_
    · intro hsl _
      rw [hp, hl] at hsl; rcases hsl with hsl | hsl <;> cases hsl
    · rw [hpoll]; exact nofun
  | poll hq =>
    refine owned_of (h c h0 hlt) id rfl (fun h ho => .slot h ho) (fun h => .teardown h) ?_
    intro hsw
    rw [hsw] at hq; cases hq
  | sweep hp =>
    refine owned_of (h c h0 hlt) id rfl ?_ (fun h => .teardown h) ?_
    · intro hsl hun
      rcases hsl with hsl | hsl
      · exact .slot (.inl hsl) hun
      · refine .sweep ?_
        rw [hsl]
    · rw [hp]; exact nofun
  | @closeSwept d hp =>
    have hlt' : c < v.conns.length := length_closeConn v .. ▸ hlt
    refine owned_of (h c h0 hlt') (closed_closeConn (v := { v with poll := _ })) rfl
      (fun h ho => .slot h ho) (fun h => .teardown h) ?_
    intro hsw
    rw [hp, PollPc.closeSwept.injEq] at hsw
    subst hsw
    exact .closed (closed_closeConn_self (v := { v with poll := _ }) hlt')
  | start _ _ _ hpoll =>
    have hlt' : c < v.conns.length + 1 :=
      Nat.lt_of_lt_of_eq hlt (show v.start.conns.length = _ from List.length_append)
    rcases Nat.lt_or_eq_of_le (Nat.le_of_lt_succ hlt') with hold | rfl
    · cases h c h0 hold with
      | closed hcl => exact .closed (closed_start hcl)
      | reneg hi hk hf hd => exact .reneg (getElem?_start hi) hk hf hd
      | slot hsl hun => exact .slot hsl hun
      | teardown hcs => exact .teardown hcs
      | sweep hsw =>
        rcases hpoll with rfl | ⟨hq, _⟩
        · exact .sweep hsw
        · rw [hsw] at hq; cases hq
    · exact .reneg (List.getElem?_concat_length (l := v.renegs)) rfl nofun nofun
  | @reneg i n m hi hm =>
    refine owned_setReneg (h c h0 hlt) hi (RenegMove.conn hm).1 ?_
    intro _ hf hd
    exact .inr ⟨mt (renegMove_pc hm (.inl rfl)).mp hf, mt (renegMove_pc hm (.inr rfl)).mp hd⟩
  | @drop i n auth hi _ =>
    rw [clearPending_eq] at hlt ⊢
    exact owned_setReneg (owned_pending (h c h0 hlt)) hi rfl fun _ _ _ => .inr ⟨nofun, nofun⟩
  | @closeOwn i n auth hi _ =>
    have hlt' : c < v.conns.length := length_closeConn v .. ▸ hlt
    refine owned_setReneg (owned_closeConn (h c h0 hlt')) hi rfl ?_
    rintro rfl _ _
    exact .inl (closed_closeConn_self hlt')
  | @swap i n _ hi _ hs _ =>
    have hlt' : c < v.conns.length :=
      Nat.lt_of_lt_of_eq hlt (length_closeReplaced (v.swap n) _)
    have ho : v.stopOnce.unrouted = false := by
      cases hun : v.stopOnce.unrouted with
      | false => rfl
      | true => rw [hstop hun] at hs; cases hs
    exact owned_swap hlt' (h c h0 hlt') hi ho
  | @expire i n hi _ _ =>
    exact owned_setReneg (owned_pending (h c h0 hlt)) hi rfl fun _ hf hd => .inr ⟨hf, hd⟩
  | @closeExpired i n hi _ =>
    exact owned_setReneg (owned_closeConn (h c h0 (length_closeConn v .. ▸ hlt))) hi rfl
      fun _ hf hd => .inr ⟨hf, hd⟩

/-! ## A call that has returned waited for the body -/

section Callers

variable {A : Aead} {cfg : Config} {s : Session}

/-- Who is past waiting finds the body done, and who has returned closed the first connection. -/
structure Callers (s : Session) : Prop where
  closers : ∀ x ∈ s.closers, x.2.waited = true → s.stopOnce = .done
  hs : ∀ r pc, s.hs = .close r pc → pc.waited = true → s.stopOnce = .done
  window : ∀ pc, s.window = .close pc → pc.waited = true → s.stopOnce = .done
  returned : .closeReturned ∈ s.hist → s.stopOnce = .done ∧ s.slots.Closed 0

theorem callers_new (self : Nat) (now : Int) : Callers (.new self now) :=
  ⟨nofun, nofun, nofun, nofun⟩

variable {r : CloseReason}

theorem callClose_waited {pc : ClosePc} (h : pc.waited = true → s.stopOnce = .done)
    (hw : (s.callClose r pc).2.waited = true) : (s.callClose r pc).1.stopOnce = .done := by
  unfold Session.callClose at hw ⊢
  cases pc with
  | enter => cases ho : s.stopOnce <;> rw [ho] at hw <;> cases hw
  | wait =>
    cases ho : s.stopOnce with
    | done => exact ho
    | fresh | running => rw [ho] at hw; cases hw
  | closeConn | returned => exact h rfl

theorem callClose_returned {pc : ClosePc} (hfirst : 0 < s.conns.length)
    (hw : pc.waited = true → s.stopOnce = .done)
    (hm : Event.closeReturned ∈ (s.callClose r pc).1.hist) :
    .closeReturned ∈ s.hist
      ∨ (s.callClose r pc).1.stopOnce = .done ∧ (s.callClose r pc).1.slots.Closed 0 := by
  rcases s.callClose_cases r pc with h | ⟨_, h⟩ | ⟨rfl, h⟩
  · rw [h] at hm; exact .inl hm
  · rw [h] at hm; exact .inl hm
  · exact .inr ⟨hw rfl, closed_closeConn_self (v := s.slots) hfirst⟩

theorem closers_handshake (e : Env) : (s.handshake cfg e).closers = s.closers := by
  have hstep := handshake_cases cfg s e
  generalize s.handshake cfg e = s' at hstep
  cases hstep with
  | record => exact (s.aside_record _).closers
  | close => exact (s.aside_callClose _ _).closers
  | move | grant | release | publishKeys | establish | publish | callOnSession =>
    rfl

theorem mem_life_events {e : Event} (he : e.ofLife = true) : e ∈ s.life.events ↔ e ∈ s.hist := by
  show e ∈ s.hist.filter Event.ofLife ↔ _
  rw [List.mem_filter]
  exact ⟨fun h => h.1, fun h => ⟨h, he⟩⟩

/-- Of the other callers, who is past waiting finds the body done. -/
def ClosersWait (s : Session) : Prop := ∀ x ∈ s.closers, x.2.waited = true → s.stopOnce = .done

/-- Every step keeps the other callers waiting for the body. -/
theorem closers_step (A : Aead) (cfg : Config) (h : ClosersWait s) (inp : Input) :
    ClosersWait (s.step A cfg inp) := by
  intro x hx hw
  have keep : (s.step A cfg inp).closers = s.closers → (s.step A cfg inp).stopOnce = .done := by
    intro hsame
    rw [hsame] at hx
    exact done_step A cfg inp (h x hx hw)
  cases hof : inp.ofLife with
  | false =>
    obtain ⟨-, cs, hcs, hclosers⟩ := Session.beside_step A cfg s hof
    rw [hclosers] at hx
    rcases List.mem_append.mp hx with hold | hnew
    · exact done_step A cfg inp (h x hold hw)
    · rw [hcs x hnew] at hw
      cases hw
  | true =>
    cases inp with
    | handshake e => exact keep (closers_handshake e)
    | handshakeWindow x =>
      refine keep ?_
      simp only [Session.step, Session.handshakeWindow]
      split
      · repeat' split
        all_goals rfl
      · exact (s.aside_record .timedOut).closers
      · exact (s.aside_callClose .unknown _).closers
      · rfl
    | teardown => exact keep (s.aside_teardown cfg).1.closers
    | callback =>
      refine keep ?_
      simp only [Session.step, Session.callOnSessionClosed]
      split <;> rfl
    | closer i =>
      simp only [Session.step, Session.closer] at hx ⊢
      cases hi : s.closers[i]? with
      | none =>
        rw [hi] at hx
        exact h x hx hw
      | some y =>
        rw [hi] at hx
        rcases List.mem_or_eq_of_mem_set hx with hold | rfl
        · rw [(s.aside_callClose _ _).closers] at hold
          have := done_step A cfg (.closer i) (h x hold hw)
          simpa only [Session.step, Session.closer, hi] using this
        · exact callClose_waited (h _ (List.mem_of_getElem? hi)) hw
    | _ => cases hof

/-- What is done stays done, and the first connection stays closed. -/
structure Later (s t : Session) : Prop where
  done : s.stopOnce = .done → t.stopOnce = .done
  closed : s.slots.Closed 0 → t.slots.Closed 0
  closers : ClosersWait t

theorem callers_mono {t : Session} (h : Callers s) (hl : Later s t)
    (hhs : ∀ r pc, t.hs = .close r pc →
      s.hs = .close r pc ∨ (pc.waited = true → t.stopOnce = .done))
    (hwin : ∀ pc, t.window = .close pc →
      s.window = .close pc ∨ (pc.waited = true → t.stopOnce = .done))
    (hret : .closeReturned ∈ t.hist →
      .closeReturned ∈ s.hist ∨ t.stopOnce = .done ∧ t.slots.Closed 0) : Callers t := by
  refine ⟨hl.closers, ?_, ?_, ?_⟩
  · intro r pc hpc hw
    rcases hhs r pc hpc with hpc | hx
    · exact hl.done (h.hs r pc hpc hw)
    · exact hx hw
  · intro pc hpc hw
    rcases hwin pc hpc with hpc | hx
    · exact hl.done (h.window pc hpc hw)
    · exact hx hw
  · intro hm
    rcases hret hm with hm | hx
    · exact ⟨hl.done (h.returned hm).1, hl.closed (h.returned hm).2⟩
    · exact hx

theorem returned_record {o : Outcome}
    (h : Event.closeReturned ∈ (s.recordHandshakeOutcome o).hist) : .closeReturned ∈ s.hist := by
  rcases s.record_cases o with ho | ⟨_, ho⟩
  · rw [ho] at h; exact h
  · rw [ho] at h
    simpa [Session.log] using h

/-- The handshake calls `closeWithReason` from its beginning. -/
theorem close_move {pc : HandshakePc} (hm : HandshakeMove cfg s pc) {q : ClosePc}
    (h : pc = .close r q) : q = .enter := by
  cases hm with
  | fresh _ hf => rw [h] at hf; cases hf
  | _ => cases h <;> rfl

theorem callers_handshake {e : Env} (hfirst : 0 < s.conns.length) (h : Callers s)
    (hl : Later s (s.handshake cfg e)) : Callers (s.handshake cfg e) := by
  have hstep := handshake_cases cfg s e
  generalize s.handshake cfg e = t at hstep hl
  cases hstep with
  | move hm =>
    refine callers_mono h hl ?_ (fun _ hpc => .inl hpc) .inl
    intro r pc hpc
    rw [close_move hm hpc]
    exact .inr fun hw => by cases hw
  | @record o p hr =>
    refine callers_mono h hl ?_ ?_ (fun hm => .inl (returned_record hm))
    · intro r pc hpc
      have hp : p = .close r pc := hpc
      generalize s.hs = p0 at hr
      cases hr <;> cases hp
      exact .inr fun hw => by cases hw
    · exact fun pc hpc => .inl ((s.aside_record o).window.symm.trans hpc)
  | grant | release | callOnSession =>
    refine callers_mono h hl ?_ (fun _ hpc => .inl hpc) fun hm => .inl ?_
    · intro r pc hpc
      cases hpc
    · simpa [Session.log] using hm
  | publishKeys | establish | publish =>
    refine callers_mono h hl ?_ (fun _ hpc => .inl hpc) .inl
    intro r pc hpc
    cases hpc
  | @close r pc hpc =>
    have hwait := callClose_waited (s := s) (r := r) (h.hs r pc hpc)
    refine callers_mono h hl ?_ ?_ (callClose_returned hfirst (h.hs r pc hpc))
    · intro r' pc' hpc'
      split at hpc'
      · cases hpc'
      · cases hpc'
        exact .inr hwait
    · exact fun q hq => .inl ((s.aside_callClose r pc).window.symm.trans hq)

theorem callers_window {x : Bool} (hfirst : 0 < s.conns.length) (h : Callers s)
    (hl : Later s (s.handshakeWindow x)) : Callers (s.handshakeWindow x) := by
  unfold Session.handshakeWindow at hl ⊢
  cases hw : s.window with
  | waiting =>
    dsimp only
    split
    · exact callers_mono h ⟨id, id, h.closers⟩ (fun _ _ hp => .inl hp) nofun .inl
    · split
      · exact callers_mono h ⟨id, id, h.closers⟩ (fun _ _ hp => .inl hp) nofun .inl
      · exact h
  | record =>
    rw [hw] at hl
    have ha := s.aside_record .timedOut
    refine callers_mono h hl (fun r pc hpc => .inl (ha.hs.symm.trans hpc)) ?_
      (fun hm => .inl (returned_record hm))
    intro pc hpc
    cases hpc
    exact .inr nofun
  | close pc =>
    rw [hw] at hl
    have hwait := callClose_waited (s := s) (r := .unknown) (h.window pc hw)
    have ha := s.aside_callClose .unknown pc
    refine callers_mono h hl (fun r q hq => .inl (ha.hs.symm.trans hq)) ?_
      (callClose_returned hfirst (h.window pc hw))
    intro q hq
    dsimp only at hq
    split at hq
    · cases hq
    · cases hq
      exact .inr hwait
  | returned => exact h

theorem callers_closer {i : Nat} (hfirst : 0 < s.conns.length) (h : Callers s)
    (hl : Later s (s.closer i)) : Callers (s.closer i) := by
  unfold Session.closer at hl ⊢
  cases hi : s.closers[i]? with
  | none => exact h
  | some x =>
    rw [hi] at hl
    obtain ⟨r, pc⟩ := x
    have ha := s.aside_callClose r pc
    exact callers_mono h hl (fun r' q hq => .inl (ha.hs.symm.trans hq))
      (fun q hq => .inl (ha.window.symm.trans hq))
      (callClose_returned hfirst (h.closers _ (List.mem_of_getElem? hi)))

/-- Every step keeps every caller waiting for the body. -/
theorem callers_step (hg : s.life.Grants) (hn : s.slots.Named) (h : Callers s) (inp : Input) :
    Callers (s.step A cfg inp) := by
  have hl : Later s (s.step A cfg inp) :=
    ⟨done_step A cfg inp, fun hc => closed_step hc (slots_step hg inp),
      closers_step A cfg h.closers inp⟩
  cases hof : inp.ofLife with
  | false =>
    have hlife := Session.life_step A cfg s hof
    have hhs : (s.step A cfg inp).hs = s.hs := congrArg Life.hs hlife
    have hwin : (s.step A cfg inp).window = s.window := congrArg Life.window hlife
    refine callers_mono h hl (fun _ _ hpc => .inl (hhs ▸ hpc)) (fun _ hpc => .inl (hwin ▸ hpc)) ?_
    intro hm
    rw [← mem_life_events rfl, hlife, mem_life_events rfl] at hm
    exact .inl hm
  | true =>
    cases inp with
    | handshake e => exact callers_handshake hn.first h hl
    | handshakeWindow x => exact callers_window hn.first h hl
    | closer i => exact callers_closer hn.first h hl
    | teardown =>
      obtain ⟨ha, hret⟩ := s.aside_teardown cfg
      exact callers_mono h hl (fun _ _ hpc => .inl (ha.hs ▸ hpc))
        (fun _ hpc => .inl (ha.window ▸ hpc)) fun hm => .inl (hret hm)
    | callback =>
      show Callers s.callOnSessionClosed
      unfold Session.callOnSessionClosed
      split
      · refine callers_mono h ⟨id, id, h.closers⟩ (fun _ _ hp => .inl hp) (fun _ hp => .inl hp)
          fun hm => .inl ?_
        simpa [Session.log] using hm
      · exact h
    | _ => cases hof

end Callers

/-! ## Whole runs -/

/-- Every renegotiation is over, and no sweep is between its lock and its `Close`. -/
structure RenegsEnded (s : Session) : Prop where
  renegs : ∀ n ∈ s.renegs, n.pc = .failed ∨ n.pc = .completed
  poll : s.poll.sweeping = false

instance (s : Session) : Decidable (RenegsEnded s) :=
  decidable_of_iff ((∀ n ∈ s.renegs, n.pc = .failed ∨ n.pc = .completed) ∧ s.poll.sweeping = false)
    ⟨fun ⟨h1, h2⟩ => ⟨h1, h2⟩, fun ⟨h1, h2⟩ => ⟨h1, h2⟩⟩

/-- A call of `closeWithReason` has returned. -/
def CloseReturned (s : Session) : Prop := .closeReturned ∈ s.hist

instance (s : Session) : Decidable (CloseReturned s) :=
  inferInstanceAs (Decidable (.closeReturned ∈ s.hist))

/--
**No connection outlives its session.** In every run of a session's goroutines: once
some call of `closeWithReason` has returned and every renegotiation has ended, every
control connection ever made for the session has been closed.
-/
theorem conns_closed (A : Aead) (cfg : Config) (self : Nat) (now : Int) (ins : List Input)
    (hret : CloseReturned (Machine.run (Session.step A cfg) (.new self now) ins))
    (hend : RenegsEnded (Machine.run (Session.step A cfg) (.new self now) ins)) :
    ∀ k ∈ (Machine.run (Session.step A cfg) (.new self now) ins).conns, k.closedBy ≠ [] := by
  let I : Session → Prop := fun s => SlotsSafe s ∧ s.slots.Accounted ∧ Callers s
  have hstep : ∀ s inp, I s → I (s.step A cfg inp) := by
    rintro s inp ⟨h1, h2, h3⟩
    exact ⟨slotsSafe_step h1 inp,
      accounted_step h1.named (unrouted_stopped h1.grants.stopClosed) h2 (slots_step h1.grants inp),
      callers_step h1.grants h1.named h3 inp⟩
  have hinv := Machine.run_invariant' (I := I) hstep
    ⟨slotsSafe_new self now, accounted_new self now, callers_new self now⟩ ins
  generalize Machine.run (Session.step A cfg) (.new self now) ins = s at hret hend hinv
  obtain ⟨_, hacc, hcallers⟩ := hinv
  obtain ⟨hdone, hfirst⟩ := hcallers.returned hret
  have hall : ∀ c, c < s.conns.length → s.slots.Closed c := by
    intro c hlt
    rcases Nat.eq_zero_or_pos c with rfl | h0
    · exact hfirst
    cases hacc c h0 hlt with
    | closed h => exact h
    | reneg hi _ hf hd =>
      rcases hend.renegs _ (List.mem_of_getElem? hi) with hx | hx
      · exact absurd hx hf
      · exact absurd hx hd
    | slot _ ho => rw [show s.slots.stopOnce = .done from hdone] at ho; cases ho
    | teardown h => rw [show s.slots.stopOnce = .done from hdone] at h; cases h
    | sweep h =>
      have hp := hend.poll
      rw [show s.poll = .closeSwept c from h] at hp; cases hp
  intro k hk
  obtain ⟨c, hlt, hc⟩ := List.mem_iff_getElem.mp hk
  obtain ⟨k', hk', hne⟩ := hall c hlt
  rw [show s.slots.conns = s.conns from rfl, List.getElem?_eq_getElem hlt, hc,
    Option.some.injEq] at hk'
  rw [hk']
  exact hne

/-- One renegotiation goes through, a second one fails, and the embedder closes the session. -/
theorem renegotiated_session_closed :
    let cfg : Config := { renegSec := 3600, renegMinInterval := 60 }
    let s := Machine.run (Session.step zeroTagAead cfg) (.new 0 0)
      (List.replicate 14 (Input.handshake { grant := some ⟨10, 0⟩ })
        ++ [Input.softReset 1, .beginRenegotiation 0] ++
          List.replicate 6 (Input.runRenegotiation 0 {})
        ++ [Input.elapse 60, .softReset 2, .beginRenegotiation 0, .runRenegotiation 1 {}]
        ++ List.replicate 3 (Input.runRenegotiation 1 { ok := false })
        ++ [Input.close .embedder, .closer 0] ++ List.replicate 9 Input.teardown
        ++ [Input.closer 0, .closer 0])
    s.conns.length = 3 ∧ ∀ k ∈ s.conns, k.closedBy ≠ [] := by
  intro cfg s
  have h : CloseReturned s ∧ RenegsEnded s ∧ s.conns.length = 3 := by decide +kernel
  exact ⟨h.2.2, conns_closed zeroTagAead cfg 0 0 _ h.1 h.2.1⟩

end GoVpn.Proof
