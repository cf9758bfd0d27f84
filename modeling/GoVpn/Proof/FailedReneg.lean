import GoVpn.Proof.ConnsClosed

/-!
# A failed renegotiation leaves no trace

A renegotiation has many ways to fail, and a window that may fire at any of them. It
touches the keys in one place only, the swap, and whoever gets that far does not
fail. So leaving a failed renegotiation's steps out of a run changes nothing the data
path can see.
-/

namespace GoVpn.Ovpn

open GoVpn.Data (Aead Wrapper)

/-- The steps of the `i`-th renegotiation and its window. -/
def Input.ofReneg (i : Nat) : Input → Bool
  | .runRenegotiation j _ | .renegotiationWindow j _ => j == i
  | _ => false

/-- Data traffic, and time passing. -/
def Input.traffic : Input → Bool
  | .packet _ | .data _ _ | .write _ | .sealWrite _ | .elapse _ => true
  | _ => false

/-- The steps that may call `startRenegotiation`. -/
def Input.starts : Input → Bool
  | .beginRenegotiation _ | .runReneg _ => true
  | _ => false

/-- What data traffic reads and writes, and what a renegotiation is to change. -/
structure Bystander where
  clock : Int
  stopped : Bool
  cipher : Option Cipher
  assignedIP : Option IPv4
  peerID : PeerID
  primary : KeySlot
  lameDuck : KeySlot
  renegotiations : BitVec 32
  gens : List Wrapper
  calls : List DataCall
  writes : List (Nat × Control.Bytes)
  hist : List Event

def Session.bystander (s : Session) : Bystander where
  clock := s.clock
  stopped := s.stopped
  cipher := s.cipher
  assignedIP := s.assignedIP
  peerID := s.peerID
  primary := s.primary
  lameDuck := s.lameDuck
  renegotiations := s.renegotiations
  gens := s.gens
  calls := s.calls
  writes := s.writes
  hist := s.hist

end GoVpn.Ovpn

namespace GoVpn.Proof

open GoVpn.Data (Aead zeroTagAead)
open GoVpn.Ovpn

variable {A : Aead} {cfg : Config} {s t : Session}

/-! ## What data traffic depends on -/

section

variable (h : s.bystander = t.bystander)

include h

theorem bystander_setCall (i : Nat) (c : DataCall) :
    (s.setCall i c).bystander = (t.setCall i c).bystander :=
  congrArg (fun b : Bystander => { b with calls := b.calls.set i c }) h

theorem bystander_log (e : Event) : (s.log e).bystander = (t.log e).bystander :=
  congrArg (fun b : Bystander => { b with hist := b.hist ++ [e] }) h

theorem bystander_setGen (g : Nat) (w : Data.Wrapper) :
    ({ s with gens := s.gens.set g w } : Session).bystander
      = ({ t with gens := t.gens.set g w } : Session).bystander :=
  congrArg (fun b : Bystander => { b with gens := b.gens.set g w }) h

theorem bystander_eraseWrite (i : Nat) :
    ({ s with writes := s.writes.eraseIdx i } : Session).bystander
      = ({ t with writes := t.writes.eraseIdx i } : Session).bystander :=
  congrArg (fun b : Bystander => { b with writes := b.writes.eraseIdx i }) h

theorem bystander_openUnder (g : Nat) (packet : Control.Bytes) :
    (s.openUnder A g packet).1.bystander = (t.openUnder A g packet).1.bystander
      ∧ (s.openUnder A g packet).2 = (t.openUnder A g packet).2 := by
  have hg : s.gens[g]? = t.gens[g]? := congrArg (fun b : Bystander => b.gens[g]?) h
  unfold Session.openUnder
  rw [hg]
  cases t.gens[g]? with
  | none => exact ⟨h, rfl⟩
  | some w => exact ⟨bystander_setGen h g _, rfl⟩

theorem bystander_dataStep (i : Nat) (e : Env) :
    (s.dataStep A i e).bystander = (t.dataStep A i e).bystander := by
  have hcalls : s.calls[i]? = t.calls[i]? := congrArg (fun b : Bystander => b.calls[i]?) h
  have hclock : s.clock = t.clock := congrArg Bystander.clock h
  unfold Session.dataStep
  rw [hcalls, hclock]
  cases t.calls[i]? with
  | none => exact h
  | some c =>
    have call := fun (pc : DataPc) => bystander_setCall h i { c with pc := pc }
    dsimp only
    cases c.pc with
    | openPrimary =>
      cases c.primary.wrapper with
      | none => exact call _
      | some g =>
        obtain ⟨hs, hres⟩ := bystander_openUnder (A := A) h g c.packet
        dsimp only
        rw [hres]
        split <;> exact bystander_setCall hs i _
    | tryLameDuck =>
      dsimp only
      split <;> exact call _
    | openLameDuck =>
      cases c.lameDuck.wrapper with
      | none => exact call _
      | some g =>
        obtain ⟨hs, hres⟩ := bystander_openUnder (A := A) h g c.packet
        dsimp only
        rw [hres]
        split <;> exact bystander_setCall hs i _
    | deliver g p =>
      dsimp only
      split
      · exact call .ended
      · split
        · exact bystander_log (call .ended) _
        · exact call .ended
    | ended => exact h

theorem bystander_sealWrite (i : Nat) :
    (s.sealWrite A i).bystander = (t.sealWrite A i).bystander := by
  have hwrites : s.writes[i]? = t.writes[i]? := congrArg (fun b : Bystander => b.writes[i]?) h
  unfold Session.sealWrite
  rw [hwrites]
  cases t.writes[i]? with
  | none => exact h
  | some x =>
    obtain ⟨g, p⟩ := x
    have hg : s.gens[g]? = t.gens[g]? := congrArg (fun b : Bystander => b.gens[g]?) h
    dsimp only
    rw [hg]
    cases t.gens[g]? with
    | none => exact bystander_eraseWrite h i
    | some w => exact bystander_setGen (bystander_eraseWrite h i) g _

end

variable {i : Nat} {inp : Input} {v v' : Slots}

theorem bystander_traffic (ht : inp.traffic = true) (h : s.bystander = t.bystander) :
    (s.step A cfg inp).bystander = (t.step A cfg inp).bystander := by
  cases inp with
  | packet p =>
    exact congrArg (fun b : Bystander => { b with
      calls := b.calls ++ [({ packet := p, primary := b.primary, lameDuck := b.lameDuck,
                              readAt := b.clock } : DataCall)] }) h
  | data i e => exact bystander_dataStep h i e
  | write p =>
    have hw : s.primary.wrapper = t.primary.wrapper :=
      congrArg (fun b : Bystander => b.primary.wrapper) h
    show (s.write p).bystander = (t.write p).bystander
    unfold Session.write
    rw [hw]
    cases t.primary.wrapper with
    | none => exact h
    | some g => exact congrArg (fun b : Bystander => { b with writes := b.writes ++ [(g, p)] }) h
  | sealWrite i => exact bystander_sealWrite h i
  | elapse ns =>
    exact congrArg (fun b : Bystander => { b with clock := b.clock + ns }) h
  | _ => cases ht

/-! ## What a renegotiation changes -/

/-- The `i`-th renegotiation went through. -/
def Completed (i : Nat) (v : Slots) : Prop :=
  ∃ n : Reneg, v.renegs[i]? = some n ∧ n.pc = .completed

theorem bystander_clearPending (s : Session) (c : Nat) :
    (s.clearPending c).bystander = s.bystander := by
  obtain ⟨_, _, h⟩ := s.clearPending_frame c
  rw [h]; rfl

theorem bystander_commit {n : Reneg} (keys : Control.Bytes) (hi : s.renegs[i]? = some n) :
    (s.commitRenegotiation i n keys).bystander = s.bystander
      ∨ Completed i (s.commitRenegotiation i n keys).slots := by
  unfold Session.commitRenegotiation
  split
  · exact .inl rfl
  rename_i hr
  rw [not_or, Classical.not_not] at hr
  split
  · exact .inl (bystander_clearPending s n.conn)
  · rename_i w _
    have hslots := slots_swapKeys keys w hr.2
    rw [closeReplaced_conns] at hslots
    have hrenegs : (s.swapKeys n keys w).slots.renegs = s.renegs := by rw [hslots]; rfl
    refine .inr ⟨{ n with pc := .completed }, ?_, rfl⟩
    exact getElem?_setReneg_self (v := (s.swapKeys n keys w).slots) (hrenegs ▸ hi)

theorem bystander_ofReneg (A : Aead) (cfg : Config) (s : Session) (h : inp.ofReneg i = true) :
    (s.step A cfg inp).bystander = s.bystander ∨ Completed i (s.step A cfg inp).slots := by
  cases inp with
  | runRenegotiation j e =>
    have hji : j = i := by simpa [Input.ofReneg] using h
    subst hji
    show (s.runRenegotiation j e).bystander = _ ∨ Completed j (s.runRenegotiation j e).slots
    unfold Session.runRenegotiation
    split
    · exact .inl rfl
    rename_i n hi
    cases n.pc with
    | begin | tls | readKeyMethod2 | deriveKeys | verifyUserPass | failed | completed =>
      exact .inl rfl
    | commit keys => exact bystander_commit keys hi
    | abandon auth => exact .inl (bystander_clearPending s n.conn)
    | closeConn auth => cases auth <;> exact .inl rfl
  | renegotiationWindow j x =>
    obtain ⟨_, _, _, _, h⟩ := s.renegotiationWindow_frame j x
    exact .inl ((congrArg Session.bystander h).trans rfl)
  | _ => cases h

/-- What a step does to the renegotiations. -/
inductive RenegsStep (v v' : Slots) : Prop
  | same (h : v'.renegs = v.renegs)
  | start {n : Reneg} (h : v'.renegs = v.renegs ++ [n]) (hc : n.conn = v.conns.length)
      (hf : n.pc ≠ .failed)
  /-- One that fails has closed its connection. -/
  | set {i : Nat} {n m : Reneg} (hi : v.renegs[i]? = some n) (h : v'.renegs = v.renegs.set i m)
      (hc : m.conn = n.conn) (hdone : n.pc = .completed → m.pc = .completed)
      (hf : m.pc = .failed → n.pc = .failed ∨ (n.conn < v.conns.length → v'.Closed n.conn))

/-- **The inversion of a step** for the list of renegotiations. -/
theorem renegs_step (hs : SlotStep v v') : RenegsStep v v' := by
  cases hs with
  | start => exact .start rfl rfl nofun
  | reneg hj hm =>
    exact .set hj rfl (RenegMove.conn hm).1 (renegMove_pc hm (.inr rfl)).mpr fun hf =>
      .inl ((renegMove_pc hm (.inl rfl)).mp hf)
  | drop hj hl =>
    rw [clearPending_eq]
    refine .set hj rfl rfl (fun hk => ?_) nofun
    rw [hk] at hl; cases hl
  | closeOwn hj hp =>
    refine .set hj rfl rfl (fun hk => ?_) fun _ => .inr fun hlt => closed_closeConn_self hlt
    cases hp.symm.trans hk
  | swap hj =>
    rw [closeReplaced_conns]
    exact .set hj rfl rfl (fun _ => rfl) nofun
  | expire hj | closeExpired hj => exact .set hj rfl rfl id .inl
  | _ => exact .same rfl

/-- What has gone through stays so. -/
theorem completed_step (h : Completed i v) (hs : SlotStep v v') : Completed i v' := by
  obtain ⟨n, hi, hpc⟩ := h
  have hlt := (List.getElem?_eq_some_iff.mp hi).1
  cases renegs_step hs with
  | same hr => exact ⟨n, hr ▸ hi, hpc⟩
  | start hr => exact ⟨n, by rw [hr, List.getElem?_append_left hlt]; exact hi, hpc⟩
  | @set j k m hj hr _ hdone =>
    by_cases hji : j = i
    · subst hji
      cases hi.symm.trans hj
      exact ⟨m, by rw [hr, List.getElem?_set_self hlt], hdone hpc⟩
    · exact ⟨n, by rw [hr, List.getElem?_set_ne hji]; exact hi, hpc⟩

/-- Who failed has closed its connection. -/
def FailedClosed (v : Slots) : Prop :=
  ∀ (i : Nat) (n : Reneg), v.renegs[i]? = some n → n.pc = .failed → v.Closed n.conn

/-- A renegotiation that fails has closed its connection. -/
theorem failedClosed_step (hn : v.Named) (h : FailedClosed v) (hs : SlotStep v v') :
    FailedClosed v' := by
  intro i n hi hpc
  have old : v.renegs[i]? = some n → v'.Closed n.conn := fun hi => closed_step (h i n hi hpc) hs
  cases renegs_step hs with
  | same hr => exact old (hr ▸ hi)
  | start hr _ hf =>
    rw [hr] at hi
    rcases Tally.getElem?_concat_cases hi with ⟨-, rfl⟩ | hi
    · exact absurd hpc hf
    · exact old hi
  | @set j k m hj hr hc _ hf =>
    rw [hr] at hi
    rcases Tally.getElem?_set_cases hi with ⟨-, rfl⟩ | ⟨-, hi⟩
    · rw [hc]
      rcases hf hpc with hk | hk
      · exact closed_step (h j k hj hk) hs
      · exact hk (hn.bounds _ (reneg_conn_mem hj)).2
    · exact old hi

/-! ## How it starts -/

theorem rateLimited_eq (cfg : Config) {x : Int} (h : s.lastRenegAccepted = some x) :
    s.rateLimited cfg = decide (s.clock - x < cfg.renegMinInterval) := by
  unfold Session.rateLimited
  rw [h]

theorem startRenegotiation_accepts (cfg : Config) (hstop : s.stopped = false)
    (hc : s.primary.conn.isSome = true) (he : s.primary.established.isSome = true)
    (hp : s.pendingReneg = none) (hr : s.rateLimited cfg = false) :
    (s.startRenegotiation cfg none).pendingReneg = some s.conns.length := by
  have hold : ¬ (s.primary.conn.isNone = true ∨ s.primary.established.isNone = true) := by
    rintro (h | h)
    · rw [Option.isNone_iff_eq_none.mp h] at hc; cases hc
    · rw [Option.isNone_iff_eq_none.mp h] at he; cases he
  unfold Session.startRenegotiation
  rw [if_neg (by rw [hstop]; simp), if_neg hold, if_neg (by rw [hp]; simp),
    if_neg (by rw [hr]; simp)]
  rw [if_neg (by simp)]

/-- What an accepted start does. -/
structure Started (s t : Session) : Prop where
  stopped : s.stopped = false
  conn : s.primary.conn.isSome = true
  established : s.primary.established.isSome = true
  bystander : t.bystander = s.bystander
  pending : t.pendingReneg = some s.conns.length
  accepted : t.lastRenegAccepted = some s.clock
  conns : t.slots.renegConns = s.slots.renegConns ++ [s.conns.length]

theorem started_of_length {u : Session} {want : Option KeyID} (hb : u.bystander = s.bystander)
    (hr : u.renegs = s.renegs) (hc : u.conns = s.conns)
    (hlen : (u.startRenegotiation cfg want).renegs.length = s.renegs.length + 1) :
    Started s (u.startRenegotiation cfg want) := by
  have hprim : u.primary = s.primary := congrArg Bystander.primary hb
  have hclock : u.clock = s.clock := congrArg Bystander.clock hb
  have hstopped : u.stopped = s.stopped := congrArg Bystander.stopped hb
  rcases u.startRenegotiation_cases cfg want with h | ⟨hstop, hcn, he, _, h⟩
  · rw [h, hr] at hlen
    omega
  · rw [h]
    refine ⟨hstopped ▸ hstop, hprim ▸ hcn, hprim ▸ he, hb, congrArg (fun x => some x.length) hc,
      congrArg some hclock, ?_⟩
    show (u.renegs ++ [_]).map Reneg.conn = s.renegs.map Reneg.conn ++ [s.conns.length]
    rw [List.map_append, hr, hc]
    rfl

/-- A step that adds a renegotiation has started it. -/
theorem started_step {st : Input} (hst : st.starts = true)
    (hlen : (s.step A cfg st).renegs.length = s.renegs.length + 1) :
    Started s (s.step A cfg st) := by
  have same : ∀ {t : Session}, t.renegs = s.renegs → t.renegs.length ≠ s.renegs.length + 1 := by
    intro t ht
    rw [ht]
    omega
  cases st with
  | beginRenegotiation i =>
    change (s.beginRenegotiation cfg i).renegs.length = _ at hlen
    show Started s (s.beginRenegotiation cfg i)
    unfold Session.beginRenegotiation at hlen ⊢
    cases hi : s.softResets[i]? with
    | none => rw [hi] at hlen; exact absurd hlen (same rfl)
    | some k =>
      rw [hi] at hlen
      exact started_of_length rfl rfl rfl hlen
  | runReneg t =>
    change (s.runReneg cfg t).renegs.length = _ at hlen
    show Started s (s.runReneg cfg t)
    unfold Session.runReneg at hlen ⊢
    cases hp : s.poll with
    | start =>
      rw [hp] at hlen
      exact started_of_length rfl rfl rfl hlen
    | notStarted | ended | closeSwept => rw [hp] at hlen; exact absurd hlen (same rfl)
    | idle =>
      rw [hp] at hlen
      refine absurd hlen (same ?_)
      dsimp only
      split
      · unfold Session.sweepLameDuck
        split <;> rfl
      · split <;> rfl
    | check =>
      rw [hp] at hlen
      refine absurd hlen (same ?_)
      dsimp only
      split <;> rfl
  | _ => cases hst

/-! ## The marker -/

/-- The list of the renegotiations' connections only grows. -/
theorem renegConns_step (hs : SlotStep v v') : v.renegConns <+: v'.renegConns := by
  unfold Slots.renegConns
  cases renegs_step hs with
  | same hr => exact ⟨[], by rw [hr, List.append_nil]⟩
  | start hr => exact ⟨_, by rw [hr, List.map_append]⟩
  | @set i n m hi hr hc =>
    have heq : (v.setReneg i m).renegConns = v.renegConns := renegConns_setReneg hi hc
    rw [hr]
    exact ⟨[], (List.append_nil _).trans heq.symm⟩

/-- The marker is where it was or gone, and the time of the last start stands. -/
structure MarkerKept (s t : Session) : Prop where
  accepted : t.lastRenegAccepted = s.lastRenegAccepted
  pending : t.pendingReneg = s.pendingReneg ∨ t.pendingReneg = none

/-- A renegotiation's own steps and data traffic start nothing. -/
theorem markerKept_step (h : inp.ofReneg i = true ∨ inp.traffic = true) :
    MarkerKept s (s.step A cfg inp) := by
  cases inp with
  | runRenegotiation j e =>
    obtain ⟨_, _, _, _, _, _, _, _, _, _, hp, _, _, h⟩ := s.runRenegotiation_frame j e
    show MarkerKept s (s.runRenegotiation j e)
    rw [h]; exact ⟨rfl, hp⟩
  | renegotiationWindow j x =>
    obtain ⟨_, _, _, hp, h⟩ := s.renegotiationWindow_frame j x
    show MarkerKept s (s.renegotiationWindow j x)
    rw [h]; exact ⟨rfl, hp⟩
  | packet | elapse => exact ⟨rfl, .inl rfl⟩
  | data j e =>
    obtain ⟨_, _, _, _, _, _, _, h⟩ := s.dataStep_frame A j e
    show MarkerKept s (s.dataStep A j e)
    rw [h]; exact ⟨rfl, .inl rfl⟩
  | write p =>
    obtain ⟨_, h⟩ := s.write_frame p
    show MarkerKept s (s.write p)
    rw [h]; exact ⟨rfl, .inl rfl⟩
  | sealWrite j =>
    obtain ⟨_, _, _, h⟩ := s.sealWrite_frame A j
    show MarkerKept s (s.sealWrite A j)
    rw [h]; exact ⟨rfl, .inl rfl⟩
  | _ => rcases h with h | h <;> cases h

/-! ## Whole runs -/

/-- The session as a renegotiation found it. -/
structure Untouched (s t : Session) : Prop where
  primary : t.primary = s.primary
  lameDuck : t.lameDuck = s.lameDuck
  cipher : t.cipher = s.cipher
  assignedIP : t.assignedIP = s.assignedIP
  peerID : t.peerID = s.peerID
  renegotiations : t.renegotiations = s.renegotiations

theorem untouched_of_bystander (h : t.bystander = s.bystander) : Untouched s t :=
  ⟨congrArg Bystander.primary h, congrArg Bystander.lameDuck h, congrArg Bystander.cipher h,
    congrArg Bystander.assignedIP h, congrArg Bystander.peerID h,
    congrArg Bystander.renegotiations h⟩

/-- In a run at whose end a renegotiation has not gone through, its steps do not show. -/
theorem along_bystander (hg : s.life.Grants) (ins : List Input)
    (hend : ¬ Completed i (Machine.run (Session.step A cfg) s ins).slots) :
    Machine.Along (Session.step A cfg)
      (fun s inp => inp.ofReneg i = true → (s.step A cfg inp).bystander = s.bystander) s ins := by
  have hrun := Machine.run_dichotomy (Session.step A cfg) (I := fun s => s.life.Grants)
    (B := fun s => s.life.Grants ∧ Completed i s.slots)
    (P := fun s inp => inp.ofReneg i = true → (s.step A cfg inp).bystander = s.bystander)
    (fun s inp h _ => grants_step h inp) ?_ ?_ s ins hg
  · refine Classical.byContradiction fun hn => hend (hrun.2 hn).2
  · intro s inp h hn
    rw [Classical.not_imp] at hn
    refine ⟨grants_step h inp, ?_⟩
    rcases bystander_ofReneg A cfg s hn.1 with hsame | hdone
    · exact absurd hsame hn.2
    · exact hdone
  · rintro s inp ⟨h, hdone⟩
    exact ⟨grants_step h inp, completed_step hdone (slots_step h inp)⟩

/-- What is kept over a run of a renegotiation's own steps and data traffic. -/
structure Quiet (c : Nat) (t₀ : Int) (s : Session) : Prop where
  safe : SlotsSafe s
  stopped : s.stopped = false
  accepted : s.lastRenegAccepted = some t₀
  pending : s.pendingReneg = some c ∨ s.pendingReneg = none

/-- A renegotiation's own steps and data traffic keep it quiet. -/
theorem quiet_step {c : Nat} {t₀ : Int} (h : Quiet c t₀ s)
    (hinp : inp.ofReneg i = true ∨ inp.traffic = true) : Quiet c t₀ (s.step A cfg inp) := by
  have hlife : inp.ofLife = false := by
    cases inp <;> first | rfl | (rcases hinp with hinp | hinp <;> cases hinp)
  have hmark : MarkerKept s (s.step A cfg inp) := markerKept_step hinp
  have hstop : (s.step A cfg inp).stopped = s.stopped :=
    congrArg Life.stopped (Session.life_step A cfg s hlife)
  refine ⟨slotsSafe_step h.safe inp, hstop.trans h.stopped, hmark.accepted.trans h.accepted, ?_⟩
  rcases hmark.pending with hp | hp
  · rw [hp]; exact h.pending
  · exact .inr hp

/-- In a run that list only grows, too. -/
theorem renegConns_run (A : Aead) (cfg : Config) (hg : s.life.Grants) (ins : List Input) :
    s.slots.renegConns <+: (Machine.run (Session.step A cfg) s ins).slots.renegConns := by
  let I : Session → Prop := fun t => t.life.Grants ∧ s.slots.renegConns <+: t.slots.renegConns
  have hstep : ∀ t inp, I t → I (t.step A cfg inp) := by
    rintro t inp ⟨hg, hp⟩
    exact ⟨grants_step hg inp, hp.trans (renegConns_step (slots_step hg inp))⟩
  exact (Machine.run_invariant' (I := I) hstep ⟨hg, List.prefix_rfl⟩ ins).2

theorem pending_ne_of_failed {n : Reneg} (h : SlotsSafe s) (hi : s.renegs[i]? = some n)
    (hf : n.pc = .failed) (hstop : s.stopped = false) : s.pendingReneg ≠ some n.conn := by
  intro hp
  have hl := (pending_of_eq h.named h.apart hi hp).live hstop
  rw [hf] at hl; cases hl

/-- In every run the failed have closed theirs. -/
theorem failedClosed_run (A : Aead) (cfg : Config) (self : Nat) (now : Int) (ins : List Input) :
    FailedClosed (Machine.run (Session.step A cfg) (.new self now) ins).slots := by
  let I : Session → Prop := fun s => SlotsSafe s ∧ FailedClosed s.slots
  have hstep : ∀ s inp, I s → I (s.step A cfg inp) := by
    rintro s inp ⟨h, hf⟩
    exact ⟨slotsSafe_step h inp, failedClosed_step h.named hf (slots_step h.grants inp)⟩
  exact (Machine.run_invariant' (I := I) hstep ⟨slotsSafe_new self now, nofun⟩ ins).2

theorem primary_traffic (s : Session) (ins : List Input) :
    (Machine.run (Session.step A cfg) s (ins.filter Input.traffic)).primary = s.primary := by
  refine Machine.run_invariant (I := fun t : Session => t.primary = s.primary)
    (P := fun _ inp => Input.traffic inp = true) ?_ rfl
    (Machine.along_of_mem s fun inp hm => (List.mem_filter.mp hm).2)
  intro t inp ht htr
  rw [← ht]
  cases inp with
  | packet | elapse => rfl
  | data j e => exact congrArg Slots.primary (slots_dataStep A t j e)
  | write p =>
    obtain ⟨_, h⟩ := t.write_frame p
    exact (congrArg Session.primary h).trans rfl
  | sealWrite j => exact congrArg Slots.primary (slots_sealWrite A t j)
  | _ => cases htr

theorem failed_among_traffic {n : Reneg} {st : Input} {post : List Input} (h : SlotsSafe s)
    (hst : st.starts = true) (hlen : s.renegs.length = i)
    (hacc : (s.step A cfg st).renegs.length = i + 1)
    (hpost : ∀ inp ∈ post, inp.ofReneg i = true ∨ inp.traffic = true)
    (hi : (Machine.run (Session.step A cfg) (s.step A cfg st) post).renegs[i]? = some n)
    (hf : n.pc = .failed) : let t := Machine.run (Session.step A cfg) (s.step A cfg st) post
    Untouched (Machine.run (Session.step A cfg) s (post.filter Input.traffic)) t
      ∧ t.pendingReneg = none
      ∧ ∀ ns : Nat, cfg.renegMinInterval ≤ t.clock + ns - s.clock →
          ((t.step A cfg (.elapse ns)).startRenegotiation cfg none).pendingReneg.isSome = true := by
  intro t
  have hstart : Started s (s.step A cfg st) := started_step hst (hlen ▸ hacc)
  have hsafe : SlotsSafe (s.step A cfg st) := slotsSafe_step h st
  have hnot : ¬ Completed i t.slots := by
    rintro ⟨m, hm, hdone⟩
    rw [show t.slots.renegs[i]? = some n from hi, Option.some.injEq] at hm
    rw [← hm, hf] at hdone
    cases hdone
  have hown : Machine.Along (Session.step A cfg)
      (fun s inp => (inp.ofReneg i = true → (s.step A cfg inp).bystander = s.bystander)
        ∧ (inp.ofReneg i = true ∨ inp.traffic = true)) (s.step A cfg st) post :=
    Machine.along_and (along_bystander hsafe.grants post hnot) (Machine.along_of_mem _ hpost)
  -- the run and the run without the renegotiation show the same
  have hview : t.bystander
      = (Machine.run (Session.step A cfg) s (post.filter Input.traffic)).bystander := by
    refine Machine.view_run_filter Session.bystander Input.traffic ?_ ?_ hown hstart.bystander
    · intro u w inp ht heq
      exact bystander_traffic ht heq
    · rintro u inp ht ⟨hsame, hp | hp⟩
      · exact hsame hp
      · cases ht.symm.trans hp
  -- the marker is its own or gone, and it has given it up
  have hquiet : Quiet s.conns.length s.clock t := by
    have h0 : Quiet s.conns.length s.clock (s.step A cfg st) :=
      ⟨hsafe, (congrArg Bystander.stopped hstart.bystander).trans hstart.stopped, hstart.accepted,
        .inl hstart.pending⟩
    exact Machine.run_invariant (I := Quiet s.conns.length s.clock)
      (fun u inp hq hp => quiet_step hq hp) h0 (Machine.along_of_mem _ hpost)
  have hconn : n.conn = s.conns.length := by
    obtain ⟨rest, hrest⟩ := renegConns_run A cfg hsafe.grants post
    have hl : s.slots.renegConns.length = i := by
      rw [Slots.renegConns, List.length_map]; exact hlen
    have hget : t.slots.renegConns[i]? = some s.conns.length := by
      rw [← hrest, hstart.conns, List.append_assoc, ← hl,
        List.getElem?_append_right (Nat.le_refl _), Nat.sub_self]
      rfl
    have hn : t.slots.renegConns[i]? = some n.conn := by
      rw [Slots.renegConns, List.getElem?_map, show t.slots.renegs[i]? = some n from hi]
      rfl
    exact Option.some.inj (hn.symm.trans hget)
  have hpend : t.pendingReneg = none := by
    rcases hquiet.pending with hp | hp
    · exact absurd (hconn ▸ hp) (pending_ne_of_failed hquiet.safe hi hf hquiet.stopped)
    · exact hp
  refine ⟨untouched_of_bystander hview, hpend, fun ns hns => ?_⟩
  -- the primary slot is that of a session that accepted a renegotiation
  have hprim : t.primary = s.primary :=
    (congrArg Bystander.primary hview).trans (primary_traffic s post)
  have hacc' := startRenegotiation_accepts cfg (s := t.step A cfg (.elapse ns)) hquiet.stopped
    (show t.primary.conn.isSome = true by rw [hprim]; exact hstart.conn)
    (show t.primary.established.isSome = true by rw [hprim]; exact hstart.established) hpend ?_
  · rw [hacc']; rfl
  · rw [rateLimited_eq cfg
      (show (t.step A cfg (.elapse ns)).lastRenegAccepted = _ from hquiet.accepted)]
    show decide (t.clock + ns - s.clock < cfg.renegMinInterval) = false
    rw [decide_eq_false_iff_not]
    omega

/--
**A failed renegotiation leaves the session as it was.** Take any run of a session's
goroutines and a renegotiation that has failed by its end. None of its steps, nor of
its window's, changed the slots, the cipher, the address, the peer-id or the count of
renegotiations; its connection is closed; and unless the session is being torn down
it does not hold the marker. If from its start on there was nothing but its own steps
and data traffic, these are at the end what they are at the end of the run without
it, the marker is cleared, and the next renegotiation is accepted as soon as the rate
limit allows.
-/
theorem failed_renegotiation_leaves_session (A : Aead) (cfg : Config) (self : Nat) (now : Int)
    (ins : List Input) (i : Nat) (n : Reneg)
    (hi : (Machine.run (Session.step A cfg) (.new self now) ins).renegs[i]? = some n)
    (hf : n.pc = .failed) :
    let s := Machine.run (Session.step A cfg) (.new self now) ins
    Machine.Along (Session.step A cfg)
        (fun s inp => inp.ofReneg i = true → Untouched s (s.step A cfg inp)) (.new self now) ins
      ∧ (∃ k, s.conns[n.conn]? = some k ∧ k.closedBy ≠ [])
      ∧ (s.stopped = false → s.pendingReneg ≠ some n.conn)
      ∧ ∀ pre st post, ins = pre ++ st :: post →
          let s₀ := Machine.run (Session.step A cfg) (.new self now) pre
          st.starts = true → s₀.renegs.length = i → (s₀.step A cfg st).renegs.length = i + 1 →
          (∀ inp ∈ post, inp.ofReneg i = true ∨ inp.traffic = true) →
          Untouched (Machine.run (Session.step A cfg) s₀ (post.filter Input.traffic)) s
            ∧ s.pendingReneg = none
            ∧ ∀ ns : Nat, cfg.renegMinInterval ≤ s.clock + ns - s₀.clock →
                ((s.step A cfg (.elapse ns)).startRenegotiation cfg none).pendingReneg.isSome =
                  true := by
  intro s
  have hsafe := slotsSafe_run A cfg self now ins
  have hnot : ¬ Completed i s.slots := by
    rintro ⟨m, hm, hdone⟩
    rw [show s.slots.renegs[i]? = some n from hi, Option.some.injEq] at hm
    rw [← hm, hf] at hdone
    cases hdone
  refine ⟨?_, failedClosed_run A cfg self now ins i n hi hf, pending_ne_of_failed hsafe hi hf, ?_⟩
  · refine Machine.along_mono ?_ (along_bystander (grants_new self now) ins hnot)
    intro u inp hsame hown
    exact untouched_of_bystander (hsame hown)
  · rintro pre st post rfl s₀ hst hlen hacc hpost
    have hrun : s = Machine.run (Session.step A cfg) (s₀.step A cfg st) post :=
      Machine.run_append _ pre (st :: post)
    rw [hrun]
    exact failed_among_traffic (slotsSafe_run A cfg self now pre) hst hlen hacc hpost (hrun ▸ hi) hf

/-- A renegotiation whose window expires while packets come in. -/
theorem expired_renegotiation_leaves_session :
    let cfg : Config := { renegSec := 3600, renegMinInterval := 60 }
    let pre := List.replicate 14 (Input.handshake { grant := some ⟨10, 0⟩ }) ++ [.softReset 1]
    let post : List Input :=
      [.runRenegotiation 0 {}, .packet [], .elapse 60, .renegotiationWindow 0 true, .data 0 {},
        .renegotiationWindow 0 true, .runRenegotiation 0 { ok := false }, .runRenegotiation 0 {},
        .runRenegotiation 0 {}]
    let s₀ := Machine.run (Session.step zeroTagAead cfg) (.new 0 0) pre
    let s := Machine.run (Session.step zeroTagAead cfg) (.new 0 0)
      (pre ++ .beginRenegotiation 0 :: post)
    Untouched (Machine.run (Session.step zeroTagAead cfg) s₀ (post.filter Input.traffic)) s
      ∧ s.pendingReneg = none := by
  intro cfg pre post s₀ s
  have h : s.renegs[0]? = some ⟨1, 1, .failed, .returned⟩ ∧ s₀.renegs.length = 0
      ∧ (s₀.step zeroTagAead cfg (.beginRenegotiation 0)).renegs.length = 1 := by decide +kernel
  have hall := (failed_renegotiation_leaves_session zeroTagAead cfg 0 0 _ 0 _ h.1 rfl).2.2.2
    pre _ post rfl rfl h.2.1 h.2.2 (by decide)
  exact ⟨hall.1, hall.2.1⟩

end GoVpn.Proof
