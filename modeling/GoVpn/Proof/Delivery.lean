import GoVpn.Proof.DataPath

/-!
# Each packet is delivered once

A packet can be handled by many calls at once, each of which read the slots at its
own time and tries two generations outside the lock. What keeps it from being queued
twice is the window of the one generation it opens under: from the `Open` that
succeeds on, there is one copy of the packet, on its way or queued, and the window
of that generation refuses the packet's number.
-/

namespace GoVpn.Ovpn

open GoVpn.Control (Bytes)
open GoVpn.Data
open GoVpn.Proof

/-- The call holds a copy of `d` that it opened under `g`. -/
def DataCall.carries (d : Bytes) (g : Nat) (c : DataCall) : Bool :=
  match c.pc with
  | .deliver h _ => decide (c.packet = d ∧ h = g)
  | _ => false

/-- A copy of `d`, opened under `g`, was queued. -/
def Event.carries (d : Bytes) (g : Nat) : Event → Bool
  | .queued c h _ => decide (c.packet = d ∧ h = g)
  | _ => false

/-- A copy of `d` was queued, whichever generation it was opened under. -/
def Event.queues (d : Bytes) : Event → Bool
  | .queued c _ _ => decide (c.packet = d)
  | _ => false

/-- The copies of `d` opened under `g`. -/
def DataPath.copies (v : DataPath) (d : Bytes) (g : Nat) : Nat :=
  v.calls.countP (DataCall.carries d g) + v.queued.countP (Event.carries d g)

/-- At most one copy, and with it the window refuses another. -/
structure DataPath.Single (v : DataPath) (d : Bytes) (g : Nat) : Prop where
  le_one : v.copies d g ≤ 1
  covered : 0 < v.copies d g → ∃ w, v.gens[g]? = some w ∧ Covered w.replay (packetSeq d)

/-- What a call may say that it got `q` out of its packet under `g`. -/
structure DataCall.Entitled (A : Aead) (gens : List Wrapper) (c : DataCall) (g : Nat) (q : Bytes) :
    Prop where
  opened : ∃ w, gens[g]? = some w ∧ Authenticates A w c.packet ∧ w.decrypt A c.packet = some q
  slot : c.primary.wrapper = some g
    ∨ c.lameDuck.wrapper = some g ∧ before c.readAt c.lameDuck.mustDie = true

/-- What every call has checked by the time it is where it is. -/
structure DataPath.Orderly (A : Aead) (v : DataPath) : Prop where
  readAt : ∀ c ∈ v.calls, c.readAt ≤ v.clock
  duck : ∀ c ∈ v.calls, c.pc = .openLameDuck → before c.readAt c.lameDuck.mustDie = true
  delivering : ∀ c ∈ v.calls, ∀ g q, c.pc = .deliver g q → c.Entitled A v.gens g q
  queued : ∀ c g q, .queued c g q ∈ v.queued → c.Entitled A v.gens g q

/-- The call read the slots at one of the packets of the run. -/
def DataCall.ReadIn (A : Aead) (cfg : Config) (s : Session) (ins : List Input) (c : DataCall) :
    Prop :=
  ∃ pre post, ins = pre ++ .packet c.packet :: post
    ∧ c.primary = (Machine.run (Session.step A cfg) s pre).primary
    ∧ c.lameDuck = (Machine.run (Session.step A cfg) s pre).lameDuck
    ∧ c.readAt = (Machine.run (Session.step A cfg) s pre).clock

end GoVpn.Ovpn

namespace GoVpn.Proof

open GoVpn.Control (Bytes)
open GoVpn.Data
open GoVpn.Ovpn

variable {A : Aead} {cfg : Config} {v v' : DataPath} {l : Option DataCall}

/-! ## One copy -/

theorem countP_set_add {α : Type} {p : α → Bool} {l : List α} {i : Nat} {a b : α}
    (h : l[i]? = some a) :
    (l.set i b).countP p + (if p a = true then 1 else 0)
      = l.countP p + (if p b = true then 1 else 0) := by
  obtain ⟨hlt, ha⟩ := List.getElem?_eq_some_iff.mp h
  rw [List.countP_set hlt, ha]
  have hpos : p a = true → 0 < l.countP p := fun hp =>
    List.countP_pos_iff.mpr ⟨a, List.mem_of_getElem? h, hp⟩
  split
  · rename_i hp
    have := hpos hp
    omega
  · omega

variable {c : DataCall} {d q : Bytes}

variable {g : Nat} {s : Session} {w : Wrapper}

theorem carries_of_not_delivers (h : c.pc.delivers = false) : c.carries d g = false := by
  unfold DataCall.carries
  cases hpc : c.pc with
  | deliver => rw [hpc] at h; cases h
  | _ => rfl

theorem carries_deliver (d : Bytes) (g h : Nat) (c : DataCall) (q : Bytes) :
    ({ c with pc := .deliver h q } : DataCall).carries d g = decide (c.packet = d ∧ h = g) := rfl

theorem open_of_covered (h : Covered w.replay (packetSeq d)) : (w.open A d).2 ≠ .ok q := by
  rcases open_cases A w d with ⟨_, hne⟩ | ⟨p, r, _, _, hr, _⟩
  · exact hne q
  · exact absurd (hr.symm.trans (accept_covered h)) (by simp)

theorem covered_of_open (h : (w.open A d).2 = .ok q) :
    Covered (w.open A d).1.replay (packetSeq d) := by
  rcases open_cases A w d with ⟨_, hne⟩ | ⟨p, r, _, _, hr, ho⟩
  · exact absurd h (hne q)
  · rw [ho]; exact covered_accept hr

theorem single_of_copies_le (h : v.Single d g) (hg : Grown v.gens v'.gens)
    (hle : v'.copies d g ≤ v.copies d g) : v'.Single d g := by
  refine ⟨Nat.le_trans hle h.le_one, fun hpos => ?_⟩
  obtain ⟨w, hw, hc⟩ := h.covered (Nat.lt_of_lt_of_le hpos hle)
  obtain ⟨w', hw', hs⟩ := hg g w hw
  exact ⟨w', hw', hs.covered _ hc⟩

/-- No step makes a second copy of a packet under one generation. -/
theorem single_step (h : v.Single d g) (hs : DataStep A v l v') : v'.Single d g := by
  cases hs with
  | same => exact h
  | elapse => exact single_of_copies_le h (grown_refl _) (Nat.le_refl _)
  | grow hg => exact single_of_copies_le h hg (Nat.le_refl _)
  | @read c hpc _ =>
    refine single_of_copies_le h (grown_refl _) (Nat.le_of_eq ?_)
    have hc : c.carries d g = false := carries_of_not_delivers (by rw [hpc]; rfl)
    simp [DataPath.copies, List.countP_append, hc]
  | @advance i c pc gens hi hg hpc _ =>
    refine single_of_copies_le h hg ?_
    have hnew : ({ c with pc := pc } : DataCall).carries d g = false := carries_of_not_delivers hpc
    have hcount := countP_set_add (p := DataCall.carries d g) (b := { c with pc := pc }) hi
    rw [hnew] at hcount
    simp only [DataPath.copies]
    simp only [Bool.false_eq_true, if_false] at hcount
    omega
  | @opened i g' c w q hi hpc _ hw ho =>
    have hgrown : Grown v.gens (v.gens.set g' (w.open A c.packet).1) :=
      grown_set hw (succeeds_open A w c.packet)
    have hold : c.carries d g = false := carries_of_not_delivers hpc
    have hcount :=
      countP_set_add (p := DataCall.carries d g) (b := { c with pc := .deliver g' q }) hi
    rw [hold, carries_deliver] at hcount
    by_cases hsame : c.packet = d ∧ g' = g
    · obtain ⟨rfl, rfl⟩ := hsame
      -- a copy there already would have made the window refuse this one
      have hzero : v.copies c.packet g' = 0 := by
        refine Nat.eq_zero_of_not_pos fun hpos => ?_
        obtain ⟨w', hw', hc⟩ := h.covered hpos
        rw [hw, Option.some.injEq] at hw'
        subst hw'
        exact open_of_covered hc ho
      obtain ⟨hlt, _⟩ := List.getElem?_eq_some_iff.mp hw
      refine ⟨?_, fun _ => ⟨_, List.getElem?_set_self hlt, covered_of_open ho⟩⟩
      simp only [DataPath.copies] at hzero ⊢
      simp at hcount
      omega
    · refine single_of_copies_le h hgrown ?_
      simp only [DataPath.copies]
      rw [decide_eq_false hsame] at hcount
      omega
  | @deliver i g' c q es hi hpc hes =>
    refine single_of_copies_le h (grown_refl _) ?_
    have hold : c.carries d g = decide (c.packet = d ∧ g' = g) := by
      unfold DataCall.carries; rw [hpc]
    have hcount := countP_set_add (p := DataCall.carries d g) (b := { c with pc := .ended }) hi
    rw [hold, carries_of_not_delivers (c := { c with pc := .ended }) rfl] at hcount
    -- the copy moves from the call to the queue, or is dropped
    have hqueue : es.countP (Event.carries d g) ≤ if decide (c.packet = d ∧ g' = g) = true then
        1 else 0 := by
      rcases hes with rfl | rfl
      · exact Nat.zero_le _
      · rw [List.countP_singleton]
        exact Nat.le_refl _
    simp only [DataPath.copies, List.countP_append]
    simp only [Bool.false_eq_true, if_false] at hcount
    omega

/-! ## What each call has checked -/

theorem decrypt_succeeds {w' : Wrapper} (h : Succeeds w w') (d : Bytes) :
    w'.decrypt A d = w.decrypt A d := by
  unfold Wrapper.decrypt
  rw [h.decryptKey, h.decryptIV]

theorem entitled_grown {gens gens' : List Wrapper} (hg : Grown gens gens')
    (h : c.Entitled A gens g q) : c.Entitled A gens' g q := by
  obtain ⟨w, hw, hauth, hdec⟩ := h.opened
  obtain ⟨w', hw', hs⟩ := hg g w hw
  have hsame := decrypt_succeeds (A := A) hs c.packet
  refine ⟨⟨w', hw', ⟨hauth.1, ?_⟩, hsame.trans hdec⟩, h.slot⟩
  rw [hsame]; exact hauth.2

/-- Generations stay, further on. -/
theorem grown_step (hs : DataStep A v l v') : Grown v.gens v'.gens := by
  cases hs with
  | grow hg | advance _ hg => exact hg
  | opened _ _ _ hw => exact grown_set hw (succeeds_open A _ _)
  | same | elapse | read | deliver => exact grown_refl _

/-- Time does not run back. -/
theorem clock_step (hs : DataStep A v l v') : v.clock ≤ v'.clock := by
  cases hs with
  | elapse h => exact h
  | same | grow | read | advance | opened | deliver =>
    exact Int.le_refl _

/-- A call is new, or one that was there, with the program counter where it was or moved on. -/
theorem calls_step {c' : DataCall} (hs : DataStep A v l v') (hc : c' ∈ v'.calls) :
    c' ∈ v.calls ∨ l = some c' ∧ c'.pc = .openPrimary ∧ c'.readAt = v.clock
      ∨ ∃ c ∈ v.calls, ∃ pc, c' = { c with pc := pc }
        ∧ (pc = .openLameDuck → before v.clock c.lameDuck.mustDie = true)
        ∧ ∀ g q, pc = .deliver g q → ∃ w, v.gens[g]? = some w ∧ (w.open A c.packet).2 = .ok q
          ∧ (c.primary.wrapper = some g ∨ c.lameDuck.wrapper = some g ∧ c.pc = .openLameDuck) := by
  cases hs with
  | same | elapse | grow => exact .inl hc
  | read hpc hat =>
    rcases List.mem_append.mp hc with hc | hc
    · exact .inl hc
    · obtain rfl := List.mem_singleton.mp hc
      exact .inr (.inl ⟨rfl, hpc, hat⟩)
  | @advance i c pc gens hi _ hpc hduck =>
    rcases List.mem_or_eq_of_mem_set hc with hc | rfl
    · exact .inl hc
    · refine .inr (.inr ⟨c, List.mem_of_getElem? hi, pc, rfl, hduck, ?_⟩)
      rintro g q rfl
      cases hpc
  | @opened i g c w q hi _ hslot hw ho =>
    rcases List.mem_or_eq_of_mem_set hc with hc | rfl
    · exact .inl hc
    · refine .inr (.inr ⟨c, List.mem_of_getElem? hi, _, rfl, nofun, ?_⟩)
      intro g' q' hpc
      cases hpc
      exact ⟨w, hw, ho, hslot⟩
  | @deliver i g c q es hi _ _ =>
    rcases List.mem_or_eq_of_mem_set hc with hc | rfl
    · exact .inl hc
    · exact .inr (.inr ⟨c, List.mem_of_getElem? hi, _, rfl, nofun, nofun⟩)

/-- What a step queues was being delivered. -/
theorem queued_step (hs : DataStep A v l v') (hq : .queued c g q ∈ v'.queued) :
    .queued c g q ∈ v.queued ∨ c ∈ v.calls ∧ c.pc = .deliver g q := by
  cases hs with
  | @deliver i g' c' q' es hi hpc hes =>
    rcases List.mem_append.mp hq with hq | hq
    · exact .inl hq
    · rcases hes with rfl | rfl
      · cases hq
      · cases List.mem_singleton.mp hq
        exact .inr ⟨List.mem_of_getElem? hi, hpc⟩
  | same | elapse | grow | read | advance | opened => exact .inl hq

theorem opened_of_ok (h : (w.open A d).2 = .ok q) :
    Authenticates A w d ∧ w.decrypt A d = some q := by
  rcases open_cases A w d with ⟨_, hne⟩ | ⟨p, r, hauth, hdec, _, ho⟩
  · exact absurd h (hne q)
  · rw [ho] at h
    split at h
    · cases h
    · cases h
      exact ⟨hauth, hdec⟩

/-- Every step keeps what the calls have checked. -/
theorem orderly_step (h : v.Orderly A) (hs : DataStep A v l v') : v'.Orderly A := by
  have hg := grown_step hs
  refine ⟨?_, ?_, ?_, ?_⟩
  · intro c' hc'
    have hclock := clock_step hs
    rcases calls_step hs hc' with hc | ⟨_, _, hat⟩ | ⟨c, hc, pc, rfl, _⟩
    · exact Int.le_trans (h.readAt c' hc) hclock
    · rw [hat]; exact hclock
    · exact Int.le_trans (h.readAt c hc) hclock
  · intro c' hc' hpc'
    rcases calls_step hs hc' with hc | ⟨_, hpc, _⟩ | ⟨c, hc, pc, rfl, hduck, _⟩
    · exact h.duck c' hc hpc'
    · cases hpc.symm.trans hpc'
    · -- checked now, so it held when the slots were read
      exact before_mono (h.readAt c hc) (hduck hpc')
  · intro c' hc' g q hpc'
    rcases calls_step hs hc' with hc | ⟨_, hpc, _⟩ | ⟨c, hc, pc, rfl, _, hopen⟩
    · exact entitled_grown hg (h.delivering c' hc g q hpc')
    · cases hpc.symm.trans hpc'
    · obtain ⟨w, hw, ho, hslot⟩ := hopen g q hpc'
      refine entitled_grown hg ⟨⟨w, hw, opened_of_ok ho⟩, ?_⟩
      exact hslot.imp id fun ⟨hd, hpc⟩ => ⟨hd, h.duck c hc hpc⟩
  · intro c g q hq
    rcases queued_step hs hq with hq | ⟨hc, hpc⟩
    · exact entitled_grown hg (h.queued c g q hq)
    · exact entitled_grown hg (h.delivering c hc g q hpc)

/-! ## Whole runs -/

theorem readIn_snoc {ins : List Input} (inp : Input) (h : c.ReadIn A cfg s ins) :
    c.ReadIn A cfg s (ins ++ [inp]) := by
  obtain ⟨pre, post, rfl, hread⟩ := h
  exact ⟨pre, post ++ [inp], by simp, hread⟩

/-- Every call, and every call that queued something, read the slots during the run. -/
def CallsRead (A : Aead) (cfg : Config) (s : Session) (ins : List Input) (v : DataPath) : Prop :=
  (∀ c ∈ v.calls, c.ReadIn A cfg s ins) ∧ ∀ c g q, .queued c g q ∈ v.queued → c.ReadIn A cfg s ins

/-- A call read the slots at one of the packets so far. -/
theorem callsRead_step {pre : List Input} (inp : Input)
    (h : CallsRead A cfg s pre (Machine.run (Session.step A cfg) s pre).dataPath) :
    CallsRead A cfg s (pre ++ [inp])
      ((Machine.run (Session.step A cfg) s pre).step A cfg inp).dataPath := by
  have hs := dataPath_step A cfg (Machine.run (Session.step A cfg) s pre) inp
  constructor
  · intro c' hc'
    rcases calls_step hs hc' with hc | ⟨hnew, _, _⟩ | ⟨c, hc, pc, rfl, _⟩
    · exact readIn_snoc inp (h.1 c' hc)
    · cases inp with
      | packet p =>
        cases hnew
        exact ⟨pre, [], rfl, rfl, rfl, rfl⟩
      | _ => cases hnew
    · -- moving on does not change what was read
      exact readIn_snoc inp (h.1 c hc)
  · intro c g q hq
    rcases queued_step hs hq with hq | ⟨hc, _⟩
    · exact readIn_snoc inp (h.2 c g q hq)
    · exact readIn_snoc inp (h.1 c hc)

/-- In every run each call read the slots during it. -/
theorem callsRead_run (A : Aead) (cfg : Config) (self : Nat) (now : Int) (ins : List Input) :
    CallsRead A cfg (.new self now) ins
      (Machine.run (Session.step A cfg) (.new self now) ins).dataPath := by
  refine Machine.run_history (Session.step A cfg)
    (I := fun ins s => CallsRead A cfg (.new self now) ins s.dataPath) ⟨?_, ?_⟩ ?_ ins
  · intro c hc; cases hc
  · intro c g q hq; cases hq
  · intro pre inp h
    exact callsRead_step inp h

/-- In every run the calls have checked what they must. -/
theorem orderly_run (A : Aead) (cfg : Config) (self : Nat) (now : Int) (ins : List Input) :
    (Machine.run (Session.step A cfg) (.new self now) ins).dataPath.Orderly A := by
  let I : Session → Prop := fun s => s.dataPath.Orderly A
  have hstep : ∀ s inp, I s → I (s.step A cfg inp) :=
    fun s inp h => orderly_step h (dataPath_step A cfg s inp)
  have h0 : I (.new self now) := by
    refine ⟨?_, ?_, ?_, ?_⟩
    · intro c hc; cases hc
    · intro c hc; cases hc
    · intro c hc; cases hc
    · intro c g q hq; cases hq
  exact Machine.run_invariant' (I := I) hstep h0 ins

/-- In every run there is at most one copy. -/
theorem single_run (A : Aead) (cfg : Config) (self : Nat) (now : Int) (ins : List Input) (d : Bytes)
    (g : Nat) : (Machine.run (Session.step A cfg) (.new self now) ins).dataPath.Single d g := by
  let I : Session → Prop := fun s => s.dataPath.Single d g
  have hstep : ∀ s inp, I s → I (s.step A cfg inp) :=
    fun s inp h => single_step h (dataPath_step A cfg s inp)
  have h0 : I (.new self now) := ⟨Nat.zero_le _, fun h => absurd h (Nat.lt_irrefl 0)⟩
  exact Machine.run_invariant' (I := I) hstep h0 ins

/-! ## The client -/

/-- The packets that arrive in a run. -/
def arrivals (ins : List Input) : List Bytes :=
  ins.filterMap fun inp =>
    match inp with
    | .packet p => some p
    | _ => none

/--
An ideal AEAD, on the packets that arrive: one that authenticates under a generation
is one the client sealed under it, and authenticates under no other. The client has
the mirrored keys of each generation and sealed `sent g` under the `g`-th.
-/
structure IdealAead (A : Aead) (client : Nat → Wrapper) (sent : Nat → List Bytes)
    (gens : List Wrapper) (ds : List Bytes) : Prop where
  mirrored : ∀ (g : Nat) (w : Wrapper), gens[g]? = some w → Mirrored (client g) w
  sealed : ∀ (g : Nat) (w : Wrapper), gens[g]? = some w → NoForgery A (client g) w (sent g) ds
  own : ∀ (g h : Nat) (w : Wrapper), gens[h]? = some w →
    ∀ d ∈ ds, d ∈ sealedPackets A (client g) (sent g) → Authenticates A w d → h = g

theorem mem_arrivals {ins : List Input} (h : c.ReadIn A cfg s ins) : c.packet ∈ arrivals ins := by
  obtain ⟨pre, post, rfl, _⟩ := h
  exact List.mem_filterMap.mpr ⟨.packet c.packet, by simp, rfl⟩

theorem mem_queued (h : .queued c g q ∈ s.hist) :
    .queued c g q ∈ s.dataPath.queued := List.mem_filter.mpr ⟨h, rfl⟩

/--
**Each packet is delivered at most once across rollovers.** Take any run of a
session's goroutines, and a client that seals what it likes under each key
generation; packets arrive in any order, any number of times, and nothing else
authenticates. Each sealed packet is queued at most once. What is queued is the
plaintext of a packet sealed under a generation that was, when the call read the
slots, the primary one or a lame duck whose time had not passed.
-/
theorem delivered_at_most_once (A : Aead) (cfg : Config) (self : Nat) (now : Int) (ins : List Input)
    (client : Nat → Wrapper) (sent : Nat → List Bytes)
    (hideal : IdealAead A client sent (Machine.run (Session.step A cfg) (.new self now) ins).gens
      (arrivals ins)) :
    (∀ g, ∀ d ∈ sealedPackets A (client g) (sent g),
        (Machine.run (Session.step A cfg) (.new self now) ins).hist.countP (Event.queues d) ≤ 1)
      ∧ ∀ c g q, .queued c g q ∈ (Machine.run (Session.step A cfg) (.new self now) ins).hist →
          (q, .ok c.packet) ∈ Machine.trace (Wrapper.seal A) (client g) (sent g)
          ∧ ∃ pre post, ins = pre ++ .packet c.packet :: post
            ∧ ((Machine.run (Session.step A cfg) (.new self now) pre).primary.wrapper = some g
              ∨ (Machine.run (Session.step A cfg) (.new self now) pre).lameDuck.wrapper = some g
                ∧ before (Machine.run (Session.step A cfg) (.new self now) pre).clock
                    (Machine.run (Session.step A cfg) (.new self now) pre).lameDuck.mustDie =
                      true) := by
  have hread := (callsRead_run A cfg self now ins).2
  have horder := (orderly_run A cfg self now ins).queued
  have hsingle := single_run A cfg self now ins
  generalize Machine.run (Session.step A cfg) (.new self now) ins = s at hideal hread horder hsingle
  constructor
  · intro g d hd
    have hown : ∀ e ∈ s.hist, Event.queues d e = true ↔
        (Event.carries d g e && e.ofData) = true := by
      intro e he
      cases e with
      | queued c h q =>
        obtain ⟨w, hw, hauth, _⟩ := (horder c h q (mem_queued he)).opened
        have harr := mem_arrivals (hread c h q (mem_queued he))
        simp only [Event.queues, Event.carries, Event.ofData, Bool.and_true, decide_eq_true_eq]
        constructor
        · rintro rfl
          exact ⟨rfl, hideal.own g h w hw c.packet harr hd hauth⟩
        · exact And.left
      | _ => exact Iff.rfl
    calc s.hist.countP (Event.queues d)
        = s.hist.countP (fun e => Event.carries d g e && e.ofData) := List.countP_congr hown
      _ = s.dataPath.queued.countP (Event.carries d g) := List.countP_filter.symm
      _ ≤ s.dataPath.copies d g := Nat.le_add_left _ _
      _ ≤ 1 := (hsingle d g).le_one
  · intro c g q hq
    have hent := horder c g q (mem_queued hq)
    have hr := hread c g q (mem_queued hq)
    obtain ⟨w, hw, hauth, hdec⟩ := hent.opened
    obtain ⟨p, hp⟩ := mem_sealedPackets.mp (hideal.sealed g w hw c.packet (mem_arrivals hr) hauth)
    have hpq : p = q :=
      Option.some.inj ((sealed_opens (hideal.mirrored g w hw) hp).2.symm.trans hdec)
    obtain ⟨pre, post, hins, hprim, hduck, hat⟩ := hr
    refine ⟨hpq ▸ hp, pre, post, hins, ?_⟩
    rw [← hprim, ← hduck, ← hat]
    exact hent.slot

/-- An AEAD without secrecy, whose tag is the start of the key. -/
def keyTagAead : Aead where
  aeadSeal key _ plaintext _ := plaintext ++ (key ++ List.replicate tagSize 0).take tagSize
  aeadOpen key _ sealed _ :=
    if sealed.drop (sealed.length - tagSize) = (key ++ List.replicate tagSize 0).take tagSize then
      some (sealed.take (sealed.length - tagSize))
    else none
  length_aeadSeal := by simp
  aeadOpen_aeadSeal := by simp

/--
The client's first packet is read under the old primary, arrives again after the
rollover and is opened as the lame duck's first; the one under the new keys comes twice.
-/
theorem delivered_once_across_rollover :
    let cfg : Config := { renegSec := 3600, renegMinInterval := 60 }
    let client (g : Nat) : Wrapper := ⟨0, 0, List.replicate 16 (.ofNat (g + 1)), [], [], [], 0, {}⟩
    let sent (g : Nat) : List Bytes := [[[10]], [[20]]].getD g []
    let first := (client 0).sealWithSeq keyTagAead 1 [10]
    let second := (client 1).sealWithSeq keyTagAead 1 [20]
    let up : Env := { cipher := .aes128gcm, keys := List.replicate 16 1, grant := some ⟨10, 0⟩ }
    let ins : List Input := List.flatten
      [List.replicate 14 (.handshake up), [.packet first, .softReset 1, .beginRenegotiation 0],
        List.replicate 6 (.runRenegotiation 0 { keys := List.replicate 16 2 }),
        [.packet first, .packet second, .packet second], List.replicate 4 (.data 1 {}),
        List.replicate 3 (.data 0 {}), [.data 2 {}, .data 3 {}, .data 3 {}, .data 2 {}]]
    let s := Machine.run (Session.step keyTagAead cfg) (.new 0 0) ins
    IdealAead keyTagAead client sent s.gens (arrivals ins)
      ∧ s.hist.countP (Event.queues first) = 1 ∧ s.hist.countP (Event.queues second) = 1 := by
  intro cfg client sent first second up ins s
  have hgens : ∀ x ∈ s.gens.zipIdx, Mirrored (client x.2) x.1
      ∧ NoForgery keyTagAead (client x.2) x.1 (sent x.2) (arrivals ins)
      ∧ ∀ g < 2, ∀ d ∈ arrivals ins, d ∈ sealedPackets keyTagAead (client g) (sent g) →
        Authenticates keyTagAead x.1 d → x.2 = g := by decide +kernel
  have hat : ∀ (h : Nat) (w : Wrapper), s.gens[h]? = some w → (w, h) ∈ s.gens.zipIdx :=
    fun h w hw => List.mem_zipIdx_iff_getElem?.mpr hw
  have hideal : IdealAead keyTagAead client sent s.gens (arrivals ins) := by
    refine ⟨fun g w hw => (hgens _ (hat g w hw)).1, fun g w hw => (hgens _ (hat g w hw)).2.1, ?_⟩
    intro g h w hw d hd hsealed hauth
    by_cases hg : g < 2
    · exact (hgens _ (hat h w hw)).2.2 g hg d hd hsealed hauth
    · -- under a third generation nothing was sealed
      have hlen : ([[[10]], [[20]]] : List (List Bytes)).length ≤ g := Nat.le_of_not_lt hg
      have hnil : sent g = [] := by
        simp only [sent, List.getD_eq_getElem?_getD, List.getElem?_eq_none hlen, Option.getD_none]
      rw [hnil] at hsealed
      cases hsealed
  have hmem : first ∈ sealedPackets keyTagAead (client 0) (sent 0)
      ∧ second ∈ sealedPackets keyTagAead (client 1) (sent 1) := by decide +kernel
  have hqueued : 1 ≤ s.hist.countP (Event.queues first) ∧
      1 ≤ s.hist.countP (Event.queues second) := by
    decide +kernel
  have honce := (delivered_at_most_once keyTagAead cfg 0 0 ins client sent hideal).1
  exact ⟨hideal, Nat.le_antisymm (honce 0 first hmem.1) hqueued.1,
    Nat.le_antisymm (honce 1 second hmem.2) hqueued.2⟩

end GoVpn.Proof
