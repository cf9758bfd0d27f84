import GoVpn.Lib.Run
import GoVpn.Ovpn.Renegotiation
import GoVpn.Proof.DataChannel
import GoVpn.Proof.SessionLife

/-!
# The data path of a session

What the packets being handled can do to each other: the key generations with their
windows, the calls with the slots they read, and what was queued. Rollovers, sweeps,
teardown and the handshake only add generations and let time pass; everything else
is a call of `handleDataPacket` on its way.
-/

namespace GoVpn.Ovpn

open GoVpn.Control (Bytes)
open GoVpn.Data
open GoVpn.Proof (Covered)

/-- The session as its data packets see it. -/
structure DataPath where
  clock : Int
  gens : List Wrapper
  calls : List DataCall
  queued : List Event

def Session.dataPath (s : Session) : DataPath where
  clock := s.clock
  gens := s.gens
  calls := s.calls
  queued := s.hist.filter Event.ofData

/-- The same keys, and what the window refused it still refuses. -/
structure Succeeds (w w' : Wrapper) : Prop where
  decryptKey : w'.decryptKey = w.decryptKey
  decryptIV : w'.decryptIV = w.decryptIV
  covered : ∀ seq, Covered w.replay seq → Covered w'.replay seq

/-- Every generation is still there, further on. -/
def Grown (gens gens' : List Wrapper) : Prop :=
  ∀ (g : Nat) (w : Wrapper), gens[g]? = some w → ∃ w', gens'[g]? = some w' ∧ Succeeds w w'

def DataPc.delivers : DataPc → Bool
  | .deliver _ _ => true
  | _ => false

/-- The call a step begins. -/
def Session.newCall (s : Session) : Input → Option DataCall
  | .packet p =>
    some { packet := p, primary := s.primary, lameDuck := s.lameDuck, readAt := s.clock }
  | _ => none

/-- The data path as a protocol of its own; the label is the call that begins. -/
inductive DataStep (A : Aead) (v : DataPath) : Option DataCall → DataPath → Prop
  | same : DataStep A v none v
  | elapse {t : Int} (h : v.clock ≤ t) : DataStep A v none { v with clock := t }
  | grow {gens : List Wrapper} (h : Grown v.gens gens) : DataStep A v none { v with gens := gens }
  | read {c : DataCall} (hpc : c.pc = .openPrimary) (hat : c.readAt = v.clock) :
      DataStep A v (some c) { v with calls := v.calls ++ [c] }
  | advance {i : Nat} {c : DataCall} {pc : DataPc} {gens : List Wrapper} (hi : v.calls[i]? = some c)
      (hg : Grown v.gens gens) (hpc : pc.delivers = false)
      (hduck : pc = .openLameDuck → before v.clock c.lameDuck.mustDie = true) :
      DataStep A v none { v with gens := gens, calls := v.calls.set i { c with pc := pc } }
  | opened {i g : Nat} {c : DataCall} {w : Wrapper} {q : Bytes} (hi : v.calls[i]? = some c)
      (hpc : c.pc.delivers = false)
      (hslot : c.primary.wrapper = some g ∨ c.lameDuck.wrapper = some g ∧ c.pc = .openLameDuck)
      (hw : v.gens[g]? = some w) (ho : (w.open A c.packet).2 = .ok q) :
      DataStep A v none
        { v with
          gens := v.gens.set g (w.open A c.packet).1
          calls := v.calls.set i { c with pc := .deliver g q } }
  | deliver {i g : Nat} {c : DataCall} {q : Bytes} {es : List Event} (hi : v.calls[i]? = some c)
      (hpc : c.pc = .deliver g q) (hes : es = [] ∨ es = [.queued c g q]) :
      DataStep A v none
        { v with calls := v.calls.set i { c with pc := .ended }, queued := v.queued ++ es }

end GoVpn.Ovpn

namespace GoVpn.Proof

open GoVpn.Control (Bytes)
open GoVpn.Data
open GoVpn.Ovpn

variable {A : Aead} {cfg : Config} {s : Session}

/-! ## Generations -/

theorem succeeds_refl (w : Wrapper) : Succeeds w w := ⟨rfl, rfl, fun _ h => h⟩

theorem succeeds_open (A : Aead) (w : Wrapper) (d : Bytes) : Succeeds w (w.open A d).1 := by
  refine ⟨?_, ?_, fun seq h => covered_open d h⟩
  · rw [open_frame A w d]
  · rw [open_frame A w d]

theorem succeeds_seal (A : Aead) (w : Wrapper) (p : Bytes) : Succeeds w (w.seal A p).1 := by
  unfold Wrapper.seal
  cases hn : w.nextPacketID with
  | error e => exact succeeds_refl w
  | ok w' =>
    rw [(nextPacketID_ok hn).2.1]
    exact ⟨rfl, rfl, fun _ h => h⟩

theorem grown_refl (gens : List Wrapper) : Grown gens gens :=
  fun _ w h => ⟨w, h, succeeds_refl w⟩

theorem grown_append (gens ws : List Wrapper) : Grown gens (gens ++ ws) := by
  intro g u hu
  obtain ⟨hlt, _⟩ := List.getElem?_eq_some_iff.mp hu
  exact ⟨u, (List.getElem?_append_left hlt).trans hu, succeeds_refl u⟩

theorem grown_set {gens : List Wrapper} {g : Nat} {w w' : Wrapper} (hg : gens[g]? = some w)
    (h : Succeeds w w') : Grown gens (gens.set g w') := by
  intro k u hu
  obtain ⟨hlt, _⟩ := List.getElem?_eq_some_iff.mp hu
  by_cases hgk : g = k
  · subst hgk
    rw [hg, Option.some.injEq] at hu
    subst hu
    exact ⟨w', List.getElem?_set_self hlt, h⟩
  · exact ⟨u, (List.getElem?_set_ne hgk).trans hu, succeeds_refl u⟩

/-! ## The steps that leave the data path alone -/

theorem dataPath_log {e : Event} (h : e.ofData = false) : (s.log e).dataPath = s.dataPath := by
  unfold Session.dataPath Session.log
  rw [List.filter_append, List.filter_cons, h]
  simp

theorem dataPath_callClose (s : Session) (r : CloseReason) (pc : ClosePc) :
    (s.callClose r pc).1.dataPath = s.dataPath := by
  rcases s.callClose_cases r pc with h | ⟨_, h⟩ | ⟨_, h⟩
  · rw [h]
  · rw [h]; rfl
  · rw [h]; exact dataPath_log rfl

theorem dataPath_record (s : Session) (o : Outcome) :
    (s.recordHandshakeOutcome o).dataPath = s.dataPath := by
  rcases s.record_cases o with h | ⟨_, h⟩
  · rw [h]
  · rw [h]; exact dataPath_log rfl

theorem dataPath_teardown (cfg : Config) (s : Session) :
    (s.teardown cfg).dataPath = s.dataPath := by
  unfold Session.teardown
  cases s.stopOnce with
  | fresh | done => rfl
  | running r pc =>
    cases pc with
    | release ip =>
      cases ip with
      | none => rfl
      | some ip => exact dataPath_log rfl
    | closeConns cs => cases cs <;> rfl
    | storeReason | closeStopCh | snapshot | remove | loadPublished => rfl

theorem dataPath_waits {inp : Input} (h : inp.waits = true) :
    (s.step A cfg inp).dataPath = s.dataPath :=
  waits_rule (P := fun t => t.dataPath = s.dataPath) (fun _ => rfl)
    (fun _ _ _ _ => dataPath_record s .timedOut) (fun r pc _ _ => dataPath_callClose s r pc)
    (fun _ _ => dataPath_log rfl) h

/-! ## The steps that add a generation -/

theorem dataPath_handshake (A : Aead) (cfg : Config) (s : Session) (e : Env) :
    DataStep A s.dataPath none (s.handshake cfg e).dataPath := by
  have hstep := handshake_cases cfg s e
  generalize s.handshake cfg e = t at hstep
  have quiet : ∀ {u : Session}, u.dataPath = s.dataPath →
      DataStep A s.dataPath none u.dataPath := by
    intro u hu
    rw [hu]; exact .same
  cases hstep with
  | move | establish | publish => exact .same
  | @record o _ _ => exact quiet (dataPath_record s o)
  | grant | release | callOnSession => exact quiet (dataPath_log rfl)
  | publishKeys => exact .grow (grown_append s.gens _)
  | @close r pc _ => exact quiet (dataPath_callClose s r pc)

theorem dataPath_runRenegotiation (A : Aead) (s : Session) (i : Nat) (e : Env) :
    DataStep A s.dataPath none (s.runRenegotiation i e).dataPath := by
  obtain ⟨_, _, _, _, _, _, _, ws, _, es, _, _, hes, h⟩ := s.runRenegotiation_frame i e
  have hqueued : (s.hist ++ es).filter Event.ofData = s.hist.filter Event.ofData := by
    refine filter_append_of_all hes ?_
    intro e he
    cases e <;> first | rfl | cases he
  have hpath : (s.runRenegotiation i e).dataPath = { s.dataPath with gens := s.gens ++ ws } :=
    (congrArg Session.dataPath h).trans
      (congrArg (fun q => DataPath.mk s.clock (s.gens ++ ws) s.calls q) hqueued)
  rw [hpath]
  exact .grow (grown_append s.gens ws)

theorem dataPath_sealWrite (A : Aead) (s : Session) (i : Nat) :
    DataStep A s.dataPath none (s.sealWrite A i).dataPath := by
  unfold Session.sealWrite
  cases s.writes[i]? with
  | none => exact .same
  | some x =>
    obtain ⟨g, p⟩ := x
    dsimp only
    cases hg : s.gens[g]? with
    | none => exact .same
    | some w => exact .grow (grown_set hg (succeeds_seal A w p))

/-! ## A call on its way -/

/-- The packet opens under the generation, or only its window may move. -/
theorem openUnder_cases (A : Aead) (s : Session) (g : Nat) (packet : Bytes) :
    (∃ w q, s.gens[g]? = some w ∧ (w.open A packet).2 = .ok q
        ∧ s.openUnder A g packet = ({ s with gens := s.gens.set g (w.open A packet).1 }, .ok q))
      ∨ ∃ gens err, Grown s.gens gens
        ∧ s.openUnder A g packet = ({ s with gens := gens }, .error err) := by
  unfold Session.openUnder
  cases hg : s.gens[g]? with
  | none => exact .inr ⟨s.gens, .auth, grown_refl s.gens, rfl⟩
  | some w =>
    dsimp only
    cases ho : (w.open A packet).2 with
    | ok q => exact .inl ⟨w, q, rfl, ho, rfl⟩
    | error err => exact .inr ⟨_, err, grown_set hg (succeeds_open A w packet), rfl⟩

theorem dataPath_dataStep (A : Aead) (s : Session) (i : Nat) (e : Env) :
    DataStep A s.dataPath none (s.dataStep A i e).dataPath := by
  unfold Session.dataStep
  cases hi : s.calls[i]? with
  | none => exact .same
  | some c =>
    have advance : ∀ {pc : DataPc} {gens : List Wrapper}, Grown s.gens gens → pc.delivers = false →
        (pc = .openLameDuck → before s.clock c.lameDuck.mustDie = true) →
        DataStep A s.dataPath none
          (({ s with gens := gens } : Session).setCall i { c with pc := pc }).dataPath :=
      fun hg hpc hduck => .advance (v := s.dataPath) hi hg hpc hduck
    dsimp only
    cases hpc : c.pc with
    | openPrimary =>
      cases hw : c.primary.wrapper with
      | none => exact advance (grown_refl _) rfl nofun
      | some g =>
        dsimp only
        rcases openUnder_cases A s g c.packet with ⟨w, q, hg, ho, hres⟩ | ⟨gens, err, hg, hres⟩
        · rw [hres]
          exact .opened (v := s.dataPath) hi (by rw [hpc]; rfl) (.inl hw) hg ho
        · rw [hres]
          cases err with
          | pingAbsorbed | short | auth | replay => exact advance hg rfl nofun
    | tryLameDuck =>
      dsimp only
      split
      · exact advance (grown_refl _) rfl nofun
      · rename_i h
        refine advance (grown_refl _) rfl fun _ => ?_
        exact Classical.byContradiction fun hb => h (.inr hb)
    | openLameDuck =>
      cases hw : c.lameDuck.wrapper with
      | none => exact advance (grown_refl _) rfl nofun
      | some g =>
        dsimp only
        rcases openUnder_cases A s g c.packet with ⟨w, q, hg, ho, hres⟩ | ⟨gens, err, hg, hres⟩
        · rw [hres]
          exact .opened (v := s.dataPath) hi (by rw [hpc]; rfl) (.inr ⟨hw, hpc⟩) hg ho
        · rw [hres]
          exact advance hg rfl nofun
    | deliver g q =>
      have hend : ∀ {t : Session} (es : List Event), es = [] ∨ es = [.queued c g q] →
          t.dataPath = { s.dataPath with
            calls := s.calls.set i { c with pc := .ended }
            queued := s.dataPath.queued ++ es } →
          DataStep A s.dataPath none t.dataPath := by
        intro t es hes ht
        rw [ht]
        exact .deliver (v := s.dataPath) hi hpc hes
      dsimp only
      split
      · exact hend [] (.inl rfl) (by rw [List.append_nil]; rfl)
      · split
        · refine hend [.queued c g q] (.inr rfl) ?_
          exact congrArg
            (fun l => DataPath.mk s.clock s.gens (s.calls.set i { c with pc := .ended }) l)
            (List.filter_append s.hist [.queued c g q])
        · exact hend [] (.inl rfl) (by rw [List.append_nil]; rfl)
    | ended => exact .same

/-- **The session refines the data path**, whatever its goroutines do. -/
theorem dataPath_step (A : Aead) (cfg : Config) (s : Session) (inp : Input) :
    DataStep A s.dataPath (s.newCall inp) (s.step A cfg inp).dataPath := by
  have quiet : ∀ {u : Session}, u.dataPath = s.dataPath →
      DataStep A s.dataPath none u.dataPath := by
    intro u hu
    rw [hu]; exact .same
  cases inp with
  | handshake e => exact dataPath_handshake A cfg s e
  | handshakeWindow | closer | callback => exact quiet (dataPath_waits rfl)
  | close => exact quiet rfl
  | teardown => exact quiet (dataPath_teardown cfg s)
  | softReset | beginRenegotiation | renegotiationWindow | runReneg | write =>
    exact quiet (s.books_rule (P := fun t => t.dataPath = s.dataPath) (by intros; rfl) rfl)
  | runRenegotiation i e => exact dataPath_runRenegotiation A s i e
  | packet p => exact .read (v := s.dataPath) rfl rfl
  | data i e => exact dataPath_dataStep A s i e
  | sealWrite i => exact dataPath_sealWrite A s i
  | elapse ns =>
    exact .elapse (v := s.dataPath) (Int.le_add_of_nonneg_right (Int.natCast_nonneg ns))

end GoVpn.Proof
