import GoVpn.Proof.SlotSteps
import Mathlib.Data.List.Nodup
import GoVpn.Lib.Tally

/-!
# Safety of the key slots

Up to three generations of keys exist at once, under key-ids from a space of eight.
They stay apart because each is the successor of the one before: the lame duck is
what the primary replaced, and the pending one follows the primary. The connections
stay apart because each renegotiation brings its own.
-/

namespace GoVpn.Ovpn

/-- The connections the renegotiations brought, in order. -/
def Slots.renegConns (v : Slots) : List Nat := v.renegs.map Reneg.conn

/-- Which connections and slots there can be. -/
structure Slots.Named (v : Slots) : Prop where
  first : 0 < v.conns.length
  bounds : ∀ c ∈ v.renegConns, 0 < c ∧ c < v.conns.length
  distinct : v.renegConns.Nodup
  unkeyed : v.keyed = false → v.primary = {} ∧ v.lameDuck = {} ∧ v.pending = none ∧ v.renegs = []
    ∧ v.poll = .notStarted
  keyed : v.keyed = true → v.primary.conn.isSome = true ∧ v.primary.wrapper.isSome = true

/-- The first connection, or that of a renegotiation that went through. -/
def Slots.Settled (v : Slots) (c : Nat) : Prop :=
  c = 0 ∨ ∃ (i : Nat) (n : Reneg), v.renegs[i]? = some n ∧ n.conn = c ∧ n.pc = .completed

/-- A renegotiation that has the marker has not come through, and its window has not expired. -/
structure Reneg.Pending (n : Reneg) (keyID : KeyID) (stopped : Bool) : Prop where
  keyID : n.keyID = keyID
  pc : n.pc ≠ .completed
  window : n.window ≠ .closeConn
  live : stopped = false → n.pc.live = true

/-- Who may hold which connection. -/
structure Slots.Apart (v : Slots) : Prop where
  primary : ∀ c, v.primary.conn = some c → v.Settled c
  lameDuck : ∀ c, v.lameDuck.conn = some c → v.Settled c ∧ v.primary.conn ≠ some c
  swept : ∀ c, v.poll = .closeSwept c → v.Settled c ∧ v.primary.conn ≠ some c
  pending : ∀ c, v.pending = some c →
    ∃ (i : Nat) (n : Reneg), v.renegs[i]? = some n ∧ n.conn = c ∧ n.Pending v.pendingKeyID v.stopped
  /-- A window about to close a connection took the marker away in time. -/
  window : ∀ (i : Nat) (n : Reneg), v.renegs[i]? = some n → n.window = .closeConn →
    n.pc ≠ .completed

/-- The key-ids follow each other. -/
structure Slots.Successive (v : Slots) : Prop where
  lameDuck : v.lameDuck ≠ {} → v.primary.keyID = nextKeyID v.lameDuck.keyID
  pending : v.pending.isSome = true → v.pendingKeyID = nextKeyID v.primary.keyID

/-- A generation is demoted once, and dies when that said. -/
structure Slots.Mortal (v : Slots) : Prop where
  primary : ∀ g, v.primary.wrapper = some g → g < v.gens ∧ ∀ t, (g, t) ∉ v.demotions
  lameDuck : ∀ g, v.lameDuck.wrapper = some g →
    ∃ t, v.lameDuck.mustDie = some t ∧ (g, t) ∈ v.demotions
  bound : ∀ g t, (g, t) ∈ v.demotions → g < v.gens
  once : ∀ g t t', (g, t) ∈ v.demotions → (g, t') ∈ v.demotions → t = t'

/-- Closed by nothing but the teardown of the session, if at all. -/
def Slots.Clean (v : Slots) (c : Nat) : Prop :=
  ∀ k, v.conns[c]? = some k → ∀ x ∈ k.closedBy, x = .teardown

/-- The connections in use are clean. -/
structure Slots.InUse (v : Slots) : Prop where
  unkeyed : v.keyed = false → v.Clean 0
  primary : ∀ c, v.primary.conn = some c → v.Clean c
  pending : v.stopped = false → ∀ c, v.pending = some c → v.Clean c

end GoVpn.Ovpn

namespace GoVpn.Proof

open GoVpn.Data (Aead zeroTagAead)
open GoVpn.Ovpn

variable {v v' : Slots}

/-! ## What the updates leave alone -/

@[simp] theorem length_closeConn (v : Slots) (c : Nat) (k : CloseCause) :
    (v.closeConn c k).conns.length = v.conns.length := List.length_modify ..

variable {c i j : Nat} {n m : Reneg}

theorem renegConns_setReneg (h : v.renegs[i]? = some n)
    (hc : m.conn = n.conn) : (v.setReneg i m).renegConns = v.renegConns := by
  refine List.ext_getElem? fun j => ?_
  unfold Slots.renegConns Slots.setReneg
  simp only [List.getElem?_map, List.getElem?_set]
  split
  · rename_i hij
    subst hij
    obtain ⟨hlt, _⟩ := List.getElem?_eq_some_iff.mp h
    rw [if_pos hlt, h, Option.map_some, Option.map_some, hc]
  · rfl

/-- After an update, a renegotiation is the updated one or another. -/
theorem setReneg_cases (h : (v.setReneg i m).renegs[j]? = some n) :
    j = i ∧ n = m ∨ j ≠ i ∧ v.renegs[j]? = some n :=
  Tally.getElem?_set_cases h

theorem getElem?_setReneg_self (h : v.renegs[i]? = some n) :
    (v.setReneg i m).renegs[i]? = some m := by
  obtain ⟨hlt, _⟩ := List.getElem?_eq_some_iff.mp h
  unfold Slots.setReneg
  simp [hlt]

theorem getElem?_setReneg_ne (h : j ≠ i) : (v.setReneg i m).renegs[j]? = v.renegs[j]? :=
  List.getElem?_set_ne h.symm

theorem clearPending_pending (h : (v.clearPending c).pending = some j) :
    v.pending = some j ∧ j ≠ c := by
  unfold Slots.clearPending at h
  split at h
  · cases h
  · rename_i hother
    exact ⟨h, fun hjc => hother (hjc ▸ h)⟩

theorem clearPending_eq (v : Slots) (c : Nat) :
    v.clearPending c = { v with pending := (v.clearPending c).pending } := by
  unfold Slots.clearPending
  split <;> rfl

theorem closeReplaced_conns (v : Slots) (o : Option Nat) :
    v.closeReplaced o = { v with conns := (v.closeReplaced o).conns } := by
  cases o <;> rfl

@[simp] theorem length_closeReplaced (v : Slots) (o : Option Nat) :
    (v.closeReplaced o).conns.length = v.conns.length := by
  cases o with
  | none => rfl
  | some c => exact length_closeConn v c .swap

theorem RenegMove.conn (h : RenegMove v n m) : m.conn = n.conn ∧ m.keyID = n.keyID := by
  cases h <;> exact ⟨rfl, rfl⟩

/-- Such a move neither ends a renegotiation nor takes up one that is over. -/
theorem renegMove_pc (h : RenegMove v n m) {q : RenegPc} (hq : q = .failed ∨ q = .completed) :
    m.pc = q ↔ n.pc = q := by
  have dead : ∀ {pc : RenegPc}, pc.live = true → pc ≠ q := by
    rintro pc hl rfl
    rcases hq with rfl | rfl <;> cases hl
  cases h with
  | begin hb => exact iff_of_false (dead rfl) (hb ▸ dead rfl)
  | go hl hl' => exact iff_of_false (dead hl') (dead hl)
  | refuse hr =>
    refine iff_of_false ?_ (hr ▸ dead rfl)
    rcases hq with rfl | rfl <;> nofun
  | window => exact Iff.rfl

theorem reneg_unique (h : v.Named) (hi : v.renegs[i]? = some n)
    (hj : v.renegs[j]? = some m) (hc : n.conn = m.conn) : i = j := by
  obtain ⟨hlt, _⟩ := List.getElem?_eq_some_iff.mp hi
  have hlt' : i < v.renegConns.length := by rw [Slots.renegConns, List.length_map]; exact hlt
  refine (List.getElem?_inj hlt' h.distinct).mp ?_
  unfold Slots.renegConns
  rw [List.getElem?_map, List.getElem?_map, hi, hj]
  exact congrArg some hc

theorem reneg_conn_mem (h : v.renegs[i]? = some n) : n.conn ∈ v.renegConns :=
  List.mem_map_of_mem (List.mem_of_getElem? h)

/-! ## Which connections there are -/

theorem named_new (self : Nat) (now : Int) : (Session.new self now).slots.Named :=
  ⟨Nat.one_pos, nofun, List.nodup_nil, fun _ => ⟨rfl, rfl, rfl, rfl, rfl⟩, nofun⟩

theorem named_mono (h : v.Named) (hl : v'.conns.length = v.conns.length)
    (hr : v'.renegConns = v.renegConns) (hk : v'.keyed = v.keyed)
    (hkeyed : v.keyed = true → v'.primary.conn.isSome = true ∧ v'.primary.wrapper.isSome = true)
    (hunkeyed : v.keyed = false → v'.primary = {} ∧ v'.lameDuck = {} ∧ v'.pending = none ∧
    v'.renegs = []
      ∧ v'.poll = .notStarted) : v'.Named := by
  refine ⟨hl ▸ h.first, ?_, hr ▸ h.distinct, hk ▸ hunkeyed, hk ▸ hkeyed⟩
  rw [hr, hl]
  exact h.bounds

theorem keyed_of_reneg (h : v.Named) (hi : v.renegs[i]? = some n) : v.keyed = true := by
  cases hk : v.keyed with
  | true => rfl
  | false =>
    rw [(h.unkeyed hk).2.2.2.1] at hi
    cases hi

/-- Every step keeps the connections named. -/
theorem named_step (h : v.Named) (hs : SlotStep v v') : v'.Named := by
  -- a change of one renegotiation, with whatever goes with it
  have reneg : ∀ {i : Nat} {n m : Reneg} {w : Slots}, v.renegs[i]? = some n → m.conn = n.conn →
      w.renegs = v.renegs → w.conns.length = v.conns.length → w.keyed = v.keyed →
      w.primary.conn.isSome = true ∧ w.primary.wrapper.isSome = true → (w.setReneg i m).Named := by
    intro i n m w hi hc hr hl hk hp
    have hkey := keyed_of_reneg h hi
    refine named_mono h hl ?_ hk (fun _ => hp) fun hf => ?_
    · rw [renegConns_setReneg (v := w) (hr ▸ hi) hc, Slots.renegConns, hr]; rfl
    · cases hkey.symm.trans hf
  cases hs with
  | same => exact h
  | elapse | startClose | stop | snapshot | body =>
    exact named_mono h rfl rfl rfl h.keyed h.unkeyed
  | closeFirst | closeNext => exact named_mono h (length_closeConn ..) rfl rfl h.keyed h.unkeyed
  | publishKeys hk =>
    exact ⟨h.first, h.bounds, h.distinct, nofun, fun _ => ⟨rfl, rfl⟩⟩
  | poll hp | sweep hp =>
    refine named_mono h rfl rfl rfl h.keyed fun hk => ?_
    rw [(h.unkeyed hk).2.2.2.2] at hp; cases hp
  | closeSwept hp =>
    refine named_mono h (length_closeConn ..) rfl rfl h.keyed fun hk => ?_
    rw [(h.unkeyed hk).2.2.2.2] at hp; cases hp
  | start _ hc =>
    have hconns : v.start.conns.length = v.conns.length + 1 := List.length_append
    have hren : v.start.renegConns = v.renegConns ++ [v.conns.length] := List.map_append
    refine ⟨?_, ?_, ?_, fun hk => ?_, h.keyed⟩
    · exact Nat.lt_of_lt_of_eq (Nat.succ_pos _) hconns.symm
    · intro c hc
      rw [hconns]
      rcases List.mem_append.mp (hren ▸ hc : c ∈ v.renegConns ++ [v.conns.length]) with hc | hc
      · exact ⟨(h.bounds c hc).1, Nat.lt_succ_of_lt (h.bounds c hc).2⟩
      · rw [List.mem_singleton.mp hc]
        exact ⟨h.first, Nat.lt_succ_self _⟩
    · show v.start.renegConns.Nodup
      rw [hren, List.nodup_append]
      refine ⟨h.distinct, List.nodup_singleton _, ?_⟩
      intro a ha b hb hab
      rw [List.mem_singleton.mp hb] at hab
      exact absurd (h.bounds a ha).2 (hab ▸ Nat.lt_irrefl _)
    · rw [show v.primary = {} from (h.unkeyed hk).1] at hc; cases hc
  | reneg hi hm => exact reneg hi (RenegMove.conn hm).1 rfl rfl rfl (h.keyed (keyed_of_reneg h hi))
  | @drop i n _ hi _ =>
    rw [clearPending_eq]
    exact reneg (n := n) hi rfl rfl rfl rfl (h.keyed (keyed_of_reneg h hi))
  | @closeOwn i n _ hi _ =>
    exact reneg (n := n) hi rfl rfl (length_closeConn ..) rfl (h.keyed (keyed_of_reneg h hi))
  | @swap i n _ hi _ _ _ =>
    rw [closeReplaced_conns]
    exact reneg (n := n) hi rfl rfl (length_closeReplaced ..) rfl ⟨rfl, rfl⟩
  | @expire i n hi _ _ => exact reneg (n := n) hi rfl rfl rfl rfl (h.keyed (keyed_of_reneg h hi))
  | @closeExpired i n hi _ =>
    exact reneg (n := n) hi rfl rfl (length_closeConn ..) rfl (h.keyed (keyed_of_reneg h hi))

/-! ## Who holds them -/

theorem apart_new (self : Nat) (now : Int) : (Session.new self now).slots.Apart :=
  ⟨nofun, nofun, nofun, nofun, nofun⟩

theorem ne_of_settled (hn : v.Named) (hi : v.renegs[i]? = some n)
    (hpc : n.pc ≠ .completed) (hc : v.Settled c) : c ≠ n.conn := by
  rintro rfl
  rcases hc with h0 | ⟨j, m, hj, hm, hdone⟩
  · exact absurd (hn.bounds _ (reneg_conn_mem hi)).1 (h0 ▸ Nat.lt_irrefl 0)
  · have hij := reneg_unique hn hj hi hm
    rw [hij, hi, Option.some.injEq] at hj
    exact hpc (hj ▸ hdone)

theorem pending_of_eq (hn : v.Named) (h : v.Apart)
    (hi : v.renegs[i]? = some n) (hp : v.pending = some n.conn) :
    n.Pending v.pendingKeyID v.stopped := by
  obtain ⟨j, m, hj, hm, hpend⟩ := h.pending _ hp
  have hij := reneg_unique hn hj hi hm
  rw [hij, hi, Option.some.injEq] at hj
  exact hj ▸ hpend

variable {k : CloseCause} {s : Session} {w : Slots}

theorem settled_setReneg (hr : w.renegs = v.renegs) (hi : v.renegs[i]? = some n)
    (hc : m.conn = n.conn) (hp : n.pc = .completed → m.pc = .completed) (h : v.Settled c) :
    (w.setReneg i m).Settled c := by
  rcases h with h0 | ⟨j, k, hj, hk, hdone⟩
  · exact .inl h0
  · refine .inr ?_
    by_cases hji : j = i
    · subst hji
      rw [hi, Option.some.injEq] at hj
      subst hj
      exact ⟨j, m, getElem?_setReneg_self (hr ▸ hi), hc.trans hk, hp hdone⟩
    · exact ⟨j, k, by rw [getElem?_setReneg_ne hji, hr]; exact hj, hk, hdone⟩

theorem apart_setReneg (h : v.Apart) (hi : v.renegs[i]? = some n) (hr : w.renegs = v.renegs)
    (hprim : w.primary = v.primary) (hlame : w.lameDuck = v.lameDuck) (hpoll : w.poll = v.poll)
    (hkey : w.pendingKeyID = v.pendingKeyID) (hstop : w.stopped = v.stopped)
    (hpend : ∀ c, w.pending = some c → v.pending = some c)
    (hown : w.pending = some n.conn → m.Pending v.pendingKeyID v.stopped) (hc : m.conn = n.conn)
    (hp : n.pc = .completed → m.pc = .completed)
    (hwin : m.window = .closeConn → m.pc ≠ .completed) : (w.setReneg i m).Apart := by
  have settled : ∀ {c : Nat}, v.Settled c → (w.setReneg i m).Settled c := fun hs =>
    settled_setReneg hr hi hc hp hs
  have keep : ∀ {k : Reneg}, k.Pending v.pendingKeyID v.stopped →
      k.Pending (w.setReneg i m).pendingKeyID (w.setReneg i m).stopped := by
    intro k hk
    exact ⟨hk.keyID.trans hkey.symm, hk.pc, hk.window, fun hs => hk.live (hstop ▸ hs)⟩
  refine ⟨?_, ?_, ?_, ?_, ?_⟩
  · exact fun c hc => settled (h.primary c (hprim ▸ hc))
  · intro c hc
    obtain ⟨h1, h2⟩ := h.lameDuck c (hlame ▸ hc)
    exact ⟨settled h1, show w.primary.conn ≠ some c from hprim ▸ h2⟩
  · intro c hc
    obtain ⟨h1, h2⟩ := h.swept c (hpoll ▸ hc)
    exact ⟨settled h1, show w.primary.conn ≠ some c from hprim ▸ h2⟩
  · intro c hcw
    obtain ⟨j, k, hj, hk, hpk⟩ := h.pending c (hpend c hcw)
    by_cases hji : j = i
    · subst hji
      rw [hi, Option.some.injEq] at hj
      subst hj
      exact ⟨j, m, getElem?_setReneg_self (hr ▸ hi), hc.trans hk, keep (hown (hk ▸ hcw))⟩
    · exact ⟨j, k, by rw [getElem?_setReneg_ne hji, hr]; exact hj, hk, keep hpk⟩
  · intro j k hj hk
    rcases setReneg_cases hj with ⟨_, rfl⟩ | ⟨_, hj⟩
    · exact hwin hk
    · exact h.window j k (hr ▸ hj) hk

theorem getElem?_start {k : Reneg} (h : v.renegs[j]? = some k) : v.start.renegs[j]? = some k :=
  (List.getElem?_append_left (List.getElem?_eq_some_iff.mp h).1).trans h

/-- After a start, a renegotiation is the new one or an old one. -/
theorem start_cases {k : Reneg} (h : v.start.renegs[j]? = some k) :
    k = { conn := v.conns.length, keyID := nextKeyID v.primary.keyID } ∨ v.renegs[j]? = some k :=
  (Tally.getElem?_concat_cases h).imp_left And.right

/-- A new renegotiation takes the marker and touches nothing else. -/
theorem apart_start {p : PollPc} (h : v.Apart)
    (hpoll : p = v.poll ∨ v.poll.quiet = true ∧ p.quiet = true) :
    ({ v.start with poll := p } : Slots).Apart := by
  have settled : ∀ {c : Nat}, v.Settled c → v.start.Settled c := by
    rintro c (h0 | ⟨j, k, hj, hk⟩)
    · exact .inl h0
    · exact .inr ⟨j, k, getElem?_start hj, hk⟩
  refine ⟨?_, ?_, ?_, ?_, ?_⟩
  · exact fun c hc => settled (h.primary c hc)
  · exact fun c hc => ⟨settled (h.lameDuck c hc).1, (h.lameDuck c hc).2⟩
  · intro c hc
    rcases hpoll with rfl | ⟨_, hq⟩
    · exact ⟨settled (h.swept c hc).1, (h.swept c hc).2⟩
    · rw [show p = .closeSwept c from hc] at hq; cases hq
  · intro c hc
    have hconn : v.conns.length = c := Option.some.inj hc
    refine ⟨v.renegs.length, _, List.getElem?_concat_length, hconn, ?_⟩
    exact ⟨rfl, nofun, nofun, fun _ => rfl⟩
  · intro j k hj hk
    rcases start_cases hj with rfl | hj
    · cases hk
    · exact h.window j k hj hk

theorem apart_swap (hn : v.Named) (h : v.Apart) (hi : v.renegs[i]? = some n)
    (hp : v.pending = some n.conn) (hr : w.renegs = v.renegs) (hprim : w.primary.conn = some n.conn)
    (hlame : w.lameDuck.conn = v.primary.conn) (hpoll : w.poll = v.poll)
    (hpend : w.pending = none) : (w.setReneg i { n with pc := .completed }).Apart := by
  have hown := pending_of_eq hn h hi hp
  have settled : ∀ {c : Nat}, v.Settled c → (w.setReneg i { n with pc := .completed }).Settled c :=
    fun hs => settled_setReneg hr hi rfl (fun _ => rfl) hs
  have hne : ∀ {c : Nat}, v.Settled c → w.primary.conn ≠ some c := by
    intro c hs hc
    rw [hprim, Option.some.injEq] at hc
    exact ne_of_settled hn hi hown.pc hs hc.symm
  refine ⟨?_, ?_, ?_, ?_, ?_⟩
  · intro c hc
    have hnc : n.conn = c := Option.some.inj (hprim.symm.trans hc)
    exact .inr ⟨i, _, getElem?_setReneg_self (hr ▸ hi), hnc, rfl⟩
  · intro c hc
    have hs := h.primary c (hlame ▸ hc)
    exact ⟨settled hs, hne hs⟩
  · intro c hc
    have hs := (h.swept c (hpoll ▸ hc)).1
    exact ⟨settled hs, hne hs⟩
  · intro c hc
    rw [show (w.setReneg i _).pending = none from hpend] at hc
    cases hc
  · intro j k hj hk
    rcases setReneg_cases hj with ⟨_, rfl⟩ | ⟨_, hj⟩
    · exact absurd hk hown.window
    · exact h.window j k (hr ▸ hj) hk

/-- Every step keeps the holders of connections apart. -/
theorem apart_step (hn : v.Named) (h : v.Apart) (hs : SlotStep v v') : v'.Apart := by
  cases hs with
  | same => exact h
  | elapse | startClose | snapshot | body | closeFirst | closeNext =>
    exact ⟨h.primary, h.lameDuck, h.swept, h.pending, h.window⟩
  | stop =>
    refine ⟨h.primary, h.lameDuck, h.swept, fun c hc => ?_, h.window⟩
    obtain ⟨i, n, hi, hnc, hp⟩ := h.pending c hc
    exact ⟨i, n, hi, hnc, hp.keyID, hp.pc, hp.window, nofun⟩
  | publishKeys hk =>
    obtain ⟨_, hl, hp, hr, _⟩ := hn.unkeyed hk
    refine ⟨?_, ?_, nofun, ?_, ?_⟩
    · intro c hc
      exact .inl (Option.some.inj hc).symm
    · intro c hc
      rw [show v.lameDuck = {} from hl] at hc; cases hc
    · intro c hc
      rw [show v.pending = none from hp] at hc; cases hc
    · intro i n hi
      rw [show v.renegs = [] from hr] at hi; cases hi
  | @poll p _ hq =>
    refine ⟨h.primary, h.lameDuck, ?_, h.pending, h.window⟩
    intro c hc
    rw [show p = .closeSwept c from hc] at hq; cases hq
  | sweep =>
    refine ⟨h.primary, nofun, ?_, h.pending, h.window⟩
    intro c hc
    split at hc
    · rename_i hd
      cases hc
      exact h.lameDuck c hd
    · cases hc
  | closeSwept => exact ⟨h.primary, h.lameDuck, nofun, h.pending, h.window⟩
  | start _ _ _ hpoll => exact apart_start h hpoll
  | @reneg i n m hi hm =>
    have hconn := RenegMove.conn hm
    refine apart_setReneg h hi rfl rfl rfl rfl rfl rfl (fun _ hc => hc) ?_ hconn.1 ?_ ?_
    · intro hp
      have hown := pending_of_eq hn h hi hp
      cases hm with
      | begin => exact ⟨hown.keyID, nofun, nofun, fun _ => rfl⟩
      | go _ hl =>
        refine ⟨hown.keyID, ?_, hown.window, fun _ => hl⟩
        rintro rfl; cases hl
      | refuse _ hr =>
        refine ⟨hown.keyID, nofun, hown.window, fun hs => ?_⟩
        rcases hr with hr | hr
        · cases hr.symm.trans hs
        · exact absurd hp hr
      | window => exact ⟨hown.keyID, hown.pc, nofun, hown.live⟩
    · exact (renegMove_pc hm (.inr rfl)).mpr
    · intro hw hdone
      refine h.window i n hi ?_ ((renegMove_pc hm (.inr rfl)).mp hdone)
      cases hm <;> first | exact hw | cases hw
  | @drop i n auth hi hl =>
    rw [clearPending_eq]
    refine apart_setReneg h hi rfl rfl rfl rfl rfl rfl ?_ ?_ rfl ?_ (fun _ => nofun)
    · exact fun c hc => (clearPending_pending hc).1
    · exact fun hc => absurd rfl (clearPending_pending hc).2
    · intro hdone
      rw [hdone] at hl; cases hl
  | @closeOwn i n auth hi hpc =>
    refine apart_setReneg h hi rfl rfl rfl rfl rfl rfl (fun _ hc => hc) ?_ rfl ?_ (fun _ => nofun)
    · intro hp
      have hown := pending_of_eq hn h hi hp
      refine ⟨hown.keyID, nofun, hown.window, fun hs => ?_⟩
      have hl := hown.live hs
      rw [hpc] at hl; cases hl
    · intro hdone
      cases hpc.symm.trans hdone
  | swap hi _ _ hp =>
    rw [closeReplaced_conns]
    exact apart_swap hn h hi hp rfl rfl rfl rfl rfl
  | @expire i n hi hw hp =>
    have hown := pending_of_eq hn h hi hp
    exact apart_setReneg h hi rfl rfl rfl rfl rfl rfl nofun nofun rfl id (fun _ => hown.pc)
  | @closeExpired i n hi hw =>
    refine apart_setReneg h hi rfl rfl rfl rfl rfl rfl (fun _ hc => hc) ?_ rfl id nofun
    intro hp
    exact absurd hw (pending_of_eq hn h hi hp).window

/-! ## Key-ids -/

theorem nextKeyID_ne (k : KeyID) : nextKeyID k ≠ k ∧ nextKeyID (nextKeyID k) ≠ k := by
  have hall : ∀ n : Fin 256, nextKeyID (UInt8.ofFin n) ≠ UInt8.ofFin n
      ∧ nextKeyID (nextKeyID (UInt8.ofFin n)) ≠ UInt8.ofFin n := by decide +kernel
  exact hall k.toFin

theorem successive_new (self : Nat) (now : Int) : (Session.new self now).slots.Successive :=
  ⟨fun h => absurd rfl h, nofun⟩

/-- Every step keeps the key-ids in succession. -/
theorem successive_step (hn : v.Named) (ha : v.Apart) (h : v.Successive) (hs : SlotStep v v') :
    v'.Successive := by
  cases hs with
  | same => exact h
  | elapse | startClose | stop | snapshot | body | closeFirst | closeNext | poll
    | closeSwept | reneg | closeOwn | closeExpired => exact ⟨h.lameDuck, h.pending⟩
  | publishKeys hk =>
    obtain ⟨_, hl, hp, _, _⟩ := hn.unkeyed hk
    refine ⟨fun hw => absurd hl hw, fun hw => ?_⟩
    · rw [show v.pending = none from hp] at hw; cases hw
  | sweep => exact ⟨fun hw => absurd rfl hw, h.pending⟩
  | start => exact ⟨h.lameDuck, fun _ => rfl⟩
  | @drop i n _ _ _ =>
    rw [clearPending_eq]
    refine ⟨h.lameDuck, fun hw => h.pending ?_⟩
    obtain ⟨d, hd⟩ := Option.isSome_iff_exists.mp hw
    rw [(clearPending_pending hd).1]
    rfl
  | swap hi _ _ hp =>
    rw [closeReplaced_conns]
    have hown := pending_of_eq hn ha hi hp
    refine ⟨fun _ => ?_, nofun⟩
    exact hown.keyID.trans (h.pending (by rw [hp]; rfl))
  | expire => exact ⟨h.lameDuck, nofun⟩

/-! ## Demoted generations -/

theorem mortal_new (self : Nat) (now : Int) : (Session.new self now).slots.Mortal :=
  ⟨nofun, nofun, nofun, nofun⟩

theorem mortal_swap (h : v.Mortal) (n : Reneg) : (v.swap n).Mortal := by
  have hold : ∀ {g : Nat} {t : Int}, (g, t) ∈ (v.swap n).demotions → (g, t) ∈ v.demotions
      ∨ v.primary.wrapper = some g ∧ t = v.clock + transitionWindow := by
    intro g t hm
    rcases List.mem_append.mp hm with hm | hm
    · exact .inl hm
    · rw [Option.mem_toList, Option.map_eq_some_iff] at hm
      obtain ⟨g', hg, heq⟩ := hm
      cases heq
      exact .inr ⟨hg, rfl⟩
  have hbound : ∀ {g : Nat} {t : Int}, (g, t) ∈ (v.swap n).demotions → g < v.gens := by
    intro g t hm
    rcases hold hm with hm | ⟨hg, _⟩
    · exact h.bound g t hm
    · exact (h.primary g hg).1
  refine ⟨?_, ?_, fun g t hm => Nat.lt_succ_of_lt (hbound hm), ?_⟩
  · intro g hg
    have hgen : v.gens = g := Option.some.inj hg
    subst hgen
    exact ⟨Nat.lt_succ_self _, fun t hm => absurd (hbound hm) (Nat.lt_irrefl _)⟩
  · intro g hg
    have hprim : v.primary.wrapper = some g := hg
    refine ⟨_, rfl, List.mem_append_right _ ?_⟩
    rw [hprim]
    exact List.mem_singleton_self _
  · intro g t t' hm hm'
    rcases hold hm with hm | ⟨hg, ht⟩ <;> rcases hold hm' with hm' | ⟨hg', ht'⟩
    · exact h.once g t t' hm hm'
    · exact absurd hm ((h.primary g hg').2 t)
    · exact absurd hm' ((h.primary g hg).2 t')
    · rw [ht, ht']

/-- Every step keeps the records of demotions right. -/
theorem mortal_step (h : v.Mortal) (hs : SlotStep v v') : v'.Mortal := by
  cases hs with
  | same => exact h
  | elapse | startClose | stop | snapshot | body | closeFirst | closeNext | poll
    | closeSwept | start | reneg | closeOwn | expire | closeExpired =>
      exact ⟨h.primary, h.lameDuck, h.bound, h.once⟩
  | publishKeys =>
    refine ⟨?_, h.lameDuck, fun g t hm => Nat.lt_succ_of_lt (h.bound g t hm), h.once⟩
    intro g hg
    have hgen : v.gens = g := Option.some.inj hg
    subst hgen
    exact ⟨Nat.lt_succ_self _, fun t hm => absurd (h.bound _ t hm) (Nat.lt_irrefl _)⟩
  | sweep => exact ⟨h.primary, nofun, h.bound, h.once⟩
  | drop =>
    rw [clearPending_eq]
    exact ⟨h.primary, h.lameDuck, h.bound, h.once⟩
  | @swap i n _ _ _ _ _ =>
    rw [closeReplaced_conns]
    have hsw := mortal_swap h n
    exact ⟨hsw.primary, hsw.lameDuck, hsw.bound, hsw.once⟩

/-! ## Closed connections -/

theorem clean_closeConn {d : Nat} (h : v.Clean c) (hk : k = .teardown ∨ d ≠ c) :
    (v.closeConn d k).Clean c := by
  intro x hx y hy
  unfold Slots.closeConn at hx
  rw [List.getElem?_modify] at hx
  cases hc : v.conns[c]? with
  | none => rw [hc] at hx; cases hx
  | some x0 =>
    rw [hc, Option.map_eq_map, Option.map_some, Option.some.injEq] at hx
    subst hx
    split at hy
    · rename_i hdc
      rcases List.mem_append.mp hy with hy | hy
      · exact h x0 hc y hy
      · rcases hk with hk | hk
        · rw [List.mem_singleton.mp hy, hk]
        · exact absurd hdc hk
    · exact h x0 hc y hy

theorem clean_start (h : c < v.conns.length → v.Clean c) : v.start.Clean c := by
  intro x hx y hy
  rcases Tally.getElem?_concat_cases hx with ⟨-, rfl⟩ | hx
  · cases hy
  · exact h (List.getElem?_eq_some_iff.mp hx).1 x hx y hy

theorem inUse_new (self : Nat) (now : Int) : (Session.new self now).slots.InUse := by
  refine ⟨fun _ k hk x hx => ?_, nofun, nofun⟩
  rw [← Option.some.inj hk] at hx
  cases hx

theorem inUse_closeConn {d : Nat} (hw : w.conns = v.conns) (hk : w.keyed = true)
    (hprim : ∀ c, w.primary.conn = some c → v.Clean c ∧ d ≠ c)
    (hpend : w.stopped = false → ∀ c, w.pending = some c → v.Clean c ∧ d ≠ c) :
    (w.closeConn d k).InUse := by
  have clean : ∀ {c : Nat}, v.Clean c → w.Clean c := fun hc x hx => hc x (hw ▸ hx)
  refine ⟨fun hf => ?_, ?_, ?_⟩
  · rw [show (w.closeConn d k).keyed = true from hk] at hf; cases hf
  · intro c hc
    obtain ⟨h1, h2⟩ := hprim c hc
    exact clean_closeConn (clean h1) (.inr h2)
  · intro hstop c hc
    obtain ⟨h1, h2⟩ := hpend hstop c hc
    exact clean_closeConn (clean h1) (.inr h2)

theorem inUse_closeReneg (hn : v.Named) (ha : v.Apart) (h : v.InUse) (hi : v.renegs[i]? = some n)
    (hout : n.pc ≠ .completed) (hpend : v.stopped = false → v.pending ≠ some n.conn) :
    ((v.setReneg i m).closeConn n.conn k).InUse := by
  have hkey : v.keyed = true := keyed_of_reneg hn hi
  refine inUse_closeConn (v := v) (w := v.setReneg i m) rfl hkey ?_ ?_
  · intro c hc
    exact ⟨h.primary c hc, (ne_of_settled hn hi hout (ha.primary c hc)).symm⟩
  · intro hstop c hc
    exact ⟨h.pending hstop c hc, fun hnc => hpend hstop (hnc ▸ hc)⟩

/-- Every step keeps the connections in use clean. -/
theorem inUse_step (hn : v.Named) (ha : v.Apart) (h : v.InUse) (hs : SlotStep v v') : v'.InUse := by
  cases hs with
  | same => exact h
  | elapse | startClose | snapshot | body | poll | sweep | reneg =>
    exact ⟨h.unkeyed, h.primary, h.pending⟩
  | stop => exact ⟨h.unkeyed, h.primary, nofun⟩
  | closeFirst | closeNext =>
    exact ⟨fun hk => clean_closeConn (h.unkeyed hk) (.inl rfl),
      fun c hc => clean_closeConn (h.primary c hc) (.inl rfl),
      fun hs c hc => clean_closeConn (h.pending hs c hc) (.inl rfl)⟩
  | publishKeys hk =>
    refine ⟨nofun, ?_, h.pending⟩
    intro c hc
    rw [← Option.some.inj hc]
    exact h.unkeyed hk
  | @closeSwept c hp =>
    obtain ⟨hset, hne⟩ := ha.swept c hp
    have hkey : v.keyed = true := by
      cases hk : v.keyed with
      | true => rfl
      | false => rw [(hn.unkeyed hk).2.2.2.2] at hp; cases hp
    refine inUse_closeConn (v := v) rfl hkey ?_ ?_
    · exact fun d hd => ⟨h.primary d hd, fun hcd => hne (hcd ▸ hd)⟩
    · intro hstop d hd
      obtain ⟨i, n, hi, hnd, hown⟩ := ha.pending d hd
      refine ⟨h.pending hstop d hd, fun hcd => ?_⟩
      exact ne_of_settled hn hi hown.pc hset (hcd.trans hnd.symm)
  | start hstop _ hp =>
    refine ⟨fun hk => clean_start fun _ => h.unkeyed hk,
      fun c hc => clean_start fun _ => h.primary c hc, fun _ c hc => ?_⟩
    refine clean_start fun hlt => absurd hlt ?_
    rw [← Option.some.inj hc]
    exact Nat.lt_irrefl _
  | @drop i n _ _ _ =>
    rw [clearPending_eq]
    exact ⟨h.unkeyed, h.primary, fun hstop c hc => h.pending hstop c (clearPending_pending hc).1⟩
  | @closeOwn i n auth hi hpc =>
    have hout : n.pc ≠ .completed := by rw [hpc]; nofun
    refine inUse_closeReneg hn ha h hi hout fun hstop hp => ?_
    have hl := (pending_of_eq hn ha hi hp).live hstop
    rw [hpc] at hl; cases hl
  | @swap i n _ hi _ hstop hp =>
    have hown := pending_of_eq hn ha hi hp
    have hclean := h.pending hstop n.conn hp
    cases hl : v.lameDuck.conn with
    | none =>
      refine ⟨fun hk => ?_, ?_, nofun⟩
      · cases (keyed_of_reneg hn hi).symm.trans hk
      · intro c hc
        rw [← Option.some.inj hc]
        exact hclean
    | some d =>
      have hkey : v.keyed = true := keyed_of_reneg hn hi
      refine inUse_closeConn (v := v) (w := (v.swap n).setReneg i _) rfl hkey ?_ nofun
      intro c hc
      rw [← Option.some.inj hc]
      exact ⟨hclean, ne_of_settled hn hi hown.pc (ha.lameDuck d hl).1⟩
  | expire => exact ⟨h.unkeyed, h.primary, nofun⟩
  | @closeExpired i n hi hw =>
    have hout := ha.window i n hi hw
    exact inUse_closeReneg hn ha h hi hout fun _ hp => (pending_of_eq hn ha hi hp).window hw

/-! ## Whole runs -/

/-- Everything at once. -/
structure SlotsSafe (s : Session) : Prop where
  grants : s.life.Grants
  named : s.slots.Named
  apart : s.slots.Apart
  successive : s.slots.Successive
  mortal : s.slots.Mortal
  inUse : s.slots.InUse

theorem slotsSafe_new (self : Nat) (now : Int) : SlotsSafe (.new self now) :=
  ⟨grants_new self now, named_new self now, apart_new self now, successive_new self now,
    mortal_new self now, inUse_new self now⟩

/-- One step keeps all of it. -/
theorem slotsSafe_step {A : Aead} {cfg : Config} (h : SlotsSafe s) (inp : Input) :
    SlotsSafe (s.step A cfg inp) := by
  have hs : SlotStep s.slots (s.step A cfg inp).slots := slots_step h.grants inp
  exact ⟨grants_step h.grants inp, named_step h.named hs, apart_step h.named h.apart hs,
    successive_step h.named h.apart h.successive hs, mortal_step h.mortal hs,
    inUse_step h.named h.apart h.inUse hs⟩

/-- So it holds after every run. -/
theorem slotsSafe_run (A : Aead) (cfg : Config) (self : Nat) (now : Int) (ins : List Input) :
    SlotsSafe (Machine.run (Session.step A cfg) (.new self now) ins) :=
  Machine.run_invariant' (I := SlotsSafe) (fun _ inp h => slotsSafe_step h inp)
    (slotsSafe_new self now) ins

/-- A demotion stays on record. -/
theorem demotions_step {A : Aead} {cfg : Config} {d : Nat × Int} (h : SlotsSafe s) (inp : Input)
    (hd : d ∈ s.slots.demotions) : d ∈ (s.step A cfg inp).slots.demotions := by
  have hs : SlotStep s.slots (s.step A cfg inp).slots := slots_step h.grants inp
  generalize (s.step A cfg inp).slots = v' at hs
  cases hs with
  | swap => rw [closeReplaced_conns]; exact List.mem_append_left _ hd
  | drop => rw [clearPending_eq]; exact hd
  | _ => exact hd

/-- The slots as the renegotiations rely on them. -/
structure KeySlotsSafe (s : Session) : Prop where
  lameDuck_ne : s.lameDuck ≠ {} → s.lameDuck.keyID ≠ s.primary.keyID
  pending_ne : s.pendingReneg.isSome = true → s.pendingRenegKeyID ≠ s.primary.keyID
  pending_ne_lameDuck : s.pendingReneg.isSome = true → s.lameDuck ≠ {} →
    s.pendingRenegKeyID ≠ s.lameDuck.keyID
  pending_next : s.pendingReneg.isSome = true → s.pendingRenegKeyID = nextKeyID s.primary.keyID
  primary_open : ∀ c k, s.primary.conn = some c → s.conns[c]? = some k →
    ∀ x ∈ k.closedBy, x = .teardown

theorem keySlotsSafe_of_safe (h : SlotsSafe s) : KeySlotsSafe s := by
  have hlame : s.lameDuck ≠ {} → s.primary.keyID = nextKeyID s.lameDuck.keyID :=
    h.successive.lameDuck
  have hpend : s.pendingReneg.isSome = true → s.pendingRenegKeyID = nextKeyID s.primary.keyID :=
    h.successive.pending
  refine ⟨?_, ?_, ?_, hpend, fun c k hc hk => h.inUse.primary c hc k hk⟩
  · intro hl
    rw [hlame hl]
    exact (nextKeyID_ne _).1.symm
  · intro hp
    rw [hpend hp]
    exact (nextKeyID_ne _).1
  · intro hp hl
    rw [hpend hp, hlame hl]
    exact (nextKeyID_ne _).2

/--
**Key-slot safety.** In every state of every run of a session's goroutines, the
key-ids of the primary slot, of the lame duck if there is one and of the pending
renegotiation if there is one are pairwise distinct, the pending one follows the
primary's, and the primary's connection was closed by nothing but teardown. A
generation that is the lame duck at one point of a run has the same `mustDie`
whenever it is the lame duck later, and is never the primary again.
-/
theorem key_slots_safe (A : Aead) (cfg : Config) (self : Nat) (now : Int) (ins : List Input) :
    Machine.Always (Session.step A cfg) KeySlotsSafe (.new self now) ins
      ∧ ∀ (pre post : List Input) (g : Nat), ins = pre ++ post →
          (Machine.run (Session.step A cfg) (.new self now) pre).lameDuck.wrapper = some g →
          (Machine.run (Session.step A cfg) (.new self now) ins).primary.wrapper ≠ some g
            ∧ ((Machine.run (Session.step A cfg) (.new self now) ins).lameDuck.wrapper = some g →
                (Machine.run (Session.step A cfg) (.new self now) ins).lameDuck.mustDie
                  = (Machine.run (Session.step A cfg) (.new self now) pre).lameDuck.mustDie) := by
  refine ⟨?_, ?_⟩
  · refine Machine.always_mono (fun _ => keySlotsSafe_of_safe)
      (Machine.always_invariant (fun _ inp h _ => slotsSafe_step h inp) (slotsSafe_new self now)
        (Machine.along_true _ ins))
  · rintro pre post g rfl hg
    have hpre := slotsSafe_run A cfg self now pre
    obtain ⟨t, ht, hmem⟩ := hpre.mortal.lameDuck g hg
    rw [Machine.run_append]
    -- the record of the demotion is never lost
    have hend : ∀ s : Session, SlotsSafe s ∧ (g, t) ∈ s.slots.demotions →
        SlotsSafe (Machine.run (Session.step A cfg) s post)
          ∧ (g, t) ∈ (Machine.run (Session.step A cfg) s post).slots.demotions := by
      intro s hs
      exact Machine.run_invariant' (I := fun s => SlotsSafe s ∧ (g, t) ∈ s.slots.demotions)
        (fun _ inp h => ⟨slotsSafe_step h.1 inp, demotions_step h.1 inp h.2⟩) hs post
    obtain ⟨hsafe, hmem'⟩ := hend _ ⟨hpre, hmem⟩
    refine ⟨fun hp => (hsafe.mortal.primary g hp).2 t hmem', fun hl => ?_⟩
    obtain ⟨t', ht', hm'⟩ := hsafe.mortal.lameDuck g hl
    have heq := hsafe.mortal.once g t t' hmem' hm'
    exact ht'.trans (heq ▸ ht.symm)

end GoVpn.Proof
