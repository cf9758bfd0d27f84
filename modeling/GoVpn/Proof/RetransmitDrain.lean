import GoVpn.Lib.Run
import GoVpn.Lib.Poll
import GoVpn.Proof.ReliableSpec

/-!
# The retransmit drain loop

`retransmitLoop` calls `Due` until it returns nothing. A call makes the entry it returns wait for
its timeout and doubles the timeout, so with the clock standing still an entry comes up once,
provided its timeout is positive.

Nothing bounds the doubling of the 64-bit timeout: the 33rd makes it negative and the 54th zero, for
good, and then the entry is due again the moment it was resent. Time need not pass to get there,
because three acknowledgements of later packets make an entry due early.
-/

namespace GoVpn.Proof

open GoVpn.Control Reliable

/-! ## What `Due` picks -/

variable {now : Int}

theorem bestDue_none {es : List Entry} {i : Nat} {best : Option (Nat × PacketID)}
    (h : bestDue now es i best = none) : best = none ∧ ∀ e ∈ es, e.due now = false := by
  induction es generalizing i best with
  | nil => exact ⟨h, by simp⟩
  | cons e es ih =>
    obtain ⟨hb, hes⟩ := ih h
    by_cases hd : e.due now = true
    · rw [if_pos hd] at hb
      cases best with
      | none => cases hb
      | some b => exact absurd hb (by dsimp only; split <;> simp)
    · rw [if_neg hd] at hb
      simp only [List.mem_cons, forall_eq_or_imp]
      exact ⟨hb, Bool.eq_false_iff.mpr hd, hes⟩

theorem bestDue_some {es : List Entry} {i j : Nat} {m : PacketID} {best : Option (Nat × PacketID)}
    (h : bestDue now es i best = some (j, m)) :
    best = some (j, m) ∨ ∃ k e, j = i + k ∧ es[k]? = some e ∧ e.due now = true := by
  induction es generalizing i best with
  | nil => exact .inl h
  | cons e es ih =>
    rcases ih h with hb | ⟨k, x, rfl, hx, hd⟩
    · by_cases hd : e.due now = true
      · rw [if_pos hd] at hb
        -- the scan now holds either this entry or the one it held before
        have : best = some (j, m) ∨ i = j := by
          cases best with
          | none => right; simp only [Option.some.injEq, Prod.mk.injEq] at hb; exact hb.1
          | some b =>
            dsimp only at hb
            split at hb
            · right; simp only [Option.some.injEq, Prod.mk.injEq] at hb; exact hb.1
            · left; exact hb
        rcases this with hb | rfl
        · exact .inl hb
        · exact .inr ⟨0, e, rfl, rfl, hd⟩
      · rw [if_neg hd] at hb; exact .inl hb
    · exact .inr ⟨k + 1, x, by omega, hx, hd⟩

/-- The slot `Due` would return. -/
def pickDue (now : Int) (es : List Entry) : Option Nat := (bestDue now es 0 none).map Prod.fst

theorem pickDue_picks (now : Int) : Poll.Picks (Entry.due now) (pickDue now) where
  some {l i} h := by
    obtain ⟨⟨j, m⟩, hb, rfl⟩ := Option.map_eq_some_iff.mp h
    rcases bestDue_some hb with hn | ⟨k, e, hk, he, hd⟩
    · cases hn
    · exact ⟨e, by rw [hk, Nat.zero_add]; exact he, hd⟩
  none {l} h := (bestDue_none (Option.map_eq_none_iff.mp h)).2

theorem due_eq (r : Reliable) (now : Int) :
    r.due now = (pickDue now r.entries).map fun i =>
      (i, { r with entries := r.entries.modify i (Entry.backOff now) }) := by
  unfold Reliable.due pickDue
  cases bestDue now r.entries 0 none <;> rfl

theorem drains_iff_poll {r : Reliable} {hits : List Nat} :
    Drains now r hits ↔ Poll.Drains (Entry.backOff now) (pickDue now) r.entries hits := by
  constructor
  · intro h
    induction h with
    | stop hn => rw [due_eq, Option.map_eq_none_iff] at hn; exact .stop hn
    | resend hd _ ih =>
      rw [due_eq] at hd
      obtain ⟨i, hi, he⟩ := Option.map_eq_some_iff.mp hd
      obtain ⟨rfl, rfl⟩ := Prod.mk.injEq .. ▸ he
      exact .serve hi ih
  · intro h
    generalize hes : r.entries = es at h
    induction h generalizing r with
    | stop hn => subst hes; exact .stop (by rw [due_eq, hn]; rfl)
    | @serve l i hits hk _ ih =>
      subst hes
      exact .resend (by rw [due_eq, hk]; rfl)
        (ih (r := { r with entries := r.entries.modify i (Entry.backOff now) }) rfl)

theorem backOff_due (now : Int) (e : Entry) (h : e.active = true) :
    (e.backOff now).due now = false ↔ 0 < e.timeout.toInt := by
  simp only [Entry.due, Entry.backOff, h, nAckRetransmit, Bool.true_and]
  constructor
  · intro hf
    simp only [Bool.or_eq_false_iff, Bool.not_eq_false', decide_eq_true_eq] at hf
    omega
  · intro hp
    simp only [Bool.or_eq_false_iff, Bool.not_eq_false', decide_eq_true_eq]
    exact ⟨by decide, by omega⟩

theorem active_of_due {e : Entry} (h : e.due now = true) : e.active = true := by
  simp only [Entry.due, Bool.and_eq_true] at h; exact h.1

/-! ## The send side as a machine -/

/-- A send window, the clock it reads, and how often each slot's packet was resent. -/
structure Sender where
  rel : Reliable
  clock : Int
  resent : List Nat

/-- The operations of the send side; `tick` lets the clock advance. -/
inductive SendOp
  | next
  | markActive (idx : Nat)
  | setPayload (idx : Nat) (payload : Bytes)
  | ack (ids : List PacketID)
  | tick (d : Nat)
  | due

def Sender.new (size : Nat) (clock : Int) : Sender :=
  { rel := Reliable.new size, clock := clock, resent := List.replicate size 0 }

def Sender.step (s : Sender) : SendOp → Sender
  | .next => s
  | .markActive idx => { s with rel := s.rel.markActive idx, resent := s.resent.set idx 0 }
  | .setPayload idx payload => { s with rel := s.rel.setPayload idx payload }
  | .ack ids => { s with rel := s.rel.ack ids }
  | .tick d => { s with clock := s.clock + d }
  | .due =>
    match s.rel.due s.clock with
    | none => s
    | some (i, r) => { s with rel := r, resent := s.resent.modify i (· + 1) }

/-- The state after the operations `ops` on a new window. -/
def Sender.after (size : Nat) (clock : Int) (ops : List SendOp) : Sender :=
  Machine.run Sender.step (Sender.new size clock) ops

/-- The timeout of a packet resent `n` times: doubled each time, modulo `2 ^ 64`. -/
def backedOff (n : Nat) : Duration := tlsTimeout * 2 ^ n

/-- Every active slot's timeout is what its count of resends makes it. -/
structure TimeoutInv (s : Sender) : Prop where
  initial : s.rel.initialTimeout = tlsTimeout
  counted : s.resent.length = s.rel.entries.length
  timeout : ∀ (i : Nat) (e : Entry), s.rel.entries[i]? = some e → e.active = true →
    ∃ n, s.resent[i]? = some n ∧ e.timeout = backedOff n

theorem timeoutInv_new (size : Nat) (clock : Int) : TimeoutInv (Sender.new size clock) where
  initial := rfl
  counted := by simp [Sender.new, Reliable.new]
  timeout i e he ha := by
    obtain ⟨_, rfl⟩ := List.mem_replicate.mp (List.mem_of_getElem? he)
    cases ha

theorem backedOff_succ (n : Nat) : backedOff n * 2 = backedOff (n + 1) := by
  unfold backedOff; rw [BitVec.pow_succ, BitVec.mul_assoc]

theorem timeoutInv_markActive {s : Sender} (h : TimeoutInv s) (idx : Nat) :
    TimeoutInv (s.step (.markActive idx)) where
  initial := h.initial
  counted := by simp [Sender.step, Reliable.markActive, h.counted]
  timeout i e he ha := by
    simp only [Sender.step, Reliable.markActive, List.getElem?_modify, List.getElem?_set] at he ⊢
    by_cases hi : idx = i
    · subst hi
      obtain ⟨e₀, h0, rfl⟩ := Option.map_eq_some_iff.mp he
      have hlt : idx < s.resent.length := by
        rw [h.counted]; exact (List.getElem?_eq_some_iff.mp h0).1
      exact ⟨0, by simp [hlt], by simp [h.initial, backedOff]⟩
    · obtain ⟨e₀, h0, he'⟩ := Option.map_eq_some_iff.mp he
      rw [if_neg hi] at he'
      subst he'
      rw [if_neg hi]; exact h.timeout i e₀ h0 ha

theorem timeoutInv_due {s : Sender} (h : TimeoutInv s) : TimeoutInv (s.step .due) := by
  unfold Sender.step
  rw [due_eq]
  cases hp : pickDue s.clock s.rel.entries with
  | none => exact h
  | some j =>
    refine ⟨h.initial, by simp [h.counted], ?_⟩
    intro i e he ha
    simp only [Option.map_some, List.getElem?_modify] at he ⊢
    obtain ⟨e₀, h0, rfl⟩ := Option.map_eq_some_iff.mp he
    by_cases hi : j = i
    · rw [if_pos hi] at ha ⊢
      obtain ⟨n, hn, ht⟩ := h.timeout i e₀ h0 ha
      exact ⟨n + 1, by simp [hn, hi], by rw [← backedOff_succ, ← ht]; rfl⟩
    · rw [if_neg hi] at ha ⊢
      obtain ⟨n, hn, ht⟩ := h.timeout i e₀ h0 ha
      exact ⟨n, by simp [hn, hi], ht⟩

/-- Every call keeps each timeout what the resends make it. -/
theorem timeoutInv_step (s : Sender) (op : SendOp) (h : TimeoutInv s) : TimeoutInv (s.step op) := by
  cases op with
  | next => exact h
  | markActive idx => exact timeoutInv_markActive h idx
  | setPayload idx payload =>
    refine ⟨h.initial, by simp [Sender.step, Reliable.setPayload, h.counted], ?_⟩
    intro i e he ha
    simp only [Sender.step, Reliable.setPayload, List.getElem?_modify] at he ⊢
    obtain ⟨e₀, h0, rfl⟩ := Option.map_eq_some_iff.mp he
    have := h.timeout i e₀ h0
    split at ha <;> split <;> simp_all
  | ack ids =>
    refine ⟨h.initial, ?_, ?_⟩
    · rw [show (s.step (.ack ids)).resent = s.resent from rfl, h.counted]
      exact (ack_length ids _).symm
    · intro i e he ha
      obtain ⟨e₀, h0, ht, hact⟩ := ack_entry he
      obtain ⟨n, hn, hto⟩ := h.timeout i e₀ h0 (hact ha)
      exact ⟨n, hn, ht.trans hto⟩
  | tick d => exact ⟨h.initial, h.counted, h.timeout⟩
  | due => exact timeoutInv_due h

/-- So it is after any calls. -/
theorem timeoutInv_after (size : Nat) (clock : Int) (ops : List SendOp) :
    TimeoutInv (Sender.after size clock ops) :=
  Machine.run_invariant' timeoutInv_step (timeoutInv_new size clock) ops

/-! ## When the loop ends -/

/-- The packet in some slot is due and its timeout is no longer positive. -/
def Overflowed (s : Sender) : Prop :=
  ∃ (i : Nat) (e : Entry) (n : Nat), s.rel.entries[i]? = some e ∧ s.resent[i]? = some n
    ∧ e.due s.clock = true ∧ (backedOff n).toInt ≤ 0

/--
**When the drain loop ends.** In every state the send side reaches, with the clock
standing at its reading, the loop ends after at most `size` calls and returns no
entry twice exactly when no due packet was resent so often that its timeout is no
longer positive.
-/
theorem drain_ends_iff (size : Nat) (clock : Int) (ops : List SendOp) :
    let s := Sender.after size clock ops
    (∃ hits, Drains s.clock s.rel hits ∧ hits.length ≤ s.rel.size ∧ hits.Nodup)
      ↔ ¬ Overflowed s := by
  intro s
  have hinv : TimeoutInv s := timeoutInv_after size clock ops
  -- the loop of the source is the polling loop, and servicing an entry backs it off
  have hpoll := Poll.drains_once_iff (Entry.backOff s.clock) (pickDue_picks s.clock) s.rel.entries
  rw [Reliable.size]
  simp only [drains_iff_poll, hpoll]
  constructor
  · rintro hset ⟨i, e, n, he, hn, hd, hle⟩
    have ha := active_of_due hd
    have hpos := (backOff_due s.clock e ha).mp (hset e (List.mem_of_getElem? he) hd)
    obtain ⟨m, hm, ht⟩ := hinv.timeout i e he ha
    obtain rfl : m = n := by rw [hm] at hn; exact Option.some.inj hn
    rw [ht] at hpos; omega
  · intro hno e hmem hd
    have ha := active_of_due hd
    obtain ⟨i, he⟩ := List.mem_iff_getElem?.mp hmem
    obtain ⟨n, hn, ht⟩ := hinv.timeout i e he ha
    refine (backOff_due s.clock e ha).mpr ?_
    rw [ht]
    -- a positive timeout puts the next try after the clock
    exact Int.not_le.mp fun hle => hno ⟨i, e, n, he, hn, hd, hle⟩

theorem not_drains_of_zero {r : Reliable} (h : ∃ e ∈ r.entries, e.due now = true ∧ e.timeout = 0)
    (hits : List Nat) : ¬ Drains now r hits := by
  rw [drains_iff_poll]
  refine Poll.not_drains (fun e => e.due now = true ∧ e.timeout = 0) (pickDue_picks now)
    (fun e he => he.1) ?_ h hits
  rintro e ⟨hd, ht⟩
  refine ⟨?_, by simp [Entry.backOff, ht]⟩
  simp [Entry.due, Entry.backOff, active_of_due hd, ht]

/-- One packet, resent 54 times because the peer keeps acknowledging a later one. -/
def ackFlood : List SendOp :=
  .markActive 0 :: (List.replicate 54 [SendOp.ack [5, 5, 5], .due]).flatten

/-- The peer alone, without the clock moving, gets the loop to run forever. -/
theorem ack_flood_never_drains :
    let s := Sender.after nSendBuffers 0 ackFlood
    ∀ hits, ¬ Drains s.clock s.rel hits := by
  intro s
  refine not_drains_of_zero ?_
  have : (s.rel.entries.any fun e => e.due s.clock && e.timeout == 0) = true := by decide +kernel
  simpa using this

end GoVpn.Proof
