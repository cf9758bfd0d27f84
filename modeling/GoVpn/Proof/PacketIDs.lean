import Mathlib.Algebra.Ring.Int.Defs
import GoVpn.Lib.Run
import GoVpn.Proof.CtrlNode
import GoVpn.Proof.PacketRoundTrip

/-!
# The order of packet IDs

A long-form packet ID is a sequence number and a timestamp. The timestamp is frozen at the first
`Wrap`, so IDs increase until the counter is used up. Then the timestamp has to move: `Wrap`
compares the clock with the time of the last rollover and refuses when it has not moved on.

At the first rollover there is no such time, and a clock that has not passed the frozen timestamp
starts the same IDs over. From the second on, the gate is exact.
-/

namespace GoVpn.Proof

open GoVpn.Control

/-- A wrapper and the datagrams it has made, the newest first. -/
structure WrapLog where
  wrapper : Wrapper
  sent : List Bytes := []

/-- A call of `Wrap`, and what the clock reads then: a time in the 32-bit second range. -/
structure WrapCall where
  clock : BitVec 32
  header : Bytes
  plaintext : Bytes

/-- The clock as `time.Now().Unix()` gives it. -/
def WrapCall.now (c : WrapCall) : Int := c.clock.toNat

def WrapLog.wrap (K : Crypto) (s : WrapLog) (c : WrapCall) : WrapLog :=
  match s.wrapper.wrap K c.now c.header c.plaintext with
  | (w, .ok wire) => { wrapper := w, sent := wire :: s.sent }
  | (w, .error _) => { s with wrapper := w }

/-- A new wrapper. -/
def WrapLog.start (enc dec : KeySlot) : WrapLog := { wrapper := { encrypt := enc, decrypt := dec } }

/-- The packet ID of a datagram. -/
def longID (wire : Bytes) : BitVec 32 × BitVec 32 := (stampOf wire, packetSeq wire)

/-- Later in the order of timestamp and then sequence number. -/
def LaterID (newer older : Bytes) : Prop :=
  stampOf older < stampOf newer ∨ stampOf older = stampOf newer ∧ packetSeq older < packetSeq newer

/-- No packet ID was used twice, and each is later than all before it. -/
structure IdsIncrease (s : WrapLog) : Prop where
  distinct : (s.sent.map longID).Nodup
  later : s.sent.Pairwise LaterID

theorem LaterID.ne {newer older : Bytes} (h : LaterID newer older) :
    longID newer ≠ longID older := by
  intro he
  obtain ⟨hstamp, hseq⟩ := Prod.mk.inj he
  rcases h with h | ⟨-, h⟩
  · exact BitVec.lt_irrefl _ (hstamp ▸ h)
  · exact BitVec.lt_irrefl _ (hseq ▸ h)

variable {K : Crypto} {s : WrapLog}

theorem idsIncrease_of_later (h : s.sent.Pairwise LaterID) : IdsIncrease s :=
  ⟨List.pairwise_map.mpr (h.imp LaterID.ne), h⟩

/-- When the counter is used up and no rollover has set a time to compare with, the clock has
passed the timestamp in use. -/
def RolloverAhead (s : WrapLog) (c : WrapCall) : Prop :=
  c.header.length = offPID → s.wrapper.sendSeq = 0xFFFFFFFF → s.wrapper.sendRolloverAt = 0 →
    s.wrapper.sendTime < c.now

/-! ## One call -/

/-- What a call of `Wrap` does to the counters. -/
inductive WrapEffect (w : Wrapper) (now : Int) : Except WrapErr Wrapper → Prop
  | refused : w.sendSeq = 0xFFFFFFFF → w.sendRolloverAt ≠ 0 → now ≤ w.sendRolloverAt →
      WrapEffect w now (.error .rollOver)
  | rolled : w.sendSeq = 0xFFFFFFFF → (w.sendRolloverAt ≠ 0 → w.sendRolloverAt < now) →
      WrapEffect w now (.ok { w with sendRolloverAt := now, sendTime := now, sendSeq := 1 })
  | counted : w.sendSeq ≠ 0xFFFFFFFF →
      WrapEffect w now (.ok { w with sendTime := if w.sendTime = 0 then now else w.sendTime
                                     sendSeq := w.sendSeq + 1 })

/-- What `nextPID` does with the clock and the counter. -/
theorem nextPID_effect (w : Wrapper) (now : Int) : WrapEffect w now (w.nextPID now) := by
  unfold Wrapper.nextPID
  by_cases hseq : w.sendSeq = 0xFFFFFFFF
  · have hroll : (if w.sendTime = 0 then { w with sendTime := now } else w).sendSeq =
        0xFFFFFFFF := by
      split <;> exact hseq
    have hat : (if w.sendTime = 0 then { w with sendTime := now } else w).sendRolloverAt
        = w.sendRolloverAt := by split <;> rfl
    rw [if_pos hroll, hat]
    split
    · rename_i hgate
      exact .refused hseq hgate.1 hgate.2
    · rename_i hgate
      have hlater : w.sendRolloverAt ≠ 0 → w.sendRolloverAt < now :=
        fun hne => Int.not_le.mp fun hle => hgate ⟨hne, hle⟩
      split <;> exact .rolled hseq hlater
  · have hcounted : WrapEffect w now
        (.ok { w with sendTime := if w.sendTime = 0 then now else w.sendTime
                      sendSeq := w.sendSeq + 1 }) := .counted hseq
    by_cases h0 : w.sendTime = 0
    · simpa only [h0, if_true, if_neg hseq] using hcounted
    · simpa only [h0, if_false, if_neg hseq] using hcounted

/-! ## What the counters stand for -/

structure IdInv (s : WrapLog) : Prop where
  range : 0 ≤ s.wrapper.sendTime ∧ s.wrapper.sendTime < 2 ^ 32
  /-- The time of the last rollover is the timestamp in use. -/
  rollover : s.wrapper.sendRolloverAt ≠ 0 → s.wrapper.sendRolloverAt = s.wrapper.sendTime
  /-- No ID is later than the counters. -/
  upTo : ∀ wire ∈ s.sent, ((stampOf wire).toNat : Int) < s.wrapper.sendTime
    ∨ ((stampOf wire).toNat : Int) = s.wrapper.sendTime ∧ packetSeq wire ≤ s.wrapper.sendSeq
  /-- The counters are those of a datagram, if there is one. -/
  newest : s.wrapper.sendSeq ≠ 0 →
    ∃ wire ∈ s.sent, ((stampOf wire).toNat : Int) = s.wrapper.sendTime
      ∧ packetSeq wire = s.wrapper.sendSeq

theorem idInv_start (enc dec : KeySlot) : IdInv (.start enc dec) where
  range := ⟨Int.le_refl 0, by simp [WrapLog.start]⟩
  rollover := fun h => absurd rfl h
  upTo := by simp [WrapLog.start]
  newest := fun h => absurd rfl h

theorem WrapCall.now_range (c : WrapCall) : 0 ≤ c.now ∧ c.now < 2 ^ 32 := by
  unfold WrapCall.now
  omega

theorem longID_wrapped {key : KeySlot} {header plaintext : Bytes} {seq : BitVec 32} {ts : Int}
    (hh : header.length = offPID) (hts : 0 ≤ ts ∧ ts < 2 ^ 32) :
    ((stampOf (wrapWithPID K key header (pidBytes seq ts) plaintext)).toNat : Int) = ts
      ∧ packetSeq (wrapWithPID K key header (pidBytes seq ts) plaintext) = seq := by
  refine ⟨?_, packetSeq_wrapped K key seq ts plaintext hh⟩
  rw [stampOf_wrapped K key seq ts plaintext hh, BitVec.toNat_ofInt]
  omega

/-- What a call does: it fails and leaves everything as it was, or a datagram goes out under the
counters it leaves. -/
theorem wrap_cases (K : Crypto) (hinv : IdInv s) (c : WrapCall) :
    s.wrap K c = s ∧ (c.header.length = offPID → s.wrapper.sendRolloverAt ≠ 0)
      ∨ c.header.length = offPID ∧ ∃ w wire, s.wrap K c = { wrapper := w, sent := wire :: s.sent }
        ∧ WrapEffect s.wrapper c.now (.ok w) ∧ (0 ≤ w.sendTime ∧ w.sendTime < 2 ^ 32)
        ∧ ((stampOf wire).toNat : Int) = w.sendTime ∧ packetSeq wire = w.sendSeq := by
  have heffect := nextPID_effect s.wrapper c.now
  simp only [WrapLog.wrap]
  unfold Wrapper.wrap
  by_cases hh : c.header.length = offPID
  · rw [if_neg (not_not_intro hh)]
    cases hn : s.wrapper.nextPID c.now with
    | error e =>
      left
      rw [hn] at heffect
      cases heffect with
      | refused _ hne =>
        -- the gate has a time to compare with, so the timestamp is set already
        have h0 : s.wrapper.sendTime ≠ 0 := by rw [← hinv.rollover hne]; exact hne
        rw [if_neg h0]
        exact ⟨rfl, fun _ => hne⟩
    | ok w =>
      right
      rw [hn] at heffect
      have hrange : 0 ≤ w.sendTime ∧ w.sendTime < 2 ^ 32 := by
        have hnow := c.now_range
        have hold := hinv.range
        cases heffect with
        | rolled => exact hnow
        | counted =>
          split
          · exact hnow
          · exact hold
      exact ⟨hh, w, _, rfl, heffect, hrange, longID_wrapped hh hrange⟩
  · left
    rw [if_pos hh]
    exact ⟨rfl, fun h => absurd h hh⟩

theorem later_of_ahead {c : WrapCall} (hinv : IdInv s) (hlater : s.sent.Pairwise LaterID)
    (hahead : RolloverAhead s c) : IdInv (s.wrap K c) ∧ (s.wrap K c).sent.Pairwise LaterID := by
  rcases wrap_cases K hinv c with ⟨hsame, -⟩ | ⟨hh, w, wire, hout, heffect, hrange, hstamp, hseq⟩
  · rw [hsame]
    exact ⟨hinv, hlater⟩
  rw [hout]
  -- the counters have moved on past every datagram so far
  have hnew : (∀ old ∈ s.sent, ((stampOf old).toNat : Int) < w.sendTime
      ∨ ((stampOf old).toNat : Int) = w.sendTime ∧ packetSeq old < w.sendSeq)
      ∧ (w.sendRolloverAt ≠ 0 → w.sendRolloverAt = w.sendTime) := by
    cases heffect with
    | rolled hmax hgate =>
      have hmoved : s.wrapper.sendTime < c.now := by
        by_cases hat : s.wrapper.sendRolloverAt = 0
        · exact hahead hh hmax hat
        · rw [← hinv.rollover hat]
          exact hgate hat
      refine ⟨fun old hold => .inl ?_, fun _ => rfl⟩
      have := hinv.upTo old hold
      dsimp only
      omega
    | counted hmax =>
      have hnow := c.now_range
      have hbase := hinv.range
      refine ⟨fun old hold => ?_, fun hne => ?_⟩
      · have hup := hinv.upTo old hold
        have hstep : packetSeq old ≤ s.wrapper.sendSeq → packetSeq old < s.wrapper.sendSeq + 1 := by
          intro hle
          bv_omega
        dsimp only
        split
        · rename_i h0
          rw [h0] at hup
          rcases hup with hlt | ⟨he, hle⟩
          · omega
          · by_cases hz : c.now = 0
            · exact .inr ⟨by omega, hstep hle⟩
            · exact .inl (by omega)
        · exact hup.imp_right fun h => ⟨h.1, hstep h.2⟩
      · have hset : s.wrapper.sendTime ≠ 0 := by
          rw [← hinv.rollover hne]
          exact hne
        rw [if_neg hset]
        exact hinv.rollover hne
  obtain ⟨hpast, hroll⟩ := hnew
  refine ⟨⟨hrange, hroll, ?_, fun _ => ⟨wire, List.mem_cons_self, hstamp, hseq⟩⟩, ?_⟩
  · intro old hold
    rcases List.mem_cons.mp hold with rfl | hold
    · exact .inr ⟨hstamp, BitVec.le_of_eq hseq⟩
    · exact (hpast old hold).imp_right fun h => ⟨h.1, BitVec.le_of_lt h.2⟩
  · refine List.pairwise_cons.mpr ⟨fun old hold => ?_, hlater⟩
    rcases hpast old hold with hlt | ⟨he, hlt⟩
    · left
      bv_omega
    · right
      rw [hseq]
      exact ⟨by bv_omega, hlt⟩

theorem not_later_of_behind {c : WrapCall} (hinv : IdInv s) (hbehind : ¬ RolloverAhead s c) :
    ¬ (s.wrap K c).sent.Pairwise LaterID := by
  unfold RolloverAhead at hbehind
  simp only [Classical.not_imp] at hbehind
  obtain ⟨hh, hmax, hat, hclock⟩ := hbehind
  rcases wrap_cases K hinv c with ⟨-, hgate⟩ | ⟨-, w, wire, hout, heffect, -, hstamp, hseq⟩
  · exact absurd hat (hgate hh)
  rw [hout]
  intro hlater
  obtain ⟨last, hlast, hlastStamp, hlastSeq⟩ := hinv.newest (by rw [hmax]; decide)
  have hafter := (List.pairwise_cons.mp hlater).1 last hlast
  cases heffect with
  | counted hne => exact hne hmax
  | rolled =>
    unfold LaterID at hafter
    rw [hlastSeq, hmax, hseq] at hafter
    rcases hafter with hlt | ⟨-, hlt⟩
    · dsimp only at hstamp
      bv_omega
    · dsimp only at hlt
      exact absurd hlt (by decide)

/-! ## Runs -/

/-- **Packet IDs are distinct and increase throughout a run exactly when** each rollover without
an earlier one to compare with finds the clock past the timestamp in use. Failed calls are part
of the run and send nothing. -/
theorem packet_ids_increase_iff (K : Crypto) (enc dec : KeySlot) (cs : List WrapCall) :
    Machine.Always (WrapLog.wrap K) IdsIncrease (.start enc dec) cs
      ↔ Machine.Along (WrapLog.wrap K) RolloverAhead (.start enc dec) cs := by
  refine Machine.always_iff_along (I := IdInv) ?_ ?_ (idInv_start enc dec)
    (idsIncrease_of_later List.Pairwise.nil)
  · intro s c hinv hids hahead
    obtain ⟨hinv', hlater⟩ := later_of_ahead (K := K) hinv hids.later hahead
    exact ⟨hinv', idsIncrease_of_later hlater⟩
  · intro s c hinv _ hbehind hids
    exact not_later_of_behind hinv hbehind hids.later

/-- A packet sent while the clock reads 5. -/
def stillCall : WrapCall := { clock := 5, header := List.replicate 9 0, plaintext := [] }

/-- Where a wrapper is after `n` packets, fewer than the counter has numbers, under a clock that
stands at 5. -/
structure StillState (n : Nat) (s : WrapLog) : Prop where
  inv : IdInv s
  later : s.sent.Pairwise LaterID
  seq : s.wrapper.sendSeq = BitVec.ofNat 32 n
  time : s.wrapper.sendTime = 0 ∨ s.wrapper.sendTime = 5
  gate : s.wrapper.sendRolloverAt = 0
  first : n ≠ 0 → (5, 1) ∈ s.sent.map longID

theorem stillState_start (enc dec : KeySlot) : StillState 0 (.start enc dec) where
  inv := idInv_start enc dec
  later := .nil
  seq := rfl
  time := .inl rfl
  gate := rfl
  first := fun h => absurd rfl h

theorem stillState_wrap {n : Nat} (h : StillState n s) (hn : n + 1 < 2 ^ 32) :
    StillState (n + 1) (s.wrap K stillCall) := by
  have hmax : s.wrapper.sendSeq ≠ 0xFFFFFFFF := by
    rw [h.seq]
    intro he
    have := congrArg BitVec.toNat he
    rw [BitVec.toNat_ofNat, Nat.mod_eq_of_lt (by omega)] at this
    simp at this
    omega
  have hahead : RolloverAhead s stillCall := fun _ hseq _ => absurd hseq hmax
  obtain ⟨hinv, hlater⟩ := later_of_ahead (K := K) h.inv h.later hahead
  rcases wrap_cases K h.inv stillCall with ⟨-, hgate⟩ | ⟨-, w, wire, hout, heffect, -, hstamp, hseq⟩
  · exact absurd h.gate (hgate rfl)
  · cases heffect with
    | rolled heq => exact absurd heq hmax
    | counted =>
      have htime : (if s.wrapper.sendTime = 0 then stillCall.now else s.wrapper.sendTime) = 5 := by
        rcases h.time with h0 | h5
        · rw [if_pos h0]; rfl
        · rw [if_neg (by rw [h5]; decide), h5]
      have hcount : s.wrapper.sendSeq + 1 = BitVec.ofNat 32 (n + 1) := by
        rw [h.seq, BitVec.ofNat_add]
        rfl
      rw [hout] at hinv hlater ⊢
      refine ⟨hinv, hlater, hcount, .inr htime, h.gate, fun _ => ?_⟩
      by_cases hz : n = 0
      · subst hz
        rw [hcount] at hseq
        refine List.mem_map.mpr ⟨wire, List.mem_cons_self, Prod.ext ?_ hseq⟩
        show stampOf wire = 5
        bv_omega
      · exact List.mem_cons_of_mem _ (h.first hz)

/-- With the clock standing still, the counter counts the calls. -/
theorem stillState_run (K : Crypto) (enc dec : KeySlot) {n : Nat} (hn : n < 2 ^ 32) :
    StillState n (Machine.run (WrapLog.wrap K) (.start enc dec) (List.replicate n stillCall)) := by
  induction n with
  | zero => exact stillState_start enc dec
  | succ n ih =>
    rw [List.replicate_succ', Machine.run_append]
    exact stillState_wrap (ih (by omega)) hn

theorem stillState_rollover {n : Nat} (h : StillState n s) (hn : n + 1 = 2 ^ 32) :
    ¬ ((s.wrap K stillCall).sent.map longID).Nodup := by
  have hlast : s.wrapper.sendSeq = 0xFFFFFFFF := by
    rw [h.seq]
    obtain rfl : n = 0xFFFFFFFF := by omega
    rfl
  rcases wrap_cases K h.inv stillCall with ⟨-, hgate⟩ | ⟨-, w, wire, hout, heffect, -, hstamp, hseq⟩
  · exact absurd h.gate (hgate rfl)
  · cases heffect with
    | counted hmax => exact absurd hlast hmax
    | rolled =>
      have hid : longID wire = (5, 1) := by
        have h5 : ((stampOf wire).toNat : Int) = 5 := hstamp
        refine Prod.ext ?_ hseq
        show stampOf wire = 5
        bv_omega
      rw [hout, List.map_cons, List.nodup_cons, hid]
      exact fun hnodup => hnodup.1 (h.first (by omega))

/-- The packet after the last number of the counter has the ID of the first. -/
theorem still_clock_reuses_id :
    ¬ ((Machine.run (WrapLog.wrap toyCrypto) (.start ⟨[1], [2]⟩ ⟨[3], [4]⟩)
      (List.replicate (2 ^ 32) stillCall)).sent.map longID).Nodup := by
  obtain ⟨n, hn⟩ : ∃ n, 2 ^ 32 = n + 1 := ⟨2 ^ 32 - 1, by omega⟩
  rw [hn, List.replicate_succ', Machine.run_append]
  exact stillState_rollover (stillState_run toyCrypto _ _ (by omega)) hn.symm

end GoVpn.Proof
