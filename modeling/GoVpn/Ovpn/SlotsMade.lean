import GoVpn.Ovpn.SessionFrames

/-!
# The generations in the slots

A slot names a generation by its number. A number in a slot is that of a generation that was
made, and no step of a session puts another one there.
-/

namespace GoVpn.Ovpn.Inbound

open GoVpn.Control (Bytes)
open GoVpn.Data (Aead)

/-- The generations in the slots were made. -/
def SlotsMade (s : Session) : Prop :=
  (∀ g ∈ s.primary.wrapper, g < s.gens.length) ∧ ∀ g ∈ s.lameDuck.wrapper, g < s.gens.length

variable {s : Session} (h : SlotsMade s)

include h

theorem SlotsMade.of_gens {gens : List Data.Wrapper}
    (hlen : gens.length = s.gens.length) : SlotsMade { s with gens := gens } := by
  unfold SlotsMade
  rw [hlen]
  exact h

theorem slotsMade_record (o : Ovpn.Outcome) : SlotsMade (s.recordHandshakeOutcome o) := by
  obtain ⟨_, _, hr⟩ := s.record_frame o
  rw [hr]
  exact h

theorem slotsMade_callClose (r : CloseReason) (pc : ClosePc) : SlotsMade (s.callClose r pc).1 := by
  obtain ⟨_, _, _, hc⟩ := s.callClose_frame r pc
  rw [hc]
  exact h

theorem slotsMade_publishKeys (g : Grant) : SlotsMade (s.publishKeys g) := by
  unfold Session.publishKeys
  split
  · exact h
  split
  · exact h
  · refine ⟨fun g hm => ?_, fun g hm => ?_⟩
    · cases hm
      simp
    · have := h.2 g hm
      simp only [List.length_append, List.length_singleton]
      omega

theorem slotsMade_handshake (cfg : Config) (e : Env) : SlotsMade (s.handshake cfg e) := by
  unfold Session.handshake
  cases s.hs with
  | publishKeys g => exact slotsMade_publishKeys h g
  | recordCompleted | fail | failLate => exact slotsMade_record h _
  | close r pc => exact slotsMade_callClose h r pc
  | lookup _ candidates =>
    cases candidates with
    | nil => exact h
    | cons =>
      dsimp only
      split <;> exact h
  | _ =>
    dsimp only
    repeat' split
    all_goals exact h

theorem slotsMade_startRenegotiation (cfg : Config) (want : Option KeyID) :
    SlotsMade (s.startRenegotiation cfg want) := by
  obtain ⟨_, _, _, _, _, hr⟩ := s.startRenegotiation_frame cfg want
  rw [hr]
  exact h

theorem slotsMade_clearPending (c : Nat) : SlotsMade (s.clearPending c) := by
  obtain ⟨_, _, hc⟩ := s.clearPending_frame c
  rw [hc]
  exact h

theorem slotsMade_swapKeys (n : Reneg) (keys : Bytes) (w : Data.Wrapper) :
    SlotsMade (s.swapKeys n keys w) := by
  unfold Session.swapKeys
  refine slotsMade_clearPending ?_ n.conn
  have hswap : ∀ g, g < s.gens.length + 1 → g < (s.gens ++ [w]).length := by simp
  split
  all_goals
    refine ⟨fun g hm => ?_, fun g hm => hswap g (Nat.lt_succ_of_lt (h.1 g hm))⟩
    cases hm
    exact hswap _ (Nat.lt_succ_self _)

theorem slotsMade_runRenegotiation (i : Nat) (e : Env) : SlotsMade (s.runRenegotiation i e) := by
  unfold Session.runRenegotiation
  split
  · exact h
  rename_i n _
  cases n.pc with
  | commit keys =>
    dsimp only
    unfold Session.commitRenegotiation
    split
    · exact h
    split
    · exact slotsMade_clearPending h n.conn
    · exact slotsMade_swapKeys h n keys _
  | abandon => exact slotsMade_clearPending h n.conn
  | closeConn auth => cases auth <;> exact h
  | _ => exact h

theorem slotsMade_openUnder (A : Aead) (g : Nat) (packet : Bytes) :
    SlotsMade (Session.openUnder A s g packet).1 := by
  obtain ⟨_, hlen, ho⟩ := s.openUnder_frame A g packet
  rw [ho]
  exact h.of_gens hlen

/-- **No step of a session puts a generation into a slot that was not made.** -/
theorem slotsMade_step (A : Aead) (cfg : Config) (inp : Input) : SlotsMade (s.step A cfg inp) := by
  cases inp with
  | handshake e => exact slotsMade_handshake h cfg e
  | runRenegotiation i e => exact slotsMade_runRenegotiation h i e
  | close | packet | elapse => exact h
  | handshakeWindow | closer | callback =>
    exact waits_rule (P := SlotsMade) (fun _ => h) (fun _ _ _ _ => slotsMade_record h .timedOut)
      (fun r pc _ _ => slotsMade_callClose h r pc) (fun _ _ => h) rfl
  | teardown =>
    simp only [Session.step, Session.teardown]
    repeat' split
    all_goals exact h
  | softReset | beginRenegotiation | renegotiationWindow | runReneg | write =>
    refine s.books_rule (P := SlotsMade) ?_ rfl
    rintro duck _ _ _ _ _ _ _ _ (rfl | rfl)
    · exact h
    · exact ⟨h.1, nofun⟩
  | data i e =>
    obtain ⟨_, _, _, _, hlen, _, _, hf⟩ := s.dataStep_frame A i e
    rw [Session.step, hf]
    exact h.of_gens hlen
  | sealWrite i =>
    obtain ⟨_, _, hlen, hf⟩ := s.sealWrite_frame A i
    rw [Session.step, hf]
    exact h.of_gens hlen

end GoVpn.Ovpn.Inbound
