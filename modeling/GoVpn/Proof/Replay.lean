import GoVpn.Control.TlsCrypt

/-!
# The replay window takes nothing twice

A sequence number the window took stays refused: it is either still within the 64
numbers the bitmap covers, with its bit set, or below them.
-/

namespace GoVpn.Proof

open GoVpn.Control

/-- The window accounts for `seq`. -/
def Covered (r : ReplayWindow) (seq : BitVec 32) : Prop :=
  r.init = true ∧ seq ≤ r.highest
    ∧ (replayWindowSize ≤ (r.highest - seq).toNat ∨ r.seen.getLsbD (r.highest - seq).toNat = true)

theorem getLsbD_bit (k i : Nat) (hi : i < 64) :
    ((1 : BitVec 64) <<< k).getLsbD i = decide (i = k) := by
  rw [BitVec.getLsbD_shiftLeft, show (1 : BitVec 64) = 1#64 from rfl, BitVec.getLsbD_one]
  simp only [hi, decide_true, Bool.true_and]
  by_cases h : i = k
  · simp [h]
  · by_cases hlt : i < k
    · simp [h, hlt]
    · simp [h, hlt]; omega

theorem and_bit_ne_zero (x : BitVec 64) {k : Nat} (hk : k < 64) :
    x &&& ((1 : BitVec 64) <<< k) ≠ 0 ↔ x.getLsbD k = true := by
  constructor
  · intro hne
    apply Classical.byContradiction
    intro hb
    refine hne (BitVec.eq_of_getLsbD_eq fun i hi => ?_)
    rw [BitVec.getLsbD_and, getLsbD_bit k i hi]
    by_cases hik : i = k
    · simp [hik, Bool.eq_false_iff.mpr hb]
    · simp [hik]
  · intro hb hz
    have := congrArg (fun y => y.getLsbD k) hz
    simp only [BitVec.getLsbD_and, getLsbD_bit k k hk, hb] at this
    simp at this

variable {r : ReplayWindow} {seq : BitVec 32}

theorem accept_covered (h : Covered r seq) : r.accept seq = none := by
  obtain ⟨hinit, hle, hcov⟩ := h
  unfold ReplayWindow.accept
  rw [if_neg (by simp [hinit]), if_neg (BitVec.not_lt.mpr hle)]
  by_cases hbig : (r.highest - seq).toNat ≥ replayWindowSize
  · rw [if_pos hbig]
  · rw [if_neg hbig]
    have hbit := hcov.resolve_left hbig
    rw [if_pos ((and_bit_ne_zero _ (by unfold replayWindowSize at hbig; omega)).mpr hbit)]

variable {r' : ReplayWindow} {taken : List (BitVec 32)}

/-- What is taken is accounted for from then on. -/
theorem covered_accept (h : r.accept seq = some r') : Covered r' seq := by
  unfold ReplayWindow.accept at h
  split at h
  · obtain rfl := (Option.some.inj h).symm
    exact ⟨rfl, BitVec.le_refl _, .inr (by simp)⟩
  rename_i hinit
  have hinit' : r.init = true := by simpa using hinit
  split at h
  · obtain rfl := (Option.some.inj h).symm
    refine ⟨hinit', BitVec.le_refl _, .inr ?_⟩
    split <;> simp
  · rename_i hle
    dsimp only at h
    split at h
    · cases h
    · rename_i hbig
      split at h
      · cases h
      · obtain rfl := (Option.some.inj h).symm
        refine ⟨hinit', BitVec.not_lt.mp hle, .inr ?_⟩
        unfold replayWindowSize at hbig
        dsimp only
        rw [BitVec.getLsbD_or, getLsbD_bit _ _ (by omega)]
        simp

/-- What was accounted for stays so. -/
theorem covered_mono {s : BitVec 32} (h : r.accept seq = some r') (hs : Covered r s) :
    Covered r' s := by
  obtain ⟨hinit, hle, hcov⟩ := hs
  unfold ReplayWindow.accept at h
  rw [if_neg (by simp [hinit])] at h
  split at h
  · -- the window moves up by `shift`, and the bits with it
    rename_i hgt
    obtain rfl := (Option.some.inj h).symm
    have hd : (seq - s).toNat = (seq - r.highest).toNat + (r.highest - s).toNat := by
      have : r.highest < seq := hgt
      bv_omega
    refine ⟨hinit, BitVec.le_trans hle (BitVec.le_of_lt hgt), ?_⟩
    simp only [hd]
    rcases hcov with hbig | hbit
    · exact .inl (by omega)
    · by_cases hfar : replayWindowSize ≤ (seq - r.highest).toNat + (r.highest - s).toNat
      · exact .inl hfar
      · right
        unfold replayWindowSize at hfar ⊢
        generalize (seq - r.highest).toNat = shift at *
        generalize (r.highest - s).toNat = back at *
        rw [if_neg (by omega), BitVec.getLsbD_or, BitVec.getLsbD_shiftLeft, Nat.add_sub_cancel_left,
          hbit]
        simp only [Nat.not_lt.mpr (Nat.le_add_right shift back), decide_false, Bool.not_false,
          show shift + back < 64 by omega, decide_true, Bool.and_true, Bool.true_or]
  · dsimp only at h
    split at h
    · cases h
    · split at h
      · cases h
      · obtain rfl := (Option.some.inj h).symm
        refine ⟨hinit, hle, hcov.imp_right fun hbit => ?_⟩
        rw [BitVec.getLsbD_or, hbit]; rfl

/-! ## What the window still takes -/

/-- The window remembers `taken`: all of it, and within its 64 numbers nothing else. -/
structure Tracks (r : ReplayWindow) (taken : List (BitVec 32)) : Prop where
  covered : ∀ s ∈ taken, Covered r s
  top : r.init = true → r.highest ∈ taken
  bits : ∀ s, s ≤ r.highest → r.seen.getLsbD (r.highest - s).toNat = true → s ∈ taken

theorem tracks_new : Tracks {} [] where
  covered := by simp
  top := by simp
  bits := by simp

theorem getLsbD_shift_or_one (x : BitVec 64) (shift d : Nat)
    (h : ((x <<< shift) ||| 1).getLsbD d = true) :
    d = 0 ∨ shift ≤ d ∧ x.getLsbD (d - shift) = true := by
  rw [BitVec.getLsbD_or, BitVec.getLsbD_shiftLeft, show (1 : BitVec 64) = 1#64 from rfl,
    BitVec.getLsbD_one] at h
  simp only [Bool.or_eq_true, Bool.and_eq_true, decide_eq_true_eq, Bool.not_eq_true',
    decide_eq_false_iff_not, Nat.not_lt] at h
  rcases h with ⟨⟨_, hle⟩, hb⟩ | ⟨_, rfl⟩
  · exact .inr ⟨hle, hb⟩
  · exact .inl rfl

/-- Taking a number is remembered. -/
theorem tracks_accept (h : r.accept seq = some r') (ht : Tracks r taken) :
    Tracks r' (seq :: taken) := by
  have hcov : ∀ s ∈ seq :: taken, Covered r' s := by
    intro s hs
    rcases List.mem_cons.mp hs with rfl | hs
    · exact covered_accept h
    · exact covered_mono h (ht.covered s hs)
  unfold ReplayWindow.accept at h
  split at h
  · obtain rfl := (Option.some.inj h).symm
    refine ⟨hcov, fun _ => List.mem_cons_self, ?_⟩
    intro s hle hb
    -- only bit 0 is set
    have h0 : (seq - s).toNat = 0 := by
      rcases getLsbD_shift_or_one 0 0 _ (by simpa using hb) with h0 | ⟨_, hz⟩
      · exact h0
      · simp at hz
    have : s = seq := by bv_omega
    exact this ▸ List.mem_cons_self
  rename_i hinit
  split at h
  · rename_i hgt
    obtain rfl := (Option.some.inj h).symm
    refine ⟨hcov, fun _ => List.mem_cons_self, ?_⟩
    intro s hle hb
    have hbit : (seq - s).toNat = 0 ∨ (seq - r.highest).toNat ≤ (seq - s).toNat
        ∧ r.seen.getLsbD ((seq - s).toNat - (seq - r.highest).toNat) = true := by
      split at hb
      · rcases getLsbD_shift_or_one 0 0 _ (by simpa using hb) with h0 | ⟨_, hz⟩
        · exact .inl h0
        · simp at hz
      · exact getLsbD_shift_or_one _ _ _ hb
    rcases hbit with h0 | ⟨hge, hb'⟩
    · have : s = seq := by bv_omega
      exact this ▸ List.mem_cons_self
    · have hback : (seq - s).toNat - (seq - r.highest).toNat = (r.highest - s).toNat := by bv_omega
      have hs : s ≤ r.highest := by bv_omega
      exact List.mem_cons_of_mem _ (ht.bits s hs (hback ▸ hb'))
  · rename_i hle
    dsimp only at h
    split at h
    · cases h
    rename_i hnear
    split at h
    · cases h
    obtain rfl := (Option.some.inj h).symm
    refine ⟨hcov, fun hi => List.mem_cons_of_mem _ (ht.top hi), ?_⟩
    intro s hs hb
    rw [BitVec.getLsbD_or, Bool.or_eq_true] at hb
    rcases hb with hb | hb
    · exact List.mem_cons_of_mem _ (ht.bits s hs hb)
    · have hlt : (r.highest - s).toNat < 64 := BitVec.lt_of_getLsbD hb
      rw [getLsbD_bit _ _ hlt, decide_eq_true_eq] at hb
      have : s = seq := by bv_omega
      exact this ▸ List.mem_cons_self

/-- A number that is new and less than 64 behind everything taken is taken. -/
theorem accept_fresh (ht : Tracks r taken) (hnew : seq ∉ taken)
    (hnear : ∀ s ∈ taken, s.toNat < seq.toNat + replayWindowSize) :
    ∃ r', r.accept seq = some r' := by
  unfold ReplayWindow.accept
  split
  · exact ⟨_, rfl⟩
  rename_i hinit
  have htop := hnear _ (ht.top (by simpa using hinit))
  split
  · exact ⟨_, rfl⟩
  rename_i hle
  have hle' : seq ≤ r.highest := BitVec.not_lt.mp hle
  have hd : (r.highest - seq).toNat < replayWindowSize := by
    unfold replayWindowSize at htop ⊢
    bv_omega
  rw [if_neg (Nat.not_le.mpr hd), if_neg]
  · exact ⟨_, rfl⟩
  · intro hb
    exact hnew (ht.bits seq hle' ((and_bit_ne_zero _ hd).mp hb))

/-- A number 64 or more behind one that was taken is refused, taken or not. -/
theorem accept_behind {s : BitVec 32} (hs : Covered r s)
    (hfar : seq.toNat + replayWindowSize ≤ s.toNat) : r.accept seq = none := by
  obtain ⟨hinit, hle, -⟩ := hs
  refine accept_covered ⟨hinit, ?_, .inl ?_⟩
  · unfold replayWindowSize at hfar
    bv_omega
  · unfold replayWindowSize at hfar ⊢
    bv_omega

/-- **The window in terms of what it took**: it takes what is new and less than 64 behind. -/
theorem accept_iff (ht : Tracks r taken) (seq : BitVec 32) :
    (∃ r', r.accept seq = some r')
      ↔ seq ∉ taken ∧ ∀ s ∈ taken, s.toNat < seq.toNat + replayWindowSize := by
  constructor
  · rintro ⟨r', hr⟩
    constructor
    · intro hmem
      rw [accept_covered (ht.covered seq hmem)] at hr
      cases hr
    · intro s hs
      refine Nat.lt_of_not_le fun hfar => ?_
      rw [accept_behind (ht.covered s hs) hfar] at hr
      cases hr
  · rintro ⟨hnew, hnear⟩
    exact accept_fresh ht hnew hnear

end GoVpn.Proof
