import GoVpn.Proof.ControlPipeline

/-!
# The replay filter as a set

The bitmap and the highest number stand for a set: the sequence numbers `Unwrap`
has taken. In terms of that set the verdict on a datagram is short. It has to be
authentic; and unless it is the first authentic one, its number has to be new and
less than 64 behind the largest taken.

A datagram that is too short or fails authentication leaves the wrapper alone, so
the verdict on the next one is the same as if it had never been offered.
-/

namespace GoVpn.Proof

open GoVpn.Control

/-- A datagram long enough to carry a tag, whose tag is the one it must carry. -/
def TagAuthentic (K : Crypto) (key : KeySlot) (packet : Bytes) : Prop :=
  offCT ≤ packet.length ∧ (packet.drop offTag).take tagSize = expectedTag K key packet

instance (K : Crypto) (key : KeySlot) (packet : Bytes) : Decidable (TagAuthentic K key packet) :=
  inferInstanceAs (Decidable (_ ∧ _))

/-- The largest of the sequence numbers taken. -/
def largestTaken (took : List (BitVec 32)) : Nat := (took.map BitVec.toNat).foldr max 0

theorem largestTaken_lt {took : List (BitVec 32)} {n : Nat} (hn : 0 < n) :
    largestTaken took < n ↔ ∀ s ∈ took, s.toNat < n := by
  induction took with
  | nil => simpa [largestTaken] using hn
  | cons s took ih =>
    have hmax : largestTaken (s :: took) = max s.toNat (largestTaken took) := rfl
    rw [hmax, Nat.max_lt, ih, List.forall_mem_cons]

/-- What `Unwrap` decides, without the wrapper it leaves. -/
def Wrapper.verdict (K : Crypto) (w : Wrapper) (packet : Bytes) :
    Except UnwrapErr (Bytes × Bytes) :=
  (w.unwrap K packet).map fun out => (out.1, out.2.1)

/-! ## One datagram -/

variable {K : Crypto} {w : Wrapper}

theorem unwrap_of_not_authentic {packet : Bytes} (h : ¬ TagAuthentic K w.decrypt packet) :
    ∃ e, w.unwrap K packet = .error e := by
  unfold Wrapper.unwrap
  split
  · exact ⟨_, rfl⟩
  · rename_i hlen
    rw [if_pos]
    · exact ⟨_, rfl⟩
    · intro htag
      exact h ⟨Nat.not_lt.mp hlen, htag⟩

theorem unwrap_ok_iff {packet : Bytes} :
    (∃ out, w.unwrap K packet = .ok out)
      ↔ TagAuthentic K w.decrypt packet ∧ ∃ r, w.replay.accept (packetSeq packet) = some r := by
  by_cases ha : TagAuthentic K w.decrypt packet
  · unfold Wrapper.unwrap
    rw [if_neg (Nat.not_lt.mpr ha.1), if_neg (not_not_intro ha.2)]
    cases w.replay.accept (packetSeq packet) with
    | none => simp
    | some r => simp [ha]
  · obtain ⟨e, he⟩ := unwrap_of_not_authentic ha
    rw [he]
    simp [ha]

theorem unwrap_congr {w' : Wrapper} (hkey : w'.decrypt = w.decrypt) (hreplay : w'.replay = w.replay)
    (packet : Bytes) :
    w'.unwrap K packet
      = (w.unwrap K packet).map fun out =>
        (out.1, out.2.1, { w' with replay := out.2.2.replay }) := by
  unfold Wrapper.unwrap
  rw [hkey, hreplay]
  split
  · rfl
  · split
    · rfl
    · cases w.replay.accept (packetSeq packet) with
      | none => rfl
      | some r =>
        rfl

/-! ## A series of calls -/

/-- The calls that decide anything later: the authentic datagrams. -/
def authenticCall (K : Crypto) (key : KeySlot) : WrapperCall → Bool
  | .wrap _ _ _ => false
  | .unwrap packet => decide (TagAuthentic K key packet)

theorem took_eq_nil_iff (K : Crypto) (hw : w.replay = {}) (cs : List WrapperCall) :
    (Taker.after K w cs).took = [] ↔ ∀ c ∈ cs, authenticCall K w.decrypt c = false := by
  refine Machine.run_history (Taker.call K)
    (I := fun pre t => t.took = [] ↔ ∀ c ∈ pre, authenticCall K w.decrypt c = false)
    (by simp) ?_ cs
  intro pre c ih
  have hinv : TakerInv w.decrypt (Machine.run (Taker.call K) { wrapper := w } pre) :=
    takerInv_after K hw pre
  generalize Machine.run (Taker.call K) { wrapper := w } pre = t at ih hinv
  rw [List.forall_mem_append, List.forall_mem_singleton, ← ih]
  cases c with
  | wrap now header plaintext => simp [Taker.call, authenticCall]
  | unwrap packet =>
    simp only [Taker.call, authenticCall, decide_eq_false_iff_not, ← hinv.decrypt]
    cases hu : t.wrapper.unwrap K packet with
    | ok out =>
      have ha := (unwrap_ok_iff.mp ⟨out, hu⟩).1
      simp [ha]
    | error e =>
      refine ⟨fun hnil => ⟨hnil, fun ha => ?_⟩, And.left⟩
      -- with nothing taken the window takes anything
      have hfresh : ∃ r, t.wrapper.replay.accept (packetSeq packet) = some r :=
        (accept_iff hinv.tracks _).mpr (by simp [hnil])
      obtain ⟨out, hok⟩ := unwrap_ok_iff.mpr ⟨ha, hfresh⟩
      rw [hu] at hok
      cases hok

/-- What a verdict depends on. -/
def Taker.view (t : Taker) : KeySlot × ReplayWindow := (t.wrapper.decrypt, t.wrapper.replay)

theorem unwrap_view {s t : Taker} (h : s.view = t.view) (packet : Bytes) :
    Wrapper.verdict K s.wrapper packet = Wrapper.verdict K t.wrapper packet
      ∧ (s.call K (.unwrap packet)).view = (t.call K (.unwrap packet)).view := by
  obtain ⟨hkey, hreplay⟩ := Prod.mk.inj h
  have hcongr := unwrap_congr (K := K) hkey hreplay packet
  unfold Wrapper.verdict
  simp only [Taker.call, hcongr]
  cases hu : t.wrapper.unwrap K packet with
  | error e => exact ⟨rfl, h⟩
  | ok out =>
    obtain ⟨r, -, hout⟩ := unwrap_frame hu
    refine ⟨rfl, Prod.ext ?_ rfl⟩
    show s.wrapper.decrypt = out.2.2.decrypt
    rw [hout]
    exact hkey

/-- Calls other than authentic datagrams leave no trace in the window. -/
theorem view_after (K : Crypto) (w : Wrapper) (cs : List WrapperCall) :
    (Taker.after K w cs).view = (Taker.after K w (cs.filter (authenticCall K w.decrypt))).view := by
  refine Machine.view_run_filter Taker.view (authenticCall K w.decrypt)
    (P := fun t _ => t.wrapper.decrypt = w.decrypt) ?_ ?_
    (Machine.along_of_invariant (I := fun t : Taker => t.wrapper.decrypt = w.decrypt) ?_ cs rfl) rfl
  · intro s t c hkeep hview
    cases c with
    | wrap now header plaintext => exact absurd hkeep (by simp [authenticCall])
    | unwrap packet => exact (unwrap_view hview packet).2
  · intro t c hskip hkey
    cases c with
    | wrap now header plaintext =>
      obtain ⟨hd, hr⟩ := wrap_frame K t.wrapper now header plaintext
      exact Prod.ext hd hr
    | unwrap packet =>
      simp only [authenticCall, decide_eq_false_iff_not, ← hkey] at hskip
      obtain ⟨e, he⟩ := unwrap_of_not_authentic hskip
      simp only [Taker.call, he]
  · intro t c hkey
    cases c with
    | wrap now header plaintext => exact (wrap_frame K t.wrapper now header plaintext).1.trans hkey
    | unwrap packet =>
      simp only [Taker.call]
      cases hu : t.wrapper.unwrap K packet with
      | error e => exact hkey
      | ok out =>
        obtain ⟨r, -, hw'⟩ := unwrap_frame hu
        show out.2.2.decrypt = w.decrypt
        rw [hw']
        exact hkey

/-- **The replay filter is its set.** After any calls on a new wrapper, a datagram is accepted
exactly when it is authentic and either no authentic one came before or its number was not taken
and is above the largest taken less 64; and the verdict is the one there would be if only the
authentic datagrams had been offered. -/
theorem replay_filter_exact (K : Crypto) (enc dec : KeySlot) (cs : List WrapperCall)
    (packet : Bytes) :
    let t := Taker.after K { encrypt := enc, decrypt := dec } cs
    ((∃ out, t.wrapper.unwrap K packet = .ok out)
        ↔ TagAuthentic K dec packet
          ∧ ((∀ earlier, .unwrap earlier ∈ cs → ¬ TagAuthentic K dec earlier)
            ∨ packetSeq packet ∉ t.took
              ∧ (largestTaken t.took : Int) - replayWindowSize < (packetSeq packet).toNat))
      ∧ Wrapper.verdict K t.wrapper packet
        = Wrapper.verdict K
            (Taker.after K { encrypt := enc, decrypt := dec }
              (cs.filter (authenticCall K dec))).wrapper
            packet := by
  intro t
  have hinv : TakerInv dec t := takerInv_after K (w := { encrypt := enc, decrypt := dec }) rfl cs
  have hfirst : (∀ earlier, .unwrap earlier ∈ cs → ¬ TagAuthentic K dec earlier) ↔ t.took = [] := by
    rw [took_eq_nil_iff K rfl cs]
    constructor
    · intro h c hc
      cases c with
      | wrap now header plaintext => rfl
      | unwrap earlier => exact decide_eq_false (h earlier hc)
    · intro h earlier hc
      exact of_decide_eq_false (h _ hc)
  have hlargest : (largestTaken t.took : Int) - replayWindowSize < (packetSeq packet).toNat
      ↔ ∀ s ∈ t.took, s.toNat < (packetSeq packet).toNat + replayWindowSize := by
    rw [← largestTaken_lt (by unfold replayWindowSize; omega)]
    omega
  refine ⟨?_, (unwrap_view (view_after K _ cs) packet).1⟩
  rw [unwrap_ok_iff, hinv.decrypt, accept_iff hinv.tracks, hfirst, hlargest]
  refine and_congr_right fun _ => ⟨.inr, fun h => ?_⟩
  rcases h with hnil | h
  · simp [hnil]
  · exact h

end GoVpn.Proof
