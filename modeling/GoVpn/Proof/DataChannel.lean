import Mathlib.Data.List.Nodup
import GoVpn.Lib.Run
import GoVpn.Data.DataChan
import GoVpn.Proof.Replay

/-!
# The data channel's contract

What one wrapper seals, a wrapper with the mirrored keys opens: each packet at most
once, unchanged, and the first time it arrives unless 64 or more numbers behind.
Datagrams the sender did not seal change neither the state nor any other result.
-/

namespace GoVpn.Proof

open GoVpn.Control (Bytes ReplayWindow replayWindowSize)
open GoVpn.Data

variable {A : Aead}

/-! ## The layout -/

@[simp] theorem length_dataHeader (w : Wrapper) (seq : BitVec 32) :
    (w.header seq).length = headerSize := by
  simp [Wrapper.header, headerSize, offTag]

theorem header_packetID (w : Wrapper) (seq : BitVec 32) (rest : Bytes) :
    ((w.header seq ++ rest).drop offPacketID).take 4 = BigEndian.put 4 seq.toNat := by
  unfold Wrapper.header
  rw [List.append_assoc, List.drop_left' (by simp [offPacketID]), List.take_left' (by simp)]

theorem packetSeq_sealWithSeq (w : Wrapper) (seq : BitVec 32) (p : Bytes) :
    packetSeq (w.sealWithSeq A seq p) = seq := by
  unfold packetSeq Wrapper.sealWithSeq
  rw [List.append_assoc, header_packetID, BigEndian.get_put]
  refine BitVec.eq_of_toNat_eq ?_
  rw [BitVec.toNat_ofNat]
  omega

/-- The two ends' keys fit: what `w` encrypts with, `v` decrypts with. -/
def Mirrored (w v : Wrapper) : Prop := v.decryptKey = w.encryptKey ∧ v.decryptIV = w.encryptIV

instance (w v : Wrapper) : Decidable (Mirrored w v) := inferInstanceAs (Decidable (_ ∧ _))

theorem length_sealWithSeq (w : Wrapper) (seq : BitVec 32) (p : Bytes) :
    (w.sealWithSeq A seq p).length = offCiphertext + p.length := by
  unfold Wrapper.sealWithSeq
  simp only [List.length_append, length_dataHeader, List.length_drop, List.length_take,
    A.length_aeadSeal, headerSize, offCiphertext, offTag, tagSize]
  omega

variable {w : Wrapper} {ps : List Bytes}

variable {d : Bytes} {v : Wrapper}

theorem decrypt_sealWithSeq (hm : Mirrored w v) (seq : BitVec 32) (p : Bytes) :
    v.decrypt A (w.sealWithSeq A seq p) = some p := by
  unfold Wrapper.decrypt
  rw [packetSeq_sealWithSeq]
  unfold Wrapper.sealWithSeq
  dsimp only
  generalize hs : A.aeadSeal w.encryptKey (nonce seq w.encryptIV) p (w.header seq) = sealed
  have hlen : sealed.length = p.length + tagSize := by rw [← hs, A.length_aeadSeal]
  have htag : (sealed.drop (sealed.length - tagSize)).length = tagSize := by
    rw [List.length_drop]; omega
  have h1 : (w.header seq ++ sealed.drop (sealed.length - tagSize)
      ++ sealed.take (sealed.length - tagSize)).take headerSize = w.header seq := by
    rw [List.append_assoc, List.take_left' (length_dataHeader w seq)]
  have h2 : ((w.header seq ++ sealed.drop (sealed.length - tagSize)
      ++ sealed.take (sealed.length - tagSize)).drop offTag).take tagSize
      = sealed.drop (sealed.length - tagSize) := by
    rw [List.append_assoc,
      List.drop_left' (show (w.header seq).length = offTag from length_dataHeader w seq),
      List.take_left' htag]
  have h3 : (w.header seq ++ sealed.drop (sealed.length - tagSize)
      ++ sealed.take (sealed.length - tagSize)).drop offCiphertext
      = sealed.take (sealed.length - tagSize) := by
    rw [List.drop_left' (by
      rw [List.length_append, length_dataHeader, htag]; rfl)]
  rw [h1, h2, h3, List.take_append_drop, hm.1, hm.2, ← hs, A.aeadOpen_aeadSeal]

/-! ## Sealing -/

theorem nextPacketID_ok {w' : Wrapper} (h : w.nextPacketID = .ok w') :
    w.sendSeq.toNat < 0xFFFFFFFF ∧ w' = { w with sendSeq := w.sendSeq + 1 }
      ∧ w'.sendSeq.toNat = w.sendSeq.toNat + 1 := by
  unfold Wrapper.nextPacketID at h
  split at h
  · cases h
  · rename_i hne
    obtain rfl := (Except.ok.inj h).symm
    refine ⟨?_, rfl, ?_⟩ <;> bv_omega

/--
Every packet of a run of `Seal` calls: its number is above those handed out before,
and it is that number's packet under the wrapper's keys.
-/
theorem sealed_spec {p : Bytes} (h : (p, Except.ok d) ∈ Machine.trace (Wrapper.seal A) w ps) :
    ∃ seq : BitVec 32, w.sendSeq.toNat < seq.toNat ∧ d = w.sealWithSeq A seq p := by
  induction ps generalizing w with
  | nil => cases h
  | cons q ps ih =>
    cases hn : w.nextPacketID with
    | error e =>
      have hs : w.seal A q = (w, .error e) := by unfold Wrapper.seal; rw [hn]
      rw [Machine.trace, hs] at h
      rcases List.mem_cons.mp h with heq | h
      · cases heq
      · exact ih h
    | ok w' =>
      obtain ⟨_, hw', hseq⟩ := nextPacketID_ok hn
      have hs : w.seal A q = (w', .ok (w'.sealWithSeq A w'.sendSeq q)) := by
        unfold Wrapper.seal; rw [hn]
      rw [Machine.trace, hs] at h
      rcases List.mem_cons.mp h with heq | h
      · obtain ⟨rfl, hd⟩ := Prod.mk.inj heq
        refine ⟨w'.sendSeq, by omega, ?_⟩
        rw [Except.ok.inj hd, hw']; rfl
      · obtain ⟨seq, hlt, hd⟩ := ih h
        dsimp only at hlt hd
        refine ⟨seq, by omega, ?_⟩
        rw [hd, hw']; rfl

/-- The packets a run of `Seal` calls produced, in order. -/
def sealedPackets (A : Aead) (w : Wrapper) (ps : List Bytes) : List Bytes :=
  (Machine.trace (Wrapper.seal A) w ps).filterMap fun x => x.2.toOption

theorem mem_sealedPackets :
    d ∈ sealedPackets A w ps ↔ ∃ p, (p, Except.ok d) ∈ Machine.trace (Wrapper.seal A) w ps := by
  unfold sealedPackets
  rw [List.mem_filterMap]
  constructor
  · rintro ⟨⟨p, r⟩, hx, hr⟩
    cases r with
    | error e => cases hr
    | ok d' => obtain rfl := Option.some.inj hr; exact ⟨p, hx⟩
  · rintro ⟨p, hx⟩
    exact ⟨_, hx, rfl⟩

theorem packetSeq_sealed (h : d ∈ sealedPackets A w ps) :
    w.sendSeq.toNat < (packetSeq d).toNat := by
  obtain ⟨p, hp⟩ := mem_sealedPackets.mp h
  obtain ⟨seq, hlt, rfl⟩ := sealed_spec hp
  rw [packetSeq_sealWithSeq]
  exact hlt

theorem sealed_increasing (w : Wrapper) (ps : List Bytes) :
    ((sealedPackets A w ps).map packetSeq).Pairwise (· < ·) := by
  induction ps generalizing w with
  | nil => exact List.Pairwise.nil
  | cons q ps ih =>
    unfold sealedPackets
    cases hn : w.nextPacketID with
    | error e =>
      have hs : w.seal A q = (w, .error e) := by unfold Wrapper.seal; rw [hn]
      rw [Machine.trace, hs]
      exact ih w
    | ok w' =>
      have hs : w.seal A q = (w', .ok (w'.sealWithSeq A w'.sendSeq q)) := by
        unfold Wrapper.seal; rw [hn]
      rw [Machine.trace, hs]
      refine List.Pairwise.cons ?_ (ih w')
      intro s hs'
      obtain ⟨d, hd, rfl⟩ := List.mem_map.mp hs'
      rw [packetSeq_sealWithSeq]
      exact packetSeq_sealed hd

theorem sealed_eq_of_seq {e : Bytes} (hd : d ∈ sealedPackets A w ps) (he : e ∈ sealedPackets A w ps)
    (h : packetSeq d = packetSeq e) : d = e := by
  have hnd : ((sealedPackets A w ps).map packetSeq).Nodup :=
    (sealed_increasing w ps).imp fun hlt heq => absurd (heq ▸ hlt) (BitVec.lt_irrefl _)
  exact List.inj_on_of_nodup_map hnd hd he h

theorem seal_exhausted (h : w.sendSeq = 0xFFFFFFFF) (p : Bytes) :
    w.seal A p = (w, .error .packetIDExhausted) := by
  unfold Wrapper.seal Wrapper.nextPacketID
  rw [if_pos h]

theorem trace_exhausted (h : w.sendSeq = 0xFFFFFFFF) (ps : List Bytes) :
    ∀ x ∈ Machine.trace (Wrapper.seal A) w ps, x.2 = .error .packetIDExhausted := by
  induction ps with
  | nil => intro x hx; cases hx
  | cons p ps ih =>
    intro x hx
    rw [Machine.trace, seal_exhausted h] at hx
    rcases List.mem_cons.mp hx with rfl | hx
    · rfl
    · exact ih x hx

/-! ## Opening -/

/-- The packet is long enough and its tag is right. -/
def Authenticates (A : Aead) (v : Wrapper) (d : Bytes) : Prop :=
  offCiphertext ≤ d.length ∧ (v.decrypt A d).isSome = true

instance (A : Aead) (v : Wrapper) (d : Bytes) : Decidable (Authenticates A v d) :=
  inferInstanceAs (Decidable (_ ∧ _))

theorem open_of_not_authentic (h : ¬ Authenticates A v d) :
    (v.open A d).1 = v ∧ ∀ q, (v.open A d).2 ≠ .ok q := by
  unfold Wrapper.open
  split
  · exact ⟨rfl, by simp⟩
  · rename_i hlen
    cases hd : v.decrypt A d with
    | none => exact ⟨rfl, by simp⟩
    | some p => exact absurd ⟨Nat.not_lt.mp hlen, by simp [hd]⟩ h

theorem open_of_authentic {p : Bytes} (hlen : offCiphertext ≤ d.length)
    (hd : v.decrypt A d = some p) :
    (v.replay.accept (packetSeq d) = none ∧ v.open A d = (v, .error .replay))
      ∨ ∃ r, v.replay.accept (packetSeq d) = some r
        ∧ v.open A d =
          ({ v with replay := r }, if isPing p then .error .pingAbsorbed else .ok p) := by
  unfold Wrapper.open
  rw [if_neg (Nat.not_lt.mpr hlen), hd]
  cases ha : v.replay.accept (packetSeq d) with
  | none => exact .inl ⟨rfl, rfl⟩
  | some r => exact .inr ⟨r, rfl, rfl⟩

/-- **The inversion of `Open`.** It fails and changes nothing, or the window takes the number. -/
theorem open_cases (A : Aead) (v : Wrapper) (d : Bytes) :
    ((v.open A d).1 = v ∧ ∀ q, (v.open A d).2 ≠ .ok q)
      ∨ ∃ p r, Authenticates A v d ∧ v.decrypt A d = some p
        ∧ v.replay.accept (packetSeq d) = some r
        ∧ v.open A d =
          ({ v with replay := r }, if isPing p then .error .pingAbsorbed else .ok p) := by
  by_cases hauth : Authenticates A v d
  · obtain ⟨p, hp⟩ := Option.isSome_iff_exists.mp hauth.2
    rcases open_of_authentic hauth.1 hp with ⟨_, ho⟩ | ⟨r, hr, ho⟩
    · exact .inl (by rw [ho]; exact ⟨rfl, by simp⟩)
    · exact .inr ⟨p, r, hauth, hp, hr, ho⟩
  · exact .inl (open_of_not_authentic hauth)

/-- `Open` changes the window only. -/
theorem open_frame (A : Aead) (v : Wrapper) (d : Bytes) :
    (v.open A d).1 = { v with replay := (v.open A d).1.replay } := by
  rcases open_cases A v d with ⟨h, _⟩ | ⟨p, r, _, _, _, h⟩
  · rw [h]
  · rw [h]

/-- So does a run of it. -/
theorem run_open_frame (A : Aead) (v : Wrapper) (ds : List Bytes) :
    Machine.run (fun v d => (Wrapper.open A v d).1) v ds
      = { v with replay := (Machine.run (fun v d => (Wrapper.open A v d).1) v ds).replay } := by
  refine Machine.run_invariant' (I := fun u : Wrapper => u = { v with replay := u.replay }) ?_ rfl
    ds
  intro u d hu
  rw [open_frame A u d, hu]

theorem authenticates_replay (v : Wrapper) (r : ReplayWindow) (d : Bytes) :
    Authenticates A { v with replay := r } d ↔ Authenticates A v d := Iff.rfl

theorem covered_open {s : BitVec 32} (d : Bytes) (h : Covered v.replay s) :
    Covered (v.open A d).1.replay s := by
  rcases open_cases A v d with ⟨ho, _⟩ | ⟨p, r, _, _, hr, ho⟩
  · rw [ho]; exact h
  · rw [ho]; exact covered_mono hr h

theorem open_at_most_once (v : Wrapper) (d : Bytes) (ds : List Bytes) :
    (Machine.trace (Wrapper.open A) v ds).countP
      (fun x => decide (x.1 = d) && x.2.toOption.isSome) ≤ 1 := by
  refine Machine.countP_trace_le_one (I := fun v => Covered v.replay (packetSeq d))
    (fun r => r.toOption.isSome) (fun v e => covered_open e) ?_ ?_ v ds
  · intro v hcov
    rcases open_cases A v d with ⟨_, hne⟩ | ⟨p, r, _, _, hr, _⟩
    · cases ho : (v.open A d).2 with
      | error e => rfl
      | ok q => exact absurd ho (hne q)
    · exact absurd (hr.symm.trans (accept_covered hcov)) (by simp)
  · intro v hy
    rcases open_cases A v d with ⟨_, hne⟩ | ⟨p, r, _, _, hr, ho⟩
    · cases ho : (v.open A d).2 with
      | error e => rw [ho] at hy; cases hy
      | ok q => exact absurd ho (hne q)
    · rw [ho]; exact covered_accept hr

/-! ## The two ends together -/

section TwoEnds

variable {w v : Wrapper} {ps ds : List Bytes}

theorem sealed_opens (hm : Mirrored w v) {p d : Bytes}
    (h : (p, Except.ok d) ∈ Machine.trace (Wrapper.seal A) w ps) :
    offCiphertext ≤ d.length ∧ v.decrypt A d = some p := by
  obtain ⟨seq, _, rfl⟩ := sealed_spec h
  exact ⟨by rw [length_sealWithSeq]; omega, decrypt_sealWithSeq hm seq p⟩

/-- An ideal AEAD, on this schedule: only sealed packets authenticate. -/
def NoForgery (A : Aead) (w v : Wrapper) (ps ds : List Bytes) : Prop :=
  ∀ d ∈ ds, Authenticates A v d → d ∈ sealedPackets A w ps

instance (A : Aead) (w v : Wrapper) (ps ds : List Bytes) : Decidable (NoForgery A w v ps ds) :=
  inferInstanceAs (Decidable (∀ d ∈ ds, Authenticates A v d → d ∈ sealedPackets A w ps))

theorem window_of_schedule (hv : v.replay = {}) (hideal : NoForgery A w v ps ds) :
    ∃ taken, Tracks (Machine.run (fun v d => (Wrapper.open A v d).1) v ds).replay taken
      ∧ ∀ s ∈ taken, ∃ d ∈ ds, d ∈ sealedPackets A w ps ∧ packetSeq d = s := by
  refine Machine.run_invariant
    (P := fun _ d => d ∈ ds ∧ (Authenticates A v d → d ∈ sealedPackets A w ps))
    (I := fun u : Wrapper => (u = { v with replay := u.replay }) ∧ ∃ taken, Tracks u.replay taken
      ∧ ∀ s ∈ taken, ∃ d ∈ ds, d ∈ sealedPackets A w ps ∧ packetSeq d = s) ?_
    ⟨rfl, [], hv ▸ tracks_new, by simp⟩
    (Machine.along_of_mem v fun d hd => ⟨hd, hideal d hd⟩) |>.2
  rintro u d ⟨hu, taken, htr, hfrom⟩ ⟨hd, hseal⟩
  refine ⟨by rw [open_frame A u d, hu], ?_⟩
  rcases open_cases A u d with ⟨ho, _⟩ | ⟨p, r, hauth, _, hr, ho⟩
  · rw [ho]; exact ⟨taken, htr, hfrom⟩
  · rw [ho]
    refine ⟨packetSeq d :: taken, tracks_accept hr htr, ?_⟩
    intro s hs
    rcases List.mem_cons.mp hs with rfl | hs
    · rw [hu] at hauth
      exact ⟨d, hd, hseal hauth, rfl⟩
    · exact hfrom s hs

theorem first_arrival {pre : List Bytes} {p d : Bytes} (hm : Mirrored w v) (hv : v.replay = {})
    (hideal : NoForgery A w v ps pre)
    (hd : (p, Except.ok d) ∈ Machine.trace (Wrapper.seal A) w ps) (hfirst : d ∉ pre)
    (hnear : ∀ e ∈ pre, e ∈ sealedPackets A w ps →
      (packetSeq e).toNat < (packetSeq d).toNat + replayWindowSize) :
    ((Machine.run (fun v d => (Wrapper.open A v d).1) v pre).open A d).2
      = if isPing p then .error .pingAbsorbed else .ok p := by
  obtain ⟨taken, htr, hfrom⟩ := window_of_schedule hv hideal
  have hframe := run_open_frame A v pre
  generalize Machine.run (fun v d => (Wrapper.open A v d).1) v pre = u at *
  obtain ⟨hlen, hdec⟩ := sealed_opens hm hd
  have hdec' : u.decrypt A d = some p := by rw [hframe]; exact hdec
  have hmem : d ∈ sealedPackets A w ps := mem_sealedPackets.mpr ⟨p, hd⟩
  have hnew : packetSeq d ∉ taken := by
    intro ht
    obtain ⟨e, he, hes, heq⟩ := hfrom _ ht
    exact hfirst (sealed_eq_of_seq hmem hes heq.symm ▸ he)
  have hclose : ∀ s ∈ taken, s.toNat < (packetSeq d).toNat + replayWindowSize := by
    intro s hs
    obtain ⟨e, he, hes, rfl⟩ := hfrom s hs
    exact hnear e he hes
  obtain ⟨r, hr⟩ := accept_fresh htr hnew hclose
  rcases open_of_authentic hlen hdec' with ⟨hn, _⟩ | ⟨r', _, ho⟩
  · cases hr.symm.trans hn
  · rw [ho]

theorem returned_unchanged {d q : Bytes} (hm : Mirrored w v) (hideal : NoForgery A w v ps ds)
    (h : (d, Except.ok q) ∈ Machine.trace (Wrapper.open A) v ds) :
    (q, Except.ok d) ∈ Machine.trace (Wrapper.seal A) w ps ∧ isPing q = false := by
  obtain ⟨pre, post, hds, hres⟩ := Machine.mem_trace h
  have hmem : d ∈ ds := by rw [hds]; simp
  rw [run_open_frame A v pre] at hres
  rcases open_cases A _ d with ⟨_, hne⟩ | ⟨p, r, hauth, hdec, _, ho⟩
  · exact absurd hres.symm (hne q)
  · have hs := hideal d hmem ((authenticates_replay v _ d).mp hauth)
    obtain ⟨p', hp'⟩ := mem_sealedPackets.mp hs
    have hpp : p = p' := Option.some.inj (hdec.symm.trans (sealed_opens hm hp').2)
    rw [ho] at hres
    split at hres
    · cases hres
    · rename_i hping
      obtain rfl := Except.ok.inj hres
      exact ⟨hpp ▸ hp', by simpa using hping⟩

theorem forged_removed (hideal : NoForgery A w v ps ds) :
    (Machine.trace (Wrapper.open A) v ds).filter (fun x => decide (x.1 ∈ sealedPackets A w ps))
      = Machine.trace (Wrapper.open A) v
        (ds.filter fun d => decide (d ∈ sealedPackets A w ps)) := by
  refine Machine.trace_filter (fun d => decide (d ∈ sealedPackets A w ps))
    (I := fun u : Wrapper => u = { v with replay := u.replay }) (s := v) ?_ rfl ?_
  · intro u d hu
    rw [open_frame A u d, hu]
  · intro d hd hnot u hu
    refine (open_of_not_authentic ?_).1
    rw [hu]
    intro hauth
    exact absurd (hideal d hd ((authenticates_replay v _ d).mp hauth)) (by simpa using hnot)

end TwoEnds

/--
**The data channel's contract.** A wrapper numbers its packets in increasing order
and seals nothing more once the numbers are used up. A mirrored wrapper, under any
schedule of datagrams among which only sealed packets authenticate: returns no
packet twice; returns what was sealed and never a ping; returns a packet that
arrives for the first time, unless its number is 64 or more below one that
authenticated before; and answers as it would without the datagrams not sealed.
-/
theorem data_channel_contract (A : Aead) (w v : Wrapper) (ps ds : List Bytes)
    (hm : Mirrored w v) (hv : v.replay = {}) (hideal : NoForgery A w v ps ds) :
    ((sealedPackets A w ps).map packetSeq).Pairwise (· < ·)
      ∧ (∀ pre post, ps = pre ++ post →
          (Machine.run (fun w p => (Wrapper.seal A w p).1) w pre).sendSeq = 0xFFFFFFFF →
          ∀ x ∈ Machine.trace (Wrapper.seal A)
              (Machine.run (fun w p => (Wrapper.seal A w p).1) w pre) post,
            x.2 = .error .packetIDExhausted)
      ∧ (∀ d, (Machine.trace (Wrapper.open A) v ds).countP
          (fun x => decide (x.1 = d) && x.2.toOption.isSome) ≤ 1)
      ∧ (∀ d q, (d, Except.ok q) ∈ Machine.trace (Wrapper.open A) v ds →
          (q, Except.ok d) ∈ Machine.trace (Wrapper.seal A) w ps ∧ isPing q = false)
      ∧ (∀ pre post p d, ds = pre ++ d :: post → d ∉ pre →
          (p, Except.ok d) ∈ Machine.trace (Wrapper.seal A) w ps →
          (∀ e ∈ pre, e ∈ sealedPackets A w ps →
            (packetSeq e).toNat < (packetSeq d).toNat + replayWindowSize) →
          ((Machine.run (fun v d => (Wrapper.open A v d).1) v pre).open A d).2
            = if isPing p then .error .pingAbsorbed else .ok p)
      ∧ (Machine.trace (Wrapper.open A) v ds).filter
            (fun x => decide (x.1 ∈ sealedPackets A w ps))
          = Machine.trace (Wrapper.open A) v
              (ds.filter fun d => decide (d ∈ sealedPackets A w ps)) := by
  refine ⟨sealed_increasing w ps, ?_, fun d => open_at_most_once v d ds,
    fun d q => returned_unchanged hm hideal, ?_, forged_removed hideal⟩
  · intro pre post _ hmax
    exact trace_exhausted hmax post
  · intro pre post p d hds hfirst hd hnear
    have hpre : NoForgery A w v ps pre := fun e he => hideal e (by rw [hds]; simp [he])
    exact first_arrival hm hv hpre hd hfirst hnear

/-- Two packets arrive in the wrong order, one of them twice, with a forgery in between. -/
theorem data_channel_contract_reordered :
    let w : Wrapper := ⟨1, 0, [1], [2], [3], [4], 0, {}⟩
    let v : Wrapper := ⟨1, 0, [3], [4], [1], [2], 0, {}⟩
    let first := w.sealWithSeq zeroTagAead 1 [10]
    let second := w.sealWithSeq zeroTagAead 2 [11]
    let ds := [second, List.replicate 30 7, first, second]
    NoForgery zeroTagAead w v [[10], [11]] ds
      ∧ (Machine.trace (Wrapper.open zeroTagAead) v ds).countP
          (fun x => decide (x.1 = second) && x.2.toOption.isSome) ≤ 1
      ∧ ((Machine.run (fun v d => (Wrapper.open zeroTagAead v d).1) v
          [second, List.replicate 30 7]).open zeroTagAead first).2 = .ok [10] := by
  intro w v first second ds
  have hideal : NoForgery zeroTagAead w v [[10], [11]] ds := by decide
  have h := data_channel_contract zeroTagAead w v [[10], [11]] ds ⟨rfl, rfl⟩ rfl hideal
  refine ⟨hideal, h.2.2.1 second, ?_⟩
  exact h.2.2.2.2.1 [second, List.replicate 30 7] [second] [10] first rfl (by decide) (by decide)
    (by decide)

end GoVpn.Proof
