import GoVpn.Proof.Reassembled

/-!
# What a refused fragment leaves behind

`add` refuses a fragment in two places. For want of a buffer it does so at once, and nothing has
happened but the sweep. For want of bytes it does so only after the buffer was made, if there was
none, and after a final fragment has fixed the datagram's end. So a fragment that was not stored
may hold one of the session's few buffers until it expires, and its end is what later fragments
are measured against.
-/

namespace GoVpn.Netstack

open Reassembler

/-- The same buffers with the same contents, and the same count of bytes. -/
structure SameState (r r' : Reassembler) : Prop where
  buffers : ∀ k, r.buffer k = r'.buffer k
  bytes : r.bytes = r'.bytes
  closed : r.closed = r'.closed
  limits : r.limits = r'.limits

/-- A refusal of `f` changes nothing but what the sweep changes: there is no buffer for it and no
room for one, or there is one and `f` does not fix its end. -/
def Traceless (r : Reassembler) (now : Int) (f : Fragment) : Prop :=
  match (r.sweep now).1.buffer f.key with
  | none => r.resolveLimits.maxBufs ≤ (r.sweep now).1.bufs.keys.length
  | some b => f.final = false ∨ b.totalLen.isSome = true

/-! ## Refusals -/

theorem addTo_refused {r : Reassembler} {maxBytes expired : Nat} {f : Fragment}
    {b : ReassemblyBuffer}
    (h : (r.addTo maxBytes expired f.hdr f.pkt b).2.outcome = .boundExceeded) :
    ∃ b', b.declareEnd f.hdr.moreFragments (f.stop - 1) = some b' ∧
      (r.addTo maxBytes expired f.hdr f.pkt b).1 = r.put f.key b' := by
  have hsettled := r.addTo_settled maxBytes expired f b
  have hfate := hsettled.fate
  rw [hsettled.state]
  rw [h] at hfate
  generalize (r.addTo maxBytes expired f.hdr f.pkt b).2.datagram = d at hfate
  generalize (r.addTo maxBytes expired f.hdr f.pkt b).1.buffer f.key = left at hfate ⊢
  cases hfate with
  | refused hend =>
    refine ⟨_, hend, (put_eq_settle _ ?_).symm⟩
    rw [(ReassemblyBuffer.declareEnd_some hend).1]
    exact (Int.sub_add_cancel _ _).symm

/-- The two refusals of `add`. -/
inductive Refusal (r : Reassembler) (now : Int) (f : Fragment) : Prop
  | noBuffer (hnone : (r.sweep now).1.buffer f.key = none)
      (hfull : r.resolveLimits.maxBufs ≤ (r.sweep now).1.bufs.keys.length)
      (h : (r.add now f.hdr f.pkt).1 = (r.sweep now).1)
  | made {b' : ReassemblyBuffer} (hnone : (r.sweep now).1.buffer f.key = none)
      (hroom : ¬ r.resolveLimits.maxBufs ≤ (r.sweep now).1.bufs.keys.length)
      (h : (r.add now f.hdr f.pkt).1 = (r.sweep now).1.put f.key b')
  | found {b b' : ReassemblyBuffer} (hsome : (r.sweep now).1.buffer f.key = some b)
      (hend : b.declareEnd f.hdr.moreFragments (f.stop - 1) = some b')
      (h : (r.add now f.hdr f.pkt).1 = (r.sweep now).1.put f.key b')

theorem refusal_of_boundExceeded {r : Reassembler} {now : Int} {f : Fragment}
    (h : (r.add now f.hdr f.pkt).2.outcome = .boundExceeded) : Refusal r now f := by
  have hopen : ¬ r.closed = true := by
    intro hc
    rw [add, if_pos hc] at h
    cases h
  cases hb : (r.sweep now).1.buffer f.key with
  | some b =>
    rw [add_eq_addTo (Bool.not_eq_true _ ▸ hopen) hb] at h
    obtain ⟨b', hend, heq⟩ := addTo_refused h
    exact .found hb hend (by rw [add_eq_addTo (Bool.not_eq_true _ ▸ hopen) hb, heq])
  | none =>
    have hadd : r.add now f.hdr f.pkt =
        if (r.sweep now).1.bufs.keys.length ≥ r.resolveLimits.maxBufs then
          ((r.sweep now).1, { outcome := .boundExceeded, expired := (r.sweep now).2 })
        else (r.sweep now).1.addTo r.resolveLimits.maxBytes (r.sweep now).2 f.hdr f.pkt
          (r.fresh now) := by
      unfold add
      rw [if_neg hopen]
      dsimp only
      rw [show (r.sweep now).1.bufs.lookup f.hdr.key = none from hb]
      rfl
    by_cases hfull : (r.sweep now).1.bufs.keys.length ≥ r.resolveLimits.maxBufs
    · exact .noBuffer hb hfull (by rw [hadd, if_pos hfull])
    · rw [hadd, if_neg hfull] at h
      obtain ⟨b', -, heq⟩ := addTo_refused h
      exact .made hb hfull (by rw [hadd, if_neg hfull, heq])

theorem sameState_put_iff (r : Reassembler) (k : ReassemblyKey) (b : ReassemblyBuffer) :
    SameState (r.put k b) r ↔ r.buffer k = some b := by
  constructor
  · intro h
    rw [← h.buffers k, buffer_put_self]
  · intro h
    refine ⟨fun k' => ?_, rfl, rfl, rfl⟩
    by_cases hk : k' = k
    · rw [hk, buffer_put_self, h]
    · exact buffer_put_ne r b hk

theorem declareEnd_same_iff {b b' : ReassemblyBuffer} {more : Bool} {last : Nat}
    (h : b.declareEnd more last = some b') : b = b' ↔ more = true ∨ b.totalLen.isSome = true := by
  obtain ⟨heq, hkeep, hfinal, hmore⟩ := ReassemblyBuffer.declareEnd_some h
  have hlen : b.totalLen = b'.totalLen → b = b' := fun hl => by rw [heq, ← hl]
  constructor
  · intro hb
    cases hm : more with
    | true => exact .inl rfl
    | false =>
      refine .inr ?_
      rw [hb, hfinal hm]
      rfl
  · rintro (hm | hsome)
    · exact hlen (hmore hm).symm
    · obtain ⟨t, ht⟩ := Option.isSome_iff_exists.mp hsome
      exact hlen (ht.trans (hkeep t ht).1.symm)

/-- **A refused fragment leaves no trace exactly where `Traceless` says so**, whatever state the
reassembler was in. -/
theorem refused_traceless_iff {r : Reassembler} {now : Int} {f : Fragment}
    (h : (r.add now f.hdr f.pkt).2.outcome = .boundExceeded) :
    SameState (r.add now f.hdr f.pkt).1 (r.sweep now).1 ↔ Traceless r now f := by
  cases refusal_of_boundExceeded h with
  | noBuffer hnone hfull heq =>
    rw [heq, Traceless, hnone]
    exact ⟨fun _ => hfull, fun _ => ⟨fun _ => rfl, rfl, rfl, rfl⟩⟩
  | made hnone hroom heq =>
    rw [heq, Traceless, sameState_put_iff, hnone]
    exact ⟨nofun, fun hfull => absurd hfull hroom⟩
  | found hsome hend heq =>
    rw [heq, Traceless, sameState_put_iff, hsome, Option.some.injEq, declareEnd_same_iff hend]
    simp [Fragment.final]

/-- A reassembler with room for the first eight bytes of a datagram, which have arrived. -/
def sampleFull : Reassembler :=
  (({ limits := { maxBytes := 8 } } : Reassembler).add 0 (sampleFirst 0).frag.hdr
    (sampleFirst 0).frag.pkt).1

/-- The next eight are refused and leave no trace. -/
theorem middle_fragment_traceless :
    (sampleFull.add 1 (sampleSecond 1).frag.hdr (sampleSecond 1).frag.pkt).2.outcome =
      .boundExceeded ∧
      SameState (sampleFull.add 1 (sampleSecond 1).frag.hdr (sampleSecond 1).frag.pkt).1
        (sampleFull.sweep 1).1 := by
  have h : (sampleFull.add 1 (sampleSecond 1).frag.hdr (sampleSecond 1).frag.pkt).2.outcome
      = .boundExceeded := by decide +kernel
  have hsome : ((sampleFull.sweep 1).1.buffer (sampleSecond 1).frag.key).isSome = true := by
    decide +kernel
  refine ⟨h, (refused_traceless_iff h).mpr ?_⟩
  obtain ⟨b, hb⟩ := Option.isSome_iff_exists.mp hsome
  rw [Traceless, hb]
  exact .inl rfl

/-- The final fragment of a datagram is refused and leaves its end behind: in the buffer its
datagram has, and in one made for it where there was none. -/
theorem final_fragment_leaves_end :
    let f := (sampleFinal 1).frag
    let empty : Reassembler := { limits := { maxBytes := 8 } }
    (sampleFull.add 1 f.hdr f.pkt).2.outcome = .boundExceeded
      ∧ (sampleFull.buffer f.key).map ReassemblyBuffer.totalLen = some none
      ∧ ((sampleFull.add 1 f.hdr f.pkt).1.buffer f.key).map ReassemblyBuffer.totalLen =
        some (some 16)
      ∧ (empty.add 1 f.hdr f.pkt).2.outcome = .boundExceeded
      ∧ (empty.add 1 f.hdr f.pkt).1.buffer f.key
          = some { totalLen := some 16, expires := 1 + reassemblyTimeout } := by
  decide +kernel

end GoVpn.Netstack
