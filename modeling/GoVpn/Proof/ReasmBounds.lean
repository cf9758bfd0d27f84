import GoVpn.Lib.Tally
import GoVpn.Proof.Reassembled

/-!
# What a client can make the reassembler hold

Whatever fragments a client sends, the byte count is the sum over the buffers and stays
below its limit, as the number of buffers does. The holes of a buffer are what the
fragments it has accepted leave open, and its deadline is the one its first fragment has
set. Once `discardAll` has run, nothing is stored any more.
-/

namespace GoVpn.Netstack

open HoleList Overlay

/-! ## The byte count -/

namespace Reassembler

/-- What a buffer counts for. -/
def size (e : (_ : ReassemblyKey) × ReassemblyBuffer) : Nat := e.2.data.length

/-- The bytes of all buffers. -/
def used (r : Reassembler) : Nat := tally size r.bufs.entries

/-- The bytes of the buffer of `k`. -/
def usedBy (r : Reassembler) (k : ReassemblyKey) : Nat := (r.buffer k).elim 0 fun b => b.data.length

theorem used_put (r : Reassembler) (k : ReassemblyKey) (b : ReassemblyBuffer) :
    (r.put k b).used + r.usedBy k = r.used + b.data.length :=
  Tally.tally_insert size r.bufs k b

theorem used_dropLocked (r : Reassembler) (k : ReassemblyKey) (b : ReassemblyBuffer) :
    (r.dropLocked k b).used + r.usedBy k = r.used :=
  Tally.tally_erase size r.bufs k

/-- The counter is right, and there are not too many buffers. -/
structure Balanced (r : Reassembler) (maxBufs : Nat) : Prop where
  bytes : r.bytes = r.used
  count : r.bufs.keys.length ≤ maxBufs

variable {maxBufs : Nat} {r : Reassembler}

theorem Balanced.dropLocked (h : r.Balanced maxBufs) {k : ReassemblyKey} {b : ReassemblyBuffer}
    (hb : r.usedBy k = b.data.length) : (r.dropLocked k b).Balanced maxBufs := by
  have hused := r.used_dropLocked k b
  have hbytes := h.bytes
  refine ⟨?_, Nat.le_trans (Tally.length_keys_erase_le r.bufs k) h.count⟩
  show r.bytes - (b.data.length : Int) = _
  omega

theorem balanced_foldl_sweepOne (now : Int) (es : List ((_ : ReassemblyKey) × ReassemblyBuffer))
    (s : Reassembler × Nat) (hnd : es.NodupKeys) (hes : ∀ e ∈ es, s.1.buffer e.1 = some e.2)
    (h : s.1.Balanced maxBufs) : (es.foldl (sweepOne now) s).1.Balanced maxBufs := by
  induction es generalizing s with
  | nil => exact h
  | cons e es ih =>
    obtain ⟨hne, hnd'⟩ := List.nodupKeys_cons.mp hnd
    have he := hes e List.mem_cons_self
    have hrest : ∀ e' ∈ es, s.1.buffer e'.1 = some e'.2 :=
      fun e' he' => hes e' (List.mem_cons_of_mem _ he')
    rw [List.foldl_cons]
    unfold sweepOne
    split
    · refine ih _ hnd' (fun e' he' => ?_) (h.dropLocked (by rw [usedBy, he]; rfl))
      have hother : e'.1 ≠ e.1 := by
        intro heq
        exact hne (heq ▸ List.mem_keys_of_mem he')
      rw [buffer_dropLocked_ne _ _ hother]
      exact hrest e' he'
    · exact ih s hnd' hrest h

theorem Balanced.sweep (h : r.Balanced maxBufs) (now : Int) : (r.sweep now).1.Balanced maxBufs :=
  balanced_foldl_sweepOne now r.bufs.entries (r, 0) r.bufs.nodupKeys
    (fun _ he => AList.mem_lookup_iff.mpr he) h

theorem Balanced.addTo (h : r.Balanced maxBufs) (maxBytes expired : Nat) {f : Fragment}
    {b : ReassemblyBuffer} (hb : r.usedBy f.key = b.data.length)
    (hroom : (r.buffer f.key).isSome ∨ r.bufs.keys.length < maxBufs) :
    (r.addTo maxBytes expired f.hdr f.pkt b).1.Balanced maxBufs := by
  have hsettled := r.addTo_settled maxBytes expired f b
  rw [hsettled.state]
  cases (r.addTo maxBytes expired f.hdr f.pkt b).1.buffer f.key with
  | none => exact h.dropLocked hb
  | some b' =>
    have hused := r.used_put f.key b'
    have hbytes := h.bytes
    have hcount := h.count
    constructor
    · show r.bytes - (b.data.length : Int) + b'.data.length = ((r.put f.key b').used : Nat)
      omega
    · show (r.bufs.insert f.key b').keys.length ≤ maxBufs
      rw [Tally.length_keys_insert]
      rcases hroom with hsome | hlt
      · rw [if_pos (show (r.bufs.lookup f.key).isSome = true from hsome)]
        exact hcount
      · split <;> omega

theorem Balanced.add (h : r.Balanced r.resolveLimits.maxBufs) (now : Int) (f : Fragment) :
    (r.add now f.hdr f.pkt).1.Balanced r.resolveLimits.maxBufs := by
  have hs := h.sweep now
  unfold Reassembler.add
  split
  · exact h
  dsimp only
  split
  · rename_i b hb
    have hb' : (r.sweep now).1.buffer f.key = some b := hb
    exact hs.addTo _ _ (by rw [usedBy, hb']; rfl) (.inl (by rw [hb']; rfl))
  · rename_i hnone
    have hnone' : (r.sweep now).1.buffer f.key = none := hnone
    split
    · exact hs
    · rename_i hlt
      exact hs.addTo _ _ (by rw [usedBy, hnone']; rfl) (.inr (by omega))

end Reassembler

/-! ## The buffers -/

/-- The form of a buffer: its holes are in order, and its end is one a datagram can have. -/
structure Shapely (b : ReassemblyBuffer) : Prop where
  sorted : Sorted b.holes
  end_le : ∀ t, b.totalLen = some t → t ≤ maxIPv4Datagram

theorem shapely_fresh (expires : Int) : Shapely { expires := expires } where
  sorted := List.pairwise_singleton _ _
  end_le := by intro t ht; cases ht

theorem Fate.shapely {b b' : ReassemblyBuffer} {f : Fragment} {o : ReasmOutcome} {d : Option Bytes}
    (h : Fate b f (some b') o d) (hb : Shapely b) : Shapely b' := by
  have hpos := f.start_lt_stop
  have hend : ∀ {b'' : ReassemblyBuffer}, b.declareEnd f.hdr.moreFragments (f.stop - 1) = some b'' →
      Shapely b'' := by
    intro b'' hdecl
    obtain ⟨heq, -, hfinal, hmore⟩ := ReassemblyBuffer.declareEnd_some hdecl
    refine ⟨by rw [heq]; exact hb.sorted, fun t ht => ?_⟩
    cases hm : f.hdr.moreFragments with
    | true => exact hb.end_le t ((hmore hm).symm.trans ht)
    | false =>
      obtain rfl := Option.some.inj ((hfinal hm).symm.trans ht)
      have := f.geometry.2.1
      omega
  have habsorb : ∀ {b'' : ReassemblyBuffer}, b.declareEnd f.hdr.moreFragments (f.stop - 1) =
    some b'' →
      Shapely (b''.absorb f.hdr f.pkt f.payload) := by
    intro b'' hdecl
    have h'' := hend hdecl
    exact ⟨sorted_fill (show f.start ≤ f.stop - 1 by omega) h''.sorted, h''.end_le⟩
  cases h with
  | refused h => exact hend h
  | duplicate h | buffered h => exact habsorb h

namespace Reassembler

theorem add_origin {r : Reassembler} (hopen : r.closed = false) {now : Int} {f : Fragment}
    {k : ReassemblyKey} {b' : ReassemblyBuffer} (h : (r.add now f.hdr f.pkt).1.buffer k = some b') :
    (∃ b, r.buffer k = some b ∧ now < b.expires ∧ (b' = b ∨ ∃ o d, Fate b f (some b') o d))
      ∨ k = f.key ∧ (∀ b, r.buffer k = some b → ¬ now < b.expires)
        ∧ ∃ o d, Fate (r.fresh now) f (some b') o d := by
  obtain ⟨hother, -, hown⟩ := add_cases hopen now f
  by_cases hk : k = f.key
  · subst hk
    rcases hown with ⟨-, hnone, -⟩ | hfate
    · rw [hnone] at h
      cases h
    rw [h] at hfate
    have hsweep := buffer_sweep r now f.key
    unfold bufferAt at hfate
    cases hb : (r.sweep now).1.buffer f.key with
    | some b =>
      rw [hb] at hfate hsweep
      obtain ⟨hold, hnow⟩ := Option.filter_eq_some_iff.mp hsweep.symm
      exact .inl ⟨b, hold, by simpa using hnow, .inr ⟨_, _, hfate⟩⟩
    | none =>
      rw [hb] at hfate hsweep
      refine .inr ⟨rfl, fun b hold hnow => ?_, _, _, hfate⟩
      rw [hold, Option.filter_some] at hsweep
      simp [hnow] at hsweep
  · rw [hother k hk, buffer_sweep, Option.filter_eq_some_iff] at h
    exact .inl ⟨b', h.1, by simpa using h.2, .inl rfl⟩

end Reassembler

/-! ## Runs -/

/-- A call of the reassembler. -/
inductive ReasmCall
  | add (a : Arrival)
  | discardAll

namespace Watched

def call (w : Watched) : ReasmCall → Watched
  | .add a => (w.step a).1
  | .discardAll => { r := w.r.discardAll, accepted := fun _ => [] }

/-- The state after the calls `cs`. -/
def afterCalls (limits : ReassemblyLimits) (cs : List ReasmCall) : Watched :=
  Machine.run call (start limits) cs

end Watched

/--
The deadline `d` of the datagram `k` was set by a fragment that found no buffer in time,
and the buffer has had this deadline ever since.
-/
def KeptSince (limits : ReassemblyLimits) (cs : List ReasmCall) (k : ReassemblyKey) (d : Int) :
    Prop :=
  ∃ pre a post, cs = pre ++ .add a :: post ∧ a.frag.key = k
    ∧ d = a.now + (Watched.start limits).r.resolveLimits.timeout
    ∧ (∀ b, (Watched.afterCalls limits pre).r.buffer k = some b → ¬ a.now < b.expires)
    ∧ ∀ post', post' <+: post →
        ∃ b, (Watched.afterCalls limits (pre ++ .add a :: post')).r.buffer k = some b ∧
          b.expires = d

theorem KeptSince.snoc {limits : ReassemblyLimits} {cs : List ReasmCall} {k : ReassemblyKey}
    {d : Int} (h : KeptSince limits cs k d) (c : ReasmCall)
    (hb : ∃ b, (Watched.afterCalls limits (cs ++ [c])).r.buffer k = some b ∧ b.expires = d) :
    KeptSince limits (cs ++ [c]) k d := by
  obtain ⟨pre, a, post, rfl, hk, hd, hnone, hpost⟩ := h
  rw [List.append_assoc, List.cons_append] at hb ⊢
  refine ⟨pre, a, post ++ [c], rfl, hk, hd, hnone, fun post' hpre => ?_⟩
  rcases List.prefix_concat_iff.mp hpre with rfl | hpre
  · exact hb
  · exact hpost post' hpre

/-- What is known of a reassembler after the calls `cs`. -/
structure Contained (limits : ReassemblyLimits) (cs : List ReasmCall) (w : Watched) : Prop where
  configured : w.r.limits = limits
  balanced : w.r.Balanced (Watched.start limits).r.resolveLimits.maxBufs
  bytes : w.r.bytes ≤ (Watched.start limits).r.resolveLimits.maxBytes
  faithful : w.r.closed = false → Faithful limits w
  shapely : ∀ k b, w.r.buffer k = some b → Shapely b
  kept : ∀ k b, w.r.buffer k = some b → KeptSince limits cs k b.expires
  closed : w.r.closed = true → w.r.bufs = ∅
  discarded : .discardAll ∈ cs → w.r.closed = true

namespace Contained

variable {limits : ReassemblyLimits} {cs : List ReasmCall} {w : Watched}

/-- A new reassembler is within its bounds. -/
theorem start (limits : ReassemblyLimits) : Contained limits [] (Watched.start limits) where
  configured := rfl
  balanced := ⟨rfl, Nat.zero_le _⟩
  bytes := Int.natCast_nonneg _
  faithful _ := Faithful.start limits
  shapely := by intro k b h; cases h
  kept := by intro k b h; cases h
  closed := by intro h; cases h
  discarded := by intro h; cases h

theorem resolveLimits (h : Contained limits cs w) :
    w.r.resolveLimits = (Watched.start limits).r.resolveLimits := by
  unfold Reassembler.resolveLimits
  rw [h.configured]
  rfl

theorem discardAll (h : Contained limits cs w) :
    Contained limits (cs ++ [.discardAll]) (w.call .discardAll) where
  configured := h.configured
  balanced := ⟨rfl, Nat.zero_le _⟩
  bytes := Int.natCast_nonneg _
  faithful := by intro hopen; cases hopen
  shapely := by intro k b hb; cases hb
  kept := by intro k b hb; cases hb
  closed _ := rfl
  discarded _ := rfl

theorem add_closed (h : Contained limits cs w) (hclosed : w.r.closed = true) (a : Arrival) :
    Contained limits (cs ++ [.add a]) (w.call (.add a)) := by
  have hr : (w.call (.add a)).r = w.r := by
    show (w.r.add a.now a.frag.hdr a.frag.pkt).1 = w.r
    unfold Reassembler.add
    rw [if_pos hclosed]
  have hnone : ∀ k b, w.r.buffer k ≠ some b := by
    intro k b hb
    rw [Reassembler.buffer, h.closed hclosed] at hb
    cases hb
  refine ⟨by
    rw [hr]; exact h.configured,
      by rw [hr]; exact h.balanced, by rw [hr]; exact h.bytes, ?_, ?_, ?_, ?_, ?_⟩
  · intro hopen
    rw [hr, hclosed] at hopen
    cases hopen
  · intro k b hb
    rw [hr] at hb
    exact absurd hb (hnone k b)
  · intro k b hb
    rw [hr] at hb
    exact absurd hb (hnone k b)
  · intro _
    rw [hr]
    exact h.closed hclosed
  · intro _
    rw [hr]
    exact hclosed

theorem add_open (h : Contained limits cs (Watched.afterCalls limits cs))
    (hopen : (Watched.afterCalls limits cs).r.closed = false) (a : Arrival) :
    Contained limits (cs ++ [.add a]) ((Watched.afterCalls limits cs).call (.add a)) := by
  have hafter : Watched.afterCalls limits (cs ++ [.add a]) =
      (Watched.afterCalls limits cs).call (.add a) := by
    rw [Watched.afterCalls, Machine.run_append]
    rfl
  have hlimits := h.resolveLimits
  have hfaithful := h.faithful hopen
  generalize hw : Watched.afterCalls limits cs = w at *
  have hframe := w.r.add_frame a.now a.frag
  have hbal := h.balanced
  rw [← hlimits] at hbal
  refine ⟨hframe.limits.trans h.configured, ?_, ?_, fun _ => hfaithful.step a, ?_, ?_, ?_, ?_⟩
  · rw [← hlimits]
    exact hbal.add a.now a.frag
  · rw [← hlimits]
    exact hframe.bytes hfaithful.bytes
  · intro k b' hb'
    rcases Reassembler.add_origin hopen hb' with ⟨b, hb, -, rfl | ⟨o, d, hfate⟩⟩ | ⟨-, -, o, d,
      hfate⟩
    · exact h.shapely k b' hb
    · exact hfate.shapely (h.shapely k b hb)
    · exact hfate.shapely (shapely_fresh _)
  · intro k b' hb'
    have hex : ∀ {e}, b'.expires = e →
        ∃ b, (Watched.afterCalls limits (cs ++ [.add a])).r.buffer k = some b ∧ b.expires = e :=
      fun he => ⟨b', by rw [hafter]; exact hb', he⟩
    rcases Reassembler.add_origin hopen hb' with ⟨b, hb, -, rfl | ⟨o, d, hfate⟩⟩ | ⟨hk, hlate, o, d,
      hfate⟩
    · exact (h.kept k b' hb).snoc _ (hex rfl)
    · rw [hfate.expires]
      exact (h.kept k b hb).snoc _ (hex hfate.expires)
    · refine ⟨cs, a, [], rfl, hk.symm, ?_, ?_, fun post' hpre => ?_⟩
      · rw [hfate.expires, ← hlimits]
        rfl
      · rw [hw]
        exact hlate
      · rw [List.prefix_nil.mp hpre]
        exact hex rfl
  · intro hclosed
    rw [show ((w.call (.add a)).r.closed) = w.r.closed from hframe.closed, hopen] at hclosed
    cases hclosed
  · intro hmem
    rcases List.mem_append.mp hmem with hmem | hmem
    · have := h.discarded hmem
      rw [hopen] at this
      cases this
    · cases List.mem_singleton.mp hmem

/-- After any calls a reassembler is within its bounds. -/
theorem after (limits : ReassemblyLimits) (cs : List ReasmCall) :
    Contained limits cs (Watched.afterCalls limits cs) := by
  refine Machine.run_history Watched.call (I := Contained limits) (start limits)
    (fun pre c h => ?_) cs
  cases c with
  | discardAll => exact h.discardAll
  | add a =>
    cases hc : (Watched.afterCalls limits pre).r.closed with
    | true => exact h.add_closed hc a
    | false => exact h.add_open hc a

end Contained

/--
The holes of a buffer below its end, if that is known: ranges in order, and of every
offset it has accepted no fragment for.
-/
structure HolesRight (b : ReassemblyBuffer) (accepted : List Arrival) : Prop where
  proper : Proper b.holes
  sorted : Sorted b.holes
  missing : ∀ x < b.totalLen.getD maxIPv4Datagram,
    Missing b.holes x ↔ ∀ a ∈ accepted, ¬ (a.frag.start ≤ x ∧ x < a.frag.stop)

theorem Holds.holesRight {k : ReassemblyKey} {b : ReassemblyBuffer} {fs : List Arrival}
    (h : Holds k b (fs.map Arrival.frag)) (hs : Shapely b) : HolesRight b fs where
  proper := h.proper
  sorted := hs.sorted
  missing := by
    intro x hx
    rw [h.missing]
    simp only [List.forall_mem_map]
    have hle : x ≤ holeOpenEnd := by
      unfold holeOpenEnd
      cases ht : b.totalLen with
      | none =>
        rw [ht, Option.getD_none] at hx
        omega
      | some t =>
        have := hs.end_le t ht
        rw [ht, Option.getD_some] at hx
        omega
    constructor
    · intro hmiss
      exact hmiss.2.1
    · intro hno
      refine ⟨hle, hno, fun a ha hfinal => ?_⟩
      have hend := h.ends _ (List.mem_map_of_mem ha) hfinal
      rw [hend, Option.getD_some] at hx
      exact hx

/--
**The bounds of reassembly.** Whatever a client sends, and whatever the clock shows: the
byte count is the sum over the buffers and within its limit, and so is the number of
buffers. Every buffer's holes are right, and its deadline is the one it was made with.
After `discardAll` there is no buffer any more.
-/
theorem reassembly_bounded (limits : ReassemblyLimits) (cs : List ReasmCall) :
    let w := Watched.afterCalls limits cs
    let bounds := (Watched.start limits).r.resolveLimits
    w.r.bytes = w.r.used ∧ w.r.used ≤ bounds.maxBytes ∧ w.r.bufs.keys.length ≤ bounds.maxBufs
      ∧ (∀ k b, w.r.buffer k = some b → HolesRight b (w.accepted k) ∧
        KeptSince limits cs k b.expires)
      ∧ (.discardAll ∈ cs → w.r.bufs = ∅ ∧ w.r.bytes = 0) := by
  intro w bounds
  have h : Contained limits cs w := Contained.after limits cs
  refine ⟨h.balanced.bytes, ?_, h.balanced.count, fun k b hb => ⟨?_, h.kept k b hb⟩, fun hd => ?_⟩
  · have hle := h.bytes
    rw [h.balanced.bytes] at hle
    exact Int.ofNat_le.mp hle
  · cases hc : w.r.closed with
    | true =>
      rw [Reassembler.buffer, h.closed hc] at hb
      cases hb
    | false => exact ((h.faithful hc).holds k b hb).holesRight (h.shapely k b hb)
  · have hbufs := h.closed (h.discarded hd)
    refine ⟨hbufs, ?_⟩
    rw [h.balanced.bytes, Reassembler.used, hbufs]
    rfl

end GoVpn.Netstack
