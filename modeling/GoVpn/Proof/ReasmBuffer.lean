import GoVpn.Netstack.Reassembly

/-!
# What a reassembly buffer holds

A buffer is judged by the list of fragments it has accepted, oldest first. `Holds` says everything
a buffer knows in terms of that list: its data show the newest fragment at every offset, its holes
are the offsets no fragment has brought and no final fragment has cut off, and its header is the
newest first fragment's. `Fate` lists the six things `add` does to a buffer, and `Holds` is proved
to survive each.
-/

namespace GoVpn.Netstack

open HoleList Overlay

/-! ## Fragments -/

/-- A packet that `parseIPv4` accepts as a fragment. -/
structure Fragment where
  pkt : Bytes
  hdr : Ipv4Header
  parsed : parseIPv4 pkt = .ok hdr
  fragment : hdr.isFragment = true

namespace Fragment

def payload (f : Fragment) : Bytes := slice f.pkt f.hdr.payloadOff f.hdr.totalLen

def start (f : Fragment) : Nat := f.hdr.fragOffset

/-- The offset behind the last byte. -/
def stop (f : Fragment) : Nat := f.start + f.payload.length

def final (f : Fragment) : Bool := !f.hdr.moreFragments

def key (f : Fragment) : ReassemblyKey := f.hdr.key

/-- The fragment's own header bytes. -/
def header (f : Fragment) : Bytes := f.pkt.take f.hdr.ihl

theorem valid (f : Fragment) : f.hdr.Valid f.pkt := parseIPv4_eq_ok_iff.mp f.parsed

theorem length_payload (f : Fragment) : f.payload.length = f.hdr.totalLen - f.hdr.ihl := by
  rw [payload, length_slice, f.valid.payloadOff_eq, Nat.min_eq_left f.valid.totalLen_le]

theorem geometry (f : Fragment) :
    0 < f.payload.length ∧ f.stop ≤ maxIPv4Datagram ∧ (f.final = false → f.stop % 8 = 0) := by
  have hgeo := f.valid.geometry f.fragment
  rw [← length_payload] at hgeo
  unfold fragmentOk at hgeo
  simp only [Bool.and_eq_true, bne_iff_ne, ne_eq, Bool.not_eq_true', Bool.and_eq_false_iff,
    bne_eq_false_iff_eq, decide_eq_true_eq] at hgeo
  refine ⟨by omega, hgeo.2, ?_⟩
  intro hfinal
  have hmore : f.hdr.moreFragments = true := by simpa [final] using hfinal
  have hmod : f.payload.length % 8 = 0 := by simpa [hmore] using hgeo.1.2
  rw [stop, start, f.valid.offset_eq]
  omega

theorem lastByte_eq (f : Fragment) : f.hdr.lastByte f.payload = f.stop - 1 := rfl

theorem start_lt_stop (f : Fragment) : f.start < f.stop := by
  have := f.geometry.1
  unfold stop
  omega

theorem stop_le_of_more {f : Fragment} (h : f.final = false) : f.stop ≤ holeOpenEnd := by
  have h1 := f.geometry.2.1
  have h2 := f.geometry.2.2 h
  unfold maxIPv4Datagram at h1
  unfold holeOpenEnd maxIPv4Datagram
  omega

end Fragment

/-- A fragment reaches the reassembler. -/
structure Arrival where
  now : Int
  frag : Fragment

/-! ## Looking a buffer up -/

namespace Reassembler

def buffer (r : Reassembler) (k : ReassemblyKey) : Option ReassemblyBuffer := r.bufs.lookup k

theorem buffer_put_self (r : Reassembler) (k : ReassemblyKey) (b : ReassemblyBuffer) :
    (r.put k b).buffer k = some b := AList.lookup_insert _

theorem buffer_put_ne (r : Reassembler) {k k' : ReassemblyKey} (b : ReassemblyBuffer) (h : k' ≠ k) :
    (r.put k b).buffer k' = r.buffer k' := AList.lookup_insert_ne h

theorem buffer_dropLocked_self (r : Reassembler) (k : ReassemblyKey) (b : ReassemblyBuffer) :
    (r.dropLocked k b).buffer k = none := AList.lookup_erase _ _

theorem buffer_dropLocked_ne (r : Reassembler) {k k' : ReassemblyKey} (b : ReassemblyBuffer)
    (h : k' ≠ k) : (r.dropLocked k b).buffer k' = r.buffer k' := AList.lookup_erase_ne h

/-! ### The sweep -/

/-- One turn of the sweep. -/
def sweepOne (now : Int) (s : Reassembler × Nat) (e : (_ : ReassemblyKey) × ReassemblyBuffer) :
    Reassembler × Nat :=
  if ¬ now < e.2.expires then (s.1.dropLocked e.1 e.2, s.2 + 1) else s

/-- What the sweep leaves alone. -/
structure SweepFrame (r r' : Reassembler) : Prop where
  closed : r'.closed = r.closed
  limits : r'.limits = r.limits
  bytes : r'.bytes ≤ r.bytes

theorem sweepOne_frame (now : Int) (s : Reassembler × Nat)
    (e : (_ : ReassemblyKey) × ReassemblyBuffer) : SweepFrame s.1 (sweepOne now s e).1 := by
  unfold sweepOne
  split
  · refine ⟨rfl, rfl, ?_⟩
    show s.1.bytes - (e.2.data.length : Int) ≤ s.1.bytes
    omega
  · exact ⟨rfl, rfl, Int.le_refl _⟩

theorem foldl_sweepOne_frame (now : Int) (es : List ((_ : ReassemblyKey) × ReassemblyBuffer))
    (s : Reassembler × Nat) : SweepFrame s.1 (es.foldl (sweepOne now) s).1 := by
  induction es generalizing s with
  | nil => exact ⟨rfl, rfl, Int.le_refl _⟩
  | cons e es ih =>
    have h1 := sweepOne_frame now s e
    have h2 := ih (sweepOne now s e)
    exact ⟨h2.closed.trans h1.closed, h2.limits.trans h1.limits, Int.le_trans h2.bytes h1.bytes⟩

/-- Sweeping never adds bytes. -/
theorem sweep_frame (r : Reassembler) (now : Int) : SweepFrame r (r.sweep now).1 :=
  foldl_sweepOne_frame now r.bufs.entries (r, 0)

theorem buffer_foldl_sweepOne (now : Int) (k : ReassemblyKey)
    (es : List ((_ : ReassemblyKey) × ReassemblyBuffer)) (s : Reassembler × Nat) :
    (es.foldl (sweepOne now) s).1.buffer k
      = if es.any (fun e => e.1 = k && decide (¬ now < e.2.expires)) then none
        else s.1.buffer k := by
  induction es generalizing s with
  | nil => rfl
  | cons e es ih =>
    rw [List.foldl_cons, ih, List.any_cons]
    cases hrest : es.any (fun e => e.1 = k && decide (¬ now < e.2.expires)) with
    | true => simp
    | false =>
      unfold sweepOne
      by_cases hexp : now < e.2.expires
      · simp [hexp]
      · by_cases hk : e.1 = k
        · simp [hexp, hk, buffer_dropLocked_self]
        · simp [hexp, hk, buffer_dropLocked_ne _ _ (Ne.symm hk)]

theorem buffer_sweep (r : Reassembler) (now : Int) (k : ReassemblyKey) :
    (r.sweep now).1.buffer k = (r.buffer k).filter fun b => now < b.expires := by
  have h := buffer_foldl_sweepOne now k r.bufs.entries (r, 0)
  refine h.trans ?_
  have hany : r.bufs.entries.any (fun e => e.1 = k && decide (¬ now < e.2.expires)) = true
      ↔ ∃ b, r.buffer k = some b ∧ ¬ now < b.expires := by
    rw [List.any_eq_true]
    constructor
    · rintro ⟨⟨k', b⟩, hmem, he⟩
      simp only [Bool.and_eq_true, decide_eq_true_eq] at he
      obtain ⟨rfl, hexp⟩ := he
      exact ⟨b, AList.mem_lookup_iff.mpr hmem, hexp⟩
    · rintro ⟨b, hb, hexp⟩
      exact ⟨⟨k, b⟩, AList.mem_lookup_iff.mp hb, by simpa using hexp⟩
  split
  · rename_i ha
    obtain ⟨b, hb, hexp⟩ := hany.mp ha
    rw [hb, Option.filter_some]
    simp [hexp]
  · rename_i ha
    cases hb : r.buffer k with
    | none => rfl
    | some b =>
      have hnow : now < b.expires := by
        by_contra hn
        exact ha (hany.mpr ⟨b, hb, hn⟩)
      rw [Option.filter_some]
      simp only [hnow, decide_true, if_true]

theorem foldl_sweepOne_count (now : Int) (es : List ((_ : ReassemblyKey) × ReassemblyBuffer))
    (s : Reassembler × Nat) :
    (es.foldl (sweepOne now) s).2 = s.2 + es.countP fun e => decide (¬ now < e.2.expires) := by
  induction es generalizing s with
  | nil => rfl
  | cons e es ih =>
    rw [List.foldl_cons, ih, List.countP_cons]
    unfold sweepOne
    by_cases hexp : now < e.2.expires
    · simp [hexp]
    · simp [hexp]; omega

theorem buffer_sweep_of_none {r : Reassembler} {now : Int} (h : (r.sweep now).2 = 0)
    (k : ReassemblyKey) : (r.sweep now).1.buffer k = r.buffer k := by
  have hcount := foldl_sweepOne_count now r.bufs.entries (r, 0)
  rw [buffer_sweep]
  cases hb : r.buffer k with
  | none => rfl
  | some b =>
    have hmem : (⟨k, b⟩ : (_ : ReassemblyKey) × ReassemblyBuffer) ∈ r.bufs.entries :=
      AList.mem_lookup_iff.mp hb
    have hzero : r.bufs.entries.countP (fun e => decide (¬ now < e.2.expires)) = 0 := by
      have h' : (r.bufs.entries.foldl (sweepOne now) (r, 0)).2 = 0 := h
      omega
    have hnow := List.countP_eq_zero.mp hzero _ hmem
    simpa using hnow

end Reassembler

/-! ## The six fates of a fragment -/

/-- The fragment was stored. -/
def ReasmOutcome.accepted : ReasmOutcome → Bool
  | .buffered | .duplicate | .complete => true
  | .conflict | .boundExceeded | .closed => false

/-- What happens to the buffer `b` when `f` arrives at it. -/
inductive Fate (b : ReassemblyBuffer) (f : Fragment) :
    Option ReassemblyBuffer → ReasmOutcome → Option Bytes → Prop
  /-- The fragment contradicts the datagram's known end. -/
  | contradiction (h : b.declareEnd f.hdr.moreFragments (f.stop - 1) = none) :
      Fate b f none .conflict none
  /-- There is no room for the fragment. -/
  | refused {b' : ReassemblyBuffer} (h : b.declareEnd f.hdr.moreFragments (f.stop - 1) = some b') :
      Fate b f (some b') .boundExceeded none
  /-- The fragment brings nothing that was missing. -/
  | duplicate {b' : ReassemblyBuffer} (h : b.declareEnd f.hdr.moreFragments (f.stop - 1) = some b')
      (hmet : intersects f.start (f.stop - 1) f.hdr.moreFragments b'.holes = false) :
      Fate b f (some (b'.absorb f.hdr f.pkt f.payload)) .duplicate none
  /-- The datagram is not all there yet. -/
  | buffered {b' : ReassemblyBuffer} (h : b.declareEnd f.hdr.moreFragments (f.stop - 1) = some b')
      (hleft : (b'.absorb f.hdr f.pkt f.payload).finished = none) :
      Fate b f (some (b'.absorb f.hdr f.pkt f.payload)) .buffered none
  /-- The datagram is all there and does not fit its own length field. -/
  | tooLong {b' : ReassemblyBuffer} {header payload : Bytes}
      (h : b.declareEnd f.hdr.moreFragments (f.stop - 1) = some b')
      (hdone : (b'.absorb f.hdr f.pkt f.payload).finished = some (header, payload))
      (hlong : maxIPv4Datagram < header.length + payload.length) :
      Fate b f none .conflict none
  /-- The datagram is all there. -/
  | complete {b' : ReassemblyBuffer} {header payload : Bytes}
      (h : b.declareEnd f.hdr.moreFragments (f.stop - 1) = some b')
      (hdone : (b'.absorb f.hdr f.pkt f.payload).finished = some (header, payload))
      (hfits : header.length + payload.length ≤ maxIPv4Datagram) :
      Fate b f none .complete (some (rebuild header payload))

variable {b b' : ReassemblyBuffer} {f : Fragment}

theorem ReassemblyBuffer.declareEnd_some {more : Bool} {last : Nat}
    (h : b.declareEnd more last = some b') :
    b' = { b with totalLen := b'.totalLen }
      ∧ (∀ t, b.totalLen = some t → b'.totalLen = some t ∧ last < t)
      ∧ (more = false → b'.totalLen = some (last + 1))
      ∧ (more = true → b'.totalLen = b.totalLen) := by
  unfold declareEnd at h
  split at h
  · cases h
  rename_i hbeyond
  cases more with
  | true =>
    simp only [Bool.not_true, Bool.false_eq_true, if_false, Option.some.injEq] at h
    subst h
    refine ⟨rfl, ?_, by simp, by simp⟩
    intro t ht
    rw [ht] at hbeyond
    exact ⟨ht, by simpa using hbeyond⟩
  | false =>
    simp only [Bool.not_false, if_true] at h
    split at h
    · cases h
    rename_i hsame
    simp only [Option.some.injEq] at h
    subst h
    refine ⟨rfl, ?_, by simp, by simp⟩
    intro t ht
    rw [ht] at hbeyond hsame
    simp only [Option.any_some, ge_iff_le, decide_eq_true_eq, Nat.not_le, ne_eq,
      not_not] at hbeyond hsame
    exact ⟨by rw [hsame], hbeyond⟩

theorem ReassemblyBuffer.length_absorb
    (h : b.declareEnd f.hdr.moreFragments (f.stop - 1) = some b') :
    (b'.absorb f.hdr f.pkt f.payload).data.length = max b.data.length f.stop := by
  show (paste 0 b'.data f.start f.payload).length = _
  rw [length_paste, (declareEnd_some h).1]
  rfl

/-- A buffer grows only by what is accepted, and only as far as the fragment reaches. -/
theorem Fate.length_data {o : ReasmOutcome} {d : Option Bytes} (h : Fate b f (some b') o d) :
    b'.data.length = if o.accepted then max b.data.length f.stop else b.data.length := by
  cases h with
  | refused hend =>
    rw [(ReassemblyBuffer.declareEnd_some hend).1]
    rfl
  | duplicate hend | buffered hend => exact ReassemblyBuffer.length_absorb hend

namespace Reassembler

/-- The state with `left` in the place of the buffer `b`, and the bytes counted anew. -/
def settle (r : Reassembler) (k : ReassemblyKey) (b : ReassemblyBuffer) :
    Option ReassemblyBuffer → Reassembler
  | none => r.dropLocked k b
  | some b' => { r with bytes := r.bytes - b.data.length + b'.data.length }.put k b'

theorem buffer_settle_self (r : Reassembler) (k : ReassemblyKey) (b : ReassemblyBuffer)
    (left : Option ReassemblyBuffer) : (r.settle k b left).buffer k = left := by
  cases left with
  | none => exact buffer_dropLocked_self _ _ _
  | some b' => exact buffer_put_self _ _ _

theorem buffer_settle_ne (r : Reassembler) {k k' : ReassemblyKey} (b : ReassemblyBuffer)
    (left : Option ReassemblyBuffer) (h : k' ≠ k) :
    (r.settle k b left).buffer k' = r.buffer k' := by
  cases left with
  | none => exact buffer_dropLocked_ne _ _ h
  | some b' => exact buffer_put_ne _ _ h

variable {r : Reassembler}

theorem put_eq_settle {x : Int} {b b' : ReassemblyBuffer} (k : ReassemblyKey)
    (h : x = r.bytes - b.data.length + b'.data.length) :
    { r with bytes := x }.put k b' = r.settle k b (some b') := by
  rw [h]
  rfl

/-- Everything `addTo` can do to the buffer `b` when `f` arrives at it. -/
structure Settled (r : Reassembler) (maxBytes expired : Nat) (f : Fragment) (b : ReassemblyBuffer)
    (out : Reassembler × Added) : Prop where
  state : out.1 = r.settle f.key b (out.1.buffer f.key)
  fate : Fate b f (out.1.buffer f.key) out.2.outcome out.2.datagram
  expired : out.2.expired = expired
  full : out.2.outcome ≠ .conflict →
    (out.2.outcome = .boundExceeded ↔ maxBytes < r.bytes + (f.stop - b.data.length : Nat))

/-- What becomes of the table, from what becomes of the buffer. -/
theorem settled_of_fate {r' : Reassembler} {maxBytes expired : Nat} {f : Fragment}
    {b : ReassemblyBuffer} {left : Option ReassemblyBuffer} {o : ReasmOutcome} {d : Option Bytes}
    (hfate : Fate b f left o d) (hr : r' = r.settle f.key b left) (hfull : o ≠ .conflict →
      (o = .boundExceeded ↔ maxBytes < r.bytes + (f.stop - b.data.length : Nat))) :
    Settled r maxBytes expired f b (r', { datagram := d, outcome := o, expired := expired }) := by
  have hleft : r'.buffer f.key = left := by rw [hr, buffer_settle_self]
  exact ⟨by rw [hleft, hr], by rw [hleft]; exact hfate, rfl, hfull⟩

theorem addTo_settled (r : Reassembler) (maxBytes expired : Nat) (f : Fragment)
    (b : ReassemblyBuffer) :
    Settled r maxBytes expired f b (r.addTo maxBytes expired f.hdr f.pkt b) := by
  have hpos := f.start_lt_stop
  unfold addTo
  dsimp only
  rw [show slice f.pkt f.hdr.payloadOff f.hdr.totalLen = f.payload from rfl, f.lastByte_eq,
    show f.hdr.key = f.key from rfl, show f.hdr.fragOffset = f.start from rfl]
  cases hend : b.declareEnd f.hdr.moreFragments (f.stop - 1) with
  | none => exact settled_of_fate (.contradiction hend) rfl (absurd rfl)
  | some b' =>
    have hdata : b'.data = b.data := by rw [(ReassemblyBuffer.declareEnd_some hend).1]
    have hlen := ReassemblyBuffer.length_absorb hend
    have hdrop : { r with bytes := r.bytes + (f.stop - 1 + 1 - b.data.length : Nat) }.dropLocked
      f.key
        (b'.absorb f.hdr f.pkt f.payload) = r.settle f.key b none := by
      simp only [dropLocked, settle, hlen]
      congr 1
      omega
    dsimp only
    rw [hdata]
    split
    · exact settled_of_fate (.refused hend) (put_eq_settle _ (by rw [hdata]; omega))
        (by simp; omega)
    split
    · rename_i hmet
      exact settled_of_fate (.duplicate hend (by simpa using hmet)) (put_eq_settle _ (by omega))
        (by simp; omega)
    cases hdone : (b'.absorb f.hdr f.pkt f.payload).finished with
    | none =>
      exact settled_of_fate (.buffered hend hdone) (put_eq_settle _ (by omega)) (by simp; omega)
    | some hp =>
      dsimp only
      split
      · rename_i hlong
        exact settled_of_fate (.tooLong hend hdone hlong) hdrop (absurd rfl)
      · exact settled_of_fate (.complete hend hdone (by omega)) hdrop (by simp; omega)

/-- What a fragment leaves alone, and the budget it keeps to. -/
structure AddFrame (r r' : Reassembler) (maxBytes : Nat) : Prop where
  closed : r'.closed = r.closed
  limits : r'.limits = r.limits
  bytes : r.bytes ≤ maxBytes → r'.bytes ≤ maxBytes

namespace Settled

variable {r : Reassembler} {maxBytes expired : Nat} {f : Fragment} {b : ReassemblyBuffer}
  {out : Reassembler × Added} (h : Settled r maxBytes expired f b out)

include h

theorem buffer_ne : ∀ k, k ≠ f.key → out.1.buffer k = r.buffer k := by
  intro k hk
  rw [h.state, buffer_settle_ne _ _ _ hk]

theorem within (hroom : r.bytes + (f.stop - b.data.length : Nat) ≤ maxBytes) :
    out.2.outcome ≠ .boundExceeded := by
  intro ho
  exact Int.not_lt.mpr hroom ((h.full (by rw [ho]; decide)).mp ho)

theorem bytes_eq {b' : ReassemblyBuffer} (hleft : out.1.buffer f.key = some b') :
    out.1.bytes = r.bytes - b.data.length + b'.data.length := by
  rw [h.state, hleft]
  rfl

theorem frame : AddFrame r out.1 maxBytes := by
  have hfate := h.fate
  have hfull := h.full
  rw [h.state]
  cases hleft : out.1.buffer f.key with
  | none =>
    refine ⟨rfl, rfl, fun hb => ?_⟩
    simp only [settle, dropLocked]
    omega
  | some b' =>
    rw [hleft] at hfate
    have hlen := hfate.length_data
    refine ⟨rfl, rfl, fun hb => ?_⟩
    show r.bytes - (b.data.length : Int) + b'.data.length ≤ maxBytes
    generalize out.2.datagram = d at hfate
    generalize out.2.outcome = o at hfate hlen hfull
    cases hfate <;> simp [ReasmOutcome.accepted] at hlen hfull <;> omega

end Settled

theorem resolveLimits_congr {r' : Reassembler} (h : r'.limits = r.limits) :
    r'.resolveLimits = r.resolveLimits := by
  unfold resolveLimits
  rw [h]

/-- Adding a fragment stays within the limit on bytes. -/
theorem add_frame (r : Reassembler) (now : Int) (f : Fragment) :
    AddFrame r (r.add now f.hdr f.pkt).1 r.resolveLimits.maxBytes := by
  have hsweep := r.sweep_frame now
  have hvia : ∀ r', AddFrame (r.sweep now).1 r' r.resolveLimits.maxBytes →
      AddFrame r r' r.resolveLimits.maxBytes := fun r' h =>
    ⟨h.closed.trans hsweep.closed, h.limits.trans hsweep.limits,
      fun hb => h.bytes (Int.le_trans hsweep.bytes hb)⟩
  unfold add
  split
  · exact ⟨rfl, rfl, id⟩
  dsimp only
  split
  · exact hvia _ (addTo_settled ..).frame
  split
  · exact hvia _ ⟨rfl, rfl, id⟩
  · exact hvia _ (addTo_settled ..).frame

/-- A buffer just made at `now`. -/
def fresh (r : Reassembler) (now : Int) : ReassemblyBuffer :=
  { expires := now + r.resolveLimits.timeout }

/-- The buffer a fragment with key `k` arrives at. -/
def bufferAt (r : Reassembler) (now : Int) (k : ReassemblyKey) : ReassemblyBuffer :=
  ((r.sweep now).1.buffer k).getD (r.fresh now)

theorem add_eq_addTo {now : Int} {f : Fragment} {b : ReassemblyBuffer} (hopen : r.closed = false)
    (hb : (r.sweep now).1.buffer f.key = some b) :
    r.add now f.hdr f.pkt
      = (r.sweep now).1.addTo r.resolveLimits.maxBytes (r.sweep now).2 f.hdr f.pkt b := by
  unfold add
  rw [if_neg (by rw [hopen]; decide)]
  dsimp only
  rw [show (r.sweep now).1.bufs.lookup f.hdr.key = some b from hb]

/--
Everything `add` can do. Buffers of other datagrams are only swept. The fragment's own
datagram is refused for want of a buffer, or its buffer meets one of the six fates.
-/
theorem add_cases (hopen : r.closed = false) (now : Int) (f : Fragment) :
    (∀ k, k ≠ f.key → (r.add now f.hdr f.pkt).1.buffer k = (r.sweep now).1.buffer k)
      ∧ (r.add now f.hdr f.pkt).2.expired = (r.sweep now).2
      ∧ (((r.sweep now).1.buffer f.key = none ∧ (r.add now f.hdr f.pkt).1.buffer f.key = none
            ∧ (r.add now f.hdr f.pkt).2.outcome = .boundExceeded
            ∧ (r.add now f.hdr f.pkt).2.datagram = none)
        ∨ Fate (r.bufferAt now f.key) f ((r.add now f.hdr f.pkt).1.buffer f.key)
            (r.add now f.hdr f.pkt).2.outcome (r.add now f.hdr f.pkt).2.datagram) := by
  unfold bufferAt
  cases hb : (r.sweep now).1.buffer f.key with
  | some b =>
    rw [add_eq_addTo hopen hb]
    have h := (r.sweep now).1.addTo_settled r.resolveLimits.maxBytes (r.sweep now).2 f b
    exact ⟨h.buffer_ne, h.expired, .inr h.fate⟩
  | none =>
    unfold add
    rw [if_neg (by rw [hopen]; decide)]
    dsimp only
    rw [show (r.sweep now).1.bufs.lookup f.hdr.key = none from hb]
    dsimp only
    split
    · exact ⟨fun k _ => rfl, rfl, .inl ⟨rfl, hb, rfl, rfl⟩⟩
    · have h :=
        (r.sweep now).1.addTo_settled r.resolveLimits.maxBytes (r.sweep now).2 f (r.fresh now)
      exact ⟨h.buffer_ne, h.expired, .inr h.fate⟩

end Reassembler

/-! ## What the accepted fragments say -/

/-- A fragment that is the first of its datagram. -/
def Fragment.leads (f : Fragment) : Bool := f.start = 0

theorem Fragment.leads_iff : f.leads = true ↔ f.hdr.fragOffset = 0 :=
  decide_eq_true_iff

/-- The buffer `b` of the datagram `k` has accepted the fragments `fs`, and nothing else. -/
structure Holds (k : ReassemblyKey) (b : ReassemblyBuffer) (fs : List Fragment) : Prop where
  keys : ∀ f ∈ fs, f.key = k
  shows : Shows Fragment.start Fragment.payload b.data fs
  proper : Proper b.holes
  missing : ∀ x, Missing b.holes x ↔ x ≤ holeOpenEnd
    ∧ (∀ f ∈ fs, ¬ (f.start ≤ x ∧ x < f.stop)) ∧ (∀ f ∈ fs, f.final = true → x < f.stop)
  header : b.header = (newest Fragment.leads fs).map Fragment.header
  ends : ∀ f ∈ fs, f.final = true → b.totalLen = some f.stop
  /-- Nothing is accepted behind the end once a final fragment has declared it. -/
  ordered : fs.Pairwise fun f g => f.final = true → g.stop ≤ f.stop

namespace Holds

variable {k : ReassemblyKey} {b b' : ReassemblyBuffer} {fs : List Fragment} {f : Fragment}

theorem fresh (k : ReassemblyKey) (expires : Int) : Holds k { expires := expires } [] where
  keys := by intro f hf; cases hf
  shows := shows_nil _ _ _
  proper := by
    intro h hh
    obtain rfl := List.mem_singleton.mp hh
    exact Nat.zero_le _
  missing := by
    intro x
    rw [missing_cons]
    simp [not_missing_nil]
  header := rfl
  ends := by intro f hf; cases hf
  ordered := List.Pairwise.nil

section

variable (hb : Holds k b fs)

include hb

theorem declareEnd {more : Bool} {last : Nat} (h : b.declareEnd more last = some b') :
    Holds k b' fs := by
  obtain ⟨heq, hkeep, -, -⟩ := ReassemblyBuffer.declareEnd_some h
  rw [heq]
  exact {
    keys := hb.keys
    shows := hb.shows
    proper := hb.proper
    missing := hb.missing
    header := hb.header
    ends := fun g hg hf => (hkeep _ (hb.ends g hg hf)).1
    ordered := hb.ordered }

theorem absorb (hk : f.key = k) (h : b.declareEnd f.hdr.moreFragments (f.stop - 1) = some b') :
    Holds k (b'.absorb f.hdr f.pkt f.payload) (fs ++ [f]) := by
  have hb' := hb.declareEnd h
  obtain ⟨-, hkeep, hfinal, -⟩ := ReassemblyBuffer.declareEnd_some h
  have hpos := f.start_lt_stop
  exact {
    keys := by
      intro g hg
      rcases List.mem_append.mp hg with hg | hg
      · exact hb.keys g hg
      · obtain rfl := List.mem_singleton.mp hg
        exact hk
    shows := hb'.shows.paste 0 f
    proper := proper_fill hb'.proper
    missing := by
      intro x
      have hle : f.start ≤ f.stop - 1 := by omega
      have hfill : Missing (b'.absorb f.hdr f.pkt f.payload).holes x
          ↔ Missing b'.holes x ∧ ¬ (f.start ≤ x ∧ x ≤ f.stop - 1)
            ∧ (f.hdr.moreFragments = false → x ≤ f.stop - 1) := missing_fill hle x
      rw [hfill, hb'.missing]
      simp only [List.forall_mem_append, List.forall_mem_singleton, Fragment.final,
        Bool.not_eq_true']
      constructor
      · rintro ⟨⟨h1, h2, h3⟩, h4, h5⟩
        refine ⟨h1, ⟨h2, by omega⟩, h3, fun hm => ?_⟩
        have := h5 hm
        omega
      · rintro ⟨h1, ⟨h2, h4⟩, h3, h5⟩
        refine ⟨⟨h1, h2, h3⟩, by omega, fun hm => ?_⟩
        have := h5 hm
        omega
    header := by
      rw [newest_snoc]
      show (if f.hdr.fragOffset = 0 then some (f.pkt.take f.hdr.ihl) else b'.header) = _
      by_cases h0 : f.hdr.fragOffset = 0
      · rw [if_pos h0, if_pos (Fragment.leads_iff.mpr h0)]
        rfl
      · rw [if_neg h0, if_neg (fun hl => h0 (Fragment.leads_iff.mp hl))]
        exact hb'.header
    ends := by
      intro g hg hf
      rcases List.mem_append.mp hg with hg | hg
      · exact hb'.ends g hg hf
      · obtain rfl := List.mem_singleton.mp hg
        have hmore : g.hdr.moreFragments = false := by simpa [Fragment.final] using hf
        have hstop : g.stop - 1 + 1 = g.stop := by omega
        have := hfinal hmore
        rwa [hstop] at this
    ordered := by
      rw [List.pairwise_append]
      refine ⟨hb.ordered, List.pairwise_singleton _ _, ?_⟩
      intro g hg g' hg' hf
      obtain rfl := List.mem_singleton.mp hg'
      have := (hkeep _ (hb.ends g hg hf)).2
      omega }

theorem exists_final (hholes : b.holes = []) : ∃ f ∈ fs, f.final = true := by
  by_contra hnone
  have hn : ∀ f ∈ fs, ¬ f.final = true := fun f hf h => hnone ⟨f, hf, h⟩
  have hnot : ¬ Missing b.holes holeOpenEnd := by rw [hholes]; exact not_missing_nil _
  refine hnot ((hb.missing _).mpr ⟨Nat.le_refl _, ?_, fun f hf h => absurd h (hn f hf)⟩)
  intro f hf hcov
  have := Fragment.stop_le_of_more (by simpa using hn f hf)
  omega

theorem exists_covers (hholes : b.holes = []) {t x : Nat} (ht : b.totalLen = some t) (hx : x < t) :
    ∃ f, newest (covers Fragment.start Fragment.payload x) fs = some f := by
  obtain ⟨g, hg, hgf⟩ := hb.exists_final hholes
  have hgt : g.stop = t := Option.some.inj ((hb.ends g hg hgf).symm.trans ht)
  have hmax := g.geometry.2.1
  have hnot : ¬ Missing b.holes x := by rw [hholes]; exact not_missing_nil _
  rw [hb.missing] at hnot
  refine exists_newest ?_
  by_contra hnone
  refine hnot ⟨?_, ?_, ?_⟩
  · unfold holeOpenEnd
    omega
  · intro f hf hcov
    exact hnone ⟨f, hf, covers_iff.mpr hcov⟩
  · intro f hf hff
    have : f.stop = t := Option.some.inj ((hb.ends f hf hff).symm.trans ht)
    omega

theorem finished_eq_none_iff : b.finished = none ↔ b.holes ≠ [] := by
  unfold ReassemblyBuffer.finished
  constructor
  · intro h hholes
    obtain ⟨g, hg, hgf⟩ := hb.exists_final hholes
    have ht := hb.ends g hg hgf
    have hpos := g.start_lt_stop
    obtain ⟨f, hf⟩ := hb.exists_covers hholes ht (x := 0) (by omega)
    obtain ⟨hmem, hcov⟩ := newest_mem hf
    have hlead : f.leads = true := by
      have := (covers_iff.mp hcov).1
      exact Fragment.leads_iff.mpr (Nat.le_zero.mp this)
    have hreach : g.stop ≤ b.data.length := hb.shows.reaches g hg
    obtain ⟨v, hv⟩ := exists_newest (p := Fragment.leads) ⟨f, hmem, hlead⟩
    rw [ht, hb.header, hv] at h
    simp only [Option.map_some, hholes, true_and] at h
    rw [if_pos hreach] at h
    cases h
  · intro hholes
    split
    · rw [if_neg (fun h => hholes h.1)]
    · rfl

theorem finished_eq_some {header payload : Bytes} (h : b.finished = some (header, payload)) :
    ∃ t lead, b.holes = [] ∧ b.totalLen = some t ∧ t ≤ b.data.length
      ∧ newest Fragment.leads fs = some lead ∧ header = lead.header ∧ payload = b.data.take t := by
  have hhead := hb.header
  unfold ReassemblyBuffer.finished at h
  split at h
  · rename_i t header' ht hh
    split at h
    · rename_i hall
      obtain ⟨rfl, rfl⟩ := Prod.mk.inj (Option.some.inj h)
      rw [hh] at hhead
      obtain ⟨lead, hlead, rfl⟩ := Option.map_eq_some_iff.mp hhead.symm
      exact ⟨t, lead, hall.1, ht, hall.2, hlead, rfl, rfl⟩
    · cases h
  · cases h

end

end Holds

end GoVpn.Netstack
