import GoVpn.Lib.Run
import GoVpn.Proof.ReasmBuffer

/-!
# What comes out of the reassembler

Fragments of any datagrams arrive in any order and overlap in any way. Beside the reassembler runs
the record of which fragments each buffer has accepted since it was made.

A datagram that comes out is the newest of what went in, and of nothing else. Two things the overlap
policy promises besides do not hold. Data behind the end are only noticed when they arrive after the
final fragment, and a final fragment that brings nothing new is taken for a duplicate although it
may be what completes its datagram.
-/

namespace GoVpn.Netstack

open HoleList Overlay

/-- A reassembler, and the fragments each of its buffers has accepted since it was made. -/
structure Watched where
  r : Reassembler
  accepted : ReassemblyKey → List Arrival

namespace Watched

/-- A session's reassembler before the first fragment. -/
def start (limits : ReassemblyLimits) : Watched where
  r := { limits := limits }
  accepted _ := []

/-- What the buffer `a` arrives at has accepted before. -/
def before (w : Watched) (a : Arrival) : List Arrival :=
  if ((w.r.sweep a.now).1.buffer a.frag.key).isSome then w.accepted a.frag.key else []

/-- One call of `add`. -/
def step (w : Watched) (a : Arrival) : Watched × Added :=
  let added := w.r.add a.now a.frag.hdr a.frag.pkt
  ({ r := added.1
     accepted := fun k =>
       if (added.1.buffer k).isSome then
         if k = a.frag.key then w.before a ++ (if added.2.outcome.accepted then [a] else [])
         else w.accepted k
       else [] },
    added.2)

/-- The state after the arrivals `as`. -/
def after (limits : ReassemblyLimits) (as : List Arrival) : Watched :=
  Machine.run (fun w a => (w.step a).1) (start limits) as

/-- The limits stay what they are. -/
theorem resolveLimits_step (w : Watched) (a : Arrival) :
    (w.step a).1.r.resolveLimits = w.r.resolveLimits :=
  Reassembler.resolveLimits_congr (w.r.add_frame a.now a.frag).limits

/-- A buffer that is there after a call met one of the fates in it, or has survived its sweep. -/
theorem buffer_step {w : Watched} {a : Arrival} {k : ReassemblyKey} {b : ReassemblyBuffer}
    (hopen : w.r.closed = false) (hb : (w.step a).1.r.buffer k = some b) :
    (k = a.frag.key
        ∧ (w.step a).1.accepted k =
          w.before a ++ (if (w.step a).2.outcome.accepted then [a] else [])
        ∧ Fate (w.r.bufferAt a.now a.frag.key) a.frag (some b) (w.step a).2.outcome
            (w.step a).2.datagram)
      ∨ k ≠ a.frag.key ∧ (w.step a).1.accepted k = w.accepted k ∧ w.r.buffer k = some b := by
  obtain ⟨hother, -, hown⟩ := Reassembler.add_cases hopen a.now a.frag
  have hb' : (w.r.add a.now a.frag.hdr a.frag.pkt).1.buffer k = some b := hb
  simp only [step, hb', Option.isSome_some, if_true]
  by_cases hk : k = a.frag.key
  · subst hk
    rcases hown with ⟨-, hnone, -⟩ | hfate
    · cases hnone.symm.trans hb'
    · rw [hb'] at hfate
      exact .inl ⟨rfl, if_pos rfl, hfate⟩
  · rw [hother k hk, Reassembler.buffer_sweep] at hb'
    exact .inr ⟨hk, if_neg hk, Option.eq_some_of_filter_eq_some hb'⟩

end Watched

/-! ## The invariant -/

/-- Every buffer holds what the record says it accepted. -/
structure Faithful (limits : ReassemblyLimits) (w : Watched) : Prop where
  isOpen : w.r.closed = false
  limits : w.r.limits = limits
  bytes : w.r.bytes ≤ w.r.resolveLimits.maxBytes
  holds : ∀ k b, w.r.buffer k = some b → Holds k b ((w.accepted k).map Arrival.frag)

namespace Faithful

variable {limits : ReassemblyLimits} {w : Watched}

/-- Nothing is held at first. -/
theorem start (limits : ReassemblyLimits) : Faithful limits (Watched.start limits) where
  isOpen := rfl
  limits := rfl
  bytes := Int.natCast_nonneg _
  holds := by intro k b h; cases h

theorem holds_bufferAt (h : Faithful limits w) (a : Arrival) :
    Holds a.frag.key (w.r.bufferAt a.now a.frag.key) ((w.before a).map Arrival.frag) := by
  unfold Reassembler.bufferAt Watched.before
  cases hb : (w.r.sweep a.now).1.buffer a.frag.key with
  | none =>
    exact Holds.fresh _ _
  | some b =>
    rw [Reassembler.buffer_sweep] at hb
    exact h.holds _ _ (Option.eq_some_of_filter_eq_some hb)

/-- A fate that leaves a buffer leaves one that holds the fragments it should. -/
theorem holds_fate {k : ReassemblyKey} {b b' : ReassemblyBuffer} {f : Fragment}
    {fs : List Fragment} {o : ReasmOutcome} {d : Option Bytes} (hb : Holds k b fs) (hk : f.key = k)
    (h : Fate b f (some b') o d) : Holds k b' (fs ++ if o.accepted then [f] else []) := by
  cases h with
  | refused h =>
    simp only [ReasmOutcome.accepted, Bool.false_eq_true, if_false, List.append_nil]
    exact hb.declareEnd h
  | duplicate h | buffered h => exact hb.absorb hk h

/-- Every arrival keeps the buffers faithful. -/
theorem step (h : Faithful limits w) (a : Arrival) : Faithful limits (w.step a).1 := by
  have hframe := w.r.add_frame a.now a.frag
  refine ⟨hframe.closed.trans h.isOpen, hframe.limits.trans h.limits, ?_, ?_⟩
  · rw [w.resolveLimits_step a]
    exact hframe.bytes h.bytes
  · intro k b hb
    rcases Watched.buffer_step h.isOpen hb with ⟨rfl, hacc, hfate⟩ | ⟨-, hacc, hold⟩
    · have := holds_fate (h.holds_bufferAt a) rfl hfate
      rw [hacc, List.map_append]
      convert this using 2
      split <;> rfl
    · rw [hacc]
      exact h.holds k b hold

/-- So they are after any arrivals. -/
theorem after (limits : ReassemblyLimits) (as : List Arrival) :
    Faithful limits (Watched.after limits as) :=
  Machine.run_invariant' (fun _ a h => h.step a) (start limits) as

theorem resolveLimits (h : Faithful limits w) :
    w.r.resolveLimits = (Watched.start limits).r.resolveLimits :=
  Reassembler.resolveLimits_congr h.limits

end Faithful

/-! ## Time -/

variable {b b' : ReassemblyBuffer} {f : Fragment} {w : Watched}

/-- A deadline is set once. -/
theorem Fate.expires {o : ReasmOutcome} {d : Option Bytes} (h : Fate b f (some b') o d) :
    b'.expires = b.expires := by
  have hend : ∀ {b'' : ReassemblyBuffer}, b.declareEnd f.hdr.moreFragments (f.stop - 1) = some b'' →
      b''.expires = b.expires := by
    intro b'' h''
    rw [(ReassemblyBuffer.declareEnd_some h'').1]
  cases h with
  | refused h => exact hend h
  | duplicate h =>
    have h' := hend h
    exact h'
  | buffered h =>
    have h' := hend h
    exact h'

theorem Reassembler.resolveLimits_timeout_pos (r : Reassembler) : 0 < r.resolveLimits.timeout := by
  unfold resolveLimits
  dsimp only
  split
  · decide
  · omega

/-- The deadline `d` was set at `c`, and every fragment of `fs` arrived at `c` or later. -/
def SetBy (timeout : Nat) (d : Int) (fs : List Arrival) (c : Arrival) : Prop :=
  d = c.now + timeout ∧ ∀ f ∈ fs, c.now ≤ f.now

/-- Every buffer's deadline was set by a fragment no younger than those it has accepted. -/
def Timely (pre : List Arrival) (w : Watched) : Prop :=
  ∀ k b, w.r.buffer k = some b →
    ∃ c ∈ pre, SetBy w.r.resolveLimits.timeout b.expires (w.accepted k) c

variable {a : Arrival} {limits : ReassemblyLimits} {r : Reassembler}

theorem Timely.bufferAt {pre : List Arrival} (h : Timely pre w)
    (hclock : ∀ c ∈ pre, c.now ≤ a.now) :
    a.now < (w.r.bufferAt a.now a.frag.key).expires
      ∧ ∃ c ∈ pre ++ [a], SetBy w.r.resolveLimits.timeout
          (w.r.bufferAt a.now a.frag.key).expires (w.before a ++ [a]) c := by
  unfold Reassembler.bufferAt Watched.before
  cases hb : (w.r.sweep a.now).1.buffer a.frag.key with
  | none =>
    have hpos := w.r.resolveLimits_timeout_pos
    refine ⟨?_, a, by simp, rfl, ?_⟩
    · show a.now < a.now + (w.r.resolveLimits.timeout : Int)
      omega
    · intro f hf
      simp only [Option.isSome_none, Bool.false_eq_true, if_false, List.nil_append,
        List.mem_singleton] at hf
      exact Int.le_of_eq (by rw [hf])
  | some b =>
    rw [Reassembler.buffer_sweep, Option.filter_eq_some_iff] at hb
    obtain ⟨c, hc, hd, hfs⟩ := h _ b hb.1
    refine ⟨by simpa using hb.2, c, List.mem_append_left _ hc, hd, ?_⟩
    intro f hf
    rcases List.mem_append.mp hf with hf | hf
    · exact hfs f hf
    · rw [List.mem_singleton.mp hf]
      exact hclock c hc

/-- With the clock not running back, deadlines stay timely. -/
theorem Timely.step {pre : List Arrival} (hw : Faithful limits w) (h : Timely pre w)
    (hclock : ∀ c ∈ pre, c.now ≤ a.now) : Timely (pre ++ [a]) (w.step a).1 := by
  intro k b hb
  rw [w.resolveLimits_step a]
  rcases Watched.buffer_step hw.isOpen hb with ⟨rfl, hacc, hfate⟩ | ⟨-, hacc, hold⟩
  · obtain ⟨-, c, hc, hd, hfs⟩ := h.bufferAt hclock
    rw [hacc]
    refine ⟨c, hc, hfate.expires.trans hd, fun f hf => hfs f ?_⟩
    split at hf
    · exact hf
    · rw [List.append_nil] at hf
      exact List.mem_append_left _ hf
  · obtain ⟨c, hc, hset⟩ := h k b hold
    rw [hacc]
    exact ⟨c, List.mem_append_left _ hc, hset⟩

/-- So they are after any arrivals in order of time. -/
theorem Timely.after (limits : ReassemblyLimits) (as : List Arrival)
    (hclock : as.Pairwise fun a b => a.now ≤ b.now) : Timely as (Watched.after limits as) := by
  refine Machine.run_history (fun w a => (Watched.step w a).1)
    (I := fun pre w => pre.Pairwise (fun a b => a.now ≤ b.now) → Timely pre w) ?_ ?_ as hclock
  · intro _ k b hb
    cases hb
  · intro pre a ih hpre
    rw [List.pairwise_append] at hpre
    exact (ih hpre.1).step (Faithful.after limits pre) fun c hc => hpre.2.2 c hc a (by simp)

/-! ## Newest wins -/

theorem Faithful.complete (h : Faithful limits w) (ho : (w.step a).2.outcome = .complete) :
    ∃ b t lead, Holds a.frag.key b ((w.before a ++ [a]).map Arrival.frag) ∧ b.holes = []
      ∧ b.totalLen = some t ∧ t ≤ b.data.length
      ∧ newest Fragment.leads ((w.before a ++ [a]).map Arrival.frag) = some lead
      ∧ lead.header.length + t ≤ maxIPv4Datagram
      ∧ (w.step a).2.datagram = some (rebuild lead.header (b.data.take t)) := by
  obtain ⟨-, -, hown⟩ := Reassembler.add_cases h.isOpen a.now a.frag
  have ho' : (w.r.add a.now a.frag.hdr a.frag.pkt).2.outcome = .complete := ho
  rcases hown with ⟨-, -, hbound, -⟩ | hfate
  · rw [hbound] at ho'
    cases ho'
  rw [ho'] at hfate
  show ∃ b t lead, _ ∧ _ ∧ _ ∧ _ ∧ _ ∧ _
    ∧ (w.r.add a.now a.frag.hdr a.frag.pkt).2.datagram = some (rebuild _ _)
  generalize (w.r.add a.now a.frag.hdr a.frag.pkt).1.buffer a.frag.key = left at hfate
  generalize (w.r.add a.now a.frag.hdr a.frag.pkt).2.datagram = d at hfate ⊢
  cases hfate with
  | complete hend hdone hfits =>
    have hb := (h.holds_bufferAt a).absorb rfl hend
    obtain ⟨t, lead, hholes, ht, hlen, hlead, rfl, rfl⟩ := hb.finished_eq_some hdone
    rw [List.length_take, Nat.min_eq_left hlen] at hfits
    rw [List.map_append, List.map_singleton]
    exact ⟨_, t, lead, hb, hholes, ht, hlen, hlead, hfits, rfl⟩

/--
What it means that `datagram` is the newest of the fragments `fs`, of which `lead` is
the newest first one, and that none of them is too old at `now`.
-/
structure NewestWins (timeout : Nat) (fs : List Arrival) (now : Int) (lead : Fragment)
    (datagram : Bytes) : Prop where
  leads : newest Fragment.leads (fs.map Arrival.frag) = some lead
  /-- The header is the lead's, but for length, flags, offset and checksum. -/
  header : ∀ i, i < lead.hdr.ihl → rewritten i = false → byteAt datagram i = byteAt lead.pkt i
  /-- The payload ends where a final fragment ends. -/
  ends : ∃ f ∈ fs, f.frag.final = true ∧ datagram.length = lead.hdr.ihl + f.frag.stop
  /-- Every byte of the payload is the newest that was sent for its place. -/
  bytes : ∀ x, lead.hdr.ihl + x < datagram.length →
    ∃ f, newest (covers Fragment.start Fragment.payload x) (fs.map Arrival.frag) = some f
      ∧ datagram[lead.hdr.ihl + x]? = f.payload[x - f.start]?
  recent : ∀ f ∈ fs, now - f.now < timeout

theorem Fragment.length_header (f : Fragment) : f.header.length = f.hdr.ihl := by
  have h1 := f.valid.ihl_le
  have h2 := f.valid.totalLen_le
  rw [header, List.length_take]
  omega

/--
Whatever arrives, a datagram that comes out is made of the fragments of its key that
its buffer has accepted since it was made, the last one included, and of each byte the
newest.
-/
theorem reassembled_newest_wins (limits : ReassemblyLimits) (as : List Arrival) (a : Arrival)
    (hclock : (as ++ [a]).Pairwise fun x y => x.now ≤ y.now)
    (ho : ((Watched.after limits as).step a).2.outcome = .complete) :
    (∀ f ∈ (Watched.after limits as).before a ++ [a], f.frag.key = a.frag.key)
      ∧ ∃ datagram lead, ((Watched.after limits as).step a).2.datagram = some datagram
        ∧ NewestWins (Watched.start limits).r.resolveLimits.timeout
          ((Watched.after limits as).before a ++ [a]) a.now lead datagram := by
  have hw := Faithful.after limits as
  rw [List.pairwise_append] at hclock
  have htime := Timely.after limits as hclock.1
  obtain ⟨b, t, lead, hb, hholes, ht, hlen, hlead, -, hd⟩ := hw.complete ho
  obtain ⟨fin, hfin, hfinal⟩ := hb.exists_final hholes
  have hstop : fin.stop = t := Option.some.inj ((hb.ends fin hfin hfinal).symm.trans ht)
  have hlength : (rebuild lead.header (b.data.take t)).length = lead.hdr.ihl + t := by
    rw [length_rebuild, lead.length_header, List.length_take, Nat.min_eq_left hlen]
  have hdrop : (rebuild lead.header (b.data.take t)).drop lead.hdr.ihl = b.data.take t := by
    have h20 : minIPv4HeaderLen ≤ lead.header.length := by
      rw [lead.length_header]
      exact lead.valid.ihl_ge
    have := drop_rebuild (b.data.take t) h20
    rwa [lead.length_header] at this
  refine ⟨fun f hf => hb.keys _ (List.mem_map_of_mem hf), _, lead, hd, hlead, ?_, ?_, ?_, ?_⟩
  · intro i hi hr
    rw [byteAt_rebuild _ (by rw [lead.length_header]; exact hi) hr]
    exact byteAt_take hi
  · obtain ⟨f, hf, rfl⟩ := List.mem_map.mp hfin
    exact ⟨f, hf, hfinal, by rw [hlength, hstop]⟩
  · intro x hx
    have hxt : x < t := by omega
    obtain ⟨f, hf⟩ := hb.exists_covers hholes ht hxt
    refine ⟨f, hf, ?_⟩
    rw [← List.getElem?_drop, hdrop, List.getElem?_take, if_pos hxt]
    exact hb.shows.shows x f hf
  · intro f hf
    obtain ⟨hnow, c, -, hset, hfs⟩ :=
      htime.bufferAt fun c hc => hclock.2.2 c hc a (by simp)
    rw [hw.resolveLimits] at hset
    have := hfs f hf
    omega

/-! ### Fragments to try it on -/

/-- A fragment of eight equal bytes, `unit` times eight bytes into its datagram. -/
def samplePacket (unit : UInt8) (more : Bool) (body : UInt8) : Bytes :=
  [0x45, 0, 0, 28, 0, 3, if more then 0x20 else 0, unit, 64, 17, 0, 0, 10, 8, 0, 2, 10, 8, 0, 1]
    ++ List.replicate 8 body

def sampleHeader (unit : UInt8) (more : Bool) : Ipv4Header where
  ihl := 20
  totalLen := 28
  protocol := protocolUDP
  src := 0x0A080002
  dst := 0x0A080001
  payloadOff := 20
  id := 3
  moreFragments := more
  fragOffset := unit.toNat * 8

/-- The sample packet as a fragment that arrives at `now`. -/
def sampleArrival (now : Int) (unit : UInt8) (more : Bool) (body : UInt8)
    (parsed : parseIPv4 (samplePacket unit more body) = .ok (sampleHeader unit more))
    (fragment : (sampleHeader unit more).isFragment = true) : Arrival where
  now := now
  frag := { pkt := samplePacket unit more body, hdr := sampleHeader unit more, parsed, fragment }

/-- Bytes 0 to 7, with more to follow. -/
def sampleFirst (now : Int) : Arrival :=
  sampleArrival now 0 true 1 (by decide +kernel) (by decide +kernel)

/-- Other bytes in the place of the first eight. -/
def sampleAgain (now : Int) : Arrival :=
  sampleArrival now 0 true 7 (by decide +kernel) (by decide +kernel)

/-- Bytes 8 to 15, with more to follow. -/
def sampleSecond (now : Int) : Arrival :=
  sampleArrival now 1 true 2 (by decide +kernel) (by decide +kernel)

/-- Bytes 16 to 23, with more to follow. -/
def sampleThird (now : Int) : Arrival :=
  sampleArrival now 2 true 3 (by decide +kernel) (by decide +kernel)

/-- Bytes 8 to 15, and the end of the datagram. -/
def sampleFinal (now : Int) : Arrival :=
  sampleArrival now 1 false 2 (by decide +kernel) (by decide +kernel)

/-- The first eight bytes are sent twice, and the second time wins. -/
theorem retransmission_wins :
    ((Watched.after {} [sampleFirst 0, sampleAgain 5]).step (sampleFinal 9)).2.outcome
        = .complete
    ∧ ∃ datagram lead, NewestWins reassemblyTimeout
        ((Watched.after {} [sampleFirst 0, sampleAgain 5]).before (sampleFinal 9)
          ++ [sampleFinal 9]) 9 lead datagram := by
  have ho : ((Watched.after {} [sampleFirst 0, sampleAgain 5]).step
      (sampleFinal 9)).2.outcome = .complete := by decide +kernel
  obtain ⟨-, datagram, lead, -, h⟩ :=
    reassembled_newest_wins {} [sampleFirst 0, sampleAgain 5] (sampleFinal 9)
      (by simp [sampleFirst, sampleAgain, sampleFinal, sampleArrival]) ho
  exact ⟨ho, datagram, lead, h⟩

/-! ## Data behind the end -/

/-- Some fragment of `fs` reaches beyond the end that a younger final fragment declares. -/
def EndDeclaredLate (fs : List Arrival) : Prop :=
  ∃ pre fin post, fs = pre ++ fin :: post ∧ fin.frag.final = true
    ∧ ∃ f ∈ pre, fin.frag.stop < f.frag.stop

/--
A datagram that comes out although its buffer had accepted data behind its end is one
whose end was declared after those data came. In the other order they are a conflict.
-/
theorem contradiction_delivered_iff (limits : ReassemblyLimits) (as : List Arrival) (a : Arrival)
    (ho : ((Watched.after limits as).step a).2.outcome = .complete) :
    ∃ datagram lead total, ((Watched.after limits as).step a).2.datagram = some datagram
      ∧ newest Fragment.leads (((Watched.after limits as).before a ++ [a]).map Arrival.frag) =
        some lead
      ∧ datagram.length = lead.hdr.ihl + total
      ∧ ((∃ f ∈ (Watched.after limits as).before a ++ [a], total < f.frag.stop)
        ↔ EndDeclaredLate ((Watched.after limits as).before a ++ [a])) := by
  have hw := Faithful.after limits as
  obtain ⟨b, t, lead, hb, hholes, ht, hlen, hlead, -, hd⟩ := hw.complete ho
  refine ⟨_, lead, t, hd, hlead, ?_, ?_⟩
  · rw [length_rebuild, lead.length_header, List.length_take, Nat.min_eq_left hlen]
  generalize (Watched.after limits as).before a ++ [a] = fs at hb
  have hends : ∀ f ∈ fs, f.frag.final = true → f.frag.stop = t := fun f hf hfin =>
    Option.some.inj ((hb.ends _ (List.mem_map_of_mem hf) hfin).symm.trans ht)
  have hordered := List.pairwise_map.mp hb.ordered
  constructor
  · rintro ⟨f, hf, hbehind⟩
    obtain ⟨g, hg, hfinal⟩ := hb.exists_final hholes
    obtain ⟨fin, hfin, rfl⟩ := List.mem_map.mp hg
    obtain ⟨pre, post, rfl⟩ := List.append_of_mem hfin
    refine ⟨pre, fin, post, rfl, hfinal, f, ?_, by rw [hends fin hfin hfinal]; exact hbehind⟩
    -- the fragment is not the final one, and what follows a final one stays below its end
    rcases List.mem_append.mp hf with hf' | hf'
    · exact hf'
    · rw [List.pairwise_append, List.pairwise_cons] at hordered
      have hend := hends fin hfin hfinal
      rcases List.mem_cons.mp hf' with rfl | hf'
      · omega
      · have := hordered.2.1.1 f hf' hfinal
        omega
  · rintro ⟨pre, fin, post, rfl, hfinal, f, hf, hbehind⟩
    rw [hends fin (by simp) hfinal] at hbehind
    exact ⟨f, by simp [hf], hbehind⟩

/-- The far fragment comes first; its datagram is delivered without it, sixteen bytes long. -/
theorem data_behind_end_delivered :
    (sampleThird 1).frag.stop = 24
    ∧ ((Watched.after {} [sampleFirst 0]).step (sampleThird 1)).2.outcome = .buffered
    ∧ ((Watched.after {} [sampleFirst 0, sampleThird 1]).step (sampleFinal 2)).2.outcome
        = .complete
    ∧ (((Watched.after {} [sampleFirst 0, sampleThird 1]).step (sampleFinal 2)).2.datagram.map
        List.length) = some (20 + 16) := by
  decide +kernel

/-- In the order of the offsets the theorem has a completed datagram to speak of. -/
theorem in_order_no_contradiction :
    ((Watched.after {} [sampleFirst 0]).step (sampleFinal 2)).2.outcome = .complete
    ∧ ∃ datagram lead total, ((Watched.after {} [sampleFirst 0]).step (sampleFinal 2)).2.datagram
        = some datagram
      ∧ newest Fragment.leads
          (((Watched.after {} [sampleFirst 0]).before (sampleFinal 2) ++ [sampleFinal 2]).map
            Arrival.frag) = some lead
      ∧ datagram.length = lead.hdr.ihl + total
      ∧ ((∃ f ∈ (Watched.after {} [sampleFirst 0]).before (sampleFinal 2) ++ [sampleFinal 2],
            total < f.frag.stop)
        ↔ EndDeclaredLate
            ((Watched.after {} [sampleFirst 0]).before (sampleFinal 2) ++ [sampleFinal 2])) := by
  have ho : ((Watched.after {} [sampleFirst 0]).step (sampleFinal 2)).2.outcome = .complete := by
    decide +kernel
  exact ⟨ho, contradiction_delivered_iff {} [sampleFirst 0] (sampleFinal 2) ho⟩

/-! ## Datagrams left behind -/

/-- No buffer meets all the conditions of completion at once. -/
def NoneComplete (r : Reassembler) : Prop := ∀ k b, r.buffer k = some b → b.finished = none

/-- `add`, for a fragment at its time. -/
def Reassembler.arrive (r : Reassembler) (a : Arrival) : Reassembler :=
  (r.add a.now a.frag.hdr a.frag.pkt).1

/--
A final fragment comes to a buffer that has all bytes up to its end already: no hole
begins at or before its last byte, and it does not contradict the buffer.
-/
def BringsOnlyTheEnd (r : Reassembler) (a : Arrival) : Prop :=
  a.frag.final = true ∧ ∃ b, (r.sweep a.now).1.buffer a.frag.key = some b
    ∧ b.declareEnd a.frag.hdr.moreFragments (a.frag.stop - 1) ≠ none
    ∧ ∀ h ∈ b.holes, a.frag.stop ≤ h.first

theorem fill_eq_nil_iff {hs : List Hole} (hp : Proper hs) (hne : hs ≠ [])
    (hmet : intersects f.start (f.stop - 1) f.hdr.moreFragments hs = false) :
    fill f.start (f.stop - 1) f.hdr.moreFragments hs = []
      ↔ f.final = true ∧ ∀ h ∈ hs, f.stop ≤ h.first := by
  have hpos := f.start_lt_stop
  have hle : f.start ≤ f.stop - 1 := by omega
  have hmiss : ∀ x, Missing hs x → ¬ (f.start ≤ x ∧ x ≤ f.stop - 1) := by
    intro x hx hin
    have hyes : intersects f.start (f.stop - 1) f.hdr.moreFragments hs = true :=
      (intersects_iff hp hle).mpr ⟨x, hin.1, hin.2, hx⟩
    rw [hmet] at hyes
    cases hyes
  rw [eq_nil_iff (proper_fill hp)]
  simp only [missing_fill hle]
  constructor
  · intro hnone
    -- every missing offset was cut off, so the fragment is final and ends before it
    have hcut : ∀ x, Missing hs x → f.final = true ∧ f.stop ≤ x := by
      intro x hx
      have hno := hnone x
      by_cases hm : f.hdr.moreFragments = false
      · refine ⟨by simp [Fragment.final, hm], ?_⟩
        by_contra hlt
        exact hno ⟨hx, hmiss x hx, fun _ => by omega⟩
      · exact absurd ⟨hx, hmiss x hx, fun h => absurd h hm⟩ hno
    have hfirst : ∀ h ∈ hs, Missing hs h.first := fun h hh => ⟨h, hh, Nat.le_refl _, hp h hh⟩
    obtain ⟨h, hh⟩ := List.exists_mem_of_ne_nil hs hne
    exact ⟨(hcut _ (hfirst h hh)).1, fun g hg => (hcut _ (hfirst g hg)).2⟩
  · rintro ⟨hfinal, hbehind⟩ x ⟨⟨h, hh, h1, -⟩, -, hend⟩
    have hm : f.hdr.moreFragments = false := by simpa [Fragment.final] using hfinal
    have := hend hm
    have := hbehind h hh
    omega

/-- A buffer with a hole that loses its last one to a fragment without completing its datagram. -/
theorem Fate.holes_eq_nil {k : ReassemblyKey} {fs : List Fragment} {o : ReasmOutcome}
    {d : Option Bytes} (hb : Holds k b fs) (hk : f.key = k) (hne : b.holes ≠ [])
    (h : Fate b f (some b') o d) (hholes : b'.holes = []) :
    f.final = true ∧ b.declareEnd f.hdr.moreFragments (f.stop - 1) ≠ none
      ∧ ∀ h ∈ b.holes, f.stop ≤ h.first := by
  have hsame : ∀ {b'' : ReassemblyBuffer}, b.declareEnd f.hdr.moreFragments (f.stop - 1) =
    some b'' →
      b''.holes = b.holes := by
    intro b'' h''
    rw [(ReassemblyBuffer.declareEnd_some h'').1]
  cases h with
  | refused hend => exact absurd ((hsame hend).symm.trans hholes) hne
  | buffered hend hleft => exact absurd hholes ((hb.absorb hk hend).finished_eq_none_iff.mp hleft)
  | duplicate hend hmet =>
    rw [hsame hend] at hmet
    have hfill := (fill_eq_nil_iff hb.proper hne hmet).mp (by rw [← hsame hend]; exact hholes)
    exact ⟨hfill.1, by rw [hend]; exact Option.some_ne_none _, hfill.2⟩

theorem Reassembler.addTo_nothing_new {maxBytes : Nat} (expired : Nat)
    (hend : b.declareEnd f.hdr.moreFragments (f.stop - 1) = some b') (hbytes : r.bytes ≤ maxBytes)
    (hdata : f.stop ≤ b'.data.length)
    (hmet : intersects f.start (f.stop - 1) f.hdr.moreFragments b'.holes = false) :
    (r.addTo maxBytes expired f.hdr f.pkt b).1.buffer f.key
      = some (b'.absorb f.hdr f.pkt f.payload) := by
  have hpos := f.start_lt_stop
  have hgrow : f.stop - 1 + 1 - b'.data.length = 0 := by omega
  unfold addTo
  dsimp only
  rw [show slice f.pkt f.hdr.payloadOff f.hdr.totalLen = f.payload from rfl, f.lastByte_eq, hend]
  dsimp only
  rw [hgrow, if_neg (by omega), show f.hdr.fragOffset = f.start from rfl, hmet]
  exact buffer_put_self _ _ _

/-- Some record makes the reassembler's state a faithful one. -/
def Sound (limits : ReassemblyLimits) (r : Reassembler) : Prop :=
  ∃ accepted, Faithful limits { r := r, accepted := accepted }

theorem Sound.arrive (h : Sound limits r) (a : Arrival) : Sound limits (r.arrive a) := by
  obtain ⟨accepted, h⟩ := h
  exact ⟨_, h.step a⟩

theorem NoneComplete.bufferAt_holes (hw : Faithful limits w) (h : NoneComplete w.r) (a : Arrival) :
    (w.r.bufferAt a.now a.frag.key).holes ≠ [] := by
  unfold Reassembler.bufferAt
  cases hb : (w.r.sweep a.now).1.buffer a.frag.key with
  | none => exact List.cons_ne_nil _ _
  | some b =>
    rw [Reassembler.buffer_sweep] at hb
    have hb' := Option.eq_some_of_filter_eq_some hb
    exact (hw.holds _ b hb').finished_eq_none_iff.mp (h _ b hb')

theorem noneComplete_arrive (hr : Sound limits r) (h : NoneComplete r)
    (hnot : ¬ BringsOnlyTheEnd r a) : NoneComplete (r.arrive a) := by
  obtain ⟨accepted, hw⟩ := hr
  intro k b hb
  rcases Watched.buffer_step hw.isOpen hb with ⟨rfl, -, hfate⟩ | ⟨-, -, hold⟩
  · have hat := hw.holds_bufferAt a
    have hne := h.bufferAt_holes hw a
    rw [(Faithful.holds_fate hat rfl hfate).finished_eq_none_iff]
    intro hholes
    obtain ⟨hfinal, hend, hbehind⟩ := Fate.holes_eq_nil hat rfl hne hfate hholes
    -- a fresh buffer misses the first byte, so this one was there before
    unfold Reassembler.bufferAt at hend hbehind
    cases hswept : (r.sweep a.now).1.buffer a.frag.key with
    | none =>
      rw [hswept] at hbehind
      have hzero : a.frag.stop ≤ 0 := hbehind _ List.mem_cons_self
      have := a.frag.start_lt_stop
      omega
    | some b₀ =>
      rw [hswept] at hend hbehind
      exact hnot ⟨hfinal, b₀, hswept, hend, hbehind⟩
  · exact h k b hold

theorem not_noneComplete_arrive
    (hr : Sound limits r) (h : NoneComplete r) (hlate : BringsOnlyTheEnd r a) :
    ¬ NoneComplete (r.arrive a) := by
  obtain ⟨accepted, hw⟩ := hr
  obtain ⟨hfinal, b, hb, hend, hbehind⟩ := hlate
  obtain ⟨b', hend⟩ := Option.ne_none_iff_exists'.mp hend
  have hat := hw.holds_bufferAt a
  have hne := h.bufferAt_holes hw a
  have hbuf : r.bufferAt a.now a.frag.key = b := by
    unfold Reassembler.bufferAt
    rw [hb]
    rfl
  rw [hbuf] at hat hne
  have hb' := hat.declareEnd hend
  have hsame : b'.holes = b.holes := by rw [(ReassemblyBuffer.declareEnd_some hend).1]
  have hpos := a.frag.start_lt_stop
  -- the last byte of the fragment is there already, so the buffer need not grow
  have hmet : intersects a.frag.start (a.frag.stop - 1) a.frag.hdr.moreFragments b'.holes =
      false := by
    rw [← Bool.not_eq_true, intersects_iff hb'.proper (by omega), hsame]
    rintro ⟨x, -, hx, g, hg, h1, -⟩
    have := hbehind g hg
    omega
  have hdata : a.frag.stop ≤ b'.data.length := by
    have hnot : ¬ Missing b'.holes (a.frag.stop - 1) := by
      rw [hsame]
      rintro ⟨g, hg, h1, -⟩
      have := hbehind g hg
      omega
    have hmax := a.frag.geometry.2.1
    by_contra hshort
    refine hnot ((hb'.missing _).mpr ⟨by unfold holeOpenEnd; omega, ?_, ?_⟩)
    · intro f hf hcov
      have hreach : f.stop ≤ b'.data.length := hb'.shows.reaches f hf
      omega
    · intro f hf hff
      exact ((ReassemblyBuffer.declareEnd_some hend).2.1 _ (hat.ends f hf hff)).2
  have hstored : (r.arrive a).buffer a.frag.key
      = some (b'.absorb a.frag.hdr a.frag.pkt a.frag.payload) := by
    rw [Reassembler.arrive, Reassembler.add_eq_addTo hw.isOpen hb]
    refine Reassembler.addTo_nothing_new _ hend ?_ hdata hmet
    exact Int.le_trans (r.sweep_frame a.now).bytes hw.bytes
  have hempty : (b'.absorb a.frag.hdr a.frag.pkt a.frag.payload).holes = [] :=
    (fill_eq_nil_iff hb'.proper (hsame ▸ hne) hmet).mpr ⟨hfinal, hsame ▸ hbehind⟩
  intro hall
  exact (hat.absorb rfl hend).finished_eq_none_iff.mp (hall _ _ hstored) hempty

/--
A complete datagram is left behind exactly when a final fragment arrives that brings
nothing but the end: it is taken for a duplicate, and the completion test is not made.
-/
theorem none_left_behind_iff (limits : ReassemblyLimits) (as : List Arrival) :
    Machine.Always Reassembler.arrive NoneComplete { limits := limits } as
      ↔ Machine.Along Reassembler.arrive (fun r a => ¬ BringsOnlyTheEnd r a)
        { limits := limits } as :=
  Machine.always_iff_along (I := Sound limits)
    (fun _ a hr h hnot => ⟨hr.arrive a, noneComplete_arrive hr h hnot⟩)
    (fun _ _ hr h hlate => not_noneComplete_arrive hr h (Classical.not_not.mp hlate))
    ⟨_, Faithful.start limits⟩ (by intro k b hb; cases hb)

/--
Sixteen bytes arrive in two fragments, and then the second half once more as the final
fragment. `add` calls it a duplicate, and the buffer is complete and stays.
-/
theorem complete_datagram_left_behind :
    ((Machine.run Reassembler.arrive {} [sampleFirst 0, sampleSecond 1]).add 2
        (sampleFinal 2).frag.hdr (sampleFinal 2).frag.pkt).2.outcome = .duplicate
    ∧ ((Machine.run Reassembler.arrive {}
          [sampleFirst 0, sampleSecond 1, sampleFinal 2]).buffer (sampleHeader 0 true).key).bind
        ReassemblyBuffer.finished
      = some ((samplePacket 0 true 1).take 20, List.replicate 8 1 ++ List.replicate 8 2) := by
  decide +kernel

end GoVpn.Netstack
