import GoVpn.Proof.FragmentRoundTrip
import GoVpn.Proof.ReasmBounds

/-!
# One datagram on its way through a busy reassembler

A reassembler that has a buffer and the bytes to spare for a datagram, and does not hold
one under the same key already, completes the datagram when the last of its fragments
arrives, in whatever order they come, if they all come before the first one's deadline.
Whatever else is in the reassembler may stay there or expire meanwhile.
-/

namespace GoVpn.Netstack

open HoleList Overlay

/-- There is room, at `now`, for a datagram of `n` bytes under `k`. -/
structure Reassembler.Room (r : Reassembler) (now : Int) (k : ReassemblyKey) (n : Nat) : Prop where
  isOpen : r.closed = false
  unused : (r.sweep now).1.buffer k = none
  buffers : (r.sweep now).1.bufs.keys.length < r.resolveLimits.maxBufs
  bytes : (r.sweep now).1.bytes + n ≤ r.resolveLimits.maxBytes

namespace Datagram

variable {mtu : Mtu} (d : Datagram mtu)

/-- A fragment of `d` arrives. -/
abbrev Piece : Type := Sent fun _ : Unit => d

theorem piece_stop_le (s : d.Piece) : s.frag.stop ≤ d.payload.length := by
  rw [s.stop_frag]
  exact d.fragStop_le s.j

/-- At `now`, a fragment of `d` goes to `b`, which has accepted `ss` and has room for the rest. -/
structure Meets (r₀ : Reassembler) (due : Int) (ss : List d.Piece) (now : Int) (r : Reassembler)
    (b : ReassemblyBuffer) : Prop where
  isOpen : r.closed = false
  limits : r.limits = r₀.limits
  adds : ∀ f : Fragment, f.key = d.key → r.add now f.hdr f.pkt
    = (r.sweep now).1.addTo r₀.resolveLimits.maxBytes (r.sweep now).2 f.hdr f.pkt b
  gathers : Gathers () b ss
  expires : b.expires = due
  size : b.data.length ≤ d.payload.length
  room : (r.sweep now).1.bytes + d.payload.length ≤ r₀.resolveLimits.maxBytes + b.data.length

/-- Between two fragments: the reassembler holds `b`, which has accepted `ss`. -/
structure Collecting (r₀ : Reassembler) (due : Int) (ss : List d.Piece) (r : Reassembler)
    (b : ReassemblyBuffer) : Prop where
  isOpen : r.closed = false
  limits : r.limits = r₀.limits
  held : r.buffer d.key = some b
  gathers : Gathers () b ss
  expires : b.expires = due
  size : b.data.length ≤ d.payload.length
  room : r.bytes + d.payload.length ≤ r₀.resolveLimits.maxBytes + b.data.length

variable {d}

theorem meets_first {r : Reassembler} {now : Int} (h : r.Room now d.key d.payload.length) :
    d.Meets r (now + r.resolveLimits.timeout) [] now r (r.fresh now) where
  isOpen := h.isOpen
  limits := rfl
  adds := by
    intro f hf
    have hnone : (r.sweep now).1.bufs.lookup f.hdr.key = none := by
      rw [show f.hdr.key = d.key from hf]
      exact h.unused
    unfold Reassembler.add
    rw [if_neg (by rw [h.isOpen]; decide)]
    dsimp only
    rw [hnone]
    rw [if_neg (Nat.not_le.mpr h.buffers)]
    rfl
  gathers := ⟨fun s hs => (List.not_mem_nil hs).elim, Holds.fresh _ _, fun t ht => by cases ht⟩
  expires := rfl
  size := Nat.zero_le _
  room := by
    have := h.bytes
    show _ ≤ _ + ((0 : Nat) : Int)
    omega

variable {ss : List d.Piece}

/-- The next fragment meets the buffer, if it comes in time. -/
theorem Collecting.meets {r₀ r : Reassembler} {due now : Int} {b : ReassemblyBuffer}
    (h : d.Collecting r₀ due ss r b) (hnow : now < due) : d.Meets r₀ due ss now r b where
  isOpen := h.isOpen
  limits := h.limits
  adds := by
    intro f hf
    have hkept : (r.sweep now).1.buffer f.key = some b := by
      rw [Reassembler.buffer_sweep, hf, h.held, Option.filter_some, h.expires]
      simp [hnow]
    rw [Reassembler.add_eq_addTo h.isOpen hkept, Reassembler.resolveLimits_congr h.limits]
  gathers := h.gathers
  expires := h.expires
  size := h.size
  room := by
    have h1 := h.room
    have h2 := (r.sweep_frame now).bytes
    omega

/--
One fragment. It completes the datagram if it is the last that was missing, and is kept
otherwise.
-/
theorem Meets.add {r₀ r : Reassembler} {due : Int} {b : ReassemblyBuffer} (s : d.Piece)
    (h : d.Meets r₀ due ss s.now r b) (hlate : ¬ AllIn () ss) :
    (AllIn () (ss ++ [s]) ∧ (r.add s.now s.frag.hdr s.frag.pkt).2.outcome = .complete
        ∧ ∃ g : d.Piece, (r.add s.now s.frag.hdr s.frag.pkt).2.datagram
            = some (rebuild g.frag.header d.payload))
      ∨ (¬ AllIn () (ss ++ [s]) ∧ (r.add s.now s.frag.hdr s.frag.pkt).2.outcome ≠ .complete
        ∧ ∃ b', d.Collecting r₀ due (ss ++ [s]) (r.add s.now s.frag.hdr s.frag.pkt).1 b') := by
  have hstop := d.piece_stop_le s
  have hsize := h.size
  have hroom := h.room
  have hadd := h.adds s.frag rfl
  have hsettled :=
    (r.sweep s.now).1.addTo_settled r₀.resolveLimits.maxBytes (r.sweep s.now).2 s.frag b
  rw [hadd]
  have hfate := hsettled.fate
  have hfits := hsettled.within (by omega)
  rcases h.gathers.fate rfl hlate hfate hfits with ⟨hall, ho, hleft⟩ | ⟨hnot, ho, hacc, b', hleft,
    hg⟩
  · refine .inl ⟨hall, ho, ?_⟩
    rw [hleft, ho] at hfate
    generalize ((r.sweep s.now).1.addTo r₀.resolveLimits.maxBytes
      (r.sweep s.now).2 s.frag.hdr s.frag.pkt
      b).2.datagram = datagram at hfate ⊢
    cases hfate with
    | complete hend hdone =>
      obtain ⟨rfl, g, -, -, rfl⟩ := (h.gathers.absorb rfl hend).finished_eq_some hdone
      exact ⟨g, rfl⟩
  · rw [hleft] at hfate
    have hlen := hfate.length_data
    rw [hacc, if_pos rfl] at hlen
    have hsweep := r.sweep_frame s.now
    have hbytes := hsettled.bytes_eq hleft
    refine .inr ⟨hnot, ho, b', ?_⟩
    exact {
      isOpen := hsettled.frame.closed.trans (hsweep.closed.trans h.isOpen)
      limits := hsettled.frame.limits.trans (hsweep.limits.trans h.limits)
      held := hleft
      gathers := hg
      expires := hfate.expires.trans h.expires
      size := by omega
      room := by omega }

/-! ## All fragments, in some order -/

variable (d)

theorem getElem_frags_inj {i j : Nat} (hi : i < d.frags.length) (hj : j < d.frags.length)
    (h : d.frags[i] = d.frags[j]) : i = j := by
  have h1 : parseIPv4 d.frags[i] = .ok (d.fragHeader i) := (d.fragment i hi).parsed
  have h2 : parseIPv4 d.frags[j] = .ok (d.fragHeader j) := (d.fragment j hj).parsed
  rw [h, h2] at h1
  have hoff : j * d.maxData = i * d.maxData := congrArg Ipv4Header.fragOffset (Except.ok.inj h1)
  exact (Nat.eq_of_mul_eq_mul_right d.maxData_pos.1 hoff).symm

/-- As long as fewer packets have arrived than there are fragments, one is missing. -/
theorem not_allIn_of_length_lt (h : ss.length < d.frags.length) : ¬ AllIn () ss := by
  intro hall
  have hsub : List.range d.frags.length ⊆ ss.map Sent.j := by
    intro j hj
    obtain ⟨s, hs, -, rfl⟩ := hall j (List.mem_range.mp hj)
    exact List.mem_map_of_mem hs
  have hle := (List.subperm_of_subset List.nodup_range hsub).length_le
  rw [List.length_range, List.length_map] at hle
  omega

/-- What arrives, when it does. -/
def arrivalsOf (ps : List d.Piece) : List (Int × Bytes) := ps.map fun s => (s.now, s.frag.pkt)

theorem exists_pieces (arrivals : List (Int × Bytes)) (h : ∀ x ∈ arrivals, x.2 ∈ d.frags) :
    ∃ ps : List d.Piece, d.arrivalsOf ps = arrivals := by
  induction arrivals with
  | nil => exact ⟨[], rfl⟩
  | cons x xs ih =>
    obtain ⟨ps, hps⟩ := ih fun y hy => h y (List.mem_cons_of_mem _ hy)
    obtain ⟨j, hj, hx⟩ := List.getElem_of_mem (h x List.mem_cons_self)
    refine ⟨{ now := x.1, i := (), j := j, lt := hj } :: ps, ?_⟩
    show (x.1, d.frags[j]) :: d.arrivalsOf ps = x :: xs
    rw [hps, hx]

theorem exists_pieces_of_perm {arrivals : List (Int × Bytes)}
    (h : (arrivals.map Prod.snd).Perm d.frags) :
    ∃ ps : List d.Piece, d.arrivalsOf ps = arrivals ∧ AllIn () ps ∧ ps.length = d.frags.length := by
  obtain ⟨ps, rfl⟩ := d.exists_pieces arrivals fun x hx => h.mem_iff.mp (List.mem_map_of_mem hx)
  refine ⟨ps, rfl, fun j hj => ?_, by simpa [arrivalsOf] using h.length_eq⟩
  have hmem : d.frags[j] ∈ (d.arrivalsOf ps).map Prod.snd := h.mem_iff.mpr (List.getElem_mem hj)
  rw [arrivalsOf, List.map_map] at hmem
  obtain ⟨s, hs, hpkt⟩ := List.mem_map.mp hmem
  exact ⟨s, hs, rfl, d.getElem_frags_inj s.lt hj hpkt⟩

end Datagram

end GoVpn.Netstack
