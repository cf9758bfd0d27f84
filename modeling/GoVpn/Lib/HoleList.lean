import Mathlib.Tactic.SplitIfs

/-!
# Hole lists

The bookkeeping of RFC 815: what is still missing of a datagram is a list of holes,
inclusive ranges of byte offsets. An arriving range is cut out of every hole it
meets, and the last range of the datagram takes away everything behind it as well.

What a list of holes says is the set of missing offsets, `Missing`. The lemmas give
the effect of `fill` on that set, so that nobody has to look at the ranges again.
-/

namespace HoleList

/-- The offsets from `first` to `last`, both included. -/
structure Hole where
  first : Nat
  last : Nat
  deriving DecidableEq

/-- `x` has not arrived. -/
def Missing (hs : List Hole) (x : Nat) : Prop := ∃ h ∈ hs, h.first ≤ x ∧ x ≤ h.last

/-- No hole is an empty range. -/
def Proper (hs : List Hole) : Prop := ∀ h ∈ hs, h.first ≤ h.last

/-- The holes are in the order of their offsets and have none in common. -/
def Sorted (hs : List Hole) : Prop := hs.Pairwise fun g h => g.last < h.first

/-- What the range from `first` to `last` leaves of one hole, and whether it met the hole. -/
def fillOne (first last : Nat) (more : Bool) (h : Hole) : List Hole × Bool :=
  if more = false ∧ h.first > last then ([], false)
  else if last < h.first ∨ first > h.last then ([h], false)
  else
    ((if first > h.first then [{ first := h.first, last := first - 1 }] else [])
      ++ (if last < h.last ∧ more = true then [{ first := last + 1, last := h.last }] else []),
        true)

/-- The holes that are left; `more` says that the range is not the datagram's last. -/
def fill (first last : Nat) (more : Bool) (hs : List Hole) : List Hole :=
  hs.flatMap fun h => (fillOne first last more h).1

/-- The range meets a hole. -/
def intersects (first last : Nat) (more : Bool) (hs : List Hole) : Bool :=
  hs.any fun h => (fillOne first last more h).2

variable {first last : Nat} {more : Bool} {hs : List Hole}

theorem missing_cons (h : Hole) (x : Nat) :
    Missing (h :: hs) x ↔ (h.first ≤ x ∧ x ≤ h.last) ∨ Missing hs x := by
  simp [Missing]

theorem missing_append (gs : List Hole) (x : Nat) :
    Missing (gs ++ hs) x ↔ Missing gs x ∨ Missing hs x := by
  simp only [Missing, List.mem_append, or_and_right, exists_or]

theorem not_missing_nil (x : Nat) : ¬ Missing [] x := by
  rintro ⟨h, hh, -⟩
  cases hh

theorem missing_fillOne (hle : first ≤ last) (h : Hole) (x : Nat) :
    Missing (fillOne first last more h).1 x
      ↔ (h.first ≤ x ∧ x ≤ h.last) ∧ ¬ (first ≤ x ∧ x ≤ last) ∧ (more = false → x ≤ last) := by
  unfold fillOne
  split_ifs with hbehind hapart hleft hright hright
  -- the hole lies behind a last range
  · simp only [not_missing_nil, hbehind.1, false_iff, forall_const]
    omega
  -- the hole and the range have nothing in common
  · simp only [missing_cons, not_missing_nil, or_false]
    cases more <;> simp_all <;> omega
  -- the range cuts the hole: a part before it, a part behind it, or neither
  all_goals
    simp only [List.append_nil, List.nil_append, missing_append, missing_cons, not_missing_nil,
      or_false]
    cases more <;> simp_all <;> omega

theorem missing_fill (hle : first ≤ last) (x : Nat) :
    Missing (fill first last more hs) x
      ↔ Missing hs x ∧ ¬ (first ≤ x ∧ x ≤ last) ∧ (more = false → x ≤ last) := by
  induction hs with
  | nil => simp [fill, Missing]
  | cons h hs ih =>
    have hcons : fill first last more (h :: hs)
        = (fillOne first last more h).1 ++ fill first last more hs := by simp [fill]
    rw [hcons, missing_append, missing_fillOne hle, ih, missing_cons, or_and_right]

theorem proper_fillOne {h : Hole} (hp : h.first ≤ h.last) :
    Proper (fillOne first last more h).1 := by
  unfold fillOne
  intro g hg
  split_ifs at hg with hbehind hapart hleft hright hright
  · cases hg
  · obtain rfl := List.mem_singleton.mp hg
    exact hp
  all_goals
    simp only [List.append_nil, List.nil_append, List.mem_append, List.mem_singleton,
      List.not_mem_nil] at hg
  · obtain rfl | rfl := hg <;> dsimp only <;> omega
  · subst hg; dsimp only; omega
  · subst hg; dsimp only; omega

theorem proper_fill (hp : Proper hs) : Proper (fill first last more hs) := by
  intro g hg
  obtain ⟨h, hh, hg⟩ := List.mem_flatMap.mp hg
  exact proper_fillOne (hp h hh) g hg

theorem fillOne_inside {h g : Hole} (hg : g ∈ (fillOne first last more h).1) :
    h.first ≤ g.first ∧ g.last ≤ h.last := by
  unfold fillOne at hg
  split_ifs at hg with hbehind hapart hleft hright hright
  · cases hg
  · obtain rfl := List.mem_singleton.mp hg
    exact ⟨Nat.le_refl _, Nat.le_refl _⟩
  all_goals
    simp only [List.append_nil, List.nil_append, List.mem_append, List.mem_singleton,
      List.not_mem_nil] at hg
  · obtain rfl | rfl := hg <;> dsimp only <;> omega
  · subst hg; dsimp only; omega
  · subst hg; dsimp only; omega

theorem sorted_fillOne (hle : first ≤ last) (h : Hole) : Sorted (fillOne first last more h).1 := by
  unfold fillOne Sorted
  split_ifs with hbehind hapart hleft hright hright <;>
    simp only [List.Pairwise.nil, List.nil_append, List.append_nil, List.pairwise_singleton]
  -- a hole that is cut in the middle leaves two
  refine List.pairwise_pair.mpr ?_
  dsimp only
  omega

theorem sorted_fill (hle : first ≤ last) (hs' : Sorted hs) : Sorted (fill first last more hs) := by
  refine List.pairwise_flatMap.mpr ⟨fun h _ => sorted_fillOne hle h, hs'.imp ?_⟩
  intro g h hgh g' hg' h' hh'
  have h1 := fillOne_inside hg'
  have h2 := fillOne_inside hh'
  omega

theorem eq_nil_iff (hp : Proper hs) : hs = [] ↔ ∀ x, ¬ Missing hs x := by
  constructor
  · rintro rfl x
    exact not_missing_nil x
  · intro h
    cases hs with
    | nil => rfl
    | cons g gs =>
      have hg := hp g (by simp)
      exact absurd ⟨g, by simp, Nat.le_refl _, hg⟩ (h g.first)

theorem fillOne_met_iff (h : Hole) :
    (fillOne first last more h).2 = true ↔ first ≤ h.last ∧ h.first ≤ last := by
  unfold fillOne
  split_ifs <;> simp only [false_iff, true_iff] <;> omega

theorem intersects_iff (hp : Proper hs) (hle : first ≤ last) :
    intersects first last more hs = true ↔ ∃ x, first ≤ x ∧ x ≤ last ∧ Missing hs x := by
  unfold intersects
  rw [List.any_eq_true]
  constructor
  · rintro ⟨h, hh, hmet⟩
    rw [fillOne_met_iff] at hmet
    have := hp h hh
    exact ⟨max first h.first, by omega, by omega, h, hh, by omega, by omega⟩
  · rintro ⟨x, h1, h2, h, hh, h3, h4⟩
    exact ⟨h, hh, (fillOne_met_iff h).mpr ⟨by omega, by omega⟩⟩

end HoleList
