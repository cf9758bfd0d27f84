/-!
# A buffered reader

A reader holds some elements in its buffer and gets the rest in fills of any size. A read takes
from the buffer, and only where that is empty takes the next fill. What the reads return depends
on the contents alone, not on how they are cut; how many fills they need does depend on it.

On top of single reads stands reading to a mark: everything before the next `stop`, and at most so
many elements. With the mark a string that does not hold it is read back as it was written.
-/

structure BufReader (α : Type) where
  buffered : List α
  /-- What each fill of the buffer will bring. -/
  fills : List (List α) := []
  deriving DecidableEq

namespace BufReader

variable {α : Type}

/-- All there is to read. -/
def contents (r : BufReader α) : List α := r.buffered ++ r.fills.flatten

/-- A read from an empty buffer; a fill that brings nothing is followed by the next. -/
def refill : List (List α) → Option (α × BufReader α)
  | [] => none
  | [] :: fills => refill fills
  | (a :: as) :: fills => some (a, ⟨as, fills⟩)

def read (r : BufReader α) : Option (α × BufReader α) :=
  match r.buffered with
  | a :: as => some (a, ⟨as, r.fills⟩)
  | [] => refill r.fills

/-- Why reading to a mark has ended without it. -/
inductive Unmarked
  | dry | full
  deriving DecidableEq

/-- Reads to the next `stop`, with `as` read before and `n` reads to go. -/
def readTo [DecidableEq α] (stop : α) :
    Nat → List α → BufReader α → Except Unmarked (List α) × BufReader α
  | 0, _, r => (.error .full, r)
  | n + 1, as, r =>
    match r.read with
    | none => (.error .dry, r)
    | some (a, r) => if a = stop then (.ok as, r) else readTo stop n (as ++ [a]) r

/-! ## One read -/

theorem refill_eq_none {fills : List (List α)} (h : fills.flatten = []) : refill fills = none := by
  induction fills with
  | nil => rfl
  | cons fill fills ih =>
    cases fill with
    | nil => exact ih h
    | cons a as => cases h

theorem refill_of_flatten {fills : List (List α)} {a : α} {rest : List α}
    (h : fills.flatten = a :: rest) :
    ∃ r, refill fills = some (a, r) ∧ r.contents = rest ∧ r.fills.length < fills.length := by
  induction fills with
  | nil => cases h
  | cons fill fills ih =>
    cases fill with
    | nil =>
      obtain ⟨r, hread, hrest, hlt⟩ := ih h
      exact ⟨r, hread, hrest, Nat.lt_succ_of_lt hlt⟩
    | cons b as =>
      cases h
      exact ⟨⟨as, fills⟩, rfl, rfl, Nat.lt_succ_self _⟩

theorem read_eq_none {r : BufReader α} (h : r.contents = []) : r.read = none := by
  obtain ⟨buffered, fills⟩ := r
  obtain ⟨hb, hf⟩ := List.append_eq_nil_iff.mp h
  cases hb
  exact refill_eq_none hf

theorem read_of_contents {r : BufReader α} {a : α} {rest : List α} (h : r.contents = a :: rest) :
    ∃ r', r.read = some (a, r') ∧ r'.contents = rest ∧ r'.fills.length ≤ r.fills.length
      ∧ (r.buffered = [] → r'.fills.length < r.fills.length) := by
  obtain ⟨buffered, fills⟩ := r
  cases buffered with
  | nil =>
    obtain ⟨r', hread, hrest, hlt⟩ := refill_of_flatten h
    exact ⟨r', hread, hrest, Nat.le_of_lt hlt, fun _ => hlt⟩
  | cons b as =>
    cases h
    exact ⟨⟨as, fills⟩, rfl, rfl, Nat.le_refl _, fun hb => by cases hb⟩

theorem contents_of_read {r r' : BufReader α} {a : α} (h : r.read = some (a, r')) :
    r.contents = a :: r'.contents ∧ r'.fills.length ≤ r.fills.length := by
  cases hc : r.contents with
  | nil =>
    rw [read_eq_none hc] at h
    cases h
  | cons b rest =>
    obtain ⟨r₁, hread, rfl, hle, -⟩ := read_of_contents hc
    cases hread.symm.trans h
    exact ⟨rfl, hle⟩

/-! ## Reading to a mark -/

section Mark

variable [DecidableEq α] {stop : α} {n : Nat} {as s b rest : List α} {fills : List (List α)}
  {r r' : BufReader α}

theorem readTo_stop (h : r.read = some (stop, r')) : readTo stop (n + 1) as r = (.ok as, r') := by
  unfold readTo
  rw [h]
  exact if_pos rfl

theorem readTo_next {a : α} (ha : a ≠ stop) (h : r.read = some (a, r')) :
    readTo stop (n + 1) as r = readTo stop n (as ++ [a]) r' := by
  conv => lhs; unfold readTo
  rw [h]
  exact if_neg ha

theorem readTo_dry (h : r.contents = []) : readTo stop (n + 1) as r = (.error .dry, r) := by
  unfold readTo
  rw [read_eq_none h]

theorem readTo_keeps {P : BufReader α → Prop} (hread : ∀ r a r', P r → r.read = some (a, r') → P r')
    (h : P r) : P (readTo stop n as r).2 := by
  induction n generalizing as r with
  | zero => exact h
  | succ n ih =>
    unfold readTo
    split
    · exact h
    · next hr =>
        split
        · exact hread _ _ _ h hr
        · exact ih (hread _ _ _ h hr)

theorem readTo_skip (n : Nat) (hs : stop ∉ s) :
    ∀ (as : List α) {r : BufReader α}, r.contents = s ++ rest →
      ∃ r', readTo stop (s.length + n) as r = readTo stop n (as ++ s) r' ∧ r'.contents = rest := by
  induction s with
  | nil =>
    intro as r h
    exact ⟨r, by rw [List.length_nil, Nat.zero_add, List.append_nil], h⟩
  | cons a s ih =>
    intro as r h
    obtain ⟨r₁, hread, hrest, -⟩ := read_of_contents h
    obtain ⟨r', hto, hr'⟩ := ih (List.not_mem_of_not_mem_cons hs) (as ++ [a]) hrest
    refine ⟨r', ?_, hr'⟩
    rw [List.length_cons, Nat.succ_add, readTo_next (Ne.symm (List.ne_of_not_mem_cons hs)) hread,
      hto, List.append_assoc, List.singleton_append]

theorem readTo_marked (hs : stop ∉ s) (hn : s.length < n) (h : r.contents = s ++ stop :: rest) :
    ∃ r', readTo stop n [] r = (.ok s, r') ∧ r'.contents = rest := by
  obtain ⟨k, rfl⟩ := Nat.exists_eq_add_of_lt hn
  obtain ⟨r₁, hto, hrest⟩ := readTo_skip (k + 1) hs [] h
  obtain ⟨r', hread, hr', -⟩ := read_of_contents hrest
  exact ⟨r', hto.trans (readTo_stop hread), hr'⟩

theorem readTo_full (hs : stop ∉ s) (h : r.contents = s ++ rest) :
    ∃ r', readTo stop s.length [] r = (.error .full, r') ∧ r'.contents = rest :=
  readTo_skip 0 hs [] h

theorem readTo_unfinished (hs : stop ∉ r.contents) (hn : r.contents.length < n) :
    ∃ r', readTo stop n [] r = (.error .dry, r') ∧ r'.contents = [] := by
  obtain ⟨k, rfl⟩ := Nat.exists_eq_add_of_lt hn
  obtain ⟨r', hto, hrest⟩ := readTo_skip (k + 1) hs [] (List.append_nil _).symm
  exact ⟨r', hto.trans (readTo_dry hrest), hrest⟩

theorem contents_readTo_le (r : BufReader α) :
    (readTo stop n as r).2.contents.length ≤ r.contents.length :=
  readTo_keeps (P := fun x => x.contents.length ≤ r.contents.length)
    (fun _ _ _ hx hy => Nat.le_of_succ_le (by rwa [(contents_of_read hy).1] at hx)) (Nat.le_refl _)

theorem contents_readTo_lt (h : readTo stop n as r = (.ok s, r')) :
    r'.contents.length < r.contents.length := by
  cases n with
  | zero => cases h
  | succ n =>
    unfold readTo at h
    split at h
    · cases h
    · next a r₁ hread =>
        rw [(contents_of_read hread).1, List.length_cons]
        split at h
        · cases h
          exact Nat.lt_succ_self _
        · rw [← show (readTo stop n (as ++ [a]) r₁).2 = r' from congrArg Prod.snd h]
          exact Nat.lt_succ_of_le (contents_readTo_le r₁)

/-! ## Fills -/

omit [DecidableEq α] in
theorem cut_marked (hs : stop ∉ s) :
    ∀ {b : List α}, b <+: s ++ stop :: rest →
      stop ∉ b ∧ b.length ≤ s.length ∨ ∃ b', b = s ++ stop :: b' := by
  induction s with
  | nil =>
    intro b hb
    cases b with
    | nil => exact .inl ⟨List.not_mem_nil, Nat.le_refl _⟩
    | cons x b =>
      obtain ⟨rfl, -⟩ := List.cons_prefix_cons.mp hb
      exact .inr ⟨b, rfl⟩
  | cons a s ih =>
    intro b hb
    cases b with
    | nil => exact .inl ⟨List.not_mem_nil, Nat.zero_le _⟩
    | cons x b =>
      obtain ⟨rfl, hrest⟩ := List.cons_prefix_cons.mp hb
      have ha : stop ≠ x := List.ne_of_not_mem_cons hs
      rcases ih (List.not_mem_of_not_mem_cons hs) hrest with ⟨hstop, hlen⟩ | ⟨b', rfl⟩
      · exact .inl ⟨List.not_mem_cons_of_ne_of_not_mem ha hstop, Nat.succ_le_succ hlen⟩
      · exact .inr ⟨b', rfl⟩

theorem readTo_skip_buffered (n : Nat) (hs : stop ∉ s) :
    ∀ as : List α, readTo stop (s.length + n) as ⟨s ++ b, fills⟩ =
      readTo stop n (as ++ s) ⟨b, fills⟩ := by
  induction s with
  | nil =>
    intro as
    rw [List.length_nil, Nat.zero_add, List.append_nil, List.nil_append]
  | cons a s ih =>
    intro as
    rw [List.length_cons, Nat.succ_add, readTo_next (Ne.symm (List.ne_of_not_mem_cons hs)) rfl]
    refine (ih (List.not_mem_of_not_mem_cons hs) (as ++ [a])).trans ?_
    rw [List.append_assoc, List.singleton_append]

theorem readTo_buffered (hs : stop ∉ s) (hn : s.length < n) :
    readTo stop n [] ⟨s ++ stop :: rest, fills⟩ = (.ok s, ⟨rest, fills⟩) := by
  obtain ⟨k, rfl⟩ := Nat.exists_eq_add_of_lt hn
  exact (readTo_skip_buffered (k + 1) hs []).trans (readTo_stop rfl)

theorem fills_readTo_le (r : BufReader α) : (readTo stop n as r).2.fills.length ≤ r.fills.length :=
  readTo_keeps (P := fun x => x.fills.length ≤ r.fills.length)
    (fun _ _ _ hx hy => Nat.le_trans (contents_of_read hy).2 hx) (Nat.le_refl _)

theorem readTo_needs_fill (hs : stop ∉ s) (hn : s.length < n) :
    (readTo stop n [] ⟨s, fills⟩).1 = .error .dry
      ∨ (readTo stop n [] ⟨s, fills⟩).2.fills.length < fills.length := by
  obtain ⟨k, rfl⟩ := Nat.exists_eq_add_of_lt hn
  have hskip : readTo stop _ [] ⟨s ++ [], fills⟩ = _ := readTo_skip_buffered (k + 1) hs []
  rw [List.append_nil, List.nil_append] at hskip
  rw [Nat.add_assoc, hskip]
  cases hc : (⟨[], fills⟩ : BufReader α).contents with
  | nil => exact .inl (by rw [readTo_dry hc])
  | cons a rest =>
    obtain ⟨r', hread, -, -, hlt⟩ := read_of_contents hc
    by_cases ha : a = stop
    · subst ha
      exact .inr (by rw [readTo_stop hread]; exact hlt rfl)
    · rw [readTo_next ha hread]
      exact .inr (Nat.lt_of_le_of_lt (fills_readTo_le r') (hlt rfl))

end Mark

end BufReader
