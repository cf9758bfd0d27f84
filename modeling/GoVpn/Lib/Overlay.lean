import Mathlib.Data.List.Basic

/-!
# Overlapping writes to a growing buffer

A buffer that grows to the end of every write, and writes that may overlap. Where
they do, the newest wins. `Shows` says that of a buffer and the writes it has seen,
and does not mention how they were applied.
-/

namespace Overlay

variable {α β : Type}

/-- The buffer with `chunk` written at `first`; a gap before it is filled with `blank`. -/
def paste (blank : α) (buf : List α) (first : Nat) (chunk : List α) : List α :=
  let grown := buf ++ List.replicate (first + chunk.length - buf.length) blank
  grown.take first ++ chunk ++ grown.drop (first + chunk.length)

theorem length_paste (blank : α) (buf : List α) (first : Nat) (chunk : List α) :
    (paste blank buf first chunk).length = max buf.length (first + chunk.length) := by
  unfold paste
  simp only [List.length_append, List.length_take, List.length_drop, List.length_replicate]
  omega

theorem getElem?_paste_inside (blank : α) (buf : List α) {first x : Nat} {chunk : List α}
    (h : first ≤ x) (h' : x < first + chunk.length) :
    (paste blank buf first chunk)[x]? = chunk[x - first]? := by
  unfold paste
  have htake : ((buf ++ List.replicate (first + chunk.length - buf.length) blank).take first).length
      = first := by
    simp only [List.length_take, List.length_append, List.length_replicate]
    omega
  rw [List.getElem?_append_left (by rw [List.length_append, htake]; omega),
    List.getElem?_append_right (by omega), htake]

theorem getElem?_paste_outside (blank : α) (buf : List α) {first x : Nat} {chunk : List α}
    (hx : x < buf.length) (h : ¬ (first ≤ x ∧ x < first + chunk.length)) :
    (paste blank buf first chunk)[x]? = buf[x]? := by
  unfold paste
  have htake : ((buf ++ List.replicate (first + chunk.length - buf.length) blank).take first).length
      = first := by
    simp only [List.length_take, List.length_append, List.length_replicate]
    omega
  by_cases hlt : x < first
  · rw [List.append_assoc, List.getElem?_append_left (by omega), List.getElem?_take, if_pos hlt,
      List.getElem?_append_left hx]
  · rw [List.getElem?_append_right (by rw [List.length_append, htake]; omega), List.length_append,
      htake, List.getElem?_drop, Nat.add_sub_cancel' (by omega), List.getElem?_append_left hx]

theorem getElem?_paste_of_eq (blank : α) {buf chunk : List α} {first : Nat} {f : Nat → α}
    (hbuf : ∀ x < first, buf[x]? = some (f x))
    (hchunk : ∀ y < chunk.length, chunk[y]? = some (f (first + y))) :
    ∀ x < first + chunk.length, (paste blank buf first chunk)[x]? = some (f x) := by
  intro x hx
  by_cases hlt : x < first
  · obtain ⟨hlen, -⟩ := List.getElem?_eq_some_iff.mp (hbuf x hlt)
    rw [getElem?_paste_outside blank buf hlen (by omega), hbuf x hlt]
  · rw [getElem?_paste_inside blank buf (by omega) hx, hchunk _ (by omega),
      Nat.add_sub_cancel' (by omega)]

/-! ## The newest write -/

/-- The last element that satisfies `p`. -/
def newest (p : β → Bool) (ws : List β) : Option β := ws.reverse.find? p

theorem newest_snoc (p : β → Bool) (ws : List β) (w : β) :
    newest p (ws ++ [w]) = if p w then some w else newest p ws := by
  unfold newest
  rw [List.reverse_append, List.reverse_singleton, List.singleton_append, List.find?_cons]
  cases p w <;> rfl

variable {p : β → Bool} {ws : List β}

theorem newest_eq_none_iff : newest p ws = none ↔ ∀ w ∈ ws, p w = false := by
  unfold newest
  simp [List.find?_eq_none]

theorem newest_mem {w : β} (h : newest p ws = some w) : w ∈ ws ∧ p w = true :=
  ⟨List.mem_reverse.mp (List.mem_of_find?_eq_some h), List.find?_some h⟩

theorem exists_newest (h : ∃ w ∈ ws, p w = true) : ∃ w, newest p ws = some w := by
  obtain ⟨w, hw, hp⟩ := h
  cases hn : newest p ws with
  | some v => exact ⟨v, rfl⟩
  | none => exact absurd (newest_eq_none_iff.mp hn w hw) (by rw [hp]; decide)

/-! ## What a buffer shows -/

section Shows

variable (start : β → Nat) (chunk : β → List α)

/-- The write `w` reaches the offset `x`. -/
def covers (x : Nat) (w : β) : Bool := start w ≤ x && x < start w + (chunk w).length

/-- The buffer reaches the end of every write and shows the newest of them everywhere. -/
structure Shows (buf : List α) (ws : List β) : Prop where
  reaches : ∀ w ∈ ws, start w + (chunk w).length ≤ buf.length
  shows : ∀ x w, newest (covers start chunk x) ws = some w → buf[x]? = (chunk w)[x - start w]?

theorem shows_nil (buf : List α) : Shows start chunk buf [] where
  reaches := by intro w hw; cases hw
  shows := by intro x w hw; cases hw

variable {start chunk}

theorem covers_iff {x : Nat} {w : β} :
    covers start chunk x w = true ↔ start w ≤ x ∧ x < start w + (chunk w).length := by
  simp [covers]

theorem Shows.paste {buf : List α} {ws : List β} (blank : α) (h : Shows start chunk buf ws)
    (w : β) : Shows start chunk (paste blank buf (start w) (chunk w)) (ws ++ [w]) where
  reaches := by
    intro v hv
    rw [length_paste]
    rcases List.mem_append.mp hv with hv | hv
    · exact Nat.le_trans (h.reaches v hv) (Nat.le_max_left _ _)
    · obtain rfl := List.mem_singleton.mp hv
      exact Nat.le_max_right _ _
  shows := by
    intro x v hv
    rw [newest_snoc] at hv
    split at hv
    · rename_i hc
      obtain rfl := Option.some.inj hv
      have hc := covers_iff.mp hc
      exact getElem?_paste_inside blank buf hc.1 hc.2
    · rename_i hc
      have hc : ¬ (start w ≤ x ∧ x < start w + (chunk w).length) := fun h => hc (covers_iff.mpr h)
      obtain ⟨hmem, hcov⟩ := newest_mem hv
      have hx := covers_iff.mp hcov
      have hreach := h.reaches v hmem
      rw [getElem?_paste_outside blank buf (by omega) hc]
      exact h.shows x v hv

end Shows

end Overlay
