/-!
# Polling loops

A table of slots, some of them ready. One turn of the loop picks a ready slot and
services it; the loop ends when none is ready. Which ready slot a turn picks is
left open.

The loop serves every slot at most once exactly when servicing a ready slot makes
it unready. A slot that servicing leaves ready forever keeps the loop from ending
at all.
-/

namespace Poll

variable {ε : Type} {ready : ε → Bool} {service : ε → ε} {pick : List ε → Option Nat}

/-- The picker finds a ready slot whenever there is one. -/
structure Picks (ready : ε → Bool) (pick : List ε → Option Nat) : Prop where
  some : ∀ {l i}, pick l = some i → ∃ e, l[i]? = some e ∧ ready e = true
  none : ∀ {l}, pick l = none → ∀ e ∈ l, ready e = false

/-- The loop, started on `l`, ends after servicing the slots `hits` in this order. -/
inductive Drains (service : ε → ε) (pick : List ε → Option Nat) : List ε → List Nat → Prop
  | stop {l : List ε} : pick l = none → Drains service pick l []
  | serve {l : List ε} {i : Nat} {hits : List Nat} :
      pick l = some i → Drains service pick (l.modify i service) hits →
      Drains service pick l (i :: hits)

variable {l : List ε}

theorem modify_other (service : ε → ε) {i j : Nat} (h : i ≠ j) :
    (l.modify i service)[j]? = l[j]? := by
  rw [List.getElem?_modify]; simp [h]

theorem modify_same {i : Nat} {e : ε} (h : l[i]? = some e) :
    (l.modify i service)[i]? = some (service e) := by
  rw [List.getElem?_modify]; simp [h]

theorem countP_modify (service : ε → ε) {i : Nat} {e : ε} (h : l[i]? = some e) (hr : ready e = true)
    (hs : ready (service e) = false) : (l.modify i service).countP ready + 1 = l.countP ready := by
  have : Inhabited ε := ⟨e⟩
  obtain ⟨hlt, he⟩ := List.getElem?_eq_some_iff.mp h
  have hpos : 0 < l.countP ready := List.countP_pos_iff.mpr ⟨e, List.mem_of_getElem? h, hr⟩
  rw [List.modify_eq_set, h, Option.getD_some, List.countP_set hlt, he, if_pos hr, hs]
  simp only [Bool.false_eq_true, if_false]
  omega

theorem Drains.unready_of_not_mem (hp : Picks ready pick) {hits : List Nat}
    (h : Drains service pick l hits) {i : Nat} (hi : i ∉ hits) {e : ε} (he : l[i]? = some e) :
    ready e = false := by
  induction h with
  | stop hn => exact hp.none hn e (List.mem_of_getElem? he)
  | serve hk _ ih =>
    simp only [List.mem_cons, not_or] at hi
    exact ih hi.2 ((modify_other service (Ne.symm hi.1)).trans he)

theorem drains_of_settles (hp : Picks ready pick) :
    ∀ {n : Nat} {l : List ε}, l.countP ready = n →
      (∀ e ∈ l, ready e = true → ready (service e) = false) →
      ∃ hits, Drains service pick l hits ∧ hits.length = n ∧ hits.Nodup
        ∧ ∀ i ∈ hits, ∃ e, l[i]? = some e ∧ ready e = true := by
  intro n
  induction n with
  | zero =>
    intro l hn _
    cases hk : pick l with
    | none => exact ⟨[], .stop hk, rfl, List.nodup_nil, by simp⟩
    | some i =>
      obtain ⟨e, he, hr⟩ := hp.some hk
      exact absurd hr (List.countP_eq_zero.mp hn e (List.mem_of_getElem? he))
  | succ n ih =>
    intro l hn hset
    cases hk : pick l with
    | none =>
      have : l.countP ready = 0 := List.countP_eq_zero.mpr fun e he => by simp [hp.none hk e he]
      omega
    | some i =>
      obtain ⟨e, he, hr⟩ := hp.some hk
      have hse := hset e (List.mem_of_getElem? he) hr
      have hn' : (l.modify i service).countP ready = n := by
        have := countP_modify service he hr hse; omega
      -- servicing settles the new table too: its only new slot is not ready
      have hset' : ∀ x ∈ l.modify i service, ready x = true → ready (service x) = false := by
        intro x hx hrx
        obtain ⟨j, hj⟩ := List.mem_iff_getElem?.mp hx
        by_cases hij : i = j
        · subst hij
          rw [modify_same he, Option.some.injEq] at hj
          rw [← hj, hse] at hrx; cases hrx
        · exact hset x (List.mem_of_getElem? ((modify_other service hij).symm.trans hj)) hrx
      obtain ⟨hits, hd, hlen, hnd, hmem⟩ := ih hn' hset'
      refine ⟨i :: hits, .serve hk hd, by simp [hlen], List.nodup_cons.mpr ⟨?_, hnd⟩, ?_⟩
      · intro hi
        obtain ⟨x, hx, hrx⟩ := hmem i hi
        rw [modify_same he, Option.some.injEq] at hx
        rw [← hx, hse] at hrx; cases hrx
      · intro j hj
        by_cases hij : i = j
        · subst hij; exact ⟨e, he, hr⟩
        · obtain ⟨x, hx, hrx⟩ := hmem j ((List.mem_cons.mp hj).resolve_left (Ne.symm hij))
          exact ⟨x, (modify_other service hij).symm.trans hx, hrx⟩

theorem Drains.settles (hp : Picks ready pick) {hits : List Nat} (h : Drains service pick l hits)
    (hnd : hits.Nodup) : ∀ e ∈ l, ready e = true → ready (service e) = false := by
  intro e he hr
  obtain ⟨i, hi⟩ := List.mem_iff_getElem?.mp he
  induction h with
  | stop hn => rw [hp.none hn e he] at hr; cases hr
  | @serve l j hits _ hd ih =>
    obtain ⟨hj, hnd'⟩ := List.nodup_cons.mp hnd
    by_cases hij : j = i
    · subst hij
      exact hd.unready_of_not_mem hp hj (modify_same hi)
    · have hi' := (modify_other service hij).trans hi
      exact ih hnd' (List.mem_of_getElem? hi') hi'

theorem drains_once_iff (service : ε → ε) (hp : Picks ready pick) (l : List ε) :
    (∃ hits, Drains service pick l hits ∧ hits.length ≤ l.length ∧ hits.Nodup)
      ↔ ∀ e ∈ l, ready e = true → ready (service e) = false := by
  constructor
  · rintro ⟨hits, hd, _, hnd⟩; exact hd.settles hp hnd
  · intro hset
    obtain ⟨hits, hd, hlen, hnd, _⟩ := drains_of_settles hp rfl hset
    exact ⟨hits, hd, hlen ▸ List.countP_le_length, hnd⟩

theorem not_drains (stuck : ε → Prop) (hp : Picks ready pick)
    (hready : ∀ e, stuck e → ready e = true) (hkeep : ∀ e, stuck e → stuck (service e))
    (hl : ∃ e ∈ l, stuck e) (hits : List Nat) : ¬ Drains service pick l hits := by
  intro h
  induction h with
  | stop hn =>
    obtain ⟨e, he, hs⟩ := hl
    exact absurd (hready e hs) (by simp [hp.none hn e he])
  | @serve l i hits hk _ ih =>
    apply ih
    obtain ⟨e, he, hs⟩ := hl
    obtain ⟨j, hj⟩ := List.mem_iff_getElem?.mp he
    by_cases hij : i = j
    · subst hij; exact ⟨_, List.mem_of_getElem? (modify_same hj), hkeep e hs⟩
    · exact ⟨e, List.mem_of_getElem? ((modify_other service hij).trans hj), hs⟩

end Poll
