import Mathlib.Logic.Function.Basic
import GoVpn.Lib.Tally

/-!
# Quotas

A counter for each client says how many things the client has open, and must not pass a cap.
The place is reserved before the thing exists, and to give it back the thing's own flag is
cleared first and the counter decremented later, by whoever found the flag set. What is
reserved, to be released or to be given back is the list `todo`, in no order.

A counter is the things that have their flag, plus what is reserved, plus what is to be given
back. So it is never too low, and it is exact when there is nothing to do.
-/

namespace Quota

variable {κ σ : Type}

/-- A thing that has been counted. -/
structure Account (κ σ : Type) where
  client : κ
  state : σ
  /-- Its place has not been given back. -/
  flag : Bool

/-- What is still to be done. -/
inductive Due (κ : Type)
  /-- A place is reserved, and the thing is to be made. -/
  | enter (client : κ)
  /-- The flag of a thing is to be cleared. -/
  | release (id : Nat)
  /-- The flag has been cleared, and the counter is to be decremented. -/
  | give (id : Nat) (client : κ)

structure Book (κ σ : Type) where
  accounts : List (Account κ σ)
  counter : κ → Nat
  /-- Who has decremented a counter, in order. -/
  released : List Nat

/-! ## The list of accounts -/

/-- Whether `id` has its flag, as a number. -/
def flagAt (l : List (Account κ σ)) (id : Nat) : Nat :=
  match l[id]? with
  | some a => if a.flag then 1 else 0
  | none => 0

section Accounts

variable {l : List (Account κ σ)} {id i : Nat} {a x : Account κ σ}

theorem flagAt_of (h : l[id]? = some a) : flagAt l id = if a.flag then 1 else 0 := by
  unfold flagAt
  rw [h]

theorem flagAt_set_self (h : l[id]? = some a) : flagAt (l.set id x) id = if x.flag then 1 else 0 :=
  flagAt_of (List.getElem?_set_self (List.getElem?_eq_some_iff.mp h).1)

theorem flagAt_set_ne (h : i ≠ id) : flagAt (l.set id x) i = flagAt l i := by
  unfold flagAt
  rw [List.getElem?_set_ne (Ne.symm h)]

theorem flagAt_concat_self : flagAt (l ++ [a]) l.length = if a.flag then 1 else 0 :=
  flagAt_of (by rw [List.getElem?_append_right (Nat.le_refl _), Nat.sub_self]; rfl)

theorem flagAt_concat_ne (h : i ≠ l.length) : flagAt (l ++ [a]) i = flagAt l i := by
  unfold flagAt
  by_cases hi : i < l.length
  · rw [List.getElem?_append_left hi]
  · have hlen : (l ++ [a]).length = l.length + 1 := by simp
    rw [List.getElem?_eq_none (l := l) (by omega), List.getElem?_eq_none (by omega)]

end Accounts

variable {spent : σ → Bool}

/-- A thing keeps its flag until it is spent, and then someone is to clear it. -/
structure Settled (spent : σ → Bool) (todo : List (Due κ)) (id : Nat) (a : Account κ σ) : Prop where
  keeps : a.flag = false → spent a.state = true
  releasing : .release id ∈ todo → spent a.state = true
  due : spent a.state = true → a.flag = true → .release id ∈ todo

theorem Settled.congr {todo todo' : List (Due κ)} {id : Nat} {a : Account κ σ}
    (h : Settled spent todo id a) (hiff : .release id ∈ todo' ↔ .release id ∈ todo) :
    Settled spent todo' id a where
  keeps := h.keeps
  releasing hr := h.releasing (hiff.mp hr)
  due hs hf := hiff.mpr (h.due hs hf)

variable [DecidableEq κ] {cap : Nat} {B B' : Book κ σ}

/-- One step takes `done` off what is to be done and adds `more`. -/
inductive Effect (spent : σ → Bool) (cap : Nat) (B : Book κ σ) :
    List (Due κ) → Book κ σ → List (Due κ) → Prop
  | idle : Effect spent cap B [] B []
  | reserve {k : κ} (h : B.counter k < cap) :
      Effect spent cap B [] { B with counter := Function.update B.counter k (B.counter k + 1) }
      [.enter k]
  | enter {k : κ} {s : σ} (h : spent s = false) :
      Effect spent cap B [.enter k] { B with accounts := B.accounts ++ [⟨k, s, true⟩] } []
  | act {id : Nat} {a : Account κ σ} {s : σ} {more : List (Due κ)} (ha : B.accounts[id]? = some a)
      (hmono : spent a.state = true → spent s = true)
      (hmore : ∀ x ∈ more, x = .release id ∧ spent s = true)
      (hnew : spent a.state = false → spent s = true → .release id ∈ more) :
      Effect spent cap B [] { B with accounts := B.accounts.set id { a with state := s } } more
  | release {id : Nat} {a : Account κ σ} (ha : B.accounts[id]? = some a) :
      Effect spent cap B [.release id]
        { B with accounts := B.accounts.set id { a with flag := false } }
        (if a.flag then [.give id a.client] else [])
  | missing {id : Nat} (ha : B.accounts[id]? = none) : Effect spent cap B [.release id] B []
  | give {id : Nat} {k : κ} :
      Effect spent cap B [.give id k]
        { B with counter := Function.update B.counter k (B.counter k - 1)
                 released := B.released ++ [id] } []

/-! ## What the counter counts -/

/-- The place an account takes with `k`. -/
def holds (k : κ) (a : Account κ σ) : Nat := if a.client = k ∧ a.flag = true then 1 else 0

/-- The place something still to be done takes with `k`. -/
def owes (k : κ) : Due κ → Nat
  | .enter k' => if k' = k then 1 else 0
  | .release _ => 0
  | .give _ k' => if k' = k then 1 else 0

/-- The decrements that `id` has under way. -/
def gives (id : Nat) : Due κ → Nat
  | .give id' _ => if id' = id then 1 else 0
  | _ => 0

structure Kept (spent : σ → Bool) (cap : Nat) (B : Book κ σ) (todo : List (Due κ)) : Prop where
  counter : ∀ k, B.counter k = tally (holds k) B.accounts + tally (owes k) todo
  capped : ∀ k, B.counter k ≤ cap
  settled : ∀ id a, B.accounts[id]? = some a → Settled spent todo id a
  known : ∀ id, .release id ∈ todo → id < B.accounts.length
  once : ∀ id, B.released.count id + tally (gives id) todo + flagAt B.accounts id
    = if id < B.accounts.length then 1 else 0

theorem Kept.perm {l l' : List (Due κ)} (hp : l.Perm l') (h : Kept spent cap B l) :
    Kept spent cap B l' where
  counter k := by rw [← Tally.tally_perm _ hp]; exact h.counter k
  capped := h.capped
  settled id a ha := (h.settled id a ha).congr hp.symm.mem_iff
  known id hid := h.known id (hp.mem_iff.mpr hid)
  once id := by rw [← Tally.tally_perm _ hp]; exact h.once id

/-! ## Each step keeps the counter -/

section Steps

variable {l : List (Due κ)}

theorem Kept.reserve {k : κ} (h : Kept spent cap B l) (hroom : B.counter k < cap) :
    Kept spent cap { B with counter := Function.update B.counter k (B.counter k + 1) }
      (.enter k :: l) where
  counter k' := by
    have hk := h.counter k'
    by_cases he : k' = k
    · subst he
      simp [owes]
      omega
    · simp [owes, Function.update_of_ne he, Ne.symm he]
      omega
  capped k' := by
    by_cases he : k' = k
    · subst he
      simp
      omega
    · simpa [Function.update_of_ne he] using h.capped k'
  settled id a ha := (h.settled id a ha).congr (by simp)
  known id hid := h.known id (by simpa using hid)
  once id := by simpa [gives] using h.once id

theorem Kept.enter {k : κ} {s : σ} (h : Kept spent cap B (.enter k :: l)) (hs : spent s = false) :
    Kept spent cap { B with accounts := B.accounts ++ [⟨k, s, true⟩] } l where
  counter k' := by
    have hk := h.counter k'
    simp [owes] at hk
    simp [holds]
    omega
  capped := h.capped
  settled id a ha := by
    rcases Tally.getElem?_concat_cases ha with ⟨rfl, rfl⟩ | ha
    · refine ⟨fun hf => (by cases hf), fun hr => ?_, fun hs' => (by cases hs.symm.trans hs')⟩
      exact absurd (h.known _ (List.mem_cons_of_mem _ hr)) (Nat.lt_irrefl _)
    · exact (h.settled id a ha).congr (by simp)
  known id hid := by
    have := h.known id (List.mem_cons_of_mem _ hid)
    simp
    omega
  once id := by
    have hid := h.once id
    simp only [Tally.tally_cons, gives, Nat.zero_add] at hid
    by_cases he : id = B.accounts.length
    · subst he
      rw [flagAt_concat_self]
      simp at hid ⊢
      omega
    · rw [flagAt_concat_ne he, hid, List.length_append, List.length_singleton]
      exact if_congr (by omega) rfl rfl

theorem Kept.act {id : Nat} {a : Account κ σ} {s : σ} {more : List (Due κ)} (h : Kept spent cap B l)
    (ha : B.accounts[id]? = some a) (hmono : spent a.state = true → spent s = true)
    (hmore : ∀ x ∈ more, x = .release id ∧ spent s = true)
    (hnew : spent a.state = false → spent s = true → .release id ∈ more) :
    Kept spent cap { B with accounts := B.accounts.set id { a with state := s } } (more ++ l) := by
  have howes : ∀ k, tally (owes k) more = 0 := fun k =>
    Tally.tally_eq_zero fun x hx => by rw [(hmore x hx).1]; rfl
  have hgives : ∀ i, tally (gives i) more = 0 := fun i =>
    Tally.tally_eq_zero fun x hx => by rw [(hmore x hx).1]; rfl
  have hlt : id < B.accounts.length := (List.getElem?_eq_some_iff.mp ha).1
  refine ⟨fun k => ?_, h.capped, fun i x hx => ?_, fun i hi => ?_, fun i => ?_⟩
  · have hset := Tally.tally_set (holds k) (y := { a with state := s }) ha
    have hsame : holds k { a with state := s } = holds k a := rfl
    have hk := h.counter k
    rw [Tally.tally_append, howes k]
    show B.counter k = tally (holds k) (B.accounts.set id { a with state := s }) + _
    omega
  · have hold := h.settled
    rcases Tally.getElem?_set_cases hx with ⟨rfl, rfl⟩ | ⟨hne, hx⟩
    · refine ⟨fun hf => hmono ((hold i a ha).keeps hf), fun hr => ?_, fun hs' hf => ?_⟩
      · rcases List.mem_append.mp hr with hr | hr
        · exact (hmore _ hr).2
        · exact hmono ((hold i a ha).releasing hr)
      · cases hsp : spent a.state with
        | false => exact List.mem_append_left _ (hnew hsp hs')
        | true => exact List.mem_append_right _ ((hold i a ha).due hsp hf)
    · refine (hold i x hx).congr ⟨fun hr => ?_, List.mem_append_right _⟩
      rcases List.mem_append.mp hr with hr | hr
      · exact absurd (Due.release.inj (hmore _ hr).1) hne
      · exact hr
  · rw [List.length_set]
    rcases List.mem_append.mp hi with hi | hi
    · rw [Due.release.inj (hmore _ hi).1]
      exact hlt
    · exact h.known i hi
  · have hi := h.once i
    rw [Tally.tally_append, hgives i, Nat.zero_add, List.length_set]
    by_cases he : i = id
    · subst he
      rw [flagAt_set_self ha]
      rwa [flagAt_of ha] at hi
    · rwa [flagAt_set_ne he]

theorem Kept.release {id : Nat} {a : Account κ σ} (h : Kept spent cap B (.release id :: l))
    (ha : B.accounts[id]? = some a) :
    Kept spent cap { B with accounts := B.accounts.set id { a with flag := false } }
      ((if a.flag then [.give id a.client] else []) ++ l) := by
  have hmem : ∀ i, Due.release i ∈ (if a.flag then [Due.give id a.client] else []) ++ l ↔
      .release i ∈ l := by
    intro i
    cases a.flag <;> simp
  have hold := h.settled
  refine ⟨fun k => ?_, h.capped, fun i x hx => ?_, fun i hi => ?_, fun i => ?_⟩
  · -- the place moves from the flag to what is to be given back
    have hset := Tally.tally_set (holds k) (y := { a with flag := false }) ha
    have hk := h.counter k
    have hzero : holds k { a with flag := false } = 0 := by simp [holds]
    have hplace : holds k a = tally (owes k) (if a.flag then [.give id a.client] else []) := by
      cases hf : a.flag <;> simp [holds, owes, hf]
    simp only [Tally.tally_cons, owes, Nat.zero_add] at hk
    rw [Tally.tally_append]
    show B.counter k = tally (holds k) (B.accounts.set id { a with flag := false }) + _
    omega
  · rcases Tally.getElem?_set_cases hx with ⟨rfl, rfl⟩ | ⟨hne, hx⟩
    · have hsp := (hold i a ha).releasing List.mem_cons_self
      exact ⟨fun _ => hsp, fun _ => hsp, fun _ hf => (by cases hf)⟩
    · refine (hold i x hx).congr ((hmem i).trans ⟨List.mem_cons_of_mem _, fun hr => ?_⟩)
      rcases List.mem_cons.mp hr with he | hr
      · exact absurd (Due.release.inj he) hne
      · exact hr
  · rw [List.length_set]
    exact h.known i (List.mem_cons_of_mem _ ((hmem i).mp hi))
  · have hi := h.once i
    rw [List.length_set, Tally.tally_append]
    by_cases he : i = id
    · subst he
      rw [flagAt_set_self ha]
      rw [flagAt_of ha] at hi
      cases hf : a.flag <;> simp [hf, gives] at hi ⊢ <;> omega
    · rw [flagAt_set_ne he, ← hi]
      cases a.flag <;> simp [gives, Ne.symm he]

theorem Kept.missing {id : Nat} (h : Kept spent cap B (.release id :: l))
    (ha : B.accounts[id]? = none) : Kept spent cap B l := by
  have hlt := h.known id List.mem_cons_self
  rw [List.getElem?_eq_getElem hlt] at ha
  cases ha

theorem Kept.give {id : Nat} {k : κ} (h : Kept spent cap B (.give id k :: l)) :
    Kept spent cap { B with counter := Function.update B.counter k (B.counter k - 1)
                            released := B.released ++ [id] } l where
  counter k' := by
    have hk := h.counter k'
    by_cases he : k' = k
    · subst he
      simp [owes] at hk ⊢
      omega
    · simp [owes, Function.update_of_ne he, Ne.symm he] at hk ⊢
      exact hk
  capped k' := by
    have hk := h.capped k'
    by_cases he : k' = k
    · subst he
      simp
      omega
    · simpa [Function.update_of_ne he] using hk
  settled id' a ha := (h.settled id' a ha).congr (by simp)
  known id' hid := h.known id' (List.mem_cons_of_mem _ hid)
  once id' := by
    have hid := h.once id'
    simp only [Tally.tally_cons, gives] at hid
    rw [List.count_append, ← hid, List.count_singleton]
    simp only [beq_iff_eq]
    omega

end Steps

/-- **The rule for quotas.** Every step keeps the counters right. -/
theorem Effect.kept {done more l : List (Due κ)} (he : Effect spent cap B done B' more)
    (h : Kept spent cap B (done ++ l)) : Kept spent cap B' (more ++ l) := by
  cases he with
  | idle => exact h
  | reserve hroom => exact h.reserve hroom
  | enter hs => exact h.enter hs
  | act ha hmono hmore hnew => exact Kept.act h ha hmono hmore hnew
  | release ha => exact Kept.release h ha
  | missing ha => exact Kept.missing h ha
  | give => exact Kept.give h

/-! ## What the counter says -/

/-- A thing of the client that is not spent. -/
def isOpen (spent : σ → Bool) (k : κ) (a : Account κ σ) : Bool :=
  decide (a.client = k) && !spent a.state

theorem countP_isOpen (l : List (Account κ σ)) (k : κ) :
    l.countP (isOpen spent k) = tally (fun a => if isOpen spent k a then 1 else 0) l :=
  (Tally.tally_indicator _ l).symm

section Counts

variable {todo : List (Due κ)}

theorem Kept.open_le (h : Kept spent cap B todo) (k : κ) :
    B.accounts.countP (isOpen spent k) ≤ B.counter k := by
  have hle : B.accounts.countP (isOpen spent k) ≤ tally (holds k) B.accounts := by
    rw [countP_isOpen]
    refine Tally.tally_mono fun a ha => ?_
    obtain ⟨id, hid⟩ := List.mem_iff_getElem?.mp ha
    have hkeeps := (h.settled id a hid).keeps
    unfold isOpen holds
    cases hf : a.flag with
    | true => by_cases hk : a.client = k <;> cases spent a.state <;> simp [hk]
    | false => simp [hkeeps hf]
  have hk := h.counter k
  omega

theorem Kept.counter_eq (h : Kept spent cap B []) (k : κ) :
    B.counter k = B.accounts.countP (isOpen spent k) := by
  refine Nat.le_antisymm ?_ (h.open_le k)
  rw [h.counter k, Tally.tally_nil, Nat.add_zero, countP_isOpen]
  refine Tally.tally_mono fun a ha => ?_
  obtain ⟨id, hid⟩ := List.mem_iff_getElem?.mp ha
  have hdue := (h.settled id a hid).due
  unfold isOpen holds
  cases hs : spent a.state with
  | false => by_cases hk : a.client = k <;> cases a.flag <;> simp [hk]
  | true =>
    cases hf : a.flag with
    | true => cases hdue hs hf
    | false => simp

theorem Kept.released_once (h : Kept spent cap B todo) (id : Nat) : B.released.count id ≤ 1 := by
  have hid := h.once id
  split at hid <;> omega

end Counts

end Quota
