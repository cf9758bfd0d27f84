import GoVpn.Lib.Serial

/-!
# Sliding-window streams

One direction of a reliable stream over a network that loses, delays and reorders. The sender
numbers its messages modulo `2 ^ w` and keeps at most the last `s` of them until they are
acknowledged. The receiver holds at most `r` messages that arrived early.

A number alone says which message is meant as long as everything that can still arrive is
close to the present, and that is the invariant: a message is on its way at most once and only
until it is taken, an acknowledgement at most once and only while its message is in the
sender's window. How many copies are on their way is a count, so that "nothing new appears" is
an inequality.
-/

namespace SlidingWindow

/-- One direction of a stream. -/
structure Link (w : Nat) (α : Type) where
  /-- The messages sent, in order. -/
  log : List α
  /-- The messages given up by the receiver, in order. -/
  out : List α
  /-- The numbers the sender holds as unacknowledged. -/
  window : BitVec w → Prop
  /-- The messages the receiver holds. -/
  held : BitVec w × α → Nat
  /-- The messages on their way. -/
  flight : BitVec w × α → Nat
  /-- The acknowledgements on their way. -/
  acks : BitVec w → Nat

variable {w s r : Nat} {α : Type}

/-- What can happen on a link with a window of `s` and room for `r`. -/
inductive Step [DecidableEq α] (s r : Nat) : Link w α → Link w α → Prop
  /-- Messages and acknowledgements move on or get lost. -/
  | quiet {l l' : Link w α} (hlog : l'.log = l.log) (hout : l'.out = l.out)
      (hwin : ∀ id, l'.window id ↔ l.window id) (hheld : ∀ x, l'.held x = l.held x)
      (hfl : ∀ x, l'.flight x ≤ l.flight x) (hack : ∀ id, l'.acks id ≤ l.acks id) :
      Step s r l l'
  /-- A message is numbered and sent, all unacknowledged ones being less than `s` behind it. -/
  | send {l l' : Link w α} (a : α)
      (hnear : ∀ id, l.window id → (BitVec.ofNat w l.log.length - id).toNat < s)
      (hlog : l'.log = l.log ++ [a]) (hout : l'.out = l.out)
      (hwin : ∀ id, l'.window id ↔ l.window id ∨ id = BitVec.ofNat w l.log.length)
      (hheld : ∀ x, l'.held x = l.held x)
      (hfl : ∀ x, l'.flight x
        ≤ l.flight x + if x = (BitVec.ofNat w l.log.length, a) then 1 else 0)
      (hack : ∀ id, l'.acks id ≤ l.acks id) : Step s r l l'
  /-- A message on its way is taken, and an acknowledgement of it sets out. -/
  | accept {l l' : Link w α} (x : BitVec w × α)
      (hroom : ∃ ids : List (BitVec w), ids.length ≤ r ∧ ∀ y, 0 < l'.held y → y.1 ∈ ids)
      (hlog : l'.log = l.log) (hout : l'.out = l.out) (hwin : ∀ id, l'.window id ↔ l.window id)
      (hheld : ∀ y, l'.held y = l.held y + if y = x then 1 else 0)
      (hfl : ∀ y, l'.flight y + (if y = x then 1 else 0) ≤ l.flight y)
      (hack : ∀ id, l'.acks id ≤ l.acks id + if id = x.1 then 1 else 0) : Step s r l l'
  /-- The receiver gives up the next message in order. -/
  | consume {l l' : Link w α} (a : α) (hlog : l'.log = l.log) (hout : l'.out = l.out ++ [a])
      (hwin : ∀ id, l'.window id ↔ l.window id)
      (hheld : ∀ y, l'.held y + (if y = (BitVec.ofNat w l.out.length, a) then 1 else 0)
        = l.held y)
      (hfl : ∀ x, l'.flight x ≤ l.flight x) (hack : ∀ id, l'.acks id ≤ l.acks id) : Step s r l l'
  /-- Acknowledgements arrive. -/
  | acked {l l' : Link w α} (ids : List (BitVec w)) (hlog : l'.log = l.log)
      (hout : l'.out = l.out) (hwin : ∀ id, l'.window id ↔ l.window id ∧ id ∉ ids)
      (hheld : ∀ x, l'.held x = l.held x) (hfl : ∀ x, l'.flight x ≤ l.flight x)
      (hack : ∀ id, l'.acks id + ids.count id ≤ l.acks id) : Step s r l l'

theorem Step.same [DecidableEq α] (l : Link w α) : Step s r l l :=
  .quiet rfl rfl (fun _ => Iff.rfl) (fun _ => rfl) (fun _ => Nat.le_refl _) fun _ => Nat.le_refl _

/-- The message number `n` was taken by the receiver. -/
def Link.Taken (l : Link w α) (n : Nat) : Prop :=
  n < l.out.length ∨ ∃ a, 0 < l.held (BitVec.ofNat w n, a)

/-- The number stands for one of the last `s` messages. -/
def Link.Recent (l : Link w α) (s : Nat) (id : BitVec w) (n : Nat) : Prop :=
  n < l.log.length ∧ l.log.length ≤ n + s ∧ id = BitVec.ofNat w n

structure Inv (s r : Nat) (l : Link w α) : Prop where
  delivered : l.out <+: l.log
  near : l.log.length ≤ l.out.length + s + r
  window : ∀ id, l.window id → ∃ n, l.Recent s id n
  room : ∃ ids : List (BitVec w), ids.length ≤ r ∧ ∀ x, 0 < l.held x → x.1 ∈ ids
  /-- Every message not given up yet is still with the sender or already with the receiver. -/
  covered : ∀ n, l.out.length ≤ n → n < l.log.length →
    l.window (BitVec.ofNat w n) ∨ ∃ a, 0 < l.held (BitVec.ofNat w n, a)
  /-- What is on its way or held is a message of the log not given up yet. -/
  known : ∀ x, 0 < l.flight x + l.held x →
    ∃ n, l.out.length ≤ n ∧ l.log[n]? = some x.2 ∧ x.1 = BitVec.ofNat w n
  once : ∀ x, l.flight x + l.held x ≤ 1
  /-- What is acknowledged is still in the window, and was taken. -/
  acked : ∀ id, 0 < l.acks id → l.window id ∧ ∃ n, l.Recent s id n ∧ l.Taken n
  ackedOnce : ∀ id, l.acks id ≤ 1

variable {l l' : Link w α}

/-- The link on which nothing has happened. -/
theorem inv_start (hlog : l.log = []) (hout : l.out = []) (hwin : ∀ id, ¬ l.window id)
    (hheld : ∀ x, l.held x = 0) (hfl : ∀ x, l.flight x = 0) (hack : ∀ id, l.acks id = 0) :
    Inv s r l where
  delivered := by rw [hout]; exact List.nil_prefix
  near := by simp [hlog]
  window id hid := absurd hid (hwin id)
  room := ⟨[], Nat.zero_le _, fun x hx => absurd hx (by simp [hheld])⟩
  covered n _ hn := absurd hn (by simp [hlog])
  known x hx := absurd hx (by simp [hfl, hheld])
  once x := by simp [hfl, hheld]
  acked id hid := absurd hid (by simp [hack])
  ackedOnce id := by simp [hack]

section

variable (h : Inv s r l)

include h

theorem Inv.out_le : l.out.length ≤ l.log.length :=
  h.delivered.length_le

/-- Near the end of the log a number determines its message. -/
theorem Inv.eq_of_number (hw : s + r < 2 ^ w) {m n : Nat} (hm : m < l.log.length)
    (hm' : l.log.length ≤ m + s ∨ l.out.length ≤ m) (hn : n < l.log.length)
    (hn' : l.log.length ≤ n + s ∨ l.out.length ≤ n) (he : BitVec.ofNat w m = BitVec.ofNat w n) :
    m = n := by
  have := h.near
  exact Serial.eq_of_ofNat_eq he (by omega) (by omega)

variable {x : BitVec w × α}

/-- A message on its way is not held, under any content. -/
theorem Inv.not_held (hw : s + r < 2 ^ w) (hx : 0 < l.flight x) (a : α) : l.held (x.1, a) = 0 := by
  apply Classical.byContradiction
  intro hne
  obtain ⟨n, hn, hlog, hid⟩ := h.known x (by omega)
  obtain ⟨m, hm, hlog', hid'⟩ := h.known (x.1, a) (by omega)
  have hmn : m = n :=
    h.eq_of_number hw (List.getElem?_eq_some_iff.mp hlog').1 (.inr hm)
      (List.getElem?_eq_some_iff.mp hlog).1 (.inr hn) (hid'.symm.trans hid)
  subst hmn
  have ha : x.2 = a := Option.some.inj (hlog.symm.trans hlog')
  have := h.once x
  rw [show (x.1, a) = x by rw [← ha]] at hne
  omega

theorem Inv.flight_lt (hx : 0 < l.flight x) :
    ∃ n, l.out.length ≤ n ∧ n < l.log.length ∧ l.log[n]? = some x.2 ∧ x.1 = BitVec.ofNat w n := by
  obtain ⟨n, hn, hlog, hid⟩ := h.known x (by omega)
  exact ⟨n, hn, (List.getElem?_eq_some_iff.mp hlog).1, hlog, hid⟩

/-- A message on its way is still in the sender's window, and not acknowledged. -/
theorem Inv.flight_window (hw : s + r < 2 ^ w) (hx : 0 < l.flight x) :
    l.window x.1 ∧ l.acks x.1 = 0 := by
  obtain ⟨n, hn, hlt, _, hid⟩ := h.flight_lt hx
  refine ⟨?_, ?_⟩
  · rcases h.covered n hn hlt with hwin | ⟨a, ha⟩
    · rw [hid]; exact hwin
    · rw [← hid, h.not_held hw hx a] at ha; cases ha
  · apply Classical.byContradiction
    intro hne
    obtain ⟨_, m, ⟨hm, hm', hmid⟩, htaken⟩ := h.acked x.1 (by omega)
    obtain rfl : m = n := h.eq_of_number hw hm (.inl hm') hlt (.inr hn) (hmid.symm.trans hid)
    rcases htaken with hlt' | ⟨a, ha⟩
    · omega
    · rw [← hid, h.not_held hw hx a] at ha; cases ha

/-! ## The steps keep the invariant -/

theorem Inv.recent (hlog : l'.log = l.log) {id : BitVec w} (hid : l.window id) :
    ∃ n, l'.Recent s id n := by
  obtain ⟨n, hn⟩ := h.window id hid
  exact ⟨n, by rw [Link.Recent, hlog]; exact hn⟩

theorem Inv.acknowledged (hw : s + r < 2 ^ w) (ids : List (BitVec w)) (hlog : l'.log = l.log)
    (hout : l'.out = l.out) (hwin : ∀ id, l'.window id ↔ l.window id ∧ id ∉ ids)
    (hheld : ∀ x, l'.held x = l.held x) (hfl : ∀ x, l'.flight x ≤ l.flight x)
    (hack : ∀ id, l'.acks id + ids.count id ≤ l.acks id) : Inv s r l' where
  delivered := by rw [hlog, hout]; exact h.delivered
  near := by rw [hlog, hout]; exact h.near
  window id hid := h.recent hlog ((hwin id).mp hid).1
  room := by
    obtain ⟨ids, hlen, hmem⟩ := h.room
    exact ⟨ids, hlen, fun x hx => hmem x (by rwa [hheld] at hx)⟩
  covered n hn hlt := by
    rw [hout] at hn; rw [hlog] at hlt
    simp only [hwin, hheld]
    by_cases hmem : BitVec.ofNat w n ∈ ids
    · -- an acknowledged message was taken
      have := hack (BitVec.ofNat w n)
      have := List.count_pos_iff.mpr hmem
      obtain ⟨_, m, hrec, htaken⟩ := h.acked (BitVec.ofNat w n) (by omega)
      obtain rfl : m = n :=
        h.eq_of_number hw hrec.1 (.inl hrec.2.1) hlt (.inr hn) hrec.2.2.symm
      rcases htaken with ht | ht
      · omega
      · exact .inr ht
    · rcases h.covered n hn hlt with hc | hc
      · exact .inl ⟨hc, hmem⟩
      · exact .inr hc
  known x hx := by
    rw [hout, hlog]; exact h.known x (by have := hfl x; rw [hheld] at hx; omega)
  once x := by have := hfl x; have := h.once x; rw [hheld]; omega
  acked id hid := by
    have hle := hack id
    obtain ⟨hw', n, hrec, htaken⟩ := h.acked id (by omega)
    have hmem : id ∉ ids := fun hm => by
      have := List.count_pos_iff.mpr hm
      have := h.ackedOnce id
      omega
    refine ⟨(hwin id).mpr ⟨hw', hmem⟩, n, by rw [Link.Recent, hlog]; exact hrec, ?_⟩
    simp only [Link.Taken, hout, hheld]; exact htaken
  ackedOnce id := by have := hack id; have := h.ackedOnce id; omega

end

theorem le_length_of_numbers {ids : List (BitVec w)} {f m : Nat} (hm : m ≤ 2 ^ w)
    (h : ∀ n, f ≤ n → n < f + m → BitVec.ofNat w n ∈ ids) : m ≤ ids.length := by
  have hnd : ((List.range m).map fun k => BitVec.ofNat w (f + k)).Nodup := by
    refine List.pairwise_map.mpr (List.Pairwise.imp_of_mem ?_ List.pairwise_lt_range)
    intro x y hx hy hlt he
    rw [List.mem_range] at hx hy
    have := Serial.eq_of_ofNat_eq he (by omega) (by omega)
    omega
  have hsub : ((List.range m).map fun k => BitVec.ofNat w (f + k)) ⊆ ids := by
    intro id hid
    obtain ⟨k, hk, rfl⟩ := List.mem_map.mp hid
    exact h (f + k) (by omega) (by have := List.mem_range.mp hk; omega)
  simpa using hnd.length_le_of_subset hsub

variable [DecidableEq α]

theorem Inv.send (h : Inv s r l) (hs : 0 < s) (hw : s + r < 2 ^ w) (a : α)
    (hnear : ∀ id, l.window id → (BitVec.ofNat w l.log.length - id).toNat < s)
    (hlog : l'.log = l.log ++ [a]) (hout : l'.out = l.out)
    (hwin : ∀ id, l'.window id ↔ l.window id ∨ id = BitVec.ofNat w l.log.length)
    (hheld : ∀ x, l'.held x = l.held x) (hfl : ∀ x, l'.flight x
      ≤ l.flight x + if x = (BitVec.ofNat w l.log.length, a) then 1 else 0)
    (hack : ∀ id, l'.acks id ≤ l.acks id) : Inv s r l' := by
  have hlen : l'.log.length = l.log.length + 1 := by rw [hlog]; simp
  -- what the window holds is one closer to its end
  have hrecent : ∀ id n, l.window id → l.Recent s id n → l'.Recent s id n := by
    intro id n hid hn
    have hd := hnear id hid
    rw [hn.2.2, Serial.toNat_ofNat_sub_ofNat (Nat.le_of_lt hn.1) (by have := hn.2.1; omega)] at hd
    exact ⟨by have := hn.1; omega, by omega, hn.2.2⟩
  have hold : ∀ (n : Nat) (b : α), l.log[n]? = some b → l'.log[n]? = some b := by
    intro n b hn
    rw [hlog, List.getElem?_append_left (List.getElem?_eq_some_iff.mp hn).1]; exact hn
  -- the new number is nobody else's
  have hfresh : l.flight (BitVec.ofNat w l.log.length, a)
      + l.held (BitVec.ofNat w l.log.length, a) = 0 := by
    apply Classical.byContradiction
    intro hne
    obtain ⟨n, hn, hn', hid⟩ := h.known _ (Nat.pos_of_ne_zero hne)
    have hlt := (List.getElem?_eq_some_iff.mp hn').1
    have := h.near
    have := Serial.eq_of_ofNat_eq hid (by omega) (by omega)
    omega
  exact {
    delivered := by rw [hlog, hout]; exact h.delivered.trans (List.prefix_append _ _)
    near := by
      -- all but the last `s` messages are held, and there is room for `r`
      obtain ⟨ids, hle, hmem⟩ := h.room
      have hnear' := h.near
      have : l.log.length + 1 - s - l.out.length ≤ ids.length := by
        refine le_length_of_numbers (by omega) (f := l.out.length) ?_
        intro n hn hlt
        rcases h.covered n hn (by omega) with hwin' | ⟨b, hb⟩
        · obtain ⟨m, hm⟩ := h.window _ hwin'
          have hm' := hrecent _ m hwin' hm
          have := h.eq_of_number hw hm.1 (.inl hm.2.1) (by omega) (.inr hn) hm.2.2.symm
          have := hm'.2.1
          omega
        · exact hmem _ hb
      rw [hlen, hout]; omega
    window := by
      intro id hid
      rcases (hwin id).mp hid with hold' | rfl
      · obtain ⟨n, hn⟩ := h.window id hold'; exact ⟨n, hrecent id n hold' hn⟩
      · exact ⟨l.log.length, by omega, by omega, rfl⟩
    room := by
      obtain ⟨ids, hle, hmem⟩ := h.room
      exact ⟨ids, hle, fun x hx => hmem x (by rwa [hheld] at hx)⟩
    covered := by
      intro n hn hlt
      rw [hout] at hn
      simp only [hwin, hheld]
      by_cases hnew : n = l.log.length
      · exact .inl (.inr (by rw [hnew]))
      · rcases h.covered n hn (by omega) with hc | hc
        · exact .inl (.inl hc)
        · exact .inr hc
    known := by
      intro x hx
      by_cases hnew : x = (BitVec.ofNat w l.log.length, a)
      · subst hnew
        exact ⟨l.log.length, by rw [hout]; exact h.out_le, by rw [hlog]; simp, rfl⟩
      · have hf := hfl x
        rw [if_neg hnew] at hf
        obtain ⟨n, hn, hn', hid⟩ := h.known x (by rw [hheld] at hx; omega)
        exact ⟨n, by rw [hout]; exact hn, hold n _ hn', hid⟩
    once := by
      intro x
      have hf := hfl x
      rw [hheld]
      by_cases hnew : x = (BitVec.ofNat w l.log.length, a)
      · rw [if_pos hnew] at hf; subst hnew; omega
      · rw [if_neg hnew] at hf; have := h.once x; omega
    acked := by
      intro id hid
      obtain ⟨hwin', n, hrec, htaken⟩ := h.acked id (by have := hack id; omega)
      refine ⟨(hwin id).mpr (.inl hwin'), n, hrecent id n hwin' hrec, ?_⟩
      simp only [Link.Taken, hout, hheld]; exact htaken
    ackedOnce := by intro id; have := hack id; have := h.ackedOnce id; omega }

theorem Inv.accept (h : Inv s r l) (hw : s + r < 2 ^ w) (x : BitVec w × α)
    (hroom : ∃ ids : List (BitVec w), ids.length ≤ r ∧ ∀ y, 0 < l'.held y → y.1 ∈ ids)
    (hlog : l'.log = l.log) (hout : l'.out = l.out) (hwin : ∀ id, l'.window id ↔ l.window id)
    (hheld : ∀ y, l'.held y = l.held y + if y = x then 1 else 0)
    (hfl : ∀ y, l'.flight y + (if y = x then 1 else 0) ≤ l.flight y)
    (hack : ∀ id, l'.acks id ≤ l.acks id + if id = x.1 then 1 else 0) : Inv s r l' := by
  have hx : 0 < l.flight x := by have := hfl x; rw [if_pos rfl] at this; omega
  have hmono : ∀ y, l.held y ≤ l'.held y := by intro y; rw [hheld]; omega
  obtain ⟨hxwin, hxack⟩ := h.flight_window hw hx
  exact {
    delivered := by rw [hlog, hout]; exact h.delivered
    near := by rw [hlog, hout]; exact h.near
    window := fun id hid => h.recent hlog ((hwin id).mp hid)
    room := hroom
    covered := by
      intro n hn hlt
      rw [hout] at hn; rw [hlog] at hlt
      rcases h.covered n hn hlt with hc | ⟨a, ha⟩
      · exact .inl ((hwin _).mpr hc)
      · exact .inr ⟨a, Nat.lt_of_lt_of_le ha (hmono _)⟩
    known := by
      intro y hy
      rw [hout, hlog]
      refine h.known y ?_
      have := hfl y
      rw [hheld] at hy
      by_cases hyx : y = x
      · subst hyx; omega
      · rw [if_neg hyx] at hy this; omega
    once := by
      intro y
      have := hfl y
      have := h.once y
      rw [hheld]; omega
    -- the new acknowledgement is of a message that was on its way, so still in the window
    acked := by
      intro id hid
      by_cases hidx : id = x.1
      · subst hidx
        obtain ⟨n, hn⟩ := h.window x.1 hxwin
        refine ⟨(hwin _).mpr hxwin, n, by rw [Link.Recent, hlog]; exact hn, .inr ⟨x.2, ?_⟩⟩
        rw [← hn.2.2, hheld, if_pos rfl]; omega
      · have := hack id
        rw [if_neg hidx] at this
        obtain ⟨hw', n, hrec, htaken⟩ := h.acked id (by omega)
        refine ⟨(hwin id).mpr hw', n, by rw [Link.Recent, hlog]; exact hrec, ?_⟩
        rcases htaken with ht | ⟨a, ha⟩
        · exact .inl (by rw [hout]; exact ht)
        · exact .inr ⟨a, Nat.lt_of_lt_of_le ha (hmono _)⟩
    ackedOnce := by
      intro id
      have := hack id
      by_cases hidx : id = x.1
      · subst hidx; rw [if_pos rfl] at this; omega
      · rw [if_neg hidx] at this; have := h.ackedOnce id; omega }

theorem Inv.consume (h : Inv s r l) (hw : s + r < 2 ^ w) (a : α)
    (hlog : l'.log = l.log) (hout : l'.out = l.out ++ [a]) (hwin : ∀ id, l'.window id ↔ l.window id)
    (hheld : ∀ y, l'.held y + (if y = (BitVec.ofNat w l.out.length, a) then 1 else 0) = l.held y)
    (hfl : ∀ x, l'.flight x ≤ l.flight x) (hack : ∀ id, l'.acks id ≤ l.acks id) : Inv s r l' := by
  have hlen : l'.out.length = l.out.length + 1 := by rw [hout]; simp
  have hpos : 0 < l.held (BitVec.ofNat w l.out.length, a) := by
    have := hheld (BitVec.ofNat w l.out.length, a); rw [if_pos rfl] at this; omega
  -- the message given up is the next one of the log
  have hnext : l.log[l.out.length]? = some a := by
    obtain ⟨n, hn, hn', hid⟩ := h.known (BitVec.ofNat w l.out.length, a) (by omega)
    have hlt := (List.getElem?_eq_some_iff.mp hn').1
    have : l.out.length = n := h.eq_of_number hw (by omega) (.inr (Nat.le_refl _)) hlt (.inr hn) hid
    rw [this]; exact hn'
  have hlt := (List.getElem?_eq_some_iff.mp hnext).1
  have hother : ∀ y : BitVec w × α, y.1 ≠ BitVec.ofNat w l.out.length → l'.held y = l.held y := by
    intro y hy
    have := hheld y
    rwa [if_neg (fun he => hy (by rw [he])), Nat.add_zero] at this
  exact {
    delivered := by
      rw [hlog, hout]
      obtain ⟨rest, hrest⟩ := h.delivered
      rw [← hrest, List.getElem?_append_right (Nat.le_refl _), Nat.sub_self] at hnext
      obtain ⟨rest', rfl⟩ : ∃ rest', rest = a :: rest' := by
        cases rest with
        | nil => simp at hnext
        | cons b rest' => exact ⟨rest', by rw [Option.some.inj hnext]⟩
      exact ⟨rest', by rw [← hrest]; simp⟩
    near := by rw [hlog, hlen]; have := h.near; omega
    window := fun id hid => h.recent hlog ((hwin id).mp hid)
    room := by
      obtain ⟨ids, hle, hmem⟩ := h.room
      exact ⟨ids, hle, fun x hx => hmem x (by have := hheld x; omega)⟩
    covered := by
      intro n hn hn'
      rw [hlog] at hn'
      have hne : BitVec.ofNat w n ≠ BitVec.ofNat w l.out.length := fun he => by
        have := h.eq_of_number hw hn' (.inr (by omega)) hlt (.inr (Nat.le_refl _)) he
        omega
      rcases h.covered n (by omega) hn' with hc | ⟨b, hb⟩
      · exact .inl ((hwin _).mpr hc)
      · exact .inr ⟨b, by rw [hother _ hne]; exact hb⟩
    known := by
      intro x hx
      have hf := hfl x
      have hh := hheld x
      obtain ⟨n, hn, hn', hid⟩ := h.known x (by omega)
      refine ⟨n, ?_, by rw [hlog]; exact hn', hid⟩
      -- number `f` itself was held, so it was not on its way as well
      apply Classical.byContradiction
      intro hle
      have hnf : n = l.out.length := by omega
      rw [hnf, hnext] at hn'
      have hxe : x = (BitVec.ofNat w l.out.length, a) :=
        Prod.ext (by rw [hid, hnf]) (Option.some.inj hn').symm
      have := h.once x
      rw [if_pos hxe] at hh
      omega
    once := by intro x; have := hfl x; have := hheld x; have := h.once x; omega
    acked := by
      intro id hid
      obtain ⟨hw', n, hrec, htaken⟩ := h.acked id (by have := hack id; omega)
      refine ⟨(hwin id).mpr hw', n, by rw [Link.Recent, hlog]; exact hrec, ?_⟩
      rcases htaken with ht | ⟨b, hb⟩
      · exact .inl (by omega)
      · by_cases hne : BitVec.ofNat w n = BitVec.ofNat w l.out.length
        · have := h.eq_of_number hw hrec.1 (.inl hrec.2.1) hlt (.inr (Nat.le_refl _)) hne
          exact .inl (by omega)
        · exact .inr ⟨b, by rw [hother _ hne]; exact hb⟩
    ackedOnce := by intro id; have := hack id; have := h.ackedOnce id; omega }

/-- **Every step keeps the invariant**, if the window and the room fit the numbers. -/
theorem inv_step (hs : 0 < s) (hw : s + r < 2 ^ w) (h : Inv s r l)
    (hstep : Step s r l l') : Inv s r l' := by
  cases hstep with
  | quiet hlog hout hwin hheld hfl hack =>
    -- as if an empty list of acknowledgements arrived
    exact h.acknowledged hw [] hlog hout (fun id => (hwin id).trans (by simp)) hheld hfl
      (by simpa using hack)
  | send a hnear hlog hout hwin hheld hfl hack =>
    exact h.send hs hw a hnear hlog hout hwin hheld hfl hack
  | accept x hroom hlog hout hwin hheld hfl hack =>
    exact h.accept hw x hroom hlog hout hwin hheld hfl hack
  | consume a hlog hout hwin hheld hfl hack => exact h.consume hw a hlog hout hwin hheld hfl hack
  | acked ids hlog hout hwin hheld hfl hack =>
    exact h.acknowledged hw ids hlog hout hwin hheld hfl hack

end SlidingWindow
