import GoVpn.Lib.BufReader

/-!
# Reading messages

A message is read part by part, each part being as many elements as the parts before it say.
`Exact p E` is what a reader of messages is for: it succeeds exactly where the contents start with
an encoding that `E` relates to some value, it returns that value, and it leaves what comes after.
Reading one part after another keeps this, and an encoding that is read exactly is never the
beginning of another one.
-/

namespace BufReader

variable {α β γ ε ε' : Type}

/-- `n` elements. -/
abbrev Part (α : Type) (n : Nat) : Type := { as : List α // as.length = n }

def Part.head {n : Nat} : Part α (n + 1) → α
  | ⟨a :: _, _⟩ => a

/-- A reader that may fail; what it has taken by then is gone. -/
abbrev Reading (α ε β : Type) : Type := ExceptT ε (StateM (BufReader α)) β

/-- Why there were not enough elements: there was none, or there were some. -/
inductive Short
  | eof | unexpectedEOF
  deriving DecidableEq

/-- Takes `n` elements, first from the buffer `buf` and then from one fill after the other. -/
def fillUp (n : Nat) (buf : List α) (fills : List (List α)) :
    Except Short (Part α n) × BufReader α :=
  if h : n ≤ buf.length then (.ok ⟨buf.take n, List.length_take_of_le h⟩, ⟨buf.drop n, fills⟩)
  else
    match fills with
    | [] => (.error (if buf.isEmpty then .eof else .unexpectedEOF), ⟨[], []⟩)
    | fill :: fills =>
      match fillUp (n - buf.length) fill fills with
      | (.ok v, r) => (.ok ⟨buf ++ v.1, by rw [List.length_append, v.2]; omega⟩, r)
      | (.error e, r) => (.error (if buf.isEmpty then e else .unexpectedEOF), r)

/-- Go's `io.ReadFull`, of `n` elements. -/
def readFull (n : Nat) : Reading α Short (Part α n) := fun r => fillUp n r.buffered r.fills

theorem fillUp_cases (n : Nat) (buf : List α) (fills : List (List α)) :
    (∃ v r, fillUp n buf fills = (.ok v, r) ∧ buf ++ fills.flatten = v.1 ++ r.contents)
      ∨ ∃ e r, fillUp n buf fills = (.error e, r) ∧ (buf ++ fills.flatten).length < n := by
  induction fills generalizing n buf with
  | nil =>
    unfold fillUp
    split
    · exact .inl ⟨_, _, rfl, by simp [contents]⟩
    · next h => exact .inr ⟨_, _, rfl, by simpa using h⟩
  | cons fill fills ih =>
    unfold fillUp
    split
    · refine .inl ⟨_, _, rfl, ?_⟩
      rw [contents, ← List.append_assoc, List.take_append_drop]
    · next h =>
      rcases ih (n - buf.length) fill with ⟨v, r, hv, hc⟩ | ⟨e, r, he, hlt⟩
      · dsimp only
        rw [hv]
        refine .inl ⟨_, _, rfl, ?_⟩
        rw [List.flatten_cons, hc, List.append_assoc]
      · dsimp only
        rw [he]
        refine .inr ⟨_, _, rfl, ?_⟩
        rw [List.flatten_cons, List.length_append]
        omega

/-! ## Exact readers -/

structure Exact (p : Reading α ε β) (E : β → List α → Prop) : Prop where
  sound : ∀ {r r' b}, p r = (.ok b, r') → ∃ bs, E b bs ∧ r.contents = bs ++ r'.contents
  complete : ∀ {r b bs rest}, E b bs → r.contents = bs ++ rest →
    ∃ r', p r = (.ok b, r') ∧ r'.contents = rest

variable {p : Reading α ε β} {E : β → List α → Prop}

theorem exact_readFull (n : Nat) : Exact (readFull (α := α) n) fun v bs => bs = v.1 where
  sound := by
    intro r r' v h
    rcases fillUp_cases n r.buffered r.fills with ⟨v', r₁, hv, hc⟩ | ⟨e, r₁, he, -⟩
    · cases hv.symm.trans h
      exact ⟨_, rfl, hc⟩
    · cases he.symm.trans h
  complete := by
    rintro r v _ rest rfl hr
    rcases fillUp_cases n r.buffered r.fills with ⟨v', r', hv, hc⟩ | ⟨e, r', -, hlt⟩
    · obtain ⟨heq, hrest⟩ := List.append_inj (hc.symm.trans hr) (v'.2.trans v.2.symm)
      cases Subtype.ext heq
      exact ⟨r', hv, hrest⟩
    · rw [show r.buffered ++ r.fills.flatten = _ from hr] at hlt
      rw [List.length_append, v.2] at hlt
      omega

theorem exact_pure (b : β) : Exact (pure b : Reading α ε β) fun b' bs => b' = b ∧ bs = [] where
  sound := by
    intro r r' b' h
    cases h
    exact ⟨[], ⟨rfl, rfl⟩, rfl⟩
  complete := by
    rintro r _ _ rest ⟨rfl, rfl⟩ hr
    exact ⟨r, rfl, hr⟩

theorem Exact.adapt (h : Exact p E) (f : ε → ε') :
    Exact (ExceptT.adapt f p : Reading α ε' β) E := by
  have hrun : ∀ r, (ExceptT.adapt f p : Reading α ε' β) r = ((p r).1.mapError f, (p r).2) :=
    fun _ => rfl
  refine ⟨fun {r r' b} hr => ?_, fun hb hr => ?_⟩
  · rw [hrun] at hr
    refine h.sound ?_
    cases hp : p r with
    | mk res r₁ =>
      rw [hp] at hr
      cases res with
      | error e => cases hr
      | ok b' => cases hr; rfl
  · obtain ⟨r', hp, hrest⟩ := h.complete hb hr
    exact ⟨r', by rw [hrun, hp]; rfl, hrest⟩

theorem Exact.congr (h : Exact p E) {E' : β → List α → Prop} (hE : ∀ b bs, E b bs ↔ E' b bs) :
    Exact p E' := by
  have heq : E = E' := by
    funext b bs
    exact propext (hE b bs)
  rwa [← heq]

theorem Exact.ite {c : Prop} {_ : Decidable c} {q : Reading α ε β} {F : β → List α → Prop}
    (hp : Exact p E) (hq : Exact q F) :
    Exact (if c then p else q) fun b bs => if c then E b bs else F b bs := by
  split
  · exact hp
  · exact hq

theorem Exact.guard {c : Prop} {_ : Decidable c} (hp : Exact p E) (e : ε) :
    Exact (if c then throw e else p) fun b bs => ¬ c ∧ E b bs := by
  split
  · next h => exact ⟨fun hr => (by cases hr), fun hb => absurd h hb.1⟩
  · next h => exact hp.congr fun b bs => (and_iff_right h).symm

theorem Exact.bind {f : β → Reading α ε γ} {F : β → γ → List α → Prop} (hp : Exact p E)
    (hf : ∀ b, Exact (f b) (F b)) :
    Exact (p >>= f) fun c bs => ∃ b xs ys, E b xs ∧ F b c ys ∧ bs = xs ++ ys := by
  refine ⟨fun {r r' c} h => ?_, ?_⟩
  · cases hr : p r with
    | mk res r₁ =>
      have hstep : (p >>= f) r = ExceptT.bindCont f res r₁ := by
        show ExceptT.bindCont f (p r).1 (p r).2 = _
        rw [hr]
      rw [hstep] at h
      cases res with
      | error e => cases h
      | ok b =>
        obtain ⟨xs, hb, hxs⟩ := hp.sound hr
        obtain ⟨ys, hc, hys⟩ := (hf b).sound h
        exact ⟨xs ++ ys, ⟨b, xs, ys, hb, hc, rfl⟩, by rw [hxs, hys, List.append_assoc]⟩
  · rintro r c _ rest ⟨b, xs, ys, hb, hc, rfl⟩ hr
    rw [List.append_assoc] at hr
    obtain ⟨r₁, hpr, hr₁⟩ := hp.complete hb hr
    obtain ⟨r', hfr, hrest⟩ := (hf b).complete hc hr₁
    refine ⟨r', ?_, hrest⟩
    show ExceptT.bindCont f (p r).1 (p r).2 = _
    rw [hpr]
    exact hfr

/-! ## Unfinished messages -/

theorem Exact.eq_of_prefix (h : Exact p E) {b b' : β} {bs bs' : List α} (hb : E b bs)
    (hb' : E b' bs') (hpre : bs <+: bs') : bs = bs' := by
  obtain ⟨t, rfl⟩ := hpre
  obtain ⟨r, h₁, hrest⟩ := h.complete (r := ⟨bs ++ t, []⟩) hb (List.append_nil _)
  obtain ⟨r', h₂, hnil⟩ := h.complete (r := ⟨bs ++ t, []⟩) hb' rfl
  cases h₁.symm.trans h₂
  have ht : t = [] := hrest.symm.trans hnil
  rw [ht, List.append_nil]

theorem Exact.unfinished (h : Exact p E) {b : β} {bs : List α} (hb : E b bs) {r : BufReader α}
    (hpre : r.contents <+: bs) (hne : r.contents ≠ bs) : ∃ e r', p r = (.error e, r') := by
  cases hp : p r with
  | mk res r' =>
    cases res with
    | error e => exact ⟨e, r', rfl⟩
    | ok b' =>
      obtain ⟨bs', hb', hr⟩ := h.sound hp
      have hle : bs' <+: r.contents := ⟨_, hr.symm⟩
      have heq : bs' = bs := h.eq_of_prefix hb' hb (hle.trans hpre)
      exact absurd (hpre.eq_of_length_le (heq ▸ hle.length_le)) hne

end BufReader
