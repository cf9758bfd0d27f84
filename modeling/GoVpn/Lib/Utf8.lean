import Mathlib.Data.UInt

/-!
# Text as bytes

A string is the bytes it is made of, valid UTF-8 or not. Runes are decoded one at a time; where
the bytes spell none, one byte is taken and the replacement rune stands for it.

Two strings are equal under case folding when their runes are, one by one, in the same orbit of
simple folding. Two ASCII letters share their orbit with a rune beyond: `K` with the Kelvin sign
U+212A, and `S` with the long s U+017F, the bytes `C5 BF`. So a string with an `S` also matches a
longer one. The orbits wholly beyond ASCII are left as a parameter `U`.
-/

namespace Utf8

/-- The bytes of a string of ASCII characters. -/
def ascii (s : String) : List UInt8 := s.toList.map fun c => UInt8.ofNat c.toNat

/-! ## Decoding -/

/-- The rune that stands for a byte that spells none. -/
def runeError : Nat := 0xFFFD

/-- How many bytes a rune has, by its first; `0` where no rune starts. -/
def width (b : UInt8) : Nat :=
  if b < 0x80 then 1
  else if b < 0xC2 then 0
  else if b < 0xE0 then 2
  else if b < 0xF0 then 3
  else if b < 0xF5 then 4
  else 0

/-- A byte that continues a rune. -/
def isTail (b : UInt8) : Bool := 0x80 ≤ b && b ≤ 0xBF

/-- A byte that may stand second in a rune. After some first bytes the range is
smaller: no rune is spelled longer than need be, none is a surrogate and none is
above U+10FFFF. -/
def isSecond (b c : UInt8) : Bool :=
  if b = 0xE0 then 0xA0 ≤ c && c ≤ 0xBF
  else if b = 0xED then 0x80 ≤ c && c ≤ 0x9F
  else if b = 0xF0 then 0x90 ≤ c && c ≤ 0xBF
  else if b = 0xF4 then 0x80 ≤ c && c ≤ 0x8F
  else isTail c

/-- The first rune of a string, and how many bytes it takes. -/
def decodeRune : List UInt8 → Nat × Nat
  | [] => (runeError, 0)
  | b :: rest =>
    match width b, rest with
    | 1, _ => (b.toNat, 1)
    | 2, c :: _ =>
      if isSecond b c then (b.toNat % 32 * 64 + c.toNat % 64, 2) else (runeError, 1)
    | 3, c :: d :: _ =>
      if isSecond b c && isTail d then
        (b.toNat % 16 * 4096 + c.toNat % 64 * 64 + d.toNat % 64, 3)
      else (runeError, 1)
    | 4, c :: d :: e :: _ =>
      if isSecond b c && isTail d && isTail e then
        (b.toNat % 8 * 262144 + c.toNat % 64 * 4096 + d.toNat % 64 * 64 + e.toNat % 64, 4)
      else (runeError, 1)
    | _, _ => (runeError, 1)

/-- Decoding with a bound on the number of runes. -/
def runesWithin : Nat → List UInt8 → List Nat
  | 0, _ => []
  | _ + 1, [] => []
  | n + 1, b :: bs =>
    (decodeRune (b :: bs)).1 :: runesWithin n ((b :: bs).drop (decodeRune (b :: bs)).2)

/-- The runes of a string; there are at most as many as it has bytes. -/
def runes (bs : List UInt8) : List Nat := runesWithin bs.length bs

variable {b : UInt8}

theorem decodeRune_ascii (h : b < 0x80) (bs : List UInt8) :
    decodeRune (b :: bs) = (b.toNat, 1) := by
  have hw : width b = 1 := by simp [width, h]
  simp [decodeRune, hw]

theorem decodeRune_size_pos (b : UInt8) (bs : List UInt8) : 1 ≤ (decodeRune (b :: bs)).2 := by
  simp only [decodeRune]
  split
  · simp
  · split <;> simp
  · split <;> simp
  · split <;> simp
  · simp

theorem width_range (b : UInt8) :
    (width b = 1 → b.toNat < 0x80) ∧ (width b = 2 → 0xC2 ≤ b.toNat ∧ b.toNat < 0xE0) ∧
      (width b = 3 → 0xE0 ≤ b.toNat ∧ b.toNat < 0xF0) ∧
      (width b = 4 → 0xF0 ≤ b.toNat ∧ b.toNat < 0xF5) := by
  simp only [width, UInt8.lt_iff_toNat_lt, UInt8.reduceToNat]
  refine ⟨?_, ?_, ?_, ?_⟩ <;> intro h <;> repeat' split at h
  all_goals omega

theorem isSecond_range {c : UInt8} (h : isSecond b c = true) :
    0x80 ≤ c.toNat ∧ c.toNat ≤ 0xBF ∧ (b.toNat = 0xE0 → 0xA0 ≤ c.toNat) ∧
      (b.toNat = 0xF0 → 0x90 ≤ c.toNat) := by
  simp only [isSecond, isTail, ← UInt8.toNat_inj, UInt8.le_iff_toNat_le, UInt8.reduceToNat] at h
  repeat' split at h
  all_goals
    simp only [Bool.and_eq_true, decide_eq_true_eq] at h
    omega

theorem decodeRune_below {bs : List UInt8} (hb : 0x80 ≤ b.toNat)
    (hr : (decodeRune (b :: bs)).1 < 0x800) :
    ∃ c rest, bs = c :: rest ∧ 0xC2 ≤ b.toNat ∧ b.toNat < 0xE0 ∧ 0x80 ≤ c.toNat ∧ c.toNat ≤ 0xBF ∧
      decodeRune (b :: bs) = (b.toNat % 32 * 64 + c.toNat % 64, 2) := by
  have herr : ¬ runeError < 0x800 := by decide
  obtain ⟨hone, htwo, hthree, hfour⟩ := width_range b
  simp only [decodeRune] at hr ⊢
  split at hr
  · next hw => exact absurd (hone hw) (by omega)
  · next c rest hw =>
      split at hr
      · next h =>
          obtain ⟨h1, h2, _, _⟩ := isSecond_range h
          obtain ⟨hlo, hhi⟩ := htwo hw
          refine ⟨c, rest, rfl, hlo, hhi, h1, h2, ?_⟩
          simp [h]
      · exact absurd hr herr
  · next c d rest hw =>
      -- three bytes spell at least U+0800
      split at hr
      · next h =>
          rw [Bool.and_eq_true] at h
          obtain ⟨h1, h2, h3, _⟩ := isSecond_range h.1
          obtain ⟨hlo, hhi⟩ := hthree hw
          omega
      · exact absurd hr herr
  · next c d e rest hw =>
      split at hr
      · next h =>
          rw [Bool.and_eq_true, Bool.and_eq_true] at h
          obtain ⟨h1, h2, _, h3⟩ := isSecond_range h.1.1
          obtain ⟨hlo, hhi⟩ := hfour hw
          omega
      · exact absurd hr herr
  · exact absurd hr herr

theorem decodeRune_beyond (hb : 0x80 ≤ b.toNat) (bs : List UInt8) :
    0x80 ≤ (decodeRune (b :: bs)).1 := by
  refine Nat.le_of_not_lt fun hlt => ?_
  obtain ⟨c, rest, _, hlo, hhi, h1, h2, heq⟩ := decodeRune_below hb (Nat.lt_trans hlt (by decide))
  rw [heq] at hlt
  omega

theorem runesWithin_eq {n : Nat} {bs : List UInt8} (h : bs.length ≤ n) :
    runesWithin n bs = runes bs := by
  induction n using Nat.strongRecOn generalizing bs with
  | ind n ih =>
    cases bs with
    | nil => cases n <;> rfl
    | cons b bs =>
      obtain ⟨m, rfl⟩ : ∃ m, n = m + 1 := ⟨n - 1, by simp at h; omega⟩
      have hlen : ((b :: bs).drop (decodeRune (b :: bs)).2).length ≤ bs.length := by
        have := decodeRune_size_pos b bs
        simp only [List.length_drop, List.length_cons]
        omega
      simp only [List.length_cons] at h
      show _ = runesWithin (bs.length + 1) (b :: bs)
      rw [runesWithin, runesWithin, ih m (by omega) (by omega)]
      rcases Nat.lt_or_ge bs.length (m + 1) with hlt | hge
      · rw [ih bs.length hlt hlen]
      · omega

theorem runes_cons (b : UInt8) (bs : List UInt8) :
    runes (b :: bs) =
      (decodeRune (b :: bs)).1 :: runes ((b :: bs).drop (decodeRune (b :: bs)).2) := by
  have hlen : ((b :: bs).drop (decodeRune (b :: bs)).2).length ≤ bs.length := by
    have := decodeRune_size_pos b bs
    simp only [List.length_drop, List.length_cons]
    omega
  rw [← runesWithin_eq hlen]
  rfl

theorem runes_ascii (h : b < 0x80) (bs : List UInt8) : runes (b :: bs) = b.toNat :: runes bs := by
  rw [runes_cons, decodeRune_ascii h]
  rfl

/-! ## Comparison under case folding -/

/-- A letter of ASCII in lower case; any other byte is itself. -/
def lower (b : UInt8) : UInt8 := if 0x41 ≤ b ∧ b ≤ 0x5A then b + 0x20 else b

/-- Equal but for the case of ASCII letters. -/
def Caseless (s t : List UInt8) : Prop := s.map lower = t.map lower

instance (s t : List UInt8) : Decidable (Caseless s t) :=
  inferInstanceAs (Decidable (s.map lower = t.map lower))

theorem toNat_lower (b : UInt8) : (lower b).toNat =
    if 0x41 ≤ b.toNat ∧ b.toNat ≤ 0x5A then b.toNat + 0x20 else b.toNat := by
  simp only [lower, UInt8.le_iff_toNat_le, UInt8.reduceToNat]
  split
  · rw [UInt8.toNat_add]
    simp only [UInt8.reduceToNat]
    omega
  · rfl

theorem Caseless.length_eq {s t : List UInt8} (h : Caseless s t) : s.length = t.length := by
  simpa using congrArg List.length h

theorem lower_ne {a : UInt8} (ha : ¬ a < 0x80) (hb : b < 0x80) : lower a ≠ lower b := by
  simp only [UInt8.lt_iff_toNat_lt, UInt8.reduceToNat] at ha hb
  intro h
  have hn := congrArg UInt8.toNat h
  rw [toNat_lower, toNat_lower, if_neg (by omega)] at hn
  split at hn <;> omega

theorem lower_eq_s (h : lower b = 0x73) : b = 0x73 ∨ b = 0x53 := by
  have hn := congrArg UInt8.toNat h
  rw [toNat_lower] at hn
  simp only [UInt8.reduceToNat] at hn
  simp only [← UInt8.toNat_inj, UInt8.reduceToNat]
  split at hn <;> omega

section Fold

variable (U : Nat → Nat)

/-- The next rune of an orbit of simple folding; the last wraps around. -/
def simpleFold (r : Nat) : Nat :=
  if r = 0x4B then 0x6B
  else if r = 0x6B then 0x212A
  else if r = 0x212A then 0x4B
  else if r = 0x53 then 0x73
  else if r = 0x73 then 0x17F
  else if r = 0x17F then 0x53
  else if 0x41 ≤ r ∧ r ≤ 0x5A then r + 0x20
  else if 0x61 ≤ r ∧ r ≤ 0x7A then r - 0x20
  else if r < 0x80 then r
  else U r

/-- The walk along the orbit of `lo` in search of `hi`, from `r` on. No orbit has
more than four runes. -/
def seek (lo hi : Nat) : Nat → Nat → Nat
  | 0, r => r
  | n + 1, r => if r ≠ lo ∧ r < hi then seek lo hi n (simpleFold U r) else r

/-- Two runes, the smaller first, that differ. -/
def foldPair (lo hi : Nat) : Bool :=
  if hi < 0x80 then 0x41 ≤ lo && lo ≤ 0x5A && hi == lo + 0x20
  else seek U lo hi 4 (simpleFold U lo) == hi

def foldRune (r q : Nat) : Bool := r == q || foldPair U (min r q) (max r q)

def foldRunes : List Nat → List Nat → Bool
  | [], [] => true
  | r :: rs, q :: qs => foldRune U r q && foldRunes rs qs
  | _, _ => false

/-- Go's `strings.EqualFold`: byte by byte while both strings are in ASCII, and rune
by rune from the first byte of either that is not. -/
def equalFold : List UInt8 → List UInt8 → Bool
  | [], [] => true
  | a :: s, b :: t =>
    if 0x80 ≤ a ∨ 0x80 ≤ b then foldRunes U (runes (a :: s)) (runes (b :: t))
    else foldRune U a.toNat b.toNat && equalFold s t
  | _, _ => false

theorem foldRune_comm (r q : Nat) : foldRune U r q = foldRune U q r := by
  unfold foldRune
  rw [Nat.min_comm, Nat.max_comm, Bool.beq_comm]

theorem foldRunes_comm (rs qs : List Nat) : foldRunes U rs qs = foldRunes U qs rs := by
  induction rs generalizing qs with
  | nil => cases qs <;> rfl
  | cons r rs ih =>
    cases qs with
    | nil => rfl
    | cons q qs => rw [foldRunes, foldRunes, foldRune_comm, ih]

theorem equalFold_comm (s t : List UInt8) : equalFold U s t = equalFold U t s := by
  induction s generalizing t with
  | nil => cases t <;> rfl
  | cons a s ih =>
    cases t with
    | nil => rfl
    | cons b t => simp only [equalFold, foldRunes_comm U (runes (a :: s)), foldRune_comm U a.toNat,
        ih t, or_comm]

@[simp] theorem equalFold_cons_nil (a : UInt8) (s : List UInt8) :
    equalFold U (a :: s) [] = false := rfl

/-! ## Strings that match a plain one -/

/-- An ASCII byte whose orbit has no rune but the long s beyond ASCII. -/
def Plain (b : UInt8) : Prop := b < 0x80 ∧ b ≠ 0x4B ∧ b ≠ 0x6B

instance (b : UInt8) : Decidable (Plain b) := inferInstanceAs (Decidable (_ ∧ _ ∧ _))

/-- A string with an `s` for each long s. -/
def unlong : List UInt8 → List UInt8
  | 0xC5 :: 0xBF :: bs => 0x73 :: unlong bs
  | b :: bs => b :: unlong bs
  | [] => []

theorem unlong_long (bs : List UInt8) : unlong (0xC5 :: 0xBF :: bs) = 0x73 :: unlong bs := rfl

variable {b : UInt8} {bs : List UInt8}

theorem unlong_cons (h : ¬ ∃ rest, b :: bs = 0xC5 :: 0xBF :: rest) :
    unlong (b :: bs) = b :: unlong bs := by
  rw [unlong]
  rintro rest rfl rfl
  exact h ⟨rest, rfl⟩

theorem ne_long_of_ascii (h : b < 0x80) : ¬ ∃ rest, b :: bs = 0xC5 :: 0xBF :: rest := by
  rintro ⟨rest, heq⟩
  cases heq
  exact absurd h (by decide)

theorem unlong_eq_nil : unlong bs = [] ↔ bs = [] := by
  constructor
  · intro h
    unfold unlong at h
    split at h
    · cases h
    · cases h
    · rfl
  · rintro rfl; rfl

theorem unlong_eq_self (h : bs.length ≤ (unlong bs).length) : unlong bs = bs := by
  have hle : ∀ l : List UInt8, (unlong l).length ≤ l.length := by
    intro l
    fun_induction unlong l <;> simp only [List.length_cons, List.length_nil] <;> omega
  fun_induction unlong bs with
  | case1 bs ih =>
    have := hle bs
    simp only [List.length_cons] at h
    omega
  | case2 b bs hne ih =>
    rw [ih (by simpa using h)]
  | case3 => rfl

theorem decodeRune_long (hb : 0x80 ≤ b.toNat) (hr : (decodeRune (b :: bs)).1 = 0x17F) :
    ∃ rest, b :: bs = 0xC5 :: 0xBF :: rest ∧ (b :: bs).drop (decodeRune (b :: bs)).2 = rest := by
  obtain ⟨c, rest, rfl, hlo, hhi, h1, h2, heq⟩ :=
    decodeRune_below hb (hr ▸ show (0x17F : Nat) < 0x800 by decide)
  rw [heq] at hr
  have hb' : b = 0xC5 := UInt8.toNat_inj.mp (show b.toNat = 0xC5 by omega)
  have hc' : c = 0xBF := UInt8.toNat_inj.mp (show c.toNat = 0xBF by omega)
  subst hb' hc'
  refine ⟨rest, rfl, ?_⟩
  rw [heq]
  rfl

theorem foldRune_ascii {a : UInt8} (ha : a < 0x80) (hb : b < 0x80) :
    foldRune U a.toNat b.toNat = true ↔ lower a = lower b := by
  have hmax : max a.toNat b.toNat < 0x80 := by
    simp only [UInt8.lt_iff_toNat_lt, UInt8.reduceToNat] at ha hb
    omega
  rw [foldRune, foldPair, if_pos hmax, ← UInt8.toNat_inj, toNat_lower, toNat_lower]
  simp only [Bool.or_eq_true, Bool.and_eq_true, beq_iff_eq, decide_eq_true_eq]
  split <;> split <;> omega

theorem simpleFold_case {n : Nat} (h : n < 0x80) (hk : n ≠ 0x4B) (hk' : n ≠ 0x6B) (hs : n ≠ 0x53)
    (hs' : n ≠ 0x73) : simpleFold U n =
      if 0x41 ≤ n ∧ n ≤ 0x5A then n + 0x20 else if 0x61 ≤ n ∧ n ≤ 0x7A then n - 0x20 else n := by
  simp only [simpleFold, if_neg hk, if_neg hk', if_neg hs, if_neg hs', if_pos h,
    if_neg (show n ≠ 0x212A by omega), if_neg (show n ≠ 0x17F by omega)]

theorem simpleFold_ascii {n : Nat} (h : n < 0x80) (hk : n ≠ 0x4B) (hk' : n ≠ 0x6B) (hs : n ≠ 0x53)
    (hs' : n ≠ 0x73) : simpleFold U n < 0x80 ∧ simpleFold U (simpleFold U n) = n := by
  rw [simpleFold_case U h hk hk' hs hs']
  by_cases hup : 0x41 ≤ n ∧ n ≤ 0x5A
  · rw [if_pos hup, simpleFold_case U (by omega) (by omega) (by omega) (by omega) (by omega),
      if_neg (by omega), if_pos (by omega)]
    omega
  · rw [if_neg hup]
    by_cases hlow : 0x61 ≤ n ∧ n ≤ 0x7A
    · rw [if_pos hlow, simpleFold_case U (by omega) (by omega) (by omega) (by omega) (by omega),
        if_pos (by omega)]
      omega
    · rw [if_neg hlow, simpleFold_case U h hk hk' hs hs', if_neg hup, if_neg hlow]
      exact ⟨h, rfl⟩

theorem foldRune_beyond (hb : Plain b) {r : Nat} (hr : 0x80 ≤ r) :
    foldRune U r b.toNat = true ↔ r = 0x17F ∧ lower b = 0x73 := by
  obtain ⟨hlt, hk, hk'⟩ := hb
  simp only [UInt8.lt_iff_toNat_lt, UInt8.reduceToNat] at hlt
  rw [foldRune, foldPair, Nat.min_eq_right (by omega), Nat.max_eq_left (by omega),
    if_neg (by omega)]
  simp only [Bool.or_eq_true, beq_iff_eq, show r ≠ b.toNat by omega, false_or]
  by_cases hs : b = 0x73 ∨ b = 0x53
  · have hlow : lower b = 0x73 := by rcases hs with rfl | rfl <;> decide
    simp only [hlow, and_true]
    -- the walk goes past the long s and, from there, only down
    rcases Nat.lt_trichotomy r 0x17F with hlt' | rfl | hgt
    · rcases hs with rfl | rfl <;> simp [seek, simpleFold] <;> repeat' split
      all_goals omega
    · rcases hs with rfl | rfl <;> simp [seek, simpleFold]
    · rcases hs with rfl | rfl <;> simp [seek, simpleFold] <;> repeat' split
      all_goals omega
  · have hlow : lower b ≠ 0x73 := fun h => hs (lower_eq_s h)
    obtain ⟨hm, hback⟩ := simpleFold_ascii U (n := b.toNat) hlt
      (fun h => hk (UInt8.toNat_inj.mp h)) (fun h => hk' (UInt8.toNat_inj.mp h))
      (fun h => hs (.inr (UInt8.toNat_inj.mp h))) (fun h => hs (.inl (UInt8.toNat_inj.mp h)))
    -- the walk stays in ASCII
    have hseek : seek U b.toNat r 4 (simpleFold U b.toNat) < 0x80 := by
      rw [seek]
      split
      · rw [hback, seek, if_neg (fun h => h.1 rfl)]
        exact hlt
      · exact hm
    exact ⟨fun h => by omega, fun h => absurd h.2 hlow⟩

theorem foldRunes_plain {t c : List UInt8} (hc : ∀ b ∈ c, Plain b) :
    foldRunes U (runes t) (runes c) = true ↔ Caseless (unlong t) c := by
  induction c generalizing t with
  | nil =>
    cases t with
    | nil => exact ⟨fun _ => rfl, fun _ => rfl⟩
    | cons a t =>
      refine ⟨nofun, fun h => ?_⟩
      exact absurd (unlong_eq_nil.mp (List.map_eq_nil_iff.mp h)) (by simp)
  | cons b c ih =>
    have hb : Plain b := hc b List.mem_cons_self
    have hc' : ∀ x ∈ c, Plain x := fun x hx => hc x (List.mem_cons_of_mem _ hx)
    rw [runes_ascii hb.1]
    cases t with
    | nil => exact ⟨nofun, fun h => by cases h⟩
    | cons a t =>
      by_cases ha : a < 0x80
      · rw [runes_ascii ha, unlong_cons (ne_long_of_ascii ha), foldRunes, Bool.and_eq_true, ih hc',
          foldRune_ascii U ha hb.1]
        simp [Caseless]
      · have ha' : 0x80 ≤ a.toNat := by
          simpa [UInt8.lt_iff_toNat_lt] using ha
        rw [runes_cons, foldRunes, Bool.and_eq_true, ih hc',
          foldRune_beyond U hb (decodeRune_beyond ha' t)]
        constructor
        · rintro ⟨⟨hr, hs⟩, hrest⟩
          obtain ⟨rest, heq, hdrop⟩ := decodeRune_long ha' hr
          rw [hdrop] at hrest
          rw [heq, unlong_long]
          simp only [Caseless, List.map_cons, hs] at hrest ⊢
          rw [hrest]
          rfl
        · intro h
          by_cases hlong : ∃ rest, a :: t = 0xC5 :: 0xBF :: rest
          · obtain ⟨rest, heq⟩ := hlong
            rw [heq, unlong_long] at h
            simp only [Caseless, List.map_cons, List.cons.injEq] at h
            rw [heq]
            exact ⟨⟨rfl, h.1.symm⟩, h.2⟩
          · rw [unlong_cons hlong] at h
            simp only [Caseless, List.map_cons, List.cons.injEq] at h
            exact absurd h.1 (lower_ne ha hb.1)

theorem equalFold_plain {t c : List UInt8} (hc : ∀ b ∈ c, Plain b) :
    equalFold U t c = true ↔ Caseless (unlong t) c := by
  induction c generalizing t with
  | nil =>
    cases t with
    | nil => exact ⟨fun _ => rfl, fun _ => rfl⟩
    | cons a t =>
      refine ⟨nofun, fun h => ?_⟩
      exact absurd (unlong_eq_nil.mp (List.map_eq_nil_iff.mp h)) (by simp)
  | cons b c ih =>
    have hb : Plain b := hc b List.mem_cons_self
    cases t with
    | nil => exact ⟨nofun, fun h => by cases h⟩
    | cons a t =>
      rw [equalFold]
      split
      · exact foldRunes_plain U hc
      · next h =>
          have ha : a < 0x80 := UInt8.not_le.mp fun h' => h (.inl h')
          rw [unlong_cons (ne_long_of_ascii ha), Bool.and_eq_true,
            ih fun x hx => hc x (List.mem_cons_of_mem _ hx), foldRune_ascii U ha hb.1]
          simp [Caseless]

end Fold

end Utf8
