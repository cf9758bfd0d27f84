import GoVpn.Control.KeyFile

/-!
# Static key files parse to the key they spell

The body is text in UTF-8, valid or not, but a rune that the parser lets through is in ASCII and so
is a byte of the body. Neither digits nor blanks have a dash in them, so the END line is found where
the body ends.
-/

namespace GoVpn.Proof

open GoVpn.Control
open Armor (FirstAt encode index_eq_some_iff decode_eq_some_iff)
open Utf8 (runes runes_cons runes_ascii decodeRune_beyond Caseless lower toNat_lower)

def isHex (b : UInt8) : Bool := isHexRune b.toNat

/-- A space, a tab, a CR or an LF. -/
def isBlank (b : UInt8) : Bool := isBlankRune b.toNat

/-- A key file with this body. -/
def keyFile (pre body suf : Bytes) : Bytes := pre ++ staticKeyHead ++ (body ++ staticKeyFoot ++ suf)

structure KeyFileExact : Prop where
  /-- The digits may be in any case and have blanks anywhere between them. -/
  parses : ∀ key pre body suf : Bytes, key.length = 256 →
    FirstAt staticKeyHead (keyFile pre body suf) pre.length →
    Caseless (body.filter (!isBlank ·)) (encode key) →
    parseStaticKeyV1 (keyFile pre body suf) = .ok key
  accepted : ∀ data key : Bytes, parseStaticKeyV1 data = .ok key →
    ∃ pre body suf, data = keyFile pre body suf ∧ FirstAt staticKeyHead data pre.length
      ∧ FirstAt staticKeyFoot (body ++ staticKeyFoot ++ suf) body.length
      ∧ (∀ b ∈ body, isHex b ∨ isBlank b) ∧ (body.filter isHex).length = 512
      ∧ Caseless (body.filter isHex) (encode key)

/-! ## The body -/

theorem isHexRune_iff {r : Nat} : isHexRune r = true ↔
    0x30 ≤ r ∧ r ≤ 0x39 ∨ 0x61 ≤ r ∧ r ≤ 0x66 ∨ 0x41 ≤ r ∧ r ≤ 0x46 := by
  simp [isHexRune, or_assoc]

theorem isBlankRune_iff {r : Nat} :
    isBlankRune r = true ↔ r = 0x0A ∨ r = 0x0D ∨ r = 0x20 ∨ r = 0x09 := by
  simp [isBlankRune, or_assoc]

variable {b : UInt8}

theorem hexDigits_ascii (h : b.toNat < 0x80) (body : Bytes) :
    hexDigits (runes (b :: body)) = if isHex b then (hexDigits (runes body)).map (b :: ·)
      else if isBlank b then hexDigits (runes body) else none := by
  rw [runes_ascii (UInt8.lt_iff_toNat_lt.mpr h), hexDigits, UInt8.ofNat_toNat]
  rfl

theorem hexDigits_runes_none (hx : ¬ isHex b = true) (hb : ¬ isBlank b = true) (body : Bytes) :
    hexDigits (runes (b :: body)) = none := by
  rcases Nat.lt_or_ge b.toNat 0x80 with hlt | hge
  · rw [hexDigits_ascii hlt, if_neg hx, if_neg hb]
  · have hr := decodeRune_beyond hge body
    rw [runes_cons, hexDigits, if_neg (mt isHexRune_iff.mp (by omega)),
      if_neg (mt isBlankRune_iff.mp (by omega))]

theorem hexDigits_runes {body ds : Bytes} : hexDigits (runes body) = some ds ↔
    (∀ b ∈ body, isHex b ∨ isBlank b) ∧ ds = body.filter isHex := by
  induction body generalizing ds with
  | nil => exact ⟨fun h => ⟨by simp, (Option.some.inj h).symm⟩, fun h => by rw [h.2]; rfl⟩
  | cons b body ih =>
    rw [List.forall_mem_cons]
    by_cases hx : isHex b = true
    · have hrange := isHexRune_iff.mp hx
      rw [hexDigits_ascii (by omega), if_pos hx, List.filter_cons_of_pos hx]
      simp only [Option.map_eq_some_iff, ih, hx, true_or, true_and]
      constructor
      · rintro ⟨ds, ⟨hbody, rfl⟩, rfl⟩
        exact ⟨hbody, rfl⟩
      · rintro ⟨hbody, rfl⟩
        exact ⟨_, ⟨hbody, rfl⟩, rfl⟩
    · rw [List.filter_cons_of_neg hx, or_iff_right hx]
      by_cases hb : isBlank b = true
      · have hrange := isBlankRune_iff.mp hb
        rw [hexDigits_ascii (by omega), if_neg hx, if_pos hb, ih, and_iff_right hb]
      · rw [hexDigits_runes_none hx hb]
        exact ⟨fun h => (by cases h), fun h => absurd h.1.1 hb⟩

/-! ## The file -/

theorem parseStaticKeyV1_iff {data key : Bytes} : parseStaticKeyV1 data = .ok key ↔
    ∃ pre body suf, data = keyFile pre body suf ∧ FirstAt staticKeyHead data pre.length
      ∧ FirstAt staticKeyFoot (body ++ staticKeyFoot ++ suf) body.length
      ∧ (∀ b ∈ body, isHex b ∨ isBlank b) ∧ Caseless (body.filter isHex) (encode key)
      ∧ key.length = 256 := by
  constructor
  · intro h
    unfold parseStaticKeyV1 at h
    split at h
    · cases h
    · next headIdx hhead =>
      obtain ⟨pre, rest, rfl, rfl, hfirst⟩ := index_eq_some_iff.mp hhead
      rw [← List.length_append, List.drop_left] at h
      dsimp only at h
      split at h
      · cases h
      · next footIdx hfoot =>
        obtain ⟨body, suf, rfl, rfl, hfirst'⟩ := index_eq_some_iff.mp hfoot
        rw [List.append_assoc, List.take_left] at h
        split at h
        · cases h
        · next raw hraw =>
          obtain ⟨digits, hdigits, hdecode⟩ := Option.bind_eq_some_iff.mp hraw
          obtain ⟨hbody, rfl⟩ := hexDigits_runes.mp hdigits
          split at h
          · cases h
          · next hlen =>
            cases h
            exact ⟨pre, body, suf, rfl, hfirst, hfirst', hbody, decode_eq_some_iff.mp hdecode,
              Decidable.not_not.mp hlen⟩
  · rintro ⟨pre, body, suf, rfl, hhead, hfoot, hbody, hkey, hlen⟩
    unfold keyFile parseStaticKeyV1 at *
    rw [index_eq_some_iff.mpr ⟨pre, _, rfl, rfl, hhead⟩]
    dsimp only
    rw [← List.length_append, List.drop_left, index_eq_some_iff.mpr ⟨body, _, rfl, rfl, hfoot⟩]
    dsimp only
    rw [List.append_assoc, List.take_left, hexDigits_runes.mpr ⟨hbody, rfl⟩, Option.bind_some,
      decode_eq_some_iff.mpr hkey]
    exact if_neg (not_not_intro hlen)

theorem isHex_of_value (h : Armor.value b ≠ none) : isHex b = true := by
  by_contra hx
  have hrange := mt isHexRune_iff.mpr hx
  refine h ?_
  simp only [Armor.value, UInt8.le_iff_toNat_le, UInt8.reduceToNat]
  rw [if_neg (by omega), if_neg (by omega), if_neg (by omega)]

theorem not_isBlank (h : isHex b = true) : isBlank b = false := by
  have hrange := isHexRune_iff.mp h
  exact Bool.eq_false_iff.mpr (mt isBlankRune_iff.mp (by omega))

theorem body_of_caseless {body key : Bytes} (h : Caseless (body.filter (!isBlank ·)) (encode key)) :
    (∀ b ∈ body, isHex b ∨ isBlank b) ∧ body.filter (!isBlank ·) = body.filter isHex := by
  have hbody : ∀ b ∈ body, isHex b ∨ isBlank b := by
    intro b hb
    by_cases hbl : isBlank b = true
    · exact .inr hbl
    · exact .inl
        (isHex_of_value (Armor.value_ne_none h b (List.mem_filter.mpr ⟨hb, by simpa using hbl⟩)))
  refine ⟨hbody, List.filter_congr fun b hb => ?_⟩
  cases hx : isHex b with
  | true => rw [not_isBlank hx, Bool.not_false]
  | false => rw [(hbody b hb).resolve_left (by rw [hx]; exact Bool.false_ne_true), Bool.not_true]

theorem dash_not_mem {body : Bytes} (h : ∀ b ∈ body, isHex b ∨ isBlank b) : 0x2D ∉ body := by
  intro hdash
  exact absurd (h 0x2D hdash) (by decide)

/-- **Key files are parsed exactly.** -/
theorem keyFile_exact : KeyFileExact where
  parses key pre body suf hlen hhead hkey := by
    obtain ⟨hbody, hdigits⟩ := body_of_caseless hkey
    have hfoot : FirstAt staticKeyFoot (body ++ staticKeyFoot ++ suf) body.length :=
      Armor.firstAt_append (dash_not_mem hbody)
    exact parseStaticKeyV1_iff.mpr ⟨pre, body, suf, rfl, hhead, hfoot, hbody, hdigits ▸ hkey, hlen⟩
  accepted data key h := by
    obtain ⟨pre, body, suf, hdata, hhead, hfoot, hbody, hkey, hlen⟩ := parseStaticKeyV1_iff.mp h
    refine ⟨pre, body, suf, hdata, hhead, hfoot, hbody, ?_, hkey⟩
    rw [hkey.length_eq, Armor.length_encode, hlen]

end GoVpn.Proof
