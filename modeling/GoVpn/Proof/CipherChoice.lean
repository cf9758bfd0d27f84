import GoVpn.Ovpn.Cipher

/-!
# Whose choice the cipher is

The loop of `selectCipher` runs over the server's list, and asks of each entry only whether the
client offers a name that matches it. So the order in which the client lists its names cannot
matter; and once it has sent an `IV_CIPHERS=` line, even an empty one, nothing else is looked at.

Which names match is another matter. The names of the configuration are checked byte by byte, but
those of the client go straight into `strings.EqualFold`, which folds as Unicode does: the long s
matches the `S` of both names, and neither name has a `K`.
-/

namespace GoVpn.Proof

open Ovpn Utf8
open GoVpn.Control (Bytes)

/-! ## What is offered -/

/-- The peer-info has a line that starts with the key. -/
def HasLine (peerInfo key : Bytes) : Prop := ∃ line ∈ peerInfo.splitOn 0x0A, key <+: line

/-- The entries of an `IV_CIPHERS` value; the empty value has none. -/
def entries (value : Bytes) : List Bytes := if value = [] then [] else value.splitOn 0x3A

/-- The names a client offers. -/
inductive Offers (o : ClientOptions) (t : Bytes) : Prop
  | listed {value : Bytes} (h : peerInfoValue o.peerInfo ivCiphers = some value)
      (ht : t ∈ entries value)
  | implied (h : ¬ HasLine o.peerInfo ivCiphers) (hv : 2 ≤ peerNCPVersion o.peerInfo)
      (ht : t = ascii "AES-256-GCM" ∨ t = ascii "AES-128-GCM")
  | occ (h : ¬ HasLine o.peerInfo ivCiphers) (ht : parseOCCCipher o.options = t) (hne : t ≠ [])

theorem cutPrefix_isSome (s pre : Bytes) : (cutPrefix s pre).isSome = true ↔ pre <+: s := by
  unfold cutPrefix
  split
  · next h => exact ⟨fun _ => List.isPrefixOf_iff_prefix.mp h, fun _ => rfl⟩
  · next h => exact ⟨nofun, fun hp => absurd (List.isPrefixOf_iff_prefix.mpr hp) h⟩

theorem hasLine_iff (peerInfo key : Bytes) :
    HasLine peerInfo key ↔ (peerInfoValue peerInfo key).isSome = true := by
  simp only [peerInfoValue, List.findSome?_isSome_iff, HasLine, cutPrefix_isSome]

theorem no_line_iff (peerInfo key : Bytes) :
    ¬ HasLine peerInfo key ↔ peerInfoValue peerInfo key = none := by
  rw [hasLine_iff]
  cases peerInfoValue peerInfo key <;> simp

section Choice

variable (U : Nat → Nat)

/-- The client offers a name that matches. -/
def Matched (o : ClientOptions) (c : Bytes) : Prop := ∃ t, Offers o t ∧ equalFold U t c = true

/-- What negotiation settles on. -/
def chosen (allow : List Bytes) (o : ClientOptions) : Option Bytes := (negotiate U allow o).toOption

/-! ## The test in the loop -/

/-- The test `selectCipher` makes of an entry. -/
def accepts (o : ClientOptions) (c : Bytes) : Bool :=
  containsFold U (peerCipherList o.peerInfo) c || equalFold U c (occCipher o)

theorem chosen_eq (allow : List Bytes) (o : ClientOptions) :
    chosen U allow o = allow.find? (accepts U o) := by
  unfold chosen negotiate selectCipher accepts
  cases allow.find? (fun c => containsFold U (peerCipherList o.peerInfo) c ||
    equalFold U c (occCipher o)) <;> rfl

variable {allow : List Bytes} {c : Bytes}

theorem accepts_listed {o : ClientOptions} {value : Bytes}
    (h : peerInfoValue o.peerInfo ivCiphers = some value) (hc : c ≠ []) :
    accepts U o c = true ↔ ∃ t ∈ entries value, equalFold U t c = true := by
  obtain ⟨b, bs, rfl⟩ := List.exists_cons_of_ne_nil hc
  have hocc : occCipher o = [] := by simp [occCipher, h]
  have hlist : peerCipherList o.peerInfo = entries value := by
    simp only [peerCipherList, h, entries]
  rw [accepts, hocc, hlist, equalFold_cons_nil, Bool.or_false, containsFold, List.any_eq_true]

theorem accepts_iff (o : ClientOptions) (hc : c ≠ []) : accepts U o c = true ↔ Matched U o c := by
  cases h : peerInfoValue o.peerInfo ivCiphers with
  | some value =>
    rw [accepts_listed U h hc]
    constructor
    · rintro ⟨t, ht, hm⟩
      exact ⟨t, .listed h ht, hm⟩
    · rintro ⟨t, hoff, hm⟩
      have hline : HasLine o.peerInfo ivCiphers := (hasLine_iff _ _).mpr (by rw [h]; rfl)
      cases hoff with
      | listed h' ht =>
        cases h.symm.trans h'
        exact ⟨t, ht, hm⟩
      | implied hno | occ hno => exact absurd hline hno
  | none =>
    have hno := (no_line_iff _ _).mpr h
    have hocc : occCipher o = parseOCCCipher o.options := by simp [occCipher, h]
    rw [accepts, hocc, Bool.or_eq_true, containsFold, List.any_eq_true, peerCipherList, h,
      equalFold_comm U c]
    constructor
    · rintro (⟨t, ht, hm⟩ | hm)
      · dsimp only at ht
        split at ht
        · next hv => exact ⟨t, .implied hno hv (by simpa using ht), hm⟩
        · cases ht
      · refine ⟨parseOCCCipher o.options, .occ hno rfl ?_, hm⟩
        -- no name is equal to the empty one
        intro hnil
        obtain ⟨b, bs, rfl⟩ := List.exists_cons_of_ne_nil hc
        rw [hnil, equalFold_comm] at hm
        cases hm
    · rintro ⟨t, hoff, hm⟩
      cases hoff with
      | listed h' => cases h.symm.trans h'
      | implied _ hv ht =>
        refine .inl ⟨t, ?_, hm⟩
        simpa [if_pos hv] using ht
      | occ _ ht => exact .inr (ht ▸ hm)

/-! ## The allow-list -/

theorem canonicalCipherName_supported {name : Bytes} (h : canonicalCipherName U name = some c) :
    c ∈ supportedDataCiphers := by
  unfold canonicalCipherName at h
  split at h
  · cases h
  · split at h
    · cases h
    · exact List.mem_of_find?_eq_some h

theorem resolveLoop_supported {names out : List Bytes} (hout : ∀ c ∈ out, c ∈ supportedDataCiphers)
    (h : resolveLoop U names out = .ok allow) : ∀ c ∈ allow, c ∈ supportedDataCiphers := by
  induction names generalizing out with
  | nil => cases h; exact hout
  | cons name rest ih =>
    unfold resolveLoop at h
    split at h
    · cases h
    · next canonical hname =>
        split at h
        · cases h
        · refine ih ?_ h
          intro c hc
          rcases List.mem_append.mp hc with hc | hc
          · exact hout c hc
          · rw [List.mem_singleton.mp hc]
            exact canonicalCipherName_supported U hname

theorem resolveDataCiphers_supported {dataCiphers : List Bytes} {cipher : Bytes}
    (h : resolveDataCiphers U dataCiphers cipher = .ok allow) :
    ∀ c ∈ allow, c ∈ supportedDataCiphers := by
  unfold resolveDataCiphers at h
  split at h
  · split at h
    · cases h; exact fun _ hc => hc
    · split at h
      · cases h
      · next canonical hname =>
          cases h
          intro c hc
          rw [List.mem_singleton.mp hc]
          exact canonicalCipherName_supported U hname
  · exact resolveLoop_supported U (by simp) h

theorem supported_ne_nil (h : c ∈ supportedDataCiphers) : c ≠ [] := by
  rintro rfl
  exact absurd h (by decide)

/-! ## The choice -/

/-- **The choice is the server's.** -/
structure ServersChoice (allow : List Bytes) : Prop where
  /-- The cipher is the first entry the client offers a match for. -/
  first : ∀ o c, chosen U allow o = some c → ∃ before after, allow = before ++ c :: after ∧
    Matched U o c ∧ ∀ d ∈ before, ¬ Matched U o d
  /-- Without one there is no such entry. -/
  fails : ∀ o, chosen U allow o = none → ∀ c ∈ allow, ¬ Matched U o c
  /-- Of the entries of `IV_CIPHERS` only the set counts. -/
  entries_only : ∀ o o' value value', peerInfoValue o.peerInfo ivCiphers = some value →
    peerInfoValue o'.peerInfo ivCiphers = some value' →
    (∀ t, t ∈ entries value ↔ t ∈ entries value') → chosen U allow o = chosen U allow o'
  /-- With an `IV_CIPHERS=` line the options string and the rest of the peer-info do not count. -/
  line_only : ∀ o o', HasLine o.peerInfo ivCiphers →
    peerInfoValue o'.peerInfo ivCiphers = peerInfoValue o.peerInfo ivCiphers →
    chosen U allow o = chosen U allow o'

theorem chosen_congr (hallow : ∀ c ∈ allow, c ∈ supportedDataCiphers) {o o' : ClientOptions}
    {value value' : Bytes} (h : peerInfoValue o.peerInfo ivCiphers = some value)
    (h' : peerInfoValue o'.peerInfo ivCiphers = some value')
    (hset : ∀ t, t ∈ entries value ↔ t ∈ entries value') :
    chosen U allow o = chosen U allow o' := by
  rw [chosen_eq, chosen_eq]
  induction allow with
  | nil => rfl
  | cons c allow ih =>
    have hne := supported_ne_nil (hallow c List.mem_cons_self)
    have hiff : accepts U o c = accepts U o' c := by
      rw [Bool.eq_iff_iff, accepts_listed U h hne, accepts_listed U h' hne]
      simp only [hset]
    rw [List.find?_cons, List.find?_cons, hiff, ih fun d hd => hallow d (List.mem_cons_of_mem _ hd)]

/-- It is so for every list `resolveDataCiphers` returns: its entries are supported names. -/
theorem serversChoice_resolved {dataCiphers : List Bytes} {cipher : Bytes} {allow : List Bytes}
    (h : resolveDataCiphers U dataCiphers cipher = .ok allow) : ServersChoice U allow := by
  have hallow := resolveDataCiphers_supported U h
  have hiff : ∀ o, ∀ c ∈ allow, (accepts U o c = true ↔ Matched U o c) :=
    fun o c hc => accepts_iff U o (supported_ne_nil (hallow c hc))
  refine ⟨?_, ?_, ?_, ?_⟩
  · intro o c hc
    rw [chosen_eq, List.find?_eq_some_iff_append] at hc
    obtain ⟨hacc, before, after, heq, hbefore⟩ := hc
    refine ⟨before, after, heq, (hiff o c (by simp [heq])).mp hacc, fun d hd hm => ?_⟩
    have := hbefore d hd
    rw [(hiff o d (by simp [heq, hd])).mpr hm] at this
    cases this
  · intro o hnone c hc hm
    rw [chosen_eq, List.find?_eq_none] at hnone
    exact hnone c hc ((hiff o c hc).mpr hm)
  · intro o o' value value' hv hv' hset
    exact chosen_congr U hallow hv hv' hset
  · intro o o' hline hsame
    obtain ⟨value, hv⟩ := Option.isSome_iff_exists.mp ((hasLine_iff _ _).mp hline)
    exact chosen_congr U hallow hv (hsame.trans hv) fun _ => Iff.rfl

/-- Both names in the server's order, and a client that lists them in its own. -/
theorem serversChoice_default :
    ServersChoice id [ascii "AES-128-GCM", ascii "AES-256-GCM"] ∧
      chosen id [ascii "AES-128-GCM", ascii "AES-256-GCM"]
        ⟨[], ascii "IV_CIPHERS=AES-256-GCM:aes-128-gcm"⟩ = some (ascii "AES-128-GCM") :=
  ⟨@serversChoice_resolved id [ascii "aes-128-gcm", ascii "AES-256-GCM"] [] _ (by decide +kernel),
    by decide +kernel⟩

/-! ## Which names match -/

/-- The name spells the entry, up to the case of letters and a long s for an `S`. -/
def Spells (t c : Bytes) : Prop := Caseless (unlong t) c

/-- It does so with a long s. -/
def LongSpelling (t c : Bytes) : Prop := unlong t ≠ t ∧ Spells t c

/-- The first entry that some name of the client's spells. -/
def FirstSpelled (allow : List Bytes) (o : ClientOptions) (c : Bytes) : Prop :=
  ∃ before after, allow = before ++ c :: after ∧ (∃ t, Offers o t ∧ Spells t c)
    ∧ ∀ d ∈ before, ∀ t, Offers o t → ¬ Spells t d

theorem supported_plain (h : c ∈ supportedDataCiphers) : ∀ b ∈ c, Plain b := by
  revert c
  decide +kernel

theorem supported_bytes (h : c ∈ supportedDataCiphers) :
    isCipherNameByteSet (c.map lower) = true := by
  revert c
  decide

theorem isCipherNameByte_of_lower {b : UInt8} (h : isCipherNameByte (lower b) = true) :
    isCipherNameByte b = true := by
  simp only [isCipherNameByte, Bool.or_eq_true, Bool.and_eq_true, decide_eq_true_eq, beq_iff_eq,
    UInt8.le_iff_toNat_le, ← UInt8.toNat_inj, UInt8.reduceToNat, toNat_lower] at h ⊢
  split at h <;> omega

theorem Caseless.cipherNameByteSet {t : Bytes} (hc : c ∈ supportedDataCiphers) (h : Caseless t c) :
    isCipherNameByteSet t = true := by
  have hset := supported_bytes hc
  rw [← h] at hset
  simp only [isCipherNameByteSet, List.all_map, List.all_eq_true, Function.comp_apply] at hset ⊢
  exact fun b hb => isCipherNameByte_of_lower (hset b hb)

/-- Negotiation selects the entry `c`, and the name `t`, which the client offers, is by itself
enough for that. -/
structure SelectedBy (allow : List Bytes) (o : ClientOptions) (c t : Bytes) : Prop where
  selected : negotiate U allow o = .ok c
  offered : Offers o t
  enough : selectCipher U [c] [t] [] = .ok c

/-- **Names match in ASCII only**: a name on the basis of which an entry is selected is that entry
but for the case of letters, and keeps to the names' alphabet. -/
structure AsciiNames (allow : List Bytes) (o : ClientOptions) : Prop where
  caseless : ∀ c t, SelectedBy U allow o c t → t.length = c.length ∧ Caseless t c
  alphabet : ∀ c t, SelectedBy U allow o c t → isCipherNameByteSet t = true

theorem selectCipher_singleton (hc : c ∈ supportedDataCiphers) (t : Bytes) :
    selectCipher U [c] [t] [] = .ok c ↔ Spells t c := by
  obtain ⟨b, bs, rfl⟩ := List.exists_cons_of_ne_nil (supported_ne_nil hc)
  rw [Spells, ← equalFold_plain U (supported_plain hc)]
  cases hm : equalFold U t (b :: bs) <;> simp [selectCipher, containsFold, hm, equalFold_cons_nil]

theorem negotiate_iff (hallow : ∀ c ∈ allow, c ∈ supportedDataCiphers) (o : ClientOptions)
    (c : Bytes) : negotiate U allow o = .ok c ↔ FirstSpelled allow o c := by
  have hiff : ∀ d ∈ allow, (accepts U o d = true ↔ ∃ t, Offers o t ∧ Spells t d) := by
    intro d hd
    rw [accepts_iff U o (supported_ne_nil (hallow d hd)), Matched]
    simp only [equalFold_plain U (supported_plain (hallow d hd)), Spells]
  have hchosen : negotiate U allow o = .ok c ↔ chosen U allow o = some c := by
    unfold chosen
    cases negotiate U allow o <;> simp [Except.toOption]
  rw [hchosen, chosen_eq, List.find?_eq_some_iff_append]
  constructor
  · rintro ⟨hacc, before, after, rfl, hbefore⟩
    refine ⟨before, after, rfl, (hiff c (by simp)).mp hacc, fun d hd t ht hs => ?_⟩
    have hno := hbefore d hd
    rw [(hiff d (by simp [hd])).mpr ⟨t, ht, hs⟩] at hno
    cases hno
  · rintro ⟨before, after, rfl, hsome, hbefore⟩
    refine ⟨(hiff c (by simp)).mpr hsome, before, after, rfl, fun d hd => ?_⟩
    rw [Bool.not_eq_true', Bool.eq_false_iff]
    intro hacc
    obtain ⟨t, ht, hs⟩ := (hiff d (by simp [hd])).mp hacc
    exact hbefore d hd t ht hs

/-- It is so exactly where the entry that is selected, the first one spelled, is not spelled with
a long s. -/
theorem asciiNames_iff {allow : List Bytes} (hallow : ∀ c ∈ allow, c ∈ supportedDataCiphers)
    (o : ClientOptions) :
    AsciiNames U allow o ↔
      ∀ c, FirstSpelled allow o c → ∀ t, Offers o t → ¬ LongSpelling t c := by
  have hmem : ∀ {c}, FirstSpelled allow o c → c ∈ supportedDataCiphers := by
    rintro c ⟨before, after, rfl, -⟩
    exact hallow c (by simp)
  constructor
  · rintro h c hfirst t ht ⟨hne, hlong⟩
    have henough := (selectCipher_singleton U (hmem hfirst) t).mpr hlong
    obtain ⟨hlen, -⟩ := h.caseless c t ⟨(negotiate_iff U hallow o c).mpr hfirst, ht, henough⟩
    exact hne (unlong_eq_self (by rw [Caseless.length_eq hlong, hlen]))
  · intro h
    have hsame : ∀ c t, SelectedBy U allow o c t → c ∈ supportedDataCiphers ∧ Caseless t c := by
      intro c t hsel
      have hfirst := (negotiate_iff U hallow o c).mp hsel.selected
      have hspells := (selectCipher_singleton U (hmem hfirst) t).mp hsel.enough
      refine ⟨hmem hfirst, ?_⟩
      by_cases hself : unlong t = t
      · rwa [Spells, hself] at hspells
      · exact absurd ⟨hself, hspells⟩ (h c hfirst t hsel.offered)
    refine ⟨fun c t hsel => ?_, fun c t hsel => ?_⟩
    · exact ⟨(hsame c t hsel).2.length_eq, (hsame c t hsel).2⟩
    · exact Caseless.cipherNameByteSet (hsame c t hsel).1 (hsame c t hsel).2

/-- A client that offers the first entry as it is, and spells the second one with a long s. -/
def longSecond : Bytes := ascii "AES-256-GCM:AE" ++ [0xC5, 0xBF] ++ ascii "-128-GCM"

/-- The server selects the first entry, which the client spelled in ASCII. -/
theorem asciiNames_longSecond :
    AsciiNames id supportedDataCiphers ⟨[], ivCiphers ++ longSecond⟩ := by
  refine (asciiNames_iff id (fun _ hc => hc) _).mpr ?_
  have hvalue : peerInfoValue (ivCiphers ++ longSecond) ivCiphers = some longSecond := by
    decide +kernel
  have hfirst : ascii "AES-256-GCM" ∈ entries longSecond := by decide +kernel
  have hno : ∀ t ∈ entries longSecond, ¬ LongSpelling t (ascii "AES-256-GCM") := by
    unfold LongSpelling Spells Caseless
    decide +kernel
  rintro c ⟨before, after, heq, -, hbefore⟩ t hoff
  cases before with
  | cons d before =>
    -- the first entry is spelled, so that no later one is the first
    obtain rfl : ascii "AES-256-GCM" = d := (List.cons.inj heq).1
    have hspelled : Spells (ascii "AES-256-GCM") (ascii "AES-256-GCM") := by
      unfold Spells Caseless
      decide +kernel
    exact absurd hspelled (hbefore _ List.mem_cons_self _ (.listed hvalue hfirst))
  | nil =>
    cases heq
    cases hoff with
    | listed h ht =>
      cases hvalue.symm.trans h
      exact hno t ht
    | implied h | occ h => exact absurd ((hasLine_iff _ _).mpr (by rw [hvalue]; rfl)) h

/-- `AEſ-256-GCM`, with the long s as its third letter, twelve bytes long. -/
def longName : Bytes := ascii "AE" ++ [0xC5, 0xBF] ++ ascii "-256-GCM"

/-- A client that offers nothing but that name gets AES-256-GCM. -/
theorem longName_selected :
    Offers ⟨[], ivCiphers ++ longName⟩ longName ∧
      negotiate id supportedDataCiphers ⟨[], ivCiphers ++ longName⟩ = .ok (ascii "AES-256-GCM") ∧
      longName.length ≠ (ascii "AES-256-GCM").length ∧ isCipherNameByteSet longName = false :=
  ⟨.listed (show peerInfoValue (ivCiphers ++ longName) ivCiphers = some longName by decide +kernel)
    (by decide +kernel), by decide +kernel, by decide +kernel, by decide +kernel⟩

end Choice

end GoVpn.Proof
