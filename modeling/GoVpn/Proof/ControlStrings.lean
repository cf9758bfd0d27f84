import GoVpn.Ovpn.Push
import GoVpn.Proof.PoolNetwork

/-!
# Control strings on the wire

A control string has no length before it, only a NUL after it. So the strings of a stream can be
told apart as long as none holds a NUL, and `readControlString` gets through as long as none is too
long. Everything the server sends is made of pieces that hold no NUL and are short: literals,
decimal numbers, the name of a cipher, and a reason cleared of control bytes and cut off.
-/

namespace GoVpn.Proof

open GoVpn.Control (Bytes)
open Ovpn
open Utf8 (ascii)

/-- No NUL, and at most `n` bytes. -/
structure Text (n : Nat) (s : Bytes) : Prop where
  noNul : 0 ∉ s
  length : s.length ≤ n

/-- `n` times `readControlString`. -/
def readControlStrings :
    Nat → BufReader UInt8 → List (Except ControlStringErr Bytes) × BufReader UInt8
  | 0, r => ([], r)
  | n + 1, r =>
    let (s, r) := readControlString r maxControlStringLen
    let (ss, r) := readControlStrings n r
    (s :: ss, r)

/-! ## Reading -/

variable {r : BufReader UInt8}

variable {cipher rest s : Bytes} {k m max n : Nat}

theorem readControlString_marked (hs : 0 ∉ s) (hlen : s.length < max)
    (h : r.contents = writeControlString s ++ rest) :
    ∃ r', readControlString r max = (.ok s, r') ∧ r'.contents = rest := by
  rw [writeControlString, List.append_assoc, List.singleton_append] at h
  obtain ⟨r', hread, hrest⟩ := BufReader.readTo_marked hs hlen h
  refine ⟨r', ?_, hrest⟩
  unfold readControlString
  rw [hread]

theorem readControlString_exceeds (hlen : max ≤ r.contents.length) (h : 0 ∉ r.contents.take max) :
    ∃ r', readControlString r max = (.error (.exceeds max), r') ∧
    r'.contents = r.contents.drop max := by
  obtain ⟨r', hread, hrest⟩ := BufReader.readTo_full h (List.take_append_drop max r.contents).symm
  rw [List.length_take_of_le hlen] at hread
  refine ⟨r', ?_, hrest⟩
  unfold readControlString
  rw [hread]

theorem readControlStrings_written {ss : List Bytes}
    (hss : ∀ s ∈ ss, 0 ∉ s ∧ s.length < maxControlStringLen)
    (h : r.contents = (ss.map writeControlString).flatten ++ rest) :
    ∃ r', readControlStrings ss.length r = (ss.map .ok, r') ∧ r'.contents = rest := by
  induction ss generalizing r with
  | nil => exact ⟨r, rfl, h⟩
  | cons s ss ih =>
    obtain ⟨hs, hss⟩ := List.forall_mem_cons.mp hss
    rw [List.map_cons, List.flatten_cons, List.append_assoc] at h
    obtain ⟨r₁, hread, hrest⟩ := readControlString_marked hs.1 hs.2 h
    obtain ⟨r', hreads, hr'⟩ := ih hss hrest
    refine ⟨r', ?_, hr'⟩
    rw [List.length_cons, readControlStrings, hread]
    dsimp only
    rw [hreads]
    rfl

/-! ## Pieces -/

theorem Text.mono (h : Text m s) (hmn : m ≤ n) : Text n s :=
  ⟨h.noNul, Nat.le_trans h.length hmn⟩

theorem Text.append {t : Bytes} (hs : Text m s) (ht : Text n t) : Text (m + n) (s ++ t) where
  noNul := fun h => (List.mem_append.mp h).elim hs.noNul ht.noNul
  length := by
    rw [List.length_append]
    exact Nat.add_le_add hs.length ht.length

theorem Text.intercalate {sep : Bytes} {ss : List Bytes} (hsep : Text m sep)
    (h : ∀ s ∈ ss, Text k s) : Text ((k + m) * ss.length) (sep.intercalate ss) := by
  induction ss with
  | nil => exact ⟨List.not_mem_nil, Nat.le_refl _⟩
  | cons s ss ih =>
    obtain ⟨hs, hss⟩ := List.forall_mem_cons.mp h
    cases ss with
    | nil =>
      rw [List.intercalate_singleton]
      exact hs.mono (by simp)
    | cons t ss =>
      rw [List.intercalate_cons_cons]
      refine ((hs.append hsep).append (ih hss)).mono ?_
      rw [List.length_cons, List.length_cons, List.length_cons, Nat.mul_succ _ (ss.length + 1)]
      omega

theorem text_decimal (hk : 0 < k) (hn : n < 10 ^ k) : Text k (decimal n) where
  noNul := by
    intro h
    obtain ⟨c, hc, hzero⟩ := List.mem_map.mp h
    have hdigit := Nat.isDigit_of_mem_toDigits (by decide) (by decide) hc
    simp only [Char.isDigit, Bool.and_eq_true, decide_eq_true_eq, ge_iff_le,
      UInt32.le_iff_toNat_le] at hdigit
    have hnat := congrArg UInt8.toNat hzero
    rw [UInt8.toNat_ofNat'] at hnat
    have hlow : 48 ≤ c.toNat := hdigit.1
    have hhigh : c.toNat ≤ 57 := hdigit.2
    have hnul : (0 : UInt8).toNat = 0 := rfl
    omega
  length := by
    rw [decimal, List.length_map]
    exact (Nat.length_toDigits_le_iff (by decide) hk).mpr hn

theorem text_decimalInt (n : BitVec 64) : Text 20 (decimalInt n) := by
  have hlow := BitVec.le_toInt n
  have hhigh := BitVec.toInt_lt (x := n)
  have habs : n.toInt.natAbs < 10 ^ 19 := by omega
  unfold decimalInt
  split
  · exact Text.append ⟨by decide, by decide⟩ (text_decimal (by decide) habs)
  · exact (text_decimal (by decide) habs).mono (by decide)

theorem text_ipString {ip : Bytes} (h : ip.length = ipv4Len) : Text 16 (ipString ip) := by
  have hbytes : ∀ s ∈ ip.map fun b => decimal b.toNat, Text 3 s := by
    intro s hs
    obtain ⟨b, -, rfl⟩ := List.mem_map.mp hs
    exact text_decimal (by decide) (Nat.lt_trans b.toNat_lt (by decide))
  have hdot : Text 1 (ascii ".") := ⟨by decide, by decide⟩
  have htext := hdot.intercalate hbytes
  rw [List.length_map, h] at htext
  exact htext

theorem text_cipher (h : cipher ∈ supportedDataCiphers) : Text 11 cipher := by
  rcases List.mem_cons.mp h with rfl | h
  · exact ⟨by decide, by decide⟩
  · rw [List.mem_singleton.mp h]
    exact ⟨by decide, by decide⟩

/-! ## What the server sends -/

theorem buildPushReply_written {clientIP : Bytes} {network : IPNet}
    (hip : clientIP.length = ipv4Len) (hmask : (normalizeIPv4Mask network.mask).length = ipv4Len)
    (hcipher : Text 11 cipher) (peerID : PeerID) (peerSupportsNCP : Bool)
    (pingSeconds pingRestartSeconds : BitVec 64) :
    ∃ s, buildPushReply clientIP network peerID cipher peerSupportsNCP pingSeconds
      pingRestartSeconds
        = writeControlString s ∧ Text 301 s := by
  have hfirst : ∀ s ∈ [ascii "PUSH_REPLY",
      ascii "ifconfig " ++ ipString clientIP ++ ascii " " ++
        ipString (normalizeIPv4Mask network.mask),
      ascii "topology subnet", ascii "peer-id " ++ decimal peerID.toNat], Text 42 s := by
    have hid : peerID.toNat < 10 ^ 10 := Nat.lt_trans peerID.isLt (by decide)
    have hifconfig : Text 9 (ascii "ifconfig ") := ⟨by decide, by decide⟩
    have hblank : Text 1 (ascii " ") := ⟨by decide, by decide⟩
    have hpeer : Text 8 (ascii "peer-id ") := ⟨by decide, by decide⟩
    simp only [List.forall_mem_cons]
    refine ⟨⟨by decide, by decide⟩, ?_, ⟨by decide, by decide⟩, ?_, fun s hs => by cases hs⟩
    · exact ((hifconfig.append (text_ipString hip)).append hblank).append (text_ipString hmask)
    · exact (hpeer.append (text_decimal (by decide) hid)).mono (by decide)
  have hcipherOpt : Text 42 (ascii "cipher " ++ cipher) :=
    (Text.append (m := 7) ⟨by decide, by decide⟩ hcipher).mono (by decide)
  have hlast : ∀ s ∈ [ascii "ping " ++ decimalInt pingSeconds,
      ascii "ping-restart " ++ decimalInt pingRestartSeconds], Text 42 s := by
    have hping : Text 5 (ascii "ping ") := ⟨by decide, by decide⟩
    have hrestart : Text 13 (ascii "ping-restart ") := ⟨by decide, by decide⟩
    simp only [List.forall_mem_cons]
    refine ⟨?_, ?_, fun s hs => by cases hs⟩
    · exact (hping.append (text_decimalInt _)).mono (by decide)
    · exact (hrestart.append (text_decimalInt _)).mono (by decide)
  have hcomma : Text 1 (ascii ",") := ⟨by decide, by decide⟩
  refine ⟨_, rfl, ?_⟩
  cases peerSupportsNCP with
  | true =>
    refine (hcomma.intercalate (k := 42) ?_).mono (show (42 + 1) * 7 ≤ 301 by decide)
    refine List.forall_mem_append.mpr ⟨List.forall_mem_append.mpr ⟨hfirst, ?_⟩, hlast⟩
    exact fun s hs => List.mem_singleton.mp hs ▸ hcipherOpt
  | false =>
    refine (hcomma.intercalate (k := 42) ?_).mono (show (42 + 1) * 6 ≤ 301 by decide)
    exact List.forall_mem_append.mpr ⟨hfirst, hlast⟩

theorem text_sanitizeAuthClientReason (reason : Bytes) :
    Text 128 (sanitizeAuthClientReason reason) := by
  have hnul : 0 ∉ reason.filter fun c => !(decide (c < 0x20) || c == 0x7F) := fun h =>
    absurd (List.mem_filter.mp h).2 (by decide)
  unfold sanitizeAuthClientReason maxAuthClientReasonLen
  dsimp only
  split
  · exact ⟨fun h => hnul (List.mem_of_mem_take h), List.length_take_le _ _⟩
  · next hlen => exact ⟨hnul, Nat.not_lt.mp hlen⟩

theorem text_buildAuthFailed (clientReason : Bytes) : Text 140 (buildAuthFailed clientReason) := by
  have hliteral : Text 11 authFailedLiteral := ⟨by decide, by decide⟩
  have hcomma : Text 1 (ascii ",") := ⟨by decide, by decide⟩
  unfold buildAuthFailed
  dsimp only
  split
  · exact hliteral.mono (by decide)
  · exact (hliteral.append hcomma).append (text_sanitizeAuthClientReason clientReason)

/-! ## The main theorem -/

/-- What keeps the strings of a stream apart. -/
structure ControlStringsApart : Prop where
  /-- Strings that were written are read back, with whatever fills and whatever comes after them. -/
  readBack : ∀ (ss : List Bytes) (rest : Bytes) (r : BufReader UInt8),
    (∀ s ∈ ss, 0 ∉ s ∧ s.length < maxControlStringLen) →
    r.contents = (ss.map writeControlString).flatten ++ rest →
    ∃ r', readControlStrings ss.length r = (ss.map .ok, r') ∧ r'.contents = rest
  /-- The reply to a `PUSH_REQUEST` is such a string, for every address and every network a pool
  can be made of. -/
  pushReply : ∀ (clientIP : IPv4) (network : IPNet) (p : IpPool) (peerID : PeerID) (cipher : Bytes)
    (peerSupportsNCP : Bool) (pingSeconds pingRestartSeconds : BitVec 64),
    IPNet.newIPPool (some network) = .ok p → cipher ∈ supportedDataCiphers →
    ∃ s, buildPushReply (offsetToIP clientIP) network peerID cipher peerSupportsNCP pingSeconds
        pingRestartSeconds = writeControlString s ∧ 0 ∉ s ∧ s.length < maxControlStringLen
  /-- A refusal is one, whatever reason the hook gives. -/
  authFailed : ∀ clientReason : Bytes,
    0 ∉ buildAuthFailed clientReason ∧ (buildAuthFailed clientReason).length < maxControlStringLen
  /-- Without a NUL the reader gives up after as many bytes as it takes, and no sooner. -/
  exceeds : ∀ r : BufReader UInt8, maxControlStringLen ≤ r.contents.length →
    0 ∉ r.contents.take maxControlStringLen →
    ∃ r', readControlString r maxControlStringLen = (.error (.exceeds maxControlStringLen), r')
      ∧ r'.contents = r.contents.drop maxControlStringLen

/-- **Control strings cannot be confused on the wire.** -/
theorem controlStrings_apart : ControlStringsApart where
  readBack := fun _ _ _ hss h => readControlStrings_written hss h
  pushReply := by
    intro clientIP network p peerID cipher peerSupportsNCP pingSeconds pingRestartSeconds hp hcipher
    obtain ⟨ip4, k, hover, -⟩ := poolOver_new hp
    obtain ⟨s, hs, htext⟩ := buildPushReply_written (BigEndian.length_put _ _) hover.mask
      (text_cipher hcipher) peerID peerSupportsNCP pingSeconds pingRestartSeconds
    exact ⟨s, hs, htext.noNul, Nat.lt_of_le_of_lt htext.length (by decide)⟩
  authFailed := by
    intro clientReason
    have htext := text_buildAuthFailed clientReason
    exact ⟨htext.noNul, Nat.lt_of_le_of_lt htext.length (by decide)⟩
  exceeds := fun _ hlen h => readControlString_exceeds hlen h

end GoVpn.Proof
