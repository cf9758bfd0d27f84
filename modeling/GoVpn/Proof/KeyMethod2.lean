import GoVpn.Ovpn.Push

/-!
# The Key Method 2 message is read exactly

A message is its fields one after the other, so a reader that takes each of them exactly takes the
message exactly, however the stream is cut into reads. The reader is then at the first byte after
it, which is where the client's `PUSH_REQUEST` starts.
-/

namespace GoVpn.Proof

open GoVpn.Control (Bytes)
open Data
open BufReader (Part Exact exact_readFull exact_pure)

/-- The client's message, with what the layout asks of its fields. -/
structure KeyMessage where
  reserved : Part UInt8 4
  method : UInt8
  src : KeySource
  opts : ClientOptions
  method_nibble : method.toNat % 16 = 2
  options_le : opts.options.length ≤ 512
  username_le : opts.username.length ≤ 512
  password_le : opts.password.length ≤ 512
  peerInfo_le : opts.peerInfo.length ≤ 512

/-- A string behind its length. -/
def lengthPrefixed (s : Bytes) : Bytes := BigEndian.put 2 s.length ++ s

def KeyMessage.encode (m : KeyMessage) : Bytes :=
  List.flatten [m.reserved.val, [m.method], m.src.preMaster.val, m.src.random1.val,
    m.src.random2.val,
    lengthPrefixed m.opts.options, lengthPrefixed m.opts.username, lengthPrefixed m.opts.password,
    lengthPrefixed m.opts.peerInfo]

/-- What the exchange needs of `ReadClientKeyMethod2`, of a stream cut into any reads. -/
structure KeyMethod2Exact : Prop where
  accepts : ∀ r, (∃ res r', readClientKeyMethod2 r = (.ok res, r')) ↔
    ∃ (m : KeyMessage) (rest : Bytes), r.contents = m.encode ++ rest
  /-- The fields come back as they are, and the next read takes the byte after the message. -/
  returns : ∀ r (m : KeyMessage) (rest : Bytes), r.contents = m.encode ++ rest →
    ∃ r', readClientKeyMethod2 r = (.ok (m.src, m.opts), r') ∧ r'.contents = rest
      ∧ ∀ b rest', rest = b :: rest' → ∃ r'', r'.read = some (b, r'') ∧ r''.contents = rest'
  unfinished : ∀ r (m : KeyMessage), r.contents <+: m.encode → r.contents ≠ m.encode →
    ∃ e r', readClientKeyMethod2 r = (.error e, r')
  /-- The server's method reads no other message, and the reader that it returns is after it. -/
  server : ∀ tlsConn tlsReader src opts,
    Ovpn.readClientKeyMethod2 tlsConn = .ok (tlsReader, src, opts) →
    ∃ m : KeyMessage, m.src = src ∧ m.opts = opts ∧ tlsConn.flatten = m.encode ++ tlsReader.contents
  server_accepts : ∀ tlsConn (m : KeyMessage) (rest : Bytes), tlsConn.flatten = m.encode ++ rest →
    ∃ tlsReader, Ovpn.readClientKeyMethod2 tlsConn = .ok (tlsReader, m.src, m.opts)
      ∧ tlsReader.contents = rest

/-! ## One field -/

theorem readFull_exact (n : Nat) : Exact (readFull n) fun v bs => bs = v.val :=
  (exact_readFull n).adapt KeyMethodErr.read

theorem part_one (v : Part UInt8 1) : v.val = [v.head] := by
  obtain ⟨as, has⟩ := v
  obtain ⟨a, rfl⟩ := List.length_eq_one_iff.mp has
  rfl

theorem length_eq_get_iff {s bs : Bytes} (hs : s.length ≤ 512) (hbs : bs.length = 2) :
    s.length = BigEndian.get bs ↔ bs = BigEndian.put 2 s.length := by
  constructor
  · intro h
    rw [h, ← hbs, BigEndian.put_get]
  · intro h
    rw [h, BigEndian.get_put]
    omega

theorem readLengthPrefixedString_exact :
    Exact readLengthPrefixedString fun s bs => s.length ≤ 512 ∧ bs = lengthPrefixed s := by
  refine ((readFull_exact 2).bind fun lenBuf => .ite (exact_pure []) (.guard
    ((readFull_exact _).bind fun buf => exact_pure _) _)).congr fun s bs => ?_
  simp only [existsAndEq, true_and, and_true, List.append_nil]
  constructor
  · rintro ⟨lenBuf, ys, h, rfl⟩
    -- also a string of no bytes has the length that was read
    have hs : s.length = BigEndian.get lenBuf.val ∧ s.length ≤ 512 ∧ ys = s := by
      split at h
      · next hn =>
        obtain ⟨rfl, rfl⟩ := h
        exact ⟨hn.symm, Nat.zero_le _, rfl⟩
      · obtain ⟨hle, buf, rfl, rfl⟩ := h
        exact ⟨buf.2, by rw [buf.2]; exact Nat.le_of_not_lt hle, rfl⟩
    obtain ⟨hlen, hle, rfl⟩ := hs
    exact ⟨hle, by rw [lengthPrefixed, ← (length_eq_get_iff hle lenBuf.2).mp hlen]⟩
  · rintro ⟨hle, rfl⟩
    refine ⟨⟨_, BigEndian.length_put 2 s.length⟩, s, ?_, rfl⟩
    rw [← (length_eq_get_iff hle (BigEndian.length_put 2 _)).mpr rfl]
    split
    · next hn => exact ⟨List.length_eq_zero_iff.mp hn, List.length_eq_zero_iff.mp hn⟩
    · exact ⟨Nat.not_lt.mpr hle, ⟨s, rfl⟩, rfl, rfl⟩

/-! ## The message -/

theorem nibble_iff (b : UInt8) : b &&& keyMethodMask = keyMethod2 ↔ b.toNat % 16 = 2 := by
  rw [← UInt8.toNat_inj, UInt8.toNat_and]
  show b.toNat &&& (2 ^ 4 - 1) = 2 ↔ _
  rw [Nat.and_two_pow_sub_one_eq_mod]

theorem readClientKeyMethod2_exact : Exact readClientKeyMethod2 fun res bs =>
    ∃ m : KeyMessage, res = (m.src, m.opts) ∧ bs = m.encode := by
  refine ((readFull_exact 4).bind fun reserved => (readFull_exact 1).bind fun methodByte => .guard
    ((readFull_exact 48).bind fun preMaster => (readFull_exact 32).bind fun random1 =>
    (readFull_exact 32).bind fun random2 => readLengthPrefixedString_exact.bind fun options =>
    readLengthPrefixedString_exact.bind fun username =>
      readLengthPrefixedString_exact.bind fun password =>
    readLengthPrefixedString_exact.bind fun peerInfo => exact_pure _) _).congr fun res bs => ?_
  simp only [existsAndEq, true_and, and_true, and_assoc, List.append_nil, Decidable.not_not,
    nibble_iff]
  constructor
  · rintro ⟨reserved, methodByte, preMaster, random1, random2, options, username, password,
      peerInfo, hmethod, ho, hu, hp, hi, rfl, rfl⟩
    refine ⟨⟨reserved, methodByte.head, _, _, hmethod, ho, hu, hp, hi⟩, rfl, ?_⟩
    rw [part_one methodByte]
    simp [KeyMessage.encode]
  · rintro ⟨⟨reserved, method, src, opts, hmethod, ho, hu, hp, hi⟩, rfl, rfl⟩
    exact ⟨reserved, ⟨[method], rfl⟩, src.preMaster, src.random1, src.random2, opts.options,
      opts.username, opts.password, opts.peerInfo, hmethod, ho, hu, hp, hi, rfl,
        by simp [KeyMessage.encode]⟩

theorem readClientKeyMethod2_encode {r : BufReader UInt8} {m : KeyMessage} {rest : Bytes}
    (h : r.contents = m.encode ++ rest) :
    ∃ r', readClientKeyMethod2 r = (.ok (m.src, m.opts), r') ∧ r'.contents = rest :=
  readClientKeyMethod2_exact.complete ⟨m, rfl, rfl⟩ h

/-- **The message is read exactly.** -/
theorem keyMethod2_exact : KeyMethod2Exact where
  accepts r := by
    constructor
    · rintro ⟨res, r', h⟩
      obtain ⟨_, ⟨m, -, rfl⟩, hr⟩ := readClientKeyMethod2_exact.sound h
      exact ⟨m, r'.contents, hr⟩
    · rintro ⟨m, rest, hr⟩
      obtain ⟨r', h, -⟩ := readClientKeyMethod2_encode hr
      exact ⟨_, r', h⟩
  returns r m rest hr := by
    obtain ⟨r', h, hrest⟩ := readClientKeyMethod2_encode hr
    refine ⟨r', h, hrest, fun b rest' hb => ?_⟩
    obtain ⟨r'', hread, hc, -⟩ := BufReader.read_of_contents (hrest.trans hb)
    exact ⟨r'', hread, hc⟩
  unfinished r m := readClientKeyMethod2_exact.unfinished ⟨m, rfl, rfl⟩
  server tlsConn tlsReader src opts h := by
    unfold Ovpn.readClientKeyMethod2 at h
    split at h
    · next hread =>
      cases h
      obtain ⟨_, ⟨m, hres, rfl⟩, hc⟩ := readClientKeyMethod2_exact.sound hread
      cases hres
      exact ⟨m, rfl, rfl, hc⟩
    · cases h
  server_accepts tlsConn m rest hc := by
    obtain ⟨tlsReader, hread, hrest⟩ := readClientKeyMethod2_encode (r := ⟨[], tlsConn⟩) hc
    exact ⟨tlsReader, by rw [Ovpn.readClientKeyMethod2, hread], hrest⟩

end GoVpn.Proof
