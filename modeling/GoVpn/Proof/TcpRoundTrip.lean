import GoVpn.Netstack.TcpWire

/-!
# TCP segments on the wire and back

The options of a segment are read as a list: padding, a maximum segment size, or anything else that
brings its own length, until there is nothing left or an end marker, behind which anything may
stand. `Options` says what such a region looks like without saying how it is read. The walk of
`parseTCP` takes an option at a time, so it ends, never reads outside its region, and accepts
exactly the regions of that shape.
-/

namespace GoVpn.Proof

open Netstack

/-! ## Options -/

inductive TcpOption
  | nop
  | mss (value : BitVec 16)
  | other (kind : UInt8) (data : Bytes)

namespace TcpOption

/-- An option of another kind is none of the three `parseTCP` knows, and its length fits a byte. -/
def Ok : TcpOption → Prop
  | nop => True
  | mss _ => True
  | other kind data =>
    kind ≠ optionKindEnd ∧ kind ≠ optionKindNop ∧ kind ≠ mssOptionKind ∧ data.length + 2 < 256

def bytes : TcpOption → Bytes
  | nop => [optionKindNop]
  | mss value => mssOptionKind :: UInt8.ofNat mssOptionLen :: BigEndian.put 2 value.toNat
  | other kind data => kind :: UInt8.ofNat (data.length + 2) :: data

def value : TcpOption → Option (BitVec 16)
  | mss value => some value
  | _ => none

theorem length_bytes_pos (o : TcpOption) : 0 < o.bytes.length := by
  cases o <;> simp [bytes]

end TcpOption

/-- The region holds the options `os`, and then ends or has an end marker. -/
structure Options (region : Bytes) (os : List TcpOption) : Prop where
  ok : ∀ o ∈ os, o.Ok
  layout : ∃ tail, region = os.flatMap TcpOption.bytes ++ tail ∧
    (tail = [] ∨ ∃ rest, tail = optionKindEnd :: rest)

/-- The value of the last maximum segment size among the options. -/
def lastMSS (os : List TcpOption) : Option (BitVec 16) := (os.filterMap TcpOption.value).getLast?

theorem lastMSS_cons (o : TcpOption) (os : List TcpOption) (found : Option (BitVec 16)) :
    (lastMSS (o :: os)).or found = (lastMSS os).or (o.value.or found) := by
  unfold lastMSS
  cases hv : o.value with
  | none => rw [List.filterMap_cons_none hv, Option.none_or]
  | some v =>
    rw [List.filterMap_cons_some hv, List.getLast?_cons]
    cases (List.filterMap TcpOption.value os).getLast? <;> rfl

variable {b region : Bytes}

theorem Options.nil (h : region = [] ∨ ∃ rest, region = optionKindEnd :: rest) :
    Options region [] := 
  ⟨fun _ ho => (List.not_mem_nil ho).elim, region, rfl, h⟩

theorem Options.cons {o : TcpOption} {rest : Bytes} {os : List TcpOption} (ho : o.Ok)
    (h : Options rest os) : Options (o.bytes ++ rest) (o :: os) := by
  obtain ⟨tail, hrest, htail⟩ := h.layout
  refine ⟨?_, tail, by rw [hrest, List.flatMap_cons, List.append_assoc], htail⟩
  intro p hp
  rcases List.mem_cons.mp hp with rfl | hp
  · exact ho
  · exact h.ok p hp

/-! ## Reads -/

theorem sliceOf_eq {i j : Nat} (h : i ≤ j) (h' : j ≤ b.length) :
    sliceOf b i j = some (slice b i j) := if_pos ⟨h, h'⟩

theorem sliceOf_append (a b : Bytes) {n : Nat} (h : a.length = n) :
    sliceOf (a ++ b) n (a ++ b).length = some b := by
  rw [sliceOf_eq (by simp [← h]) (Nat.le_refl _), slice, List.take_length, List.drop_left' h]

theorem numberAt_eq {i n : Nat} (h : i + n ≤ b.length) :
    numberAt b i n = some (BigEndian.get (slice b i (i + n))) := by
  rw [numberAt, sliceOf_eq (by omega) h]
  rfl

theorem getElem?_eq_byteAt {i : Nat} (h : i < b.length) : b[i]? = some (byteAt b i) := by
  simp [byteAt, h]

/-! ## The walk, an option at a time -/

section Walk

variable (fuel : Nat) (rest : Bytes) (found : Option (BitVec 16))

theorem walkOptions_nil : walkOptions (fuel + 1) [] found = some (.ok found) := rfl

theorem walkOptions_end :
    walkOptions (fuel + 1) (optionKindEnd :: rest) found = some (.ok found) := rfl

theorem walkOptions_nop :
    walkOptions (fuel + 1) (optionKindNop :: rest) found = walkOptions fuel rest found := by
  have hslice : sliceOf (optionKindNop :: rest) 1 (optionKindNop :: rest).length = some rest :=
    sliceOf_append [optionKindNop] rest rfl
  show (sliceOf (optionKindNop :: rest) 1 (optionKindNop :: rest).length).bind
    (fun rest => walkOptions fuel rest found) = _
  rw [hslice]
  rfl

variable {kind : UInt8} (hend : kind ≠ optionKindEnd) (hnop : kind ≠ optionKindNop)

include hend hnop

theorem walkOptions_lone : walkOptions (fuel + 1) [kind] found = some (.error .badOption) := by
  simp [walkOptions, hend, hnop]

theorem walkOptions_tagged (len : UInt8) :
    walkOptions (fuel + 1) (kind :: len :: rest) found =
      if len.toNat < 2 ∨ rest.length + 2 < len.toNat then some (.error .badOption)
      else if kind = mssOptionKind then
        if len.toNat ≠ mssOptionLen then some (.error .badOption)
        else walkOptions fuel (rest.drop 2) (some (BitVec.ofNat 16 (BigEndian.get (rest.take 2))))
      else walkOptions fuel (rest.drop (len.toNat - 2)) found := by
  rw [walkOptions, if_neg (by simp)]
  simp only [List.getElem?_cons_zero, List.getElem?_cons_succ, Option.bind_eq_bind,
    Option.bind_some,
    if_neg hend, if_neg hnop, List.length_cons, if_neg (show ¬ rest.length + 1 + 1 < 2 by omega)]
  by_cases hbad : len.toNat < 2 ∨ rest.length + 2 < len.toNat
  · rw [if_pos hbad, if_pos hbad]
    rfl
  · have hslice : sliceOf (kind :: len :: rest) len.toNat (rest.length + 1 + 1)
        = some (rest.drop (len.toNat - 2)) := by
      rw [sliceOf_eq (by omega) (by simp), slice, List.take_of_length_le (by simp)]
      obtain ⟨n, hn⟩ : ∃ n, len.toNat = n + 2 := ⟨len.toNat - 2, by omega⟩
      rw [hn]
      rfl
    rw [if_neg hbad, if_neg hbad, hslice]
    by_cases hmss : kind = mssOptionKind
    · by_cases hlen : len.toNat ≠ mssOptionLen
      · rw [if_pos hlen, if_pos hlen]
        rfl
      · have hfour : len.toNat = 4 := Classical.not_not.mp hlen
        rw [if_neg hlen, if_neg hlen, numberAt_eq (by simp; omega), hfour]
        rfl
    · rw [if_neg hmss, if_neg hmss]
      rfl

end Walk

theorem walkOptions_cons {o : TcpOption} (ho : o.Ok) (fuel : Nat) (rest : Bytes)
    (found : Option (BitVec 16)) :
    walkOptions (fuel + 1) (o.bytes ++ rest) found = walkOptions fuel rest (o.value.or found) := by
  cases o with
  | nop => exact walkOptions_nop fuel rest found
  | mss value =>
    show walkOptions (fuel + 1) (mssOptionKind :: UInt8.ofNat mssOptionLen
      :: (BigEndian.put 2 value.toNat ++ rest)) found = _
    rw [walkOptions_tagged fuel _ found (by decide) (by decide), if_neg (by simp [mssOptionLen]),
      if_pos rfl, if_neg (by decide), List.drop_left' (BigEndian.length_put _ _),
      List.take_left' (BigEndian.length_put _ _), ofNat_get_put_two]
    rfl
  | other kind data =>
    obtain ⟨hend, hnop, hmss, hlen⟩ := ho
    have hnat : (UInt8.ofNat (data.length + 2)).toNat = data.length + 2 := by
      rw [UInt8.toNat_ofNat', Nat.mod_eq_of_lt hlen]
    show walkOptions (fuel + 1) (kind :: UInt8.ofNat (data.length + 2) :: (data ++ rest)) found = _
    rw [walkOptions_tagged fuel _ found hend hnop, hnat, if_neg (by simp), if_neg hmss,
      Nat.add_sub_cancel, List.drop_left]
    rfl

/-- What the walk does with a region: it ends there, takes an option, or refuses. -/
inductive WalkCase (region : Bytes) : Prop
  | ends (h : region = [] ∨ ∃ rest, region = optionKindEnd :: rest)
  | takes (o : TcpOption) (rest : Bytes) (ho : o.Ok) (h : region = o.bytes ++ rest)
  | refuses (h : ∀ fuel found, walkOptions (fuel + 1) region found = some (.error .badOption))

theorem walkCase (region : Bytes) : WalkCase region := by
  match region with
  | [] => exact .ends (.inl rfl)
  | [kind] =>
    by_cases hend : kind = optionKindEnd
    · exact .ends (.inr ⟨[], by rw [hend]⟩)
    by_cases hnop : kind = optionKindNop
    · exact .takes .nop [] trivial (by rw [hnop]; rfl)
    exact .refuses fun fuel found => walkOptions_lone fuel found hend hnop
  | kind :: len :: rest =>
    by_cases hend : kind = optionKindEnd
    · exact .ends (.inr ⟨len :: rest, by rw [hend]⟩)
    by_cases hnop : kind = optionKindNop
    · exact .takes .nop (len :: rest) trivial (by rw [hnop]; rfl)
    have htagged := fun fuel found => walkOptions_tagged fuel rest found hend hnop len
    by_cases hbad : len.toNat < 2 ∨ rest.length + 2 < len.toNat
    · exact .refuses fun fuel found => by rw [htagged, if_pos hbad]
    by_cases hmss : kind = mssOptionKind
    · by_cases hlen : len.toNat ≠ mssOptionLen
      · exact .refuses fun fuel found => by rw [htagged, if_neg hbad, if_pos hmss, if_pos hlen]
      · -- the two bytes of the value are there
        have hfour : len.toNat = 4 := Classical.not_not.mp hlen
        match rest, hbad with
        | a :: b :: rest, _ =>
          refine .takes (.mss (BitVec.ofNat 16 (BigEndian.get [a, b]))) rest trivial ?_
          have hlen' : len = UInt8.ofNat mssOptionLen := UInt8.toNat_inj.mp hfour
          have hvalue : BigEndian.put 2 (BitVec.ofNat 16 (BigEndian.get [a, b])).toNat =
              [a, b] := by
            have hwidth : 256 ^ 2 = 2 ^ 16 := by decide
            have hget : BigEndian.get [a, b] < 256 ^ 2 := BigEndian.get_lt [a, b]
            rw [hwidth] at hget
            rw [BitVec.toNat_ofNat, Nat.mod_eq_of_lt hget]
            exact BigEndian.put_get [a, b]
          rw [hmss, hlen', TcpOption.bytes, hvalue]
          rfl
        | [], hbad | [_], hbad => exact absurd (.inr (by simp; omega)) hbad
    · have hlt := len.toNat_lt
      have htake : (rest.take (len.toNat - 2)).length = len.toNat - 2 := by
        rw [List.length_take]
        omega
      refine .takes (.other kind (rest.take (len.toNat - 2))) (rest.drop (len.toNat - 2))
        ⟨hend, hnop, hmss, by omega⟩ ?_
      have hlen' : UInt8.ofNat ((rest.take (len.toNat - 2)).length + 2) = len := by
        rw [htake, Nat.sub_add_cancel (by omega), UInt8.ofNat_toNat]
      rw [TcpOption.bytes, hlen', List.cons_append, List.cons_append, List.take_append_drop]

theorem walkOptions_total {fuel : Nat} (found : Option (BitVec 16)) (hfuel : region.length < fuel) :
    walkOptions fuel region found = some (.error .badOption) ∨
      ∃ os, Options region os ∧
      walkOptions fuel region found = some (.ok ((lastMSS os).or found)) := by
  induction fuel generalizing region found with
  | zero => exact absurd hfuel (Nat.not_lt_zero _)
  | succ fuel ih =>
    cases walkCase region with
    | ends h =>
      refine .inr ⟨[], Options.nil h, ?_⟩
      rcases h with rfl | ⟨rest, rfl⟩
      · exact walkOptions_nil fuel found
      · exact walkOptions_end fuel rest found
    | takes o rest ho h =>
      subst h
      have hpos := o.length_bytes_pos
      rw [List.length_append] at hfuel
      have hrest : rest.length < fuel := by omega
      rw [walkOptions_cons ho]
      rcases ih (o.value.or found) hrest with herr | ⟨os, hos, hok⟩
      · exact .inl herr
      · exact .inr ⟨o :: os, hos.cons ho, by rw [hok, lastMSS_cons]⟩
    | refuses h => exact .inl (h fuel found)

theorem walkOptions_of_options {fuel : Nat} {os : List TcpOption} (h : Options region os)
    (found : Option (BitVec 16)) (hfuel : region.length < fuel) :
    walkOptions fuel region found = some (.ok ((lastMSS os).or found)) := by
  obtain ⟨tail, rfl, htail⟩ := h.layout
  induction os generalizing fuel found with
  | nil =>
    obtain ⟨fuel, rfl⟩ : ∃ n, fuel = n + 1 := ⟨fuel - 1, by omega⟩
    rcases htail with rfl | ⟨rest, rfl⟩
    · exact walkOptions_nil fuel found
    · exact walkOptions_end fuel rest found
  | cons o os ih =>
    obtain ⟨fuel, rfl⟩ : ∃ n, fuel = n + 1 := ⟨fuel - 1, by omega⟩
    have hpos := o.length_bytes_pos
    rw [List.flatMap_cons, List.append_assoc] at hfuel ⊢
    rw [List.length_append] at hfuel
    rw [walkOptions_cons (h.ok o List.mem_cons_self), lastMSS_cons]
    exact ih _ ⟨fun p hp => h.ok p (List.mem_cons_of_mem _ hp), tail, rfl, htail⟩ (by omega)

/-! ## Parsing -/

/-- Where the header of a segment says that its payload starts. -/
def dataOffset (b : Bytes) : Nat := (byteAt b 12 >>> 4).toNat * 4

/-- The bytes between the fixed header and the payload. -/
def optionRegion (b : Bytes) : Bytes := slice b tcpHeaderMinLen (dataOffset b)

/-- The segment `parseTCP` returns once the walk has found `mss`. -/
def segmentOf (b : Bytes) (mss : Option (BitVec 16)) : TcpSegment where
  srcPort := BitVec.ofNat 16 (BigEndian.get (slice b 0 2))
  dstPort := BitVec.ofNat 16 (BigEndian.get (slice b 2 4))
  seq := BitVec.ofNat 32 (BigEndian.get (slice b 4 8))
  ack := BitVec.ofNat 32 (BigEndian.get (slice b 8 12))
  flags := BitVec.ofNat 8 (byteAt b 13).toNat
  window := BitVec.ofNat 16 (BigEndian.get (slice b 14 16))
  hasMSS := mss.isSome
  mss := mss.getD 0
  payload := b.drop (dataOffset b)

theorem parseTCP_eq (hlen : tcpHeaderMinLen ≤ b.length) (hoff : tcpHeaderMinLen ≤ dataOffset b)
    (hoff' : dataOffset b ≤ b.length) :
    parseTCP b = (walkOptions ((optionRegion b).length + 1) (optionRegion b) none).map
      fun r => r.map (segmentOf b) := by
  have hlen' : 20 ≤ b.length := hlen
  have hrest : sliceOf b (dataOffset b) b.length = some (b.drop (dataOffset b)) := by
    rw [sliceOf_eq hoff' (Nat.le_refl _), slice, List.take_length]
  unfold parseTCP
  rw [if_neg (by omega)]
  simp only [getElem?_eq_byteAt (show 12 < b.length by omega), Option.bind_eq_bind,
    Option.bind_some]
  rw [show (byteAt b 12 >>> 4).toNat * 4 = dataOffset b from rfl, if_neg (by omega),
    numberAt_eq (by omega), numberAt_eq (by omega), numberAt_eq (by omega), numberAt_eq (by omega),
    getElem?_eq_byteAt (by omega), numberAt_eq (by omega), sliceOf_eq hoff hoff', hrest]
  show (walkOptions ((optionRegion b).length + 1) (optionRegion b) none).bind _ = _
  cases walkOptions ((optionRegion b).length + 1) (optionRegion b) none with
  | none => rfl
  | some r => cases r <;> rfl

/-- The cases of `parseTCP`: it refuses, or the options have a reading and are read that way. -/
theorem parseTCP_cases (b : Bytes) :
    (∃ e, parseTCP b = some (.error e)) ∨
      (tcpHeaderMinLen ≤ dataOffset b ∧ dataOffset b ≤ b.length ∧
        ∃ os, Options (optionRegion b) os ∧
        parseTCP b = some (.ok (segmentOf b (lastMSS os)))) := by
  by_cases hshort : b.length < tcpHeaderMinLen
  · exact .inl ⟨.tooShort, by rw [parseTCP, if_pos hshort]⟩
  have hlen : 20 ≤ b.length := Nat.le_of_not_lt hshort
  by_cases hoff : dataOffset b < tcpHeaderMinLen ∨ dataOffset b > b.length
  · refine .inl ⟨.badDataOffset, ?_⟩
    unfold parseTCP
    rw [if_neg hshort]
    simp only [getElem?_eq_byteAt (show 12 < b.length by omega), Option.bind_eq_bind,
      Option.bind_some]
    rw [show (byteAt b 12 >>> 4).toNat * 4 = dataOffset b from rfl, if_pos hoff]
    rfl
  · rw [parseTCP_eq hlen (by omega) (by omega)]
    rcases walkOptions_total none (Nat.lt_succ_self (optionRegion b).length) with herr | ⟨os, hos,
      hok⟩
    · exact .inl ⟨.badOption, by rw [herr]; rfl⟩
    · exact .inr ⟨by omega, by omega, os, hos, by rw [hok, Option.or_none]; rfl⟩

/-! ## The round trip -/

theorem ofNat_get_put_four (x : BitVec 32) :
    BitVec.ofNat 32 (BigEndian.get (BigEndian.put 4 x.toNat)) = x := by
  have hwidth : 256 ^ 4 = 2 ^ 32 := by decide
  rw [BigEndian.get_put, hwidth, Nat.mod_eq_of_lt x.isLt, BitVec.ofNat_toNat, BitVec.setWidth_eq]

/-- The options `buildTCP` writes. -/
def builtOptions (seg : TcpSegment) : List TcpOption := if seg.hasMSS then [.mss seg.mss] else []

/-- The fields of the header up to the checksum, one after the other. -/
def headFields (seg : TcpSegment) : List Bytes :=
  [BigEndian.put 2 seg.srcPort.toNat, BigEndian.put 2 seg.dstPort.toNat,
    BigEndian.put 4 seg.seq.toNat,
    BigEndian.put 4 seg.ack.toNat, [UInt8.ofNat (seg.headerLen / 4) <<< 4],
      [UInt8.ofNat seg.flags.toNat],
    BigEndian.put 2 seg.window.toNat]

variable (seg : TcpSegment) (src dst : Addr)

theorem blankTCP_eq :
    blankTCP seg = (headFields seg).flatten ++ [0, 0, 0, 0]
      ++ (builtOptions seg).flatMap TcpOption.bytes ++ seg.payload := by
  unfold blankTCP headFields builtOptions
  cases seg.hasMSS <;> simp [TcpOption.bytes]

theorem length_headFields : (headFields seg).flatten.length = 16 := by
  simp [headFields]

theorem buildTCP_eq :
    buildTCP seg src dst = (headFields seg).flatten
      ++ (BigEndian.put 2 (transportChecksum src dst protocolTCP (blankTCP seg)).toNat ++ ([0, 0]
        ++ ((builtOptions seg).flatMap TcpOption.bytes ++ seg.payload))) := by
  have hlen := length_headFields seg
  rw [buildTCP, putUint16]
  rw [blankTCP_eq, List.append_assoc, List.append_assoc, List.set_append_right _ _ (by omega),
    List.set_append_right _ _ (by omega), hlen]
  rfl

theorem slice_buildTCP (k : Nat) {f : Bytes} {i j : Nat}
    (hf : (headFields seg)[k]? = some f) (hi : ((headFields seg).take k).flatten.length = i)
    (hj : i + f.length = j) : slice (buildTCP seg src dst) i j = f := by
  obtain ⟨hk, hf⟩ := List.getElem?_eq_some_iff.mp hf
  subst hi hj
  have hsplit : (headFields seg).flatten = ((headFields seg).take k).flatten
      ++ (f ++ ((headFields seg).drop (k + 1)).flatten) := by
    rw [← List.flatten_cons, ← List.flatten_append, ← hf, ← List.drop_eq_getElem_cons hk,
      List.take_append_drop]
  rw [buildTCP_eq, hsplit, List.append_assoc, List.append_assoc, slice, List.take_length_add_append,
    List.drop_left, List.take_left]

theorem byteAt_of_slice {i : Nat} {x : UInt8} (h : slice b i (i + 1) = [x]) : byteAt b i = x := by
  have hi : (slice b i (i + 1))[0]? = some x := by rw [h]; rfl
  simp only [slice, List.getElem?_drop, List.getElem?_take] at hi
  simpa [byteAt] using congrArg (Option.getD · 0) hi

theorem dataOffset_buildTCP : dataOffset (buildTCP seg src dst) = seg.headerLen := by
  have hbyte : byteAt (buildTCP seg src dst) 12 = UInt8.ofNat (seg.headerLen / 4) <<< 4 :=
    byteAt_of_slice (slice_buildTCP seg src dst 4 rfl (by simp [headFields]) rfl)
  rw [dataOffset, hbyte, TcpSegment.headerLen]
  cases seg.hasMSS <;> decide

theorem headerLen_eq :
    seg.headerLen = tcpHeaderMinLen + ((builtOptions seg).flatMap TcpOption.bytes).length := by
  unfold TcpSegment.headerLen builtOptions
  cases seg.hasMSS <;> rfl

theorem drop_buildTCP : (buildTCP seg src dst).drop seg.headerLen = seg.payload := by
  rw [buildTCP_eq, ← List.append_assoc, ← List.append_assoc, ← List.append_assoc]
  refine List.drop_left' ?_
  simp only [List.length_append, length_headFields, BigEndian.length_put, headerLen_eq,
    tcpHeaderMinLen, List.length_cons, List.length_nil]

theorem optionRegion_buildTCP :
    optionRegion (buildTCP seg src dst) = (builtOptions seg).flatMap TcpOption.bytes := by
  have hfront : ((headFields seg).flatten ++ BigEndian.put 2
      (transportChecksum src dst protocolTCP (blankTCP seg)).toNat ++ [0, 0]).length =
        tcpHeaderMinLen := by
    rfl
  rw [optionRegion, dataOffset_buildTCP, headerLen_eq, slice, buildTCP_eq, ← List.append_assoc,
    ← List.append_assoc, ← List.append_assoc,
    List.take_left' (by rw [List.length_append, hfront]), List.drop_left' hfront]

theorem options_buildTCP : Options (optionRegion (buildTCP seg src dst)) (builtOptions seg) := by
  refine ⟨?_, [], by rw [optionRegion_buildTCP, List.append_nil], .inl rfl⟩
  unfold builtOptions
  intro o ho
  split at ho
  · rw [List.mem_singleton.mp ho]
    trivial
  · cases ho

theorem segmentOf_buildTCP (hmss : seg.hasMSS = false → seg.mss = 0) :
    segmentOf (buildTCP seg src dst) (lastMSS (builtOptions seg)) = seg := by
  have hsrc : slice (buildTCP seg src dst) 0 2 = BigEndian.put 2 seg.srcPort.toNat :=
    slice_buildTCP seg src dst 0 rfl (by simp [headFields]) (by simp)
  have hdst : slice (buildTCP seg src dst) 2 4 = BigEndian.put 2 seg.dstPort.toNat :=
    slice_buildTCP seg src dst 1 rfl (by simp [headFields]) (by simp)
  have hseq : slice (buildTCP seg src dst) 4 8 = BigEndian.put 4 seg.seq.toNat :=
    slice_buildTCP seg src dst 2 rfl (by simp [headFields]) (by simp)
  have hack : slice (buildTCP seg src dst) 8 12 = BigEndian.put 4 seg.ack.toNat :=
    slice_buildTCP seg src dst 3 rfl (by simp [headFields]) (by simp)
  have hflags : byteAt (buildTCP seg src dst) 13 = UInt8.ofNat seg.flags.toNat :=
    byteAt_of_slice (slice_buildTCP seg src dst 5 rfl (by simp [headFields]) rfl)
  have hwindow : slice (buildTCP seg src dst) 14 16 = BigEndian.put 2 seg.window.toNat :=
    slice_buildTCP seg src dst 6 rfl (by simp [headFields]) (by simp)
  have hbyte : BitVec.ofNat 8 (UInt8.ofNat seg.flags.toNat).toNat = seg.flags := by
    rw [UInt8.toNat_ofNat', Nat.mod_eq_of_lt seg.flags.isLt, BitVec.ofNat_toNat, BitVec.setWidth_eq]
  have hfound : (lastMSS (builtOptions seg)).isSome = seg.hasMSS
      ∧ (lastMSS (builtOptions seg)).getD 0 = seg.mss := by
    unfold builtOptions
    cases h : seg.hasMSS with
    | false => exact ⟨rfl, (hmss h).symm⟩
    | true => exact ⟨rfl, rfl⟩
  rw [segmentOf, dataOffset_buildTCP, drop_buildTCP, hsrc, hdst, hseq, hack, hwindow, hflags, hbyte,
    hfound.1, hfound.2, ofNat_get_put_two, ofNat_get_put_two, ofNat_get_put_four,
      ofNat_get_put_four,
    ofNat_get_put_two]

theorem parseTCP_buildTCP (hmss : seg.hasMSS = false → seg.mss = 0) :
    parseTCP (buildTCP seg src dst) = some (.ok seg) := by
  have hoff := dataOffset_buildTCP seg src dst
  have hlen := length_buildTCP seg src dst
  have hge : tcpHeaderMinLen ≤ seg.headerLen := Nat.le_add_right _ _
  rw [parseTCP_eq (by omega) (by omega) (by omega),
    walkOptions_of_options (options_buildTCP seg src dst) none (Nat.lt_succ_self _), Option.or_none,
    Option.map_some, Except.map, segmentOf_buildTCP seg src dst hmss]

/-! ## The whole -/

/-- What an accepted segment says about the bytes it was read from. -/
structure SegmentRead (b : Bytes) (seg : TcpSegment) : Prop where
  offset : tcpHeaderMinLen ≤ dataOffset b ∧ dataOffset b ≤ b.length
  payload : seg.payload = b.drop (dataOffset b)
  /-- The options can be read. -/
  options : ∃ os, Options (optionRegion b) os
  /-- However they are read, the segment has their last maximum segment size. -/
  mss : ∀ os, Options (optionRegion b) os →
    (seg.hasMSS = false ↔ ∀ value, TcpOption.mss value ∉ os) ∧ seg.mss = (lastMSS os).getD 0

/-- **Segments round-trip, and hostile options are safe.** -/
structure TcpWireSafe : Prop where
  /-- What `buildTCP` writes is read back, of every segment that fits a datagram. -/
  roundTrip : ∀ seg src dst, (seg.hasMSS = false → seg.mss = 0) →
    minIPv4HeaderLen + (buildTCP seg src dst).length ≤ maxIPv4Datagram →
    parseTCP (buildTCP seg src dst) = some (.ok seg)
  /-- `parseTCP` ends, and reads nothing outside its argument. -/
  total : ∀ b, ∃ r, parseTCP b = some r
  accepted : ∀ b seg, parseTCP b = some (.ok seg) → SegmentRead b seg

theorem lastMSS_eq_none_iff (os : List TcpOption) :
    lastMSS os = none ↔ ∀ value, TcpOption.mss value ∉ os := by
  rw [lastMSS, List.getLast?_eq_none_iff, List.filterMap_eq_nil_iff]
  constructor
  · intro h value hmem
    cases h _ hmem
  · intro h o ho
    cases o with
    | mss value => exact absurd ho (h value)
    | nop | other => rfl

/-- Every field follows from what `parseTCP` does with the options of its argument. -/
theorem tcpWireSafe : TcpWireSafe where
  roundTrip seg src dst hmss _ := parseTCP_buildTCP seg src dst hmss
  total b := by
    rcases parseTCP_cases b with ⟨e, h⟩ | ⟨-, -, os, -, h⟩
    · exact ⟨_, h⟩
    · exact ⟨_, h⟩
  accepted b seg h := by
    rcases parseTCP_cases b with ⟨e, h'⟩ | ⟨hoff, hoff', os, hos, h'⟩
    · cases h.symm.trans h'
    · cases h.symm.trans h'
      refine ⟨⟨hoff, hoff'⟩, rfl, ⟨os, hos⟩, fun os' hos' => ?_⟩
      have hsame : lastMSS os' = lastMSS os := by
        have h1 := walkOptions_of_options hos none (Nat.lt_succ_self _)
        have h2 := walkOptions_of_options hos' none (Nat.lt_succ_self _)
        rw [Option.or_none] at h1 h2
        exact Except.ok.inj (Option.some.inj (h2.symm.trans h1))
      rw [← lastMSS_eq_none_iff, hsame]
      exact ⟨Option.isSome_eq_false_iff.trans Option.isNone_iff_eq_none, rfl⟩

end GoVpn.Proof
