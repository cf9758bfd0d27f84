import GoVpn.Netstack.Stack
import GoVpn.Proof.Reassembled

/-!
# Only a session's own packets reach the handlers

`deliver` compares source and destination before anything else looks at a packet. For a
whole datagram that settles it. A reassembled one is made of fragments that came
earlier, so it takes a history: everything the reassembler of an attachment has been
given was a packet that passed both checks, and what it returns is a header and bytes
of those. The packet it builds from them parses, whatever the fragments were.
-/

namespace GoVpn.Netstack

open HoleList Overlay

/-! ## What the reassembler builds -/

/-- The header of a rebuilt packet. -/
def Fragment.wholeHeader (lead : Fragment) (payload : Bytes) : Ipv4Header :=
  { lead.hdr with
    totalLen := lead.hdr.ihl + payload.length
    moreFragments := false
    fragOffset := 0 }

theorem parseIPv4_rebuild (lead : Fragment) (payload : Bytes)
    (hfits : lead.hdr.ihl + payload.length ≤ maxIPv4Datagram) :
    parseIPv4 (rebuild lead.header payload) = .ok (lead.wholeHeader payload) := by
  unfold maxIPv4Datagram at hfits
  have hv := lead.valid
  have hge := hv.ihl_ge
  unfold minIPv4HeaderLen at hge
  have hlen := lead.length_header
  have hout : (lead.header ++ payload).length = lead.hdr.ihl + payload.length := by
    rw [List.length_append, hlen]
  have hkeep : ∀ i, i < 20 → rewritten i = false →
      byteAt (rebuild lead.header payload) i = byteAt lead.pkt i := by
    intro i hi hr
    rw [byteAt_rebuild payload (by omega) hr]
    exact byteAt_take (by omega)
  have hlength : uint16At (rebuild lead.header payload) 2 = lead.hdr.ihl + payload.length := by
    unfold rebuild
    rw [uint16At_setChecksum _ _ (by omega), uint16At_putUint16_ne _ _ (by omega),
      uint16At_putUint16 _ (by omega), hout, Nat.mod_eq_of_lt (by omega)]
  have hflags : uint16At (rebuild lead.header payload) 6 = 0 := by
    unfold rebuild
    rw [uint16At_setChecksum _ _ (by omega),
      uint16At_putUint16 _ (by rw [length_putUint16]; omega), Nat.zero_mod]
  have haddr : ∀ i, 12 ≤ i → i + 4 ≤ 20 →
      addrAt (rebuild lead.header payload) i = addrAt lead.pkt i := by
    intro i h12 h20
    refine addrAt_congr fun j h1 h2 => hkeep j (by omega) ?_
    simp only [rewritten, Bool.or_eq_false_iff, decide_eq_false_iff_not]
    omega
  refine parseIPv4_eq_ok_iff.mpr {
    version := by rw [hkeep 0 (by omega) rfl]; exact hv.version
    ihl_eq := by rw [hkeep 0 (by omega) rfl]; exact hv.ihl_eq
    ihl_ge := hv.ihl_ge
    ihl_le := Nat.le_add_right _ _
    totalLen_eq := hlength.symm
    totalLen_le := by rw [length_rebuild, hlen]; exact Nat.le_refl _
    payloadOff_eq := hv.payloadOff_eq
    protocol_eq := by rw [hkeep 9 (by omega) rfl]; exact hv.protocol_eq
    src_eq := by rw [haddr 12 (by omega) (by omega)]; exact hv.src_eq
    dst_eq := by rw [haddr 16 (by omega) (by omega)]; exact hv.dst_eq
    id_eq := by
      rw [uint16At_congr (hkeep 4 (by omega) rfl) (hkeep 5 (by omega) rfl)]
      exact hv.id_eq
    more_eq := by rw [hflags]; rfl
    offset_eq := by rw [hflags]; rfl
    geometry := fun hf => by cases hf }

/-! ## Where the bytes come from -/

/-- The packet passes both checks of `deliver`. -/
def Admitted (serverIP ip : Addr) (pkt : Bytes) : Prop :=
  ∃ hdr, parseIPv4 pkt = .ok hdr ∧ hdr.src = ip ∧ hdr.dst = serverIP

/-- The byte at place `x` of a datagram's payload came in `pkt`, which passed both checks. -/
def Brought (serverIP ip : Addr) (payload : Bytes) (x : Nat) (pkt : Bytes) : Prop :=
  ∃ hdr, parseIPv4 pkt = .ok hdr ∧ hdr.src = ip ∧ hdr.dst = serverIP ∧ hdr.fragOffset ≤ x
    ∧ ∃ v, payload[x]? = some v
      ∧ (slice pkt hdr.payloadOff hdr.totalLen)[x - hdr.fragOffset]? = some v

theorem Watched.mem_of_accepted (limits : ReassemblyLimits) (as : List Arrival) :
    ∀ k, ∀ f ∈ (Watched.after limits as).accepted k, f ∈ as := by
  refine Machine.run_history (fun w a => (Watched.step w a).1)
    (I := fun pre w => ∀ k, ∀ f ∈ w.accepted k, f ∈ pre) ?_ ?_ as
  · intro k f hf
    cases hf
  · intro pre a ih k f hf
    dsimp only [Watched.step] at hf
    split at hf
    · split at hf
      · rcases List.mem_append.mp hf with hf | hf
        · unfold Watched.before at hf
          split at hf
          · exact List.mem_append_left _ (ih _ f hf)
          · cases hf
        · split at hf
          · exact List.mem_append_right _ hf
          · cases hf
      · exact List.mem_append_left _ (ih _ f hf)
    · cases hf

/-- A fragment of an admitted packet. -/
def Arrival.Admitted (serverIP ip : Addr) (a : Arrival) : Prop :=
  a.frag.hdr.src = ip ∧ a.frag.hdr.dst = serverIP

variable {limits : ReassemblyLimits} {r : Reassembler}

variable {f : Fragment} {ip serverIP : Addr}

theorem reassembled_admitted {as : List Arrival} (has : ∀ f ∈ as, f.Admitted serverIP ip)
    {a : Arrival} (ha : a.Admitted serverIP ip)
    (ho : ((Watched.after limits as).step a).2.outcome = .complete) :
    ∃ datagram whole, ((Watched.after limits as).step a).2.datagram = some datagram
      ∧ parseIPv4 datagram = .ok whole ∧ whole.isFragment = false
      ∧ whole.src = ip ∧ whole.dst = serverIP
      ∧ ∀ x < (slice datagram whole.payloadOff whole.totalLen).length, ∃ f ∈ as ++ [a],
          Brought serverIP ip (slice datagram whole.payloadOff whole.totalLen) x f.frag.pkt := by
  have hw := Faithful.after limits as
  obtain ⟨b, t, lead, hb, hholes, ht, hlen, hlead, hfits, hd⟩ := hw.complete ho
  -- every fragment of the buffer has arrived, and has been admitted
  have hfrom : ∀ f ∈ ((Watched.after limits as).before a ++ [a]).map Arrival.frag,
      ∃ g ∈ as ++ [a], g.frag = f ∧ g.Admitted serverIP ip := by
    intro f hf
    obtain ⟨g, hg, rfl⟩ := List.mem_map.mp hf
    rcases List.mem_append.mp hg with hg | hg
    · unfold Watched.before at hg
      split at hg
      · have hmem := Watched.mem_of_accepted limits as _ g hg
        exact ⟨g, List.mem_append_left _ hmem, rfl, has g hmem⟩
      · cases hg
    · obtain rfl := List.mem_singleton.mp hg
      exact ⟨g, by simp, rfl, ha⟩
  rw [lead.length_header] at hfits
  have htake : (b.data.take t).length = t := by rw [List.length_take, Nat.min_eq_left hlen]
  have hparse := parseIPv4_rebuild lead (b.data.take t) (by rw [htake]; exact hfits)
  obtain ⟨g, -, hglead, hgadm⟩ := hfrom lead (newest_mem hlead).1
  have hpayload : slice (rebuild lead.header (b.data.take t))
      (lead.wholeHeader (b.data.take t)).payloadOff (lead.wholeHeader (b.data.take t)).totalLen
      = b.data.take t := by
    have hall : (rebuild lead.header (b.data.take t)).length
        = (lead.wholeHeader (b.data.take t)).totalLen := by
      rw [length_rebuild, lead.length_header]
      rfl
    have h20 : minIPv4HeaderLen ≤ lead.header.length := by
      rw [lead.length_header]
      exact lead.valid.ihl_ge
    rw [slice, ← hall, List.take_length]
    show (rebuild lead.header (b.data.take t)).drop lead.hdr.payloadOff = _
    rw [lead.valid.payloadOff_eq, ← lead.length_header]
    exact drop_rebuild _ h20
  refine ⟨_, _, hd, hparse, rfl, ?_, ?_, ?_⟩
  · rw [← hglead] at *
    exact hgadm.1
  · rw [← hglead] at *
    exact hgadm.2
  · rw [hpayload, htake]
    intro x hx
    obtain ⟨f, hf⟩ := hb.exists_covers hholes ht hx
    obtain ⟨hmem, hcov⟩ := newest_mem hf
    obtain ⟨g', hg', rfl, hadm⟩ := hfrom f hmem
    have hcov := covers_iff.mp hcov
    have hshow := hb.shows.shows x _ hf
    have hin : x < b.data.length := by omega
    refine ⟨g', hg', g'.frag.hdr, g'.frag.parsed, hadm.1, hadm.2, hcov.1, b.data[x], ?_, ?_⟩
    · rw [List.getElem?_take, if_pos hx, List.getElem?_eq_getElem hin]
    · rw [← List.getElem?_eq_getElem hin, hshow]
      rfl

/-! ## The inbound path -/

theorem Stack.dispatch_call {s : Stack} {hdr : Ipv4Header} {pkt : Bytes} {call : HandlerCall}
    (h : (s.dispatch hdr pkt).2 = some call) :
    call.src = hdr.src ∧ call.dst = hdr.dst ∧
    call.payload = slice pkt hdr.payloadOff hdr.totalLen := by
  unfold dispatch at h
  split at h
  · cases h
    exact ⟨rfl, rfl, rfl⟩
  split at h
  · split at h
    · cases h
      exact ⟨rfl, rfl, rfl⟩
    · cases h
  split at h
  · split at h
    · cases h
      exact ⟨rfl, rfl, rfl⟩
    · cases h
  · cases h

theorem Stack.dispatch_serverIP (s : Stack) (hdr : Ipv4Header) (pkt : Bytes) :
    (s.dispatch hdr pkt).1.serverIP = s.serverIP := by
  unfold dispatch
  split
  · rfl
  split
  · split <;> rfl
  split
  · split <;> rfl
  · rfl

/-- A fragment reaches a handler only as part of a whole datagram. -/
theorem Stack.deliverFragment_cases (s : Stack) (a : Attachment) (now : Int) (hdr : Ipv4Header)
    (pkt : Bytes) :
    (s.deliverFragment a now hdr pkt).attachment = { a with reasm := (a.reasm.add now hdr pkt).1 }
      ∧ (s.deliverFragment a now hdr pkt).stack.serverIP = s.serverIP
      ∧ ∀ call, (s.deliverFragment a now hdr pkt).call = some call →
          (a.reasm.add now hdr pkt).2.outcome = .complete
          ∧ ∃ datagram whole, (a.reasm.add now hdr pkt).2.datagram = some datagram
            ∧ parseIPv4 datagram = .ok whole ∧ call.src = whole.src ∧ call.dst = whole.dst
            ∧ call.payload = slice datagram whole.payloadOff whole.totalLen := by
  unfold deliverFragment
  dsimp only
  split
  · rename_i datagram ho hd
    split
    · exact ⟨rfl, rfl, fun call h => by cases h⟩
    · rename_i whole hparse
      refine ⟨rfl, dispatch_serverIP _ _ _, fun call h => ⟨ho, datagram, whole, hd, hparse, ?_⟩⟩
      exact dispatch_call h
  all_goals exact ⟨rfl, rfl, fun call h => by cases h⟩

/-- What `deliver` does with a packet, according to the two checks. -/
theorem Stack.deliver_cases (s : Stack) (a : Attachment) (now : Int) (pkt : Bytes) :
    (s.deliver a now pkt).stack.serverIP = s.serverIP ∧ (s.deliver a now pkt).attachment.ip = a.ip
      ∧ ((¬ Admitted s.serverIP a.ip pkt ∧ (s.deliver a now pkt).attachment.reasm = a.reasm
            ∧ (s.deliver a now pkt).call = none)
        ∨ ∃ hdr, parseIPv4 pkt = .ok hdr ∧ hdr.src = a.ip ∧ hdr.dst = s.serverIP
            ∧ ((hdr.isFragment = false ∧ (s.deliver a now pkt).attachment.reasm = a.reasm
                  ∧ ∀ call, (s.deliver a now pkt).call = some call →
                      call.src = hdr.src ∧ call.dst = hdr.dst
                      ∧ call.payload = slice pkt hdr.payloadOff hdr.totalLen)
              ∨ (hdr.isFragment = true
                  ∧ (s.deliver a now pkt).attachment.reasm = (a.reasm.add now hdr pkt).1
                  ∧ ∀ call, (s.deliver a now pkt).call = some call →
                      (a.reasm.add now hdr pkt).2.outcome = .complete
                      ∧ ∃ datagram whole, (a.reasm.add now hdr pkt).2.datagram = some datagram
                        ∧ parseIPv4 datagram = .ok whole ∧ call.src = whole.src
                        ∧ call.dst = whole.dst
                        ∧ call.payload = slice datagram whole.payloadOff whole.totalLen))) := by
  unfold deliver
  cases hparse : parseIPv4 pkt with
  | error e =>
    refine ⟨rfl, rfl, .inl ⟨?_, rfl, rfl⟩⟩
    intro hadm
    obtain ⟨hdr, hok, -⟩ := hadm
    cases hparse.symm.trans hok
  | ok hdr =>
    have huniq : ∀ hdr', parseIPv4 pkt = .ok hdr' → hdr' = hdr := fun hdr' h =>
      Except.ok.inj (h.symm.trans hparse)
    dsimp only
    split
    · rename_i hsrc
      refine ⟨rfl, rfl, .inl ⟨?_, rfl, rfl⟩⟩
      intro hadm
      obtain ⟨hdr', hok, hs, -⟩ := hadm
      exact hsrc (huniq hdr' hok ▸ hs)
    split
    · rename_i _ hdst
      refine ⟨rfl, rfl, .inl ⟨?_, rfl, rfl⟩⟩
      intro hadm
      obtain ⟨hdr', hok, -, hd⟩ := hadm
      exact hdst (huniq hdr' hok ▸ hd)
    rename_i hsrc hdst
    have hsrc := Classical.not_not.mp hsrc
    have hdst := Classical.not_not.mp hdst
    split
    · rename_i hf
      obtain ⟨hatt, hserver, hcall⟩ := deliverFragment_cases
        { s with stats := { s.stats with packetsReceived := s.stats.packetsReceived + 1 } }
        a now hdr pkt
      refine ⟨hserver, by rw [hatt], .inr ⟨hdr, rfl, hsrc, hdst, .inr ⟨hf, by rw [hatt], hcall⟩⟩⟩
    · rename_i hf
      refine ⟨dispatch_serverIP _ _ _, rfl, .inr ⟨hdr, rfl, hsrc, hdst, .inl ⟨?_, rfl, ?_⟩⟩⟩
      · simpa using hf
      · intro call hcall
        exact dispatch_call hcall

/-! ## Runs -/

/-- The packets an attachment has been given. -/
def packets : List TunnelEvent → List Bytes
  | [] => []
  | .deliver _ pkt :: evs => pkt :: packets evs
  | .stop :: evs => packets evs
  | .register _ :: evs => packets evs

theorem packets_append (evs evs' : List TunnelEvent) :
    packets (evs ++ evs') = packets evs ++ packets evs' := by
  induction evs with
  | nil => rfl
  | cons ev evs ih =>
    cases ev with
    | deliver now pkt => exact congrArg (pkt :: ·) ih
    | stop | register h => exact ih

/--
A reassembler that is closed, or has been given fragments of admitted packets and
nothing else.
-/
def FedBy (serverIP ip : Addr) (limits : ReassemblyLimits) (pkts : List Bytes) (r : Reassembler) :
    Prop :=
  r.closed = true ∨ ∃ as, r = (Watched.after limits as).r
    ∧ ∀ a ∈ as, a.frag.pkt ∈ pkts ∧ a.Admitted serverIP ip

/-- What a run keeps to. -/
structure Mediated (serverIP ip : Addr) (limits : ReassemblyLimits) (evs : List TunnelEvent)
    (t : Tunnel) : Prop where
  server : t.stack.serverIP = serverIP
  client : t.attachment.ip = ip
  fed : FedBy serverIP ip limits (packets evs) t.attachment.reasm

theorem FedBy.mono {pkts pkts' : List Bytes} (h : FedBy serverIP ip limits pkts r)
    (hsub : ∀ p ∈ pkts, p ∈ pkts') : FedBy serverIP ip limits pkts' r := by
  rcases h with h | ⟨as, hr, has⟩
  · exact .inl h
  · exact .inr ⟨as, hr, fun a ha => ⟨hsub _ (has a ha).1, (has a ha).2⟩⟩

/-- An event keeps the tunnel mediated. -/
theorem Mediated.step {evs : List TunnelEvent} {t : Tunnel} (h : Mediated serverIP ip limits evs t)
    (ev : TunnelEvent) : Mediated serverIP ip limits (evs ++ [ev]) (t.step ev) := by
  have hgrow : ∀ p ∈ packets evs, p ∈ packets (evs ++ [ev]) := by
    intro p hp
    rw [packets_append]
    exact List.mem_append_left _ hp
  cases ev with
  | stop => exact ⟨h.server, h.client, .inl rfl⟩
  | register hd => cases hd <;> exact ⟨h.server, h.client, h.fed.mono hgrow⟩
  | deliver now pkt =>
    obtain ⟨hserver, hip, hcases⟩ := t.stack.deliver_cases t.attachment now pkt
    refine ⟨hserver.trans h.server, hip.trans h.client, ?_⟩
    have hsame : (t.stack.deliver t.attachment now pkt).attachment.reasm = t.attachment.reasm →
        FedBy serverIP ip limits (packets (evs ++ [.deliver now pkt]))
          (t.stack.deliver t.attachment now pkt).attachment.reasm := by
      intro heq
      rw [heq]
      exact h.fed.mono hgrow
    rcases hcases with ⟨-, heq, -⟩ | ⟨hdr, hparse, hsrc, hdst, ⟨-, heq, -⟩ | ⟨hf, heq, -⟩⟩
    · exact hsame heq
    · exact hsame heq
    · -- an admitted fragment is one more of those the reassembler has been given
      show FedBy _ _ _ _ (t.stack.deliver t.attachment now pkt).attachment.reasm
      rw [heq]
      rcases h.fed with hclosed | ⟨as, hr, has⟩
      · exact .inl ((t.attachment.reasm.add_frame now ⟨pkt, hdr, hparse, hf⟩).closed.trans hclosed)
      · refine .inr ⟨as ++ [{ now := now, frag := { pkt, hdr, parsed := hparse, fragment := hf } }],
          ?_, ?_⟩
        · rw [Watched.after, Machine.run_append, hr]
          rfl
        · intro a ha
          rcases List.mem_append.mp ha with ha | ha
          · exact ⟨hgrow _ (has a ha).1, (has a ha).2⟩
          · obtain rfl := List.mem_singleton.mp ha
            refine ⟨?_, hsrc.trans h.client, hdst.trans h.server⟩
            rw [packets_append]
            exact List.mem_append_right _ List.mem_cons_self

/-- So it is in every run. -/
theorem Mediated.after (s : Stack) (ip : Addr) (limits : ReassemblyLimits)
    (evs : List TunnelEvent) :
    Mediated s.serverIP ip limits evs (Machine.run Tunnel.step (Tunnel.attach s ip limits) evs) :=
  Machine.run_history Tunnel.step (I := Mediated s.serverIP ip limits)
    ⟨rfl, rfl, .inr ⟨[], rfl, fun a ha => by cases ha⟩⟩ (fun _ ev h => h.step ev) evs

theorem Reassembler.add_closed (h : r.closed = true) (now : Int) (hdr : Ipv4Header)
    (pkt : Bytes) : (r.add now hdr pkt).2 = { outcome := .closed, expired := 0 } := by
  unfold add
  rw [if_pos h]

theorem Fate.outcome_of_datagram {b : ReassemblyBuffer} {left : Option ReassemblyBuffer}
    {o : ReasmOutcome} {datagram : Bytes} (h : Fate b f left o (some datagram)) :
    o = .complete := by
  cases h
  rfl

theorem Reassembler.add_complete {now : Int} {datagram : Bytes}
    (h : (r.add now f.hdr f.pkt).2.datagram = some datagram) :
    (r.add now f.hdr f.pkt).2.outcome = .complete := by
  cases hopen : r.closed with
  | true =>
    rw [add_closed hopen] at h
    cases h
  | false =>
    obtain ⟨-, -, ⟨-, -, -, hnone⟩ | hfate⟩ := add_cases hopen now f
    · cases hnone.symm.trans h
    · rw [h] at hfate
      exact hfate.outcome_of_datagram

theorem FedBy.complete {pkts : List Bytes} (h : FedBy serverIP ip limits pkts r) {now : Int}
    (hsrc : f.hdr.src = ip) (hdst : f.hdr.dst = serverIP)
    (ho : (r.add now f.hdr f.pkt).2.outcome = .complete) :
    ∃ datagram whole, (r.add now f.hdr f.pkt).2.datagram = some datagram
      ∧ parseIPv4 datagram = .ok whole ∧ whole.isFragment = false
      ∧ whole.src = ip ∧ whole.dst = serverIP
      ∧ ∀ x < (slice datagram whole.payloadOff whole.totalLen).length, ∃ q ∈ pkts ++ [f.pkt],
          Brought serverIP ip (slice datagram whole.payloadOff whole.totalLen) x q := by
  rcases h with hclosed | ⟨as, rfl, has⟩
  · rw [Reassembler.add_closed hclosed] at ho
    cases ho
  · have hadm : Arrival.Admitted serverIP ip { now := now, frag := f } := ⟨hsrc, hdst⟩
    obtain ⟨datagram, whole, hd, hok, hwhole, hs, ht, hbytes⟩ :=
      reassembled_admitted (fun g hg => (has g hg).2) hadm ho
    refine ⟨datagram, whole, hd, hok, hwhole, hs, ht, fun x hx => ?_⟩
    obtain ⟨g, hg, hfrom⟩ := hbytes x hx
    refine ⟨g.frag.pkt, ?_, hfrom⟩
    rcases List.mem_append.mp hg with hg | hg
    · exact List.mem_append_left _ (has g hg).1
    · rw [List.mem_singleton.mp hg]
      simp

/--
Whatever an attachment is given: a handler is only invoked for a datagram from the
attachment's address to the server's, all of whose bytes came in packets that passed
the same checks. A packet that fails a check changes nothing that later packets could
see. A reassembled datagram parses, as a whole one.
-/
theorem tunnel_acl_complete (s : Stack) (ip : Addr) (limits : ReassemblyLimits)
    (evs : List TunnelEvent) (now : Int) (pkt : Bytes) :
    let t := Machine.run Tunnel.step (Tunnel.attach s ip limits) evs
    let r := t.stack.deliver t.attachment now pkt
    (∀ call, r.call = some call → call.src = ip ∧ call.dst = s.serverIP
        ∧ ∀ x < call.payload.length, ∃ q ∈ packets evs ++ [pkt],
          Brought s.serverIP ip call.payload x q)
      ∧ (¬ Admitted s.serverIP ip pkt → r.attachment.reasm = t.attachment.reasm ∧ r.call = none)
      ∧ (∀ hdr datagram, parseIPv4 pkt = .ok hdr → hdr.src = ip → hdr.dst = s.serverIP →
          hdr.isFragment = true → (t.attachment.reasm.add now hdr pkt).2.datagram = some datagram →
          ∃ whole, parseIPv4 datagram = .ok whole ∧ whole.isFragment = false) := by
  intro t r
  have hmed : Mediated s.serverIP ip limits evs t := Mediated.after s ip limits evs
  obtain ⟨-, -, hcases⟩ := t.stack.deliver_cases t.attachment now pkt
  rw [hmed.server, hmed.client] at hcases
  refine ⟨?_, ?_, ?_⟩
  · intro call hcall
    rcases hcases with ⟨-, -, hnone⟩ | ⟨hdr, hparse, hsrc, hdst,
      ⟨hwhole, -, hdirect⟩ | ⟨hf, -, hvia⟩⟩
    · cases hnone.symm.trans hcall
    · obtain ⟨h1, h2, h3⟩ := hdirect call hcall
      have hoff : hdr.fragOffset = 0 := by
        simp only [Ipv4Header.isFragment, Bool.or_eq_false_iff, bne_eq_false_iff_eq] at hwhole
        exact hwhole.2
      refine ⟨h1.trans hsrc, h2.trans hdst,
        fun x hx => ⟨pkt, by simp, hdr, hparse, hsrc, hdst, ?_, ?_⟩⟩
      · omega
      · rw [hoff, ← h3]
        exact ⟨_, List.getElem?_eq_getElem hx, List.getElem?_eq_getElem hx⟩
    · obtain ⟨ho, datagram, whole, hd, hok, h1, h2, h3⟩ := hvia call hcall
      obtain ⟨datagram', whole', hd', hok', -, hs, ht, hbytes⟩ :=
        FedBy.complete (f := { pkt, hdr, parsed := hparse, fragment := hf }) hmed.fed hsrc hdst ho
      obtain rfl := Option.some.inj (hd.symm.trans hd')
      obtain rfl := Except.ok.inj (hok.symm.trans hok')
      rw [h3]
      exact ⟨h1.trans hs, h2.trans ht, hbytes⟩
  · intro hnot
    rcases hcases with ⟨-, hsame, hnone⟩ | ⟨hdr, hparse, hsrc, hdst, -⟩
    · exact ⟨hsame, hnone⟩
    · exact absurd ⟨hdr, hparse, hsrc, hdst⟩ hnot
  · intro hdr datagram hparse hsrc hdst hf hd
    have ho := Reassembler.add_complete (f := { pkt, hdr, parsed := hparse, fragment := hf }) hd
    obtain ⟨datagram', whole, hd', hok, hwhole, -⟩ :=
      FedBy.complete (f := { pkt, hdr, parsed := hparse, fragment := hf }) hmed.fed hsrc hdst ho
    obtain rfl := Option.some.inj (hd.symm.trans hd')
    exact ⟨whole, hok, hwhole⟩

/-- Two fragments of a session's own reach the UDP handler as one datagram. -/
example :
    let t := Machine.run Tunnel.step (Tunnel.attach { serverIP := 0x0A080001 } 0x0A080002 {})
      [.register .udp, .deliver 0 (samplePacket 0 true 1)]
    (t.stack.deliver t.attachment 1 (samplePacket 1 false 2)).call
      = some { handler := .udp, src := 0x0A080002, dst := 0x0A080001,
               payload := List.replicate 8 1 ++ List.replicate 8 2 } := by
  decide +kernel

end GoVpn.Netstack
