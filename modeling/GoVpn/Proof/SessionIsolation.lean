import GoVpn.Proof.TcpDemuxStep

/-!
# Whose segments a connection sees

`handlePacket` finds a connection by its 4-tuple, which names the client by its tunnel address.
`Detach` frees the address at once, while the connections of the session that had it stay in the
table until their timer goroutines notice. A session that gets the address in between finds them
there: its packets reach connections that were accepted from another client.

If an address is attached again only after its earlier read loops have stopped, their packets have
been dealt with, and no connection from the address is in the table, then the table holds for every
address only connections of the newest attachment, the only one whose packets come in.
-/

namespace GoVpn.Netstack

open TcpDemux

namespace DemuxSection

/-- The packet a section is about, until it is known what becomes of it. -/
def inbound : DemuxSection → Option Inbound
  | .lookup p | .findListener p | .checkOpen _ p | .count _ p | .insert _ p => some p
  | _ => none

/-- No packet has led to the section. -/
def unprompted : DemuxSection → Bool
  | .lookup _ | .findListener _ | .checkOpen .. | .count .. | .insert .. | .segment .. => false
  | _ => true

variable {sec : DemuxSection}

theorem inbound_of_undecided {p : Inbound} (h : sec.undecided = some p) : sec.inbound = some p := by
  cases sec <;> cases h <;> rfl

theorem unprompted_of_inside (h : sec.inside = true) : sec.unprompted = true := by
  cases sec <;> cases h <;> rfl

theorem inbound_unprompted (h : sec.unprompted = true) : sec.inbound = none := by
  cases sec <;> cases h <;> rfl

end DemuxSection

theorem unprompted_afterwards {id : Nat} {w : World} {act : Action} {sec : DemuxSection}
    (h : sec ∈ afterwards id w act) : sec.unprompted = true := by
  rcases mem_afterwards h with ⟨-, rfl | rfl⟩ | ⟨-, rfl | ⟨b, rfl⟩⟩ | rfl
  · rfl
  · rfl
  · rfl
  · cases b <;> rfl
  · rfl

/-- If a section is `handleSegment` of a connection, the packet came in on the connection's own
attachment. -/
def ownSegment (d : TcpDemux) : DemuxSection → Bool
  | .segment a id _ => (d.pool[id]?).any fun c => c.owner = a
  | _ => true

/-- Nothing is left of the sessions that had the address. -/
def Vacated (d : TcpDemux) (todo : List DemuxSection) (ip : Addr) : Prop :=
  (∀ att ∈ d.attachments, att.ip = ip → att.stopped = true)
    ∧ (∀ e ∈ d.conns.entries, e.1.remoteIP ≠ ip)
    ∧ ∀ sec ∈ todo, sec.inbound.all (fun p => p.src ≠ ip) = true

instance (d : TcpDemux) (todo : List DemuxSection) (ip : Addr) : Decidable (Vacated d todo ip) := by
  unfold Vacated
  infer_instance

/-- An address is attached only when it is vacated. -/
def AttachesVacated (d : TcpDemux) (todo : List DemuxSection) : DemuxEvent → Prop
  | .attach ip => ip ≠ d.serverIP → d.routes ip = none → Vacated d todo ip
  | _ => True

instance (d : TcpDemux) (todo : List DemuxSection) (e : DemuxEvent) :
    Decidable (AttachesVacated d todo e) := by
  unfold AttachesVacated
  split <;> infer_instance

/-! ## The newest attachment of an address -/

/-- Among attachments to `ips`, `a` is the last one to `ip`. -/
def Newest (ips : List Addr) (a : Nat) (ip : Addr) : Prop :=
  ips[a]? = some ip ∧ ∀ b, ips[b]? = some ip → b ≤ a

theorem Newest.unique {ips : List Addr} {a b : Nat} {ip : Addr} (ha : Newest ips a ip)
    (hb : Newest ips b ip) :
    a = b := Nat.le_antisymm (hb.2 a ha.1) (ha.2 b hb.1)

theorem Newest.concat {ips : List Addr} {a : Nat} {ip ip' : Addr} (h : Newest ips a ip)
    (hne : ip' ≠ ip) : Newest (ips ++ [ip']) a ip := by
  refine ⟨by
    rw [List.getElem?_append_left (List.getElem?_eq_some_iff.mp h.1).1, h.1], fun b hb => ?_⟩
  rcases Tally.getElem?_concat_cases hb with ⟨-, he⟩ | hb
  · exact absurd he.symm hne
  · exact h.2 b hb

def TcpDemux.ips (d : TcpDemux) : List Addr := d.attachments.map (·.ip)

structure Isolated (d : TcpDemux) (todo : List DemuxSection) : Prop where
  /-- Of the attachments to an address, all but the newest have stopped. -/
  stopped : ∀ (a b : Nat) (att att' : Attached), d.attachments[a]? = some att →
    d.attachments[b]? = some att' → att'.ip = att.ip → a < b → att.stopped = true
  packets : ∀ sec ∈ todo, ∀ p, sec.inbound = some p → Newest d.ips p.a p.src
  table : ∀ (k : FourTuple) (id : Nat) (c : DemuxConn), d.conns.lookup k = some id →
    d.pool[id]? = some c → Newest d.ips c.owner k.remoteIP
  segments : ∀ sec ∈ todo, ownSegment d sec = true
  keyed : Keyed d

section Steps

variable {d d' : TcpDemux} {sec : DemuxSection} {more l : List DemuxSection}

theorem ExecStep.attachments (h : ExecStep d sec d' more) :
    d'.attachments = d.attachments
      ∨ ∃ a, d'.attachments = d.attachments.modify a fun att => { att with stopped := true } := by
  cases h with
  | @stopped a => exact .inr ⟨a, rfl⟩
  | given b => cases b <;> exact .inl rfl
  | _ => exact .inl rfl

theorem ExecStep.attachment (h : ExecStep d sec d' more) {a : Nat} {att' : Attached}
    (ha : d'.attachments[a]? = some att') :
    ∃ att, d.attachments[a]? = some att ∧ att.ip = att'.ip ∧
    (att.stopped = true → att'.stopped = true) := by
  rcases h.attachments with hsame | ⟨i, hstop⟩
  · rw [hsame] at ha
    exact ⟨att', ha, rfl, id⟩
  · rw [hstop, List.getElem?_modify] at ha
    obtain ⟨att, hatt, he⟩ := Option.map_eq_some_iff.mp ha
    refine ⟨att, hatt, ?_⟩
    split at he
    · subst he
      exact ⟨rfl, fun _ => rfl⟩
    · subst he
      exact ⟨rfl, id⟩

theorem ExecStep.ips (h : ExecStep d sec d' more) : d'.ips = d.ips := by
  unfold TcpDemux.ips
  rcases h.attachments with hsame | ⟨i, hstop⟩
  · rw [hsame]
  · rw [hstop]
    refine List.ext_getElem? fun j => ?_
    rw [List.getElem?_map, List.getElem?_modify, List.getElem?_map]
    cases d.attachments[j]? with
    | none => rfl
    | some att =>
      show some _ = some _
      split <;> rfl

theorem ownSegment_iff {a id : Nat} {seg : TcpSegment} :
    ownSegment d (.segment a id seg) = true ↔ ∃ c, d.pool[id]? = some c ∧ c.owner = a := by
  unfold ownSegment
  cases hc : d.pool[id]? <;> simp [hc]

variable {s : DemuxSection}

theorem ExecStep.ownSegment (h : ExecStep d sec d' more) (hs : ownSegment d s = true) :
    ownSegment d' s = true := by
  cases s with
  | segment a id seg =>
    obtain ⟨c, hc, ho⟩ := ownSegment_iff.mp hs
    obtain ⟨c', hc', hsame⟩ := h.conn_after hc
    exact ownSegment_iff.mpr ⟨c', hc', hsame.owner.trans ho⟩
  | _ => rfl

theorem ExecStep.follows (h : ExecStep d sec d' more) (hs : s ∈ more) :
    s.unprompted = true
      ∨ (∃ p, sec.inbound = some p ∧ s.inbound = some p)
      ∨ ∃ p id, sec.inbound = some p ∧ d.conns.lookup p.key = some id ∧
      s = .segment p.a id p.seg := by
  cases h with
  | @passed _ sec' p hsec hsec' =>
    rw [List.mem_singleton.mp hs]
    exact .inr
      (.inl ⟨p, DemuxSection.inbound_of_undecided hsec, DemuxSection.inbound_of_undecided hsec'⟩)
  | @found p id hid => exact .inr (.inr ⟨p, id, rfl, hid, List.mem_singleton.mp hs⟩)
  | @counted l p _ =>
    rw [List.mem_singleton.mp hs]
    exact .inr (.inl ⟨p, rfl, rfl⟩)
  | acted => exact .inl (unprompted_afterwards hs)
  | released b =>
    left
    split at hs
    · rw [List.mem_singleton.mp hs]
      cases b <;> rfl
    · cases hs
  | listened _ _ _ hmore => exact .inl (DemuxSection.unprompted_of_inside (hmore s hs))
  | _ => cases hs

theorem ownSegment_inbound {p : Inbound} (h : s.inbound = some p) : ownSegment d s = true := by
  cases s <;> cases h <;> rfl

theorem ownSegment_unprompted (h : s.unprompted = true) : ownSegment d s = true := by
  cases s <;> cases h <;> rfl

namespace Isolated

theorem perm (d : TcpDemux) (l l' : List DemuxSection) (h : l.Perm l') (hd : Isolated d l) :
    Isolated d l' where
  stopped := hd.stopped
  packets sec hsec := hd.packets sec (h.mem_iff.mpr hsec)
  table := hd.table
  segments sec hsec := hd.segments sec (h.mem_iff.mpr hsec)
  keyed := hd.keyed

/-- A section keeps the sessions isolated. -/
theorem exec (hd : Isolated d (sec :: l)) (h : ExecStep d sec d' more) :
    Isolated d' (more ++ l) where
  stopped a b att att' ha hb hip hlt := by
    obtain ⟨att₀, ha₀, hip₀, hst⟩ := h.attachment ha
    obtain ⟨att₁, hb₁, hip₁, -⟩ := h.attachment hb
    exact hst (hd.stopped a b att₀ att₁ ha₀ hb₁ (by rw [hip₁, hip, hip₀]) hlt)
  packets s hs p hp := by
    rw [h.ips]
    rcases List.mem_append.mp hs with hs | hs
    · rcases h.follows hs with hu | ⟨p', hsec, hs'⟩ | ⟨p', id, -, -, rfl⟩
      · cases hp.symm.trans (DemuxSection.inbound_unprompted hu)
      · obtain rfl : p = p' := Option.some.inj (hp.symm.trans hs')
        exact hd.packets sec List.mem_cons_self p hsec
      · cases hp
    · exact hd.packets s (List.mem_cons_of_mem _ hs) p hp
  table k id c' hk hc' := by
    rw [h.ips]
    rcases h.lookup_before hk with hk | ⟨l', p, rfl, rfl, hc⟩
    · obtain ⟨c, hc, -⟩ := hd.keyed k id hk
      obtain ⟨c₁, hc₁, hsame⟩ := h.conn_after hc
      obtain rfl : c₁ = c' := Option.some.inj (hc₁.symm.trans hc')
      rw [hsame.owner]
      exact hd.table k id c hk hc
    · obtain rfl : d.newConn l' p = c' := Option.some.inj (hc.symm.trans hc')
      exact hd.packets _ List.mem_cons_self p rfl
  segments s hs := by
    rcases List.mem_append.mp hs with hs | hs
    · rcases h.follows hs with hu | ⟨p, -, hs'⟩ | ⟨p, id, hsec, hk, rfl⟩
      · exact ownSegment_unprompted hu
      · exact ownSegment_inbound hs'
      · -- the packet and the connection are both of the newest attachment to the address
        obtain ⟨c, hc, -⟩ := hd.keyed p.key id hk
        have howner := hd.table p.key id c hk hc
        have hpacket := hd.packets sec List.mem_cons_self p hsec
        exact h.ownSegment (ownSegment_iff.mpr ⟨c, hc, howner.unique hpacket⟩)
    · exact h.ownSegment (hd.segments s (List.mem_cons_of_mem _ hs))
  keyed := hd.keyed.exec h

/-- So does a call, if it attaches what was vacated. -/
theorem start {e : DemuxEvent} (hd : Isolated d l) (hall : AttachesVacated d l e)
    (h : StartStep d e d' more) : Isolated d' (more ++ l) := by
  cases h with
  | @attached ip hserver hfree =>
    obtain ⟨hstop, htable, hpackets⟩ := hall hserver hfree
    have hips : (d.attachments ++ [({ ip := ip } : Attached)]).map Attached.ip = d.ips ++ [ip] := by
      rw [List.map_append]
      rfl
    refine ⟨fun a b att att' ha hb hip hlt => ?_, fun s hs p hp => ?_, fun k id c hk hc => ?_,
      fun s hs => hd.segments s hs, hd.keyed⟩
    · rcases Tally.getElem?_concat_cases hb with ⟨rfl, rfl⟩ | hb
      · rw [List.getElem?_append_left hlt] at ha
        exact hstop att (List.mem_of_getElem? ha) hip.symm
      · have hb' := (List.getElem?_eq_some_iff.mp hb).1
        rw [List.getElem?_append_left (by omega)] at ha
        exact hd.stopped a b att att' ha hb hip hlt
    · unfold TcpDemux.ips
      rw [hips]
      refine (hd.packets s hs p hp).concat fun he => ?_
      have hsrc := hpackets s hs
      rw [hp] at hsrc
      simp [he] at hsrc
    · unfold TcpDemux.ips
      rw [hips]
      exact (hd.table k id c hk hc).concat (Ne.symm (htable ⟨k, id⟩ (AList.mem_lookup_iff.mp hk)))
  | detached =>
    refine ⟨hd.stopped, fun s hs p hp => ?_, hd.table, fun s hs => ?_, hd.keyed⟩
    · rcases List.mem_cons.mp hs with rfl | hs
      · cases hp
      · exact hd.packets s hs p hp
    · rcases List.mem_cons.mp hs with rfl | hs
      · rfl
      · exact hd.segments s hs
  | @packet a att seg isn hatt hopen =>
    refine ⟨hd.stopped, fun s hs p hp => ?_, hd.table, fun s hs => ?_, hd.keyed⟩
    · rcases List.mem_cons.mp hs with rfl | hs
      · obtain rfl := Option.some.inj hp
        refine ⟨by unfold TcpDemux.ips; rw [List.getElem?_map, hatt]; rfl, fun b hb => ?_⟩
        -- a newer attachment to the address would mean that this one has stopped
        by_contra hlt
        unfold TcpDemux.ips at hb
        rw [List.getElem?_map] at hb
        obtain ⟨att', hb', hip⟩ := Option.map_eq_some_iff.mp hb
        cases hopen.symm.trans (hd.stopped a b att att' hatt hb' hip (Nat.lt_of_not_le hlt))
      · exact hd.packets s hs p hp
    · rcases List.mem_cons.mp hs with rfl | hs
      · rfl
      · exact hd.segments s hs
  | other _ _ hmore =>
    refine ⟨hd.stopped, fun s hs p hp => ?_, hd.table, fun s hs => ?_, hd.keyed⟩
    · rcases List.mem_append.mp hs with hs | hs
      · cases hp.symm.trans
          (DemuxSection.inbound_unprompted (DemuxSection.unprompted_of_inside (hmore s hs)))
      · exact hd.packets s hs p hp
    · rcases List.mem_append.mp hs with hs | hs
      · exact ownSegment_unprompted (DemuxSection.unprompted_of_inside (hmore s hs))
      · exact hd.segments s hs

end Isolated

end Steps

/--
**A connection sees only its own session's segments**, as long as an address is attached
only when nothing is left of the sessions that had it before: whenever `handlePacket`
has passed a segment to a connection, the segment came in on the connection's own
attachment.
-/
theorem own_segments_of_vacated (serverIP : Addr) (mss : BitVec 16)
    (ms : List (Threads.Move DemuxEvent Bool))
    (h : Machine.Along (Threads.step program) (Threads.Allowed AttachesVacated)
      { shared := { serverIP := serverIP, maxSegmentSize := mss } } ms) :
    ∀ sec ∈ (TcpDemux.after serverIP mss ms).pending,
      ownSegment (TcpDemux.after serverIP mss ms).shared sec = true := by
  have hinit : Isolated { serverIP := serverIP, maxSegmentSize := mss } [] := by
    refine ⟨fun a b att att' ha => ?_, fun s hs => ?_, fun k id c hk => ?_, fun s hs => ?_,
      fun k id hk => ?_⟩
    · cases ha
    · cases hs
    · cases hk
    · cases hs
    · cases hk
  have hend : Isolated (TcpDemux.after serverIP mss ms).shared
      (TcpDemux.after serverIP mss ms).pending :=
    Threads.run_keeps (p := program) (P := AttachesVacated) Isolated.perm
      (fun d l e hd hall => hd.start hall (start_step d e))
      (fun d sec takes l hd => hd.exec (exec_step d sec takes)) hinit h
  exact hend.segments

namespace Reattach

def serverIP : Addr := 0x0A080001
def clientIP : Addr := 0x0A080002

def segment (flags : BitVec 8) (seq : Seq) (payload : Bytes) : TcpSegment :=
  { srcPort := 5000, dstPort := 80, seq := seq, ack := 1, flags := flags, window := 1000,
    payload := payload }

/-- The thread `i` runs for `n` sections. -/
def runs (i n : Nat) : List (Threads.Move DemuxEvent Bool) := List.replicate n (.run i true)

/-- The first session opens a connection and is detached. -/
def detached : List (Threads.Move DemuxEvent Bool) :=
  [.start (.listen 80), .start (.attach clientIP), .start (.packet 0 (segment flagSYN 100 []) 0)]
    ++ runs 2 5 ++ [.start (.packet 0 (segment flagACK 101 []) 0)] ++ runs 3 5
    ++ [.start (.detach clientIP)] ++ runs 4 1

/-- The connection's timer goroutine notices, and removes it. -/
def cleanedUp : List (Threads.Move DemuxEvent Bool) :=
  detached ++ [.start (.noticeStop 0)] ++ runs 5 5

/-- The address goes to a second session, whose client opens a connection on the same ports. -/
def vacated : List (Threads.Move DemuxEvent Bool) :=
  cleanedUp ++ [.start (.attach clientIP), .start (.packet 1 (segment flagSYN 100 []) 0)]
    ++ runs 7 5 ++ [.start (.packet 1 (segment flagACK 101 []) 0)] ++ runs 8 1

/-- The address goes to a second session before that, and its client sends data on the same
ports. -/
def reused : List (Threads.Move DemuxEvent Bool) :=
  detached ++ [.start (.attach clientIP), .start (.packet 1 (segment flagACK 101 [7]) 0)] ++
    runs 6 1

end Reattach

/-- After the cleanup, the second session's segment goes to the second session's connection. -/
theorem own_segments_after_cleanup :
    ((TcpDemux.after Reattach.serverIP 1360 Reattach.vacated).pending.any fun sec =>
      sec.acts.isSome) = true
      ∧ ∀ sec ∈ (TcpDemux.after Reattach.serverIP 1360 Reattach.vacated).pending,
          ownSegment (TcpDemux.after Reattach.serverIP 1360 Reattach.vacated).shared sec = true :=
  ⟨by decide +kernel,
    own_segments_of_vacated Reattach.serverIP 1360 Reattach.vacated (by decide +kernel)⟩

/--
The connection of the first session gets the second session's segment, and takes its
payload for the application.
-/
theorem second_session_injects :
    ¬ (∀ sec ∈ (TcpDemux.after Reattach.serverIP 1360 Reattach.reused).pending,
        ownSegment (TcpDemux.after Reattach.serverIP 1360 Reattach.reused).shared sec = true)
      ∧ (TcpDemux.after Reattach.serverIP 1360 Reattach.reused).shared.pool.map
          (fun c => (c.owner, c.world.conn.recvBuf)) = [(0, [])]
      ∧ (TcpDemux.after Reattach.serverIP 1360
        (Reattach.reused ++ Reattach.runs 6 1)).shared.pool.map
          (fun c => (c.owner, c.world.conn.recvBuf)) = [(0, [7])] := by
  decide +kernel

end GoVpn.Netstack
