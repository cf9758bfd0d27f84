import GoVpn.Lib.Quota
import GoVpn.Proof.TcpDemuxStep

/-!
# The half-open and live budgets

Two counters for each client are taken up in one critical section, and given back in others: the
connection's flag is cleared under the connection's mutex, the counter decremented under the
demux's. Between the two the counter is too high, never too low.

A counter is the number of connections that still have its flag, plus the calls about to put a
connection into the table, plus the calls that have cleared a flag and not yet decremented. A
connection that has left SYN_RCVD, or is closed, and still has the flag has a call under way that
will clear it. The argument is made once for both budgets, over `Budget`.
-/

namespace GoVpn.Netstack

open TcpDemux GoVpn.Proof

namespace Budget

/-- The connection no longer takes a place. -/
def spent : Budget → TcpState → Bool
  | .halfOpen, s => decide (s ≠ .synRcvd)
  | .live, s => decide (s = .closed)

def released : Budget → TcpDemux → List Nat
  | .halfOpen => TcpDemux.halfOpenReleased
  | .live => TcpDemux.liveReleased

def account (b : Budget) (c : DemuxConn) : Quota.Account Addr TcpState :=
  { client := c.halfOpenIP, state := c.world.conn.state, flag := b.flag c }

/-- The demux as the budget sees it. -/
def book (b : Budget) (d : TcpDemux) : Quota.Book Addr TcpState :=
  { accounts := d.pool.map b.account, counter := b.counter d, released := b.released d }

/-- What a section has to do for the budget. -/
def due : Budget → DemuxSection → Option (Quota.Due Addr)
  | _, .insert _ p => some (.enter p.src)
  | .halfOpen, .releaseHalfOpen id => some (.release id)
  | .halfOpen, .decHalfOpen id ip => some (.give id ip)
  | .live, .releaseLiveConn id => some (.release id)
  | .live, .decLiveConn id ip => some (.give id ip)
  | _, _ => none

section Due

variable {b b' : Budget} {sec : DemuxSection}

theorem due_undecided {p : Inbound} (h : sec.undecided = some p) : b.due sec = none := by
  cases sec <;> cases h <;> cases b <;> rfl

theorem due_acts {x : Nat × Action} (h : sec.acts = some x) : b.due sec = none := by
  cases sec <;> cases h <;> cases b <;> rfl

theorem due_inside (h : sec.inside = true) : b.due sec = none := by
  cases sec <;> cases h <;> cases b <;> rfl

theorem inside_of_listener (h : sec.ofListener = true) : sec.inside = true := by
  cases sec <;> cases h <;> rfl

theorem due_release (id : Nat) :
    b.due (b'.release id) = if b' = b then some (.release id) else none := by
  cases b <;> cases b' <;> rfl

theorem due_dec (id : Nat) (ip : Addr) :
    b.due (b'.dec id ip) = if b' = b then some (.give id ip) else none := by
  cases b <;> cases b' <;> rfl

end Due

/-! ## Every section is a step of the quota -/

section Refines

variable {b : Budget} {d d' : TcpDemux} {sec : DemuxSection} {more : List DemuxSection}

variable {act : Action} {id : Nat}

theorem due_afterwards {w : World} {x : Quota.Due Addr}
    (hx : x ∈ (afterwards id w act).filterMap b.due) :
    x = .release id ∧ b.spent (w.act act).conn.state = true := by
  obtain ⟨s, hs, hx⟩ := List.mem_filterMap.mp hx
  rcases mem_afterwards hs with ⟨ho, rfl | rfl⟩ | ⟨hr, rfl | ⟨b', rfl⟩⟩ | rfl
  · rw [due_release] at hx
    split at hx
    · rename_i hb
      refine ⟨(Option.some.inj hx).symm, ?_⟩
      rw [← hb]
      exact decide_eq_true (opened_of_opens ho)
    · cases hx
  · cases b <;> cases hx
  · cases b <;> cases hx
  · rw [due_release] at hx
    have hcl := closed_of_removes hr
    split at hx
    · refine ⟨(Option.some.inj hx).symm, ?_⟩
      cases b <;> rw [hcl] <;> rfl
    · cases hx
  · cases b <;> cases hx

theorem release_afterwards {w : World} (h : b.spent w.conn.state = false)
    (h' : b.spent (w.act act).conn.state = true) :
    .release id ∈ (afterwards id w act).filterMap b.due := by
  refine List.mem_filterMap.mpr ⟨b.release id, ?_, by rw [due_release, if_pos rfl]⟩
  cases b with
  | halfOpen =>
    have hopen : w.conn.state = .synRcvd := by simpa [spent] using h
    rcases opens_or_removes hopen (by simpa [spent] using h') with ho | hr
    · exact release_mem_of_opens ho
    · exact release_mem_of_removes hr _
  | live =>
    have hlive : w.conn.state ≠ .closed := by simpa [spent] using h
    exact release_mem_of_removes (removes_of_closed hlive (by simpa [spent] using h')) _

theorem spent_act {w : World} (h : b.spent w.conn.state = true) :
    b.spent (w.act act).conn.state = true := by
  cases b with
  | halfOpen => exact decide_eq_true (act_opened (of_decide_eq_true h))
  | live => exact decide_eq_true (act_closed (of_decide_eq_true h))

theorem book_pool (d : TcpDemux) (pool : List DemuxConn) (conns : AList fun _ : FourTuple => Nat) :
    b.book { d with pool := pool, conns := conns } =
      ⟨pool.map b.account, b.counter d, b.released d⟩ := by
  cases b <;> rfl

theorem account_at {c : DemuxConn} (hc : d.pool[id]? = some c) :
    (b.book d).accounts[id]? = some (b.account c) := by
  show (d.pool.map b.account)[id]? = _
  rw [List.getElem?_map, hc]
  rfl

theorem accounts_clear {b' : Budget} {c : DemuxConn} (hc : d.pool[id]? = some c) (hb : b' ≠ b) :
    (d.pool.set id (b'.clear c)).map b.account = d.pool.map b.account := by
  have hsame : b.account (b'.clear c) = b.account c := by
    cases b <;> cases b' <;> first | rfl | exact absurd rfl hb
  rw [List.map_set, hsame]
  refine List.ext_getElem? fun i => ?_
  by_cases hi : i = id
  · subst hi
    have hat : (d.pool.map b.account)[i]? = some (b.account c) := account_at hc
    rw [List.getElem?_set_self (List.getElem?_eq_some_iff.mp hat).1, hat]
  · rw [List.getElem?_set_ne (Ne.symm hi)]

/-- A section books what it owes and nothing else. -/
theorem exec_effect (h : ExecStep d sec d' more) :
    Quota.Effect b.spent b.cap (b.book d) (b.due sec).toList (b.book d')
      (more.filterMap b.due) := by
  cases h with
  | dropped hsec =>
    rw [due_undecided hsec]
    exact .idle
  | passed hsec hsec' =>
    rw [due_undecided hsec, List.filterMap_cons_none (due_undecided hsec')]
    exact .idle
  | found => cases b <;> exact .idle
  | @counted l p hroom =>
    have hlt := hroom b
    cases b <;> exact .reserve hlt
  | @inserted l p =>
    have hnew : b.account (d.newConn l p) = ⟨p.src, .synRcvd, true⟩ := by cases b <;> rfl
    rw [book_pool d (d.pool ++ [_]) (d.conns.insert _ _), List.map_append, List.map_singleton, hnew]
    cases b <;> exact .enter rfl
  | @acted _ id act c hsec hc =>
    have hnew : b.account { c with world := c.world.act act }
        = ⟨c.halfOpenIP, (c.world.act act).conn.state, b.flag c⟩ := by cases b <;> rfl
    rw [due_acts hsec, book_pool d (d.pool.set id _) d.conns, List.map_set, hnew]
    exact .act (account_at hc) spent_act (fun x hx => due_afterwards hx) release_afterwards
  | deleted | absent => cases b <;> exact .idle
  | @released id c b' hc =>
    rw [due_release, book_pool d (d.pool.set id _) d.conns]
    by_cases hb : b' = b
    · subst hb
      have hnew : b'.account (b'.clear c) = ⟨c.halfOpenIP, c.world.conn.state, false⟩ := by
        cases b' <;> rfl
      have hmore : (if b'.flag c then [b'.dec id c.halfOpenIP] else []).filterMap b'.due
          = if (b'.account c).flag then [.give id (b'.account c).client] else [] := by
        show _ = if b'.flag c then [Quota.Due.give id c.halfOpenIP] else []
        split
        · rw [List.filterMap_cons_some (by rw [due_dec, if_pos rfl]), List.filterMap_nil]
        · rfl
      rw [if_pos rfl, List.map_set, hnew, hmore]
      exact .release (account_at hc)
    · have hmore : (if b'.flag c then [b'.dec id c.halfOpenIP] else []).filterMap b.due = [] := by
        split
        · rw [List.filterMap_cons_none (by rw [due_dec, if_neg hb]), List.filterMap_nil]
        · rfl
      rw [if_neg hb, accounts_clear hc hb, hmore]
      exact .idle
  | missing hc hsec =>
    rcases hsec with ⟨act, hsec⟩ | rfl | ⟨b', rfl⟩
    · rw [due_acts hsec]
      exact .idle
    · cases b <;> exact .idle
    · rw [due_release]
      split
      · refine .missing ?_
        show (d.pool.map b.account)[_]? = none
        rw [List.getElem?_map, hc]
        rfl
      · exact .idle
  | given b' =>
    cases b <;> cases b' <;> first | exact .give | exact .idle
  | listened _ _ hsec hmore =>
    rw [due_inside (inside_of_listener hsec),
      List.filterMap_eq_nil_iff.mpr fun s hs => due_inside (hmore s hs)]
    cases b <;> exact .idle
  | stopped => cases b <;> exact .idle

/-- A call books nothing. -/
theorem start_effect {e : DemuxEvent} (h : StartStep d e d' more) :
    b.book d' = b.book d ∧ more.filterMap b.due = [] := by
  cases h with
  | attached | detached | packet => cases b <;> exact ⟨rfl, rfl⟩
  | other _ _ hmore =>
    refine ⟨by cases b <;> rfl, ?_⟩
    exact List.filterMap_eq_nil_iff.mpr fun s hs => due_inside (hmore s hs)

end Refines

end Budget

/-! ## Closed connections leave the table -/

/-- Whoever has closed a connection that is in the table is to take it out. -/
def Removing (d : TcpDemux) (todo : List DemuxSection) : Prop :=
  ∀ k id c, d.conns.lookup k = some id → d.pool[id]? = some c → c.world.conn.state = .closed →
    .delete id ∈ todo

section Removing

variable {d d' : TcpDemux} {sec : DemuxSection} {more l : List DemuxSection}

/-- A section keeps every closed connection due for removal. -/
theorem Removing.exec (hkeyed : Keyed d) (hr : Removing d (sec :: l)) (h : ExecStep d sec d' more) :
    Removing d' (more ++ l) := by
  intro k id c' hk hc' hcl
  -- a connection that was closed before, in a section that does not take it out
  have hold : ∀ c, d.conns.lookup k = some id → d.pool[id]? = some c →
    c.world.conn.state = .closed →
      sec ≠ .delete id → .delete id ∈ more ++ l := by
    intro c hk hc hcl hne
    rcases List.mem_cons.mp (hr k id c hk hc hcl) with he | hl
    · exact absurd he.symm hne
    · exact List.mem_append_right _ hl
  cases h with
  | @inserted l' p =>
    rcases Tally.getElem?_concat_cases hc' with ⟨rfl, rfl⟩ | hc
    · cases hcl
    · refine hold c' ?_ hc hcl (by intro he; cases he)
      by_cases he : k = p.key
      · subst he
        rw [AList.lookup_insert] at hk
        have hlt := (List.getElem?_eq_some_iff.mp hc).1
        exact absurd (Option.some.inj hk) (by omega)
      · rwa [AList.lookup_insert_ne he] at hk
  | @acted _ i act c hsec hc =>
    have hne : sec ≠ .delete id := by
      rintro rfl
      cases hsec
    rcases Tally.getElem?_set_cases hc' with ⟨rfl, rfl⟩ | ⟨-, hc'⟩
    · by_cases hbefore : c.world.conn.state = .closed
      · exact hold c hk hc hbefore hne
      · exact List.mem_append_left _ (delete_mem_of_removes (removes_of_closed hbefore hcl))
    · exact hold c' hk hc' hcl hne
  | @deleted i c hc hi =>
    have hlook : d.conns.lookup k = some id := by
      by_cases he : k = c.key
      · subst he
        rw [AList.lookup_erase] at hk
        cases hk
      · rwa [AList.lookup_erase_ne he] at hk
    refine hold c' hlook hc' hcl ?_
    intro he
    obtain rfl : i = id := DemuxSection.delete.inj he
    -- it stood under its key, which has just been erased
    rw [← hkeyed.key_eq hlook hc, AList.lookup_erase] at hk
    cases hk
  | @absent i c hc hi =>
    refine hold c' hk hc' hcl ?_
    intro he
    obtain rfl : i = id := DemuxSection.delete.inj he
    exact hi (hkeyed.key_eq hk hc ▸ hk)
  | @released i c b hc =>
    have hne : b.release i ≠ .delete id := by cases b <;> (intro he; cases he)
    rcases Tally.getElem?_set_cases hc' with ⟨rfl, rfl⟩ | ⟨-, hc'⟩
    · refine hold c hk hc ?_ hne
      cases b <;> exact hcl
    · exact hold c' hk hc' hcl hne
  | @missing _ i hc hsec =>
    refine hold c' hk hc' hcl ?_
    rintro rfl
    rcases hsec with ⟨act, hsec⟩ | he | ⟨b, he⟩
    · cases hsec
    · obtain rfl : id = i := DemuxSection.delete.inj he
      cases hc.symm.trans hc'
    · cases b <;> cases he
  | given b =>
    cases b <;> exact hold c' hk hc' hcl (by intro he; cases he)
  | dropped hsec | passed hsec => exact hold c' hk hc' hcl (by rintro rfl; cases hsec)
  | found | counted => exact hold c' hk hc' hcl (by intro he; cases he)
  | listened _ _ hsec => exact hold c' hk hc' hcl (by rintro rfl; cases hsec)
  | stopped => exact hold c' hk hc' hcl (by intro he; cases he)

end Removing

/-! ## Whole runs -/

structure Budgeted (d : TcpDemux) (todo : List DemuxSection) : Prop where
  kept : ∀ b : Budget, Quota.Kept b.spent b.cap (b.book d) (todo.filterMap b.due)
  keyed : Keyed d
  removing : Removing d todo
  /-- The address a connection is counted for is that of its client. -/
  ips : ∀ (id : Nat) (c : DemuxConn), d.pool[id]? = some c → c.halfOpenIP = c.key.remoteIP

namespace Budgeted

theorem perm (d : TcpDemux) (l l' : List DemuxSection) (h : l.Perm l') (hd : Budgeted d l) :
    Budgeted d l' where
  kept b := (hd.kept b).perm (h.filterMap b.due)
  keyed := hd.keyed
  removing k id c hk hc hcl := h.mem_iff.mp (hd.removing k id c hk hc hcl)
  ips := hd.ips

/-- A call keeps the budgets. -/
theorem start {d : TcpDemux} {l : List DemuxSection} (hd : Budgeted d l) (e : DemuxEvent) :
    Budgeted (d.start e).1 ((d.start e).2 ++ l) := by
  have hstep := start_step d e
  obtain ⟨hpool, hconns⟩ := hstep.same
  refine ⟨fun b => ?_, ?_, ?_, ?_⟩
  · obtain ⟨hbook, hnone⟩ := Budget.start_effect (b := b) hstep
    rw [hbook, List.filterMap_append, hnone]
    exact hd.kept b
  · intro k id hk
    rw [hconns] at hk
    rw [hpool]
    exact hd.keyed k id hk
  · intro k id c hk hc hcl
    rw [hconns] at hk
    rw [hpool] at hc
    exact List.mem_append_right _ (hd.removing k id c hk hc hcl)
  · rw [hpool]
    exact hd.ips

/-- So does a section. -/
theorem exec {d : TcpDemux} {sec : DemuxSection} {l : List DemuxSection} (takes : Bool)
    (hd : Budgeted d (sec :: l)) : Budgeted (d.exec sec takes).1 ((d.exec sec takes).2 ++ l) := by
  have hstep := exec_step d sec takes
  refine ⟨fun b => ?_, hd.keyed.exec hstep, hd.removing.exec hd.keyed hstep, fun id c hc => ?_⟩
  · rw [List.filterMap_append]
    refine (Budget.exec_effect hstep).kept ?_
    have hcons : (sec :: l).filterMap b.due = (b.due sec).toList ++ l.filterMap b.due := by
      cases hdue : b.due sec <;> simp [hdue]
    rw [← hcons]
    exact hd.kept b
  · rcases hstep.conn_before hc with ⟨c₀, hc₀, hs⟩ | ⟨l', p, -, -, rfl⟩
    · rw [hs.ip, hs.key]
      exact hd.ips id c₀ hc₀
    · rfl

theorem init (serverIP : Addr) (mss : BitVec 16) :
    Budgeted { serverIP := serverIP, maxSegmentSize := mss } [] where
  kept b := by
    refine ⟨fun k => ?_, fun k => ?_, fun id a ha => ?_, fun id hid => ?_, fun id => ?_⟩
    · cases b <;> rfl
    · cases b <;> exact Nat.zero_le _
    · cases b <;> cases ha
    · cases hid
    · cases b <;> rfl
  keyed k id hk := by cases hk
  removing k id c hk := by cases hk
  ips id c hc := by cases hc

/-- So the budgets hold in every run. -/
theorem after (serverIP : Addr) (mss : BitVec 16) (ms : List (Threads.Move DemuxEvent Bool)) :
    Budgeted (TcpDemux.after serverIP mss ms).shared (TcpDemux.after serverIP mss ms).pending :=
  Threads.run_keeps' (p := program) perm (fun _ _ e h => h.start e)
    (fun _ _ takes _ h => h.exec takes) ms
    (init serverIP mss)

end Budgeted

/-- How many connections of `ip` are in a state that `p` admits. -/
def connsIn (d : TcpDemux) (ip : Addr) (p : TcpState → Bool) : Nat :=
  d.pool.countP fun c => decide (c.key.remoteIP = ip) && p c.world.conn.state

theorem connsIn_eq {d : TcpDemux}
    (h : ∀ (id : Nat) (c : DemuxConn), d.pool[id]? = some c → c.halfOpenIP = c.key.remoteIP)
    (b : Budget) (ip : Addr) :
    connsIn d ip (fun s => !b.spent s) = (b.book d).accounts.countP (Quota.isOpen b.spent ip) := by
  show d.pool.countP _ = (d.pool.map b.account).countP _
  rw [List.countP_map]
  refine List.countP_congr fun c hc => ?_
  obtain ⟨id, hid⟩ := List.mem_iff_getElem?.mp hc
  simp [Quota.isOpen, Budget.account, h id c hid]

/--
**The budgets are exact.** In every interleaving of critical sections, the counters keep to
their caps and are never below the number of connections in SYN_RCVD and of those not
CLOSED; each connection takes one off each counter at most once. With no call in
progress, but for an `Accept` that waits, the counters are these numbers, and no CLOSED
connection is in the table.
-/
theorem tcp_budgets_exact (serverIP : Addr) (mss : BitVec 16)
    (ms : List (Threads.Move DemuxEvent Bool)) :
    let s := TcpDemux.after serverIP mss ms
    let d := s.shared
    (∀ ip, d.halfOpen ip ≤ maxHalfOpenPerSession ∧ d.liveConns ip ≤ maxLiveConnsPerSession)
      ∧ (∀ ip, connsIn d ip (· = .synRcvd) ≤ d.halfOpen ip ∧
        connsIn d ip (· ≠ .closed) ≤ d.liveConns ip)
      ∧ (∀ id, d.halfOpenReleased.count id ≤ 1 ∧ d.liveReleased.count id ≤ 1)
      ∧ ((∀ sec ∈ s.pending, ∃ l, sec = .accept l) →
          (∀ ip, d.halfOpen ip = connsIn d ip (· = .synRcvd) ∧
            d.liveConns ip = connsIn d ip (· ≠ .closed))
          ∧ ∀ k id, d.conns.lookup k = some id →
              ∃ c, d.pool[id]? = some c ∧ c.world.conn.state ≠ .closed) := by
  intro s d
  have h : Budgeted d s.pending := Budgeted.after serverIP mss ms
  have hhalf : ∀ ip, connsIn d ip (· = .synRcvd) =
      connsIn d ip fun s => !Budget.halfOpen.spent s := by
    intro ip
    simp [Budget.spent]
  have hlive : ∀ ip, connsIn d ip (· ≠ .closed) = connsIn d ip fun s => !Budget.live.spent s := by
    intro ip
    simp [Budget.spent]
  refine ⟨fun ip => ⟨(h.kept .halfOpen).capped ip, (h.kept .live).capped ip⟩, fun ip => ⟨?_, ?_⟩,
    fun id => ⟨(h.kept .halfOpen).released_once id, (h.kept .live).released_once id⟩,
      fun hnone => ?_⟩
  · rw [hhalf, connsIn_eq h.ips]
    exact (h.kept .halfOpen).open_le ip
  · rw [hlive, connsIn_eq h.ips]
    exact (h.kept .live).open_le ip
  have hidle : ∀ b : Budget, s.pending.filterMap b.due = [] := fun b =>
    List.filterMap_eq_nil_iff.mpr fun sec hsec => by
      obtain ⟨l, rfl⟩ := hnone sec hsec
      cases b <;> rfl
  have hexact : ∀ b : Budget, Quota.Kept b.spent b.cap (b.book d) [] := fun b => hidle b ▸ h.kept b
  refine ⟨fun ip => ⟨?_, ?_⟩, fun k id hk => ?_⟩
  · rw [hhalf, connsIn_eq h.ips]
    exact (hexact .halfOpen).counter_eq ip
  · rw [hlive, connsIn_eq h.ips]
    exact (hexact .live).counter_eq ip
  · obtain ⟨c, hc, -⟩ := h.keyed k id hk
    refine ⟨c, hc, fun hcl => ?_⟩
    obtain ⟨l, he⟩ := hnone _ (h.removing k id c hk hc hcl)
    cases he

end GoVpn.Netstack
