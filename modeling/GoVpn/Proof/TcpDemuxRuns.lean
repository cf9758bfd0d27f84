import GoVpn.Proof.TcpDemuxStep

/-!
# One connection in a run of the demux

Everything that happens to a connection happens in its own critical sections, so a run
of the demux, cut down to the sections of one connection, is a run of that connection.
What is known of connections on their own is known of those in the pool.

The table is the demux's. A connection leaves it in a section of its own, after the one
that closed it.
-/

namespace GoVpn.Netstack

open TcpDemux GoVpn.Proof

/-- What a section does to the connection `id`, if it is one of that connection's. -/
def DemuxSection.actionOn (id : Nat) (sec : DemuxSection) : Option Action :=
  sec.acts.bind fun x => if x.1 = id then some x.2 else none

/-- What the run `ms` does to the connection `id`, in order. -/
def actionsOn (id : Nat) (s : Threads.Sys TcpDemux DemuxSection)
    (ms : List (Threads.Move DemuxEvent Bool)) : List Action :=
  (Threads.executed program s ms).filterMap (DemuxSection.actionOn id)

/-- A connection's own state, after the section. -/
def follow (id : Nat) (w : World) (sec : DemuxSection) : World :=
  match sec.actionOn id with
  | some act => w.act act
  | none => w

theorem foldl_follow (id : Nat) (secs : List DemuxSection) (w : World) :
    secs.foldl (follow id) w =
      Machine.run World.act w (secs.filterMap (DemuxSection.actionOn id)) := by
  induction secs generalizing w with
  | nil => rfl
  | cons sec secs ih =>
    rw [List.foldl_cons, ih, follow]
    cases hsec : sec.actionOn id with
    | none => rw [List.filterMap_cons_none hsec]
    | some act => rw [List.filterMap_cons_some hsec, Machine.run_cons]

/-- The connection `id` is the one `c` was, and its own state is `w`. -/
def ConnAt (id : Nat) (c : DemuxConn) (d : TcpDemux) (w : World) : Prop :=
  ∃ c', d.pool[id]? = some c' ∧ c.Same c' ∧ c'.world = w

section Steps

variable {d d' : TcpDemux} {sec : DemuxSection} {more : List DemuxSection} {id : Nat}
  {c c' : DemuxConn}

theorem actionOn_of_acts {i : Nat} {act : Action} (h : sec.acts = some (i, act)) :
    sec.actionOn id = if i = id then some act else none := by
  simp [DemuxSection.actionOn, h]

theorem actionOn_none (h : sec.acts = none) : sec.actionOn id = none := by
  simp [DemuxSection.actionOn, h]

theorem follow_none (h : sec.acts = none) (w : World) : follow id w sec = w := by
  rw [follow, actionOn_none h]

theorem acts_undecided {p : Inbound} (h : sec.undecided = some p) : sec.acts = none := by
  cases sec <;> cases h <;> rfl

theorem acts_ofListener (h : sec.ofListener = true) : sec.acts = none := by
  cases sec <;> cases h <;> rfl

theorem acts_release (b : Budget) : (b.release id).acts = none := by cases b <;> rfl

theorem acts_dec (b : Budget) (ip : Addr) : (b.dec id ip).acts = none := by cases b <;> rfl

theorem clear_world (b : Budget) (c : DemuxConn) : (b.clear c).world = c.world := by cases b <;> rfl

theorem ExecStep.follows_conn (h : ExecStep d sec d' more) (hc : d.pool[id]? = some c) :
    ConnAt id c d' (follow id c.world sec) := by
  have hid : sec.acts = none → ConnAt id c d (follow id c.world sec) :=
    fun ha => ⟨c, hc, ⟨rfl, rfl, rfl⟩, (follow_none ha _).symm⟩
  cases h with
  | dropped hsec | passed hsec => exact hid (acts_undecided hsec)
  | inserted =>
    refine ⟨c, ?_, ⟨rfl, rfl, rfl⟩, rfl⟩
    rw [List.getElem?_append_left (List.getElem?_eq_some_iff.mp hc).1, hc]
  | @acted _ i act x hsec hx =>
    rw [follow, actionOn_of_acts hsec]
    by_cases hi : i = id
    · subst hi
      obtain rfl : c = x := Option.some.inj (hc.symm.trans hx)
      rw [if_pos rfl]
      exact ⟨_, List.getElem?_set_self (List.getElem?_eq_some_iff.mp hc).1, ⟨rfl, rfl, rfl⟩, rfl⟩
    · rw [if_neg hi]
      exact ⟨c, by rw [List.getElem?_set_ne hi, hc], ⟨rfl, rfl, rfl⟩, rfl⟩
  | @released i x b hx =>
    rw [follow_none (acts_release b)]
    by_cases hi : i = id
    · subst hi
      obtain rfl : c = x := Option.some.inj (hc.symm.trans hx)
      exact ⟨_, List.getElem?_set_self (List.getElem?_eq_some_iff.mp hc).1, same_clear b,
        clear_world b c⟩
    · exact ⟨c, by rw [List.getElem?_set_ne hi, hc], ⟨rfl, rfl, rfl⟩, rfl⟩
  | @missing _ i hi hsec =>
    refine ⟨c, hc, ⟨rfl, rfl, rfl⟩, ?_⟩
    rcases hsec with ⟨act, ha⟩ | rfl | ⟨b, rfl⟩
    · have hne : i ≠ id := by rintro rfl; cases hc.symm.trans hi
      rw [follow, actionOn_of_acts ha, if_neg hne]
    · rfl
    · exact (follow_none (acts_release b) _).symm
  | given b =>
    cases b <;> exact ⟨c, hc, ⟨rfl, rfl, rfl⟩, rfl⟩
  | listened _ _ hsec =>
    rw [follow_none (acts_ofListener hsec)]
    exact ⟨c, hc, ⟨rfl, rfl, rfl⟩, rfl⟩
  | _ => exact hid rfl

theorem ExecStep.follows_back (h : ExecStep d sec d' more) (hc : d'.pool[id]? = some c') :
    (∃ c, d.pool[id]? = some c ∧ c.Same c' ∧ c'.world = follow id c.world sec)
      ∨ ∃ l p, sec = .insert l p ∧ c' = d.newConn l p := by
  rcases h.conn_before hc with ⟨c, hc0, hs⟩ | ⟨l, p, hsec, -, hnew⟩
  · obtain ⟨c'', hc'', -, hw⟩ := h.follows_conn hc0
    obtain rfl : c' = c'' := Option.some.inj (hc.symm.trans hc'')
    exact .inl ⟨c, hc0, hs, hw⟩
  · exact .inr ⟨l, p, hsec, hnew⟩

end Steps

/-! ## Runs -/

/--
**A connection's part of a run.** What a run of the demux makes of a connection is what
the connection's own sections make of it, one after the other.
-/
theorem conn_run {id : Nat} {c : DemuxConn} {s : Threads.Sys TcpDemux DemuxSection}
    (ms : List (Threads.Move DemuxEvent Bool)) (hc : s.shared.pool[id]? = some c) :
    ConnAt id c (Machine.run (Threads.step program) s ms).shared
      (Machine.run World.act c.world (actionsOn id s ms)) := by
  rw [actionsOn, ← foldl_follow]
  refine Threads.run_part (V := ConnAt id c) (f := follow id) ?_ ?_ ms ⟨c, hc, ⟨rfl, rfl, rfl⟩, rfl⟩
  · rintro d w e ⟨c', hc', hs, rfl⟩
    exact ⟨c',
      by rw [show (program.start d e).1.pool = d.pool from (start_step d e).same.1, hc'], hs, rfl⟩
  · rintro d w sec takes ⟨c', hc', hs, rfl⟩
    obtain ⟨c'', hc'', hs', hw⟩ := (exec_step d sec takes).follows_conn hc'
    exact ⟨c'', hc'', ⟨hs'.owner.trans hs.owner, hs'.key.trans hs.key, hs'.ip.trans hs.ip⟩, hw⟩

/-- What is known of every connection of the demux in every run. -/
structure Tended (d : TcpDemux) (todo : List DemuxSection) : Prop where
  /-- Its state is one a connection of its own can reach. -/
  reached : ∀ (id : Nat) (c : DemuxConn), d.pool[id]? = some c → ∃ p as, c.world = World.after p as
  /-- A closed connection has left the table, or somebody is about to take it out. -/
  removed : ∀ (id : Nat) (c : DemuxConn), d.pool[id]? = some c → c.world.conn.state = .closed →
    d.conns.lookup c.key ≠ some id ∨ .delete id ∈ todo

namespace Tended

variable {d d' : TcpDemux} {sec : DemuxSection} {more l : List DemuxSection}

theorem perm (d : TcpDemux) (l l' : List DemuxSection) (h : l.Perm l') (hd : Tended d l) :
    Tended d l' where
  reached := hd.reached
  removed id c hc hcl := (hd.removed id c hc hcl).imp_right h.mem_iff.mp

theorem reached_follow {id : Nat} {w : World} (h : ∃ p as, w = World.after p as) :
    ∃ p as, follow id w sec = World.after p as := by
  obtain ⟨p, as, rfl⟩ := h
  unfold follow
  split
  · rename_i act _
    exact ⟨p, as ++ [act], by rw [World.after, World.after, Machine.run_append]; rfl⟩
  · exact ⟨p, as, rfl⟩

theorem delete_of_closes (h : ExecStep d sec d' more) {id : Nat} {c : DemuxConn}
    (hc : d.pool[id]? = some c) (hopen : c.world.conn.state ≠ .closed)
    (hcl : (follow id c.world sec).conn.state = .closed) : .delete id ∈ more := by
  have hact : sec.actionOn id ≠ none := by
    intro hn
    rw [follow, hn] at hcl
    exact hopen hcl
  obtain ⟨act, hact⟩ := Option.ne_none_iff_exists'.mp hact
  rw [follow, hact] at hcl
  have hsec : sec.acts = some (id, act) := by
    simp only [DemuxSection.actionOn, Option.bind_eq_some_iff, Option.ite_none_right_eq_some,
      Option.some.injEq] at hact
    obtain ⟨⟨i, a⟩, ha, rfl, rfl⟩ := hact
    exact ha
  cases h with
  | @acted _ i a x hsec' hx =>
    obtain ⟨rfl, rfl⟩ : i = id ∧ a = act := by simpa using hsec'.symm.trans hsec
    obtain rfl : c = x := Option.some.inj (hc.symm.trans hx)
    exact delete_mem_of_removes (removes_of_closed hopen hcl)
  | dropped hu | passed hu => rw [acts_undecided hu] at hsec; cases hsec
  | released b => rw [acts_release] at hsec; cases hsec
  | given b => rw [acts_dec] at hsec; cases hsec
  | listened _ _ hl => rw [acts_ofListener hl] at hsec; cases hsec
  | @missing _ i hi hm =>
    rcases hm with ⟨a, ha⟩ | rfl | ⟨b, rfl⟩
    · obtain ⟨rfl, rfl⟩ : i = id ∧ a = act := by simpa using ha.symm.trans hsec
      rw [hc] at hi
      cases hi
    · cases hsec
    · rw [acts_release] at hsec; cases hsec
  | _ => cases hsec

theorem delete_removes (h : ExecStep d sec d' more) {id : Nat} (hsec : sec = .delete id)
    {c : DemuxConn} (hc : d.pool[id]? = some c) : d'.conns.lookup c.key ≠ some id := by
  cases h with
  | deleted hx =>
    obtain rfl := DemuxSection.delete.inj hsec
    obtain rfl := Option.some.inj (hc.symm.trans hx)
    simp
  | absent hx hk =>
    obtain rfl := DemuxSection.delete.inj hsec
    obtain rfl := Option.some.inj (hc.symm.trans hx)
    exact hk
  | missing hi hm =>
    subst hsec
    rcases hm with ⟨a, ha⟩ | hi' | ⟨b, hb⟩
    · cases ha
    · cases hi'
      rw [hc] at hi
      cases hi
    · cases b <;> cases hb
  | acted ha => subst hsec; cases ha
  | dropped hu | passed hu => subst hsec; cases hu
  | released b | given b => cases b <;> cases hsec
  | listened _ _ hl => subst hsec; cases hl
  | _ => cases hsec

/-- A section keeps every connection tended. -/
theorem exec (hd : Tended d (sec :: l)) (h : ExecStep d sec d' more) : Tended d' (more ++ l) where
  reached id c' hc' := by
    rcases h.follows_back hc' with ⟨c, hc, -, hw⟩ | ⟨ln, p, -, rfl⟩
    · rw [hw]
      exact reached_follow (hd.reached id c hc)
    · exact ⟨_, [], rfl⟩
  removed id c' hc' hcl := by
    rcases h.follows_back hc' with ⟨c, hc, hs, hw⟩ | ⟨ln, p, -, rfl⟩
    · rw [hw] at hcl
      by_cases hopen : c.world.conn.state = .closed
      · rcases hd.removed id c hc hopen with hk | hmem
        · -- only a new connection gets into the table
          left
          intro hk'
          rw [hs.key] at hk'
          rcases h.lookup_before hk' with hk0 | ⟨ln, p, -, -, hnew⟩
          · exact hk hk0
          · obtain rfl : d.newConn ln p = c' := Option.some.inj (hnew.symm.trans hc')
            rw [← hw] at hcl
            cases hcl
        · rcases List.mem_cons.mp hmem with rfl | hmem
          · left
            rw [hs.key]
            exact delete_removes h rfl hc
          · exact .inr (List.mem_append_right _ hmem)
      · exact .inr (List.mem_append_left _ (delete_of_closes h hc hopen hcl))
    · cases hcl

/-- So does a call. -/
theorem start {e : DemuxEvent} (hd : Tended d l) (h : StartStep d e d' more) :
    Tended d' (more ++ l) where
  reached id c hc := hd.reached id c (by rw [← h.same.1]; exact hc)
  removed id c hc hcl := by
    rw [h.same.1] at hc
    rw [h.same.2]
    exact (hd.removed id c hc hcl).imp_right (List.mem_append_right _)

end Tended

/-- So does a run. -/
theorem tended_run {s : Threads.Sys TcpDemux DemuxSection}
    (ms : List (Threads.Move DemuxEvent Bool)) (h : Tended s.shared s.pending) :
    Tended (Machine.run (Threads.step program) s ms).shared
      (Machine.run (Threads.step program) s ms).pending :=
  Threads.run_keeps' Tended.perm (fun d _ e hd => hd.start (start_step d e))
    (fun d sec takes _ hd => hd.exec (exec_step d sec takes)) ms h

/-- In every run every connection is tended. -/
theorem tended_after (serverIP : Addr) (mss : BitVec 16)
    (ms : List (Threads.Move DemuxEvent Bool)) :
    Tended (after serverIP mss ms).shared (after serverIP mss ms).pending := by
  refine tended_run ms ⟨fun id c hc => ?_, fun id c hc => ?_⟩
  · cases hc
  · cases hc

end GoVpn.Netstack
