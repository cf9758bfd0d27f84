import GoVpn.Proof.SendLog

/-!
# What a `Write` reports

`Write` returns how many bytes it has sent. A chunk counts once its `writeChunk` has returned
without an error, and `writeChunk` gives its chunk a packet ID, marks a slot and drains the pending
acknowledgements before it can fail. An error of `Wrap` or of the transport takes nothing of this
back: the chunk is not counted, but it stays in the send window, where `retransmitLoop` finds it.

A `Write` that ends in `waitForSendSlot`, or with its last chunk sent, reports exactly the chunks
that are ever transmitted.
-/

namespace GoVpn.Proof

open GoVpn.Control

/-- The bytes of the chunks of call `i` that `pick` picks. -/
def callBytes (i : Nat) (pick : Issue → Bool) (xs : List Issue) : Bytes :=
  (xs.filter fun x => x.call == i && pick x).flatMap Issue.chunk

/-- The count a `Write` returns: the chunks whose `writeChunk` returned without an error. -/
def writeCount (s : SendLog) (i : Nat) : Nat := (callBytes i Issue.sent s.issued).length

/-- The packet's datagram was handed to the transport, by its writer or by `retransmitLoop`. -/
def Issue.handed (h : List Event) (x : Issue) : Bool := x.wire.any (handedIn h).contains

/-- The chunks of call `i` that were transmitted. -/
def transmitted (s : SendLog) (i : Nat) : Bytes := callBytes i (Issue.handed s.node.hist) s.issued

/-- What the `Write` of `p` that has just returned reports is right. -/
structure Reports (K : Crypto) (s : SendLog) (i : Nat) (p : Bytes) : Prop where
  /-- In every continuation. -/
  delivers : ∀ more, transmitted (Machine.run (SendLog.step K) s more) i = p.take (writeCount s i)
  /-- A chunk whose `writeChunk` returned an error has no entry in the window. -/
  entries : ∀ x ∈ s.issued, x.call = i → x.sent = false → s.node.conn.sendRel.holds x.id = false
  /-- The acknowledgements of a packet that was never handed over are still pending. -/
  acks : ∀ x ∈ s.issued, x.call = i → x.handed s.node.hist = false →
    ∀ id ∈ x.acks, id ∈ s.node.conn.acks

/-- The call `i` returns in this step. -/
def Returns (K : Crypto) (n : Node) (input : Input) (i : Nat) : Prop :=
  n.tasks[i]? ≠ some .done ∧ (n.step K input).tasks[i]? = some .done

/-- The locked section is a `Wrap` or a `WriteTo` that fails. -/
def sectionFails (K : Crypto) (c : Conn) (env : Env) : Task → Bool
  | .wrap _ cp _ => (c.wrapper.wrap K env.clock cp.header cp.plaintext).2.toOption.isNone
  | .transmit _ _ => !env.delivered
  | _ => false

/-- In this step the goroutine `i` fails in `Wrap` or in `WriteTo`. -/
def SendFails (K : Crypto) (n : Node) (i : Nat) : Input → Prop
  | .run j env => j = i ∧ ∃ t ∈ n.tasks[i]?, sectionFails K n.conn env t = true
  | _ => False

instance decidableSendFails (K : Crypto) (n : Node) (i : Nat) :
    (input : Input) → Decidable (SendFails K n i input)
  | .run j env =>
    inferInstanceAs (Decidable (j = i ∧ ∃ t ∈ n.tasks[i]?, sectionFails K n.conn env t = true))
  | .write _ | .sendReset _ | .deliver _ _ | .receive _ _ | .retransmit _ | .read _ | .close =>
    .isFalse id

/-! ## What a `Write` has still to send -/

/-- What the goroutine of a `Write` has still to give packet IDs to; `none` in any other. -/
def owed : Task → Option Bytes
  | .waitSlot _ payload rest | .blocked _ payload rest | .mark _ _ payload rest =>
    rest.map (payload ++ ·)
  | .build (some _) _ _ _ rest | .wrap (some _) _ rest | .setPayload _ _ rest | .transmit _ rest =>
    rest
  | _ => none

theorem owed_write (p : Bytes) : Task.write p = .done ∧ p = [] ∨ owed (Task.write p) = some p := by
  unfold Task.write
  split
  · exact .inr (congrArg some (List.take_append_drop _ _))
  · rename_i h
    exact .inl ⟨rfl, List.length_eq_zero_iff.mp (by omega)⟩

variable {input : Input} {l u : Bytes} {xs : List Issue}

/-- One locked section of a `Write`: it goes on, or it ends. -/
theorem exec_owed (K : Crypto) (c : Conn) (env : Env) (i : Nat) {t : Task} (h : owed t = some u) :
    (c.exec K env t).2.1 = .done ∨ ∃ u', owed (c.exec K env t).2.1 = some u'
      ∧ ((sendAct K c env t).issue i).flatMap Issue.chunk ++ u' = u := by
  cases t with
  | waitSlot op payload rest =>
    simp only [Conn.exec]
    split <;> exact .inr ⟨u, h, rfl⟩
  | blocked op payload rest =>
    simp only [Conn.exec]
    split
    · exact .inl rfl
    · exact .inr ⟨u, h, rfl⟩
  | mark idx op payload rest =>
    obtain ⟨r, hr, rfl⟩ := Option.map_eq_some_iff.mp h
    exact .inr ⟨r, hr, by simp [sendAct, SendAct.issue]⟩
  | build slot op id payload rest =>
    cases slot with
    | none => cases h
    | some idx => exact .inr ⟨u, h, rfl⟩
  | wrap slot cp rest =>
    cases slot with
    | none => cases h
    | some idx =>
      simp only [Conn.exec, sendAct]
      cases (c.wrapper.wrap K env.clock cp.header cp.plaintext).2
      · exact .inl rfl
      · exact .inr ⟨u, h, rfl⟩
  | setPayload idx wire rest => exact .inr ⟨u, h, rfl⟩
  | transmit wire rest =>
    obtain rfl : rest = some u := h
    simp only [Conn.exec, sendAct]
    split
    · rcases owed_write u with ⟨hd, -⟩ | hw
      · exact .inl hd
      · exact .inr ⟨u, hw, rfl⟩
    · exact .inl rfl
  | absorb | put | addAck | drain | flush | done => cases h

/-- A `Write` that ends without a failed `Wrap` or `WriteTo` has no packet under way. -/
theorem exec_ends (K : Crypto) (c : Conn) (env : Env) {t : Task} (h : owed t = some u)
    (hd : (c.exec K env t).2.1 = .done) (hok : sectionFails K c env t = false) :
    (sendAct K c env t = .quiet ∧ hand t = .free) ∨ sendAct K c env t = .sends := by
  cases t with
  | waitSlot op payload rest =>
    simp only [Conn.exec] at hd
    split at hd <;> cases hd
  | blocked op payload rest => exact .inl ⟨rfl, rfl⟩
  | mark | build | setPayload => cases hd
  | wrap slot cp rest =>
    simp only [sectionFails] at hok
    simp only [Conn.exec] at hd
    cases hw : (c.wrapper.wrap K env.clock cp.header cp.plaintext).2 with
    | error e => rw [hw] at hok; cases hok
    | ok wire =>
      rw [hw] at hd
      cases slot <;> cases hd
  | transmit wire rest =>
    simp only [sectionFails, Bool.not_eq_false'] at hok
    exact .inr (by simp [sendAct, hok])
  | absorb | put | addAck | drain | flush | done => cases h

/-! ## The record of a call -/

theorem callBytes_update (i : Nat) {pick pick' : Issue → Bool} (a : SendAct) (j : Nat)
    (hp : ∀ x ∈ xs, x.call = i → pick' (a.update j x) = pick x) :
    callBytes i pick' (xs.map (a.update j)) = callBytes i pick xs := by
  unfold callBytes
  have hfilter : xs.filter ((fun x => x.call == i && pick' x) ∘ a.update j)
      = xs.filter fun x => x.call == i && pick x := by
    refine List.filter_congr fun x hx => ?_
    show ((a.update j x).call == i && pick' (a.update j x)) = (x.call == i && pick x)
    rw [SendAct.update_call]
    by_cases hc : x.call = i
    · rw [hp x hx hc]
    · rw [beq_eq_false_iff_ne.mpr hc, Bool.false_and, Bool.false_and]
  rw [List.filter_map, hfilter, List.flatMap_map]
  simp only [SendAct.update_chunk]

/-- All chunks of a call, in order. -/
abbrev chunksOf (i : Nat) (xs : List Issue) : Bytes := callBytes i (fun _ => true) xs

theorem chunksOf_apply (i : Nat) (a : SendAct) (j : Nat) (xs : List Issue) :
    chunksOf i (a.apply j xs) = chunksOf i xs ++ if j = i then (a.issue j).flatMap Issue.chunk
      else [] := by
  have hnew : chunksOf i (a.issue j) = if j = i then (a.issue j).flatMap Issue.chunk else [] := by
    unfold chunksOf callBytes
    split
    · rename_i hj
      rw [List.filter_eq_self.mpr]
      intro x hx
      simp [(SendAct.call_of_mem_issue hx).1, hj]
    · rename_i hj
      rw [List.filter_eq_nil_iff.mpr]
      · rfl
      · intro x hx
        simp [(SendAct.call_of_mem_issue hx).1, hj]
  have happ : chunksOf i (a.apply j xs) =
      chunksOf i (xs.map (a.update j)) ++ chunksOf i (a.issue j) := by
    unfold chunksOf callBytes SendAct.apply
    rw [List.filter_append, List.flatMap_append]
  rw [happ, hnew]
  congr 1
  exact callBytes_update i a j fun _ _ _ => rfl

variable {i : Nat} {K : Crypto} {s : SendLog}

theorem callBytes_eq_chunksOf {pick : Issue → Bool} (h : ∀ x ∈ xs, x.call = i → pick x = true) :
    callBytes i pick xs = chunksOf i xs := by
  unfold chunksOf callBytes
  congr 1
  refine List.filter_congr fun x hx => ?_
  by_cases hc : x.call = i
  · rw [h x hx hc]
  · simp [hc]

theorem chunksOf_recorded {n : Node} (ho : Others i input) :
    chunksOf i (recorded K n xs input) = chunksOf i xs := by
  cases input with
  | run j env =>
    simp only [recorded]
    split
    · rw [chunksOf_apply, if_neg ho, List.append_nil]
    · rfl
  | _ => rfl

/-- The chunks a `Write` has given packet IDs to and those it has still to, put together,
are what it was called with. -/
structure WriteInv (s : SendLog) : Prop where
  call : CallInv s
  started : ∀ w ∈ s.writes, w.1 < s.node.tasks.length
  goesOn : ∀ w ∈ s.writes, ∀ t ∈ s.node.tasks[w.1]?, t = .done
    ∨ ∃ u, owed t = some u ∧ chunksOf w.1 s.issued ++ u = w.2

theorem writeInv_start (localSID remoteSID : SessionID) (wrapper : Wrapper) (keyID : UInt8) :
    WriteInv (SendLog.start localSID remoteSID wrapper keyID) :=
  ⟨callInv_start _ _ _ _, fun _ h => absurd h List.not_mem_nil,
    fun _ h => absurd h List.not_mem_nil⟩

theorem tasks_length_le (K : Crypto) (s : SendLog) (input : Input) :
    s.node.tasks.length ≤ (s.step K input).node.tasks.length := by
  cases logStep K s input with
  | calls ts es htasks => rw [htasks, List.length_append]; exact Nat.le_add_right _ _
  | runs i env t t' es a _ _ htasks => rw [htasks, List.length_set]

theorem chunksOf_fresh (hs : CallInv s) (hi : s.node.tasks.length ≤ i) :
    chunksOf i s.issued = [] := by
  unfold chunksOf callBytes
  rw [List.filter_eq_nil_iff.mpr]
  · rfl
  · intro x hx
    have := hs.calls x hx
    simp
    omega

/-- Only `Write` adds a write. -/
theorem mem_writes_step {w : Nat × Bytes} (h : w ∈ (s.step K input).writes) :
    w ∈ s.writes ∨ input = .write w.2 ∧ w.1 = s.node.tasks.length := by
  cases input with
  | write p =>
    rcases List.mem_append.mp h with h | h
    · exact .inl h
    · rw [List.mem_singleton.mp h]
      exact .inr ⟨rfl, rfl⟩
  | _ => exact .inl h

/-- A call goes on with what it still owes. -/
theorem goesOn_run {p : Bytes} {t t' : Task} {env : Env} (ht : s.node.tasks[i]? = some t)
    (hgo : t = .done ∨ ∃ u, owed t = some u ∧ chunksOf i s.issued ++ u = p)
    (ht' : (s.step K (.run i env)).node.tasks[i]? = some t') :
    t' = .done ∨ ∃ u, owed t' = some u ∧ chunksOf i (s.step K (.run i env)).issued ++ u = p := by
  have hn : (s.step K (.run i env)).node = _ := run_eq ht env
  have hx : (s.step K (.run i env)).issued = (sendAct K s.node.conn env t).apply i s.issued := by
    simp [SendLog.step, recorded, ht]
  rw [hn, List.getElem?_set_self (List.getElem?_eq_some_iff.mp ht).1] at ht'
  obtain rfl := Option.some.inj ht'
  rcases hgo with rfl | ⟨u, hu, hsum⟩
  · exact .inl rfl
  · rcases exec_owed K s.node.conn env i hu with hd | ⟨u', hu', hsum'⟩
    · exact .inl hd
    · refine .inr ⟨u', hu', ?_⟩
      rw [hx, chunksOf_apply, if_pos rfl, List.append_assoc, hsum', hsum]

/-- Every step keeps the account of the writes. -/
theorem writeInv_step (hs : WriteInv s) (input : Input) : WriteInv (s.step K input) := by
  refine ⟨callInv_step hs.call (logStep K s input), ?_, ?_⟩
  · intro w hw
    rcases mem_writes_step hw with hw | ⟨rfl, hlen⟩
    · exact Nat.lt_of_lt_of_le (hs.started w hw) (tasks_length_le K s input)
    · show w.1 < (s.node.tasks ++ [Task.write w.2]).length
      rw [hlen, List.length_append]
      exact Nat.lt_succ_self _
  · intro w hw t' ht'
    rcases mem_writes_step hw with hw | ⟨rfl, hlen⟩
    · obtain ⟨t, ht⟩ : ∃ t, s.node.tasks[w.1]? = some t :=
        ⟨_, List.getElem?_eq_getElem (hs.started w hw)⟩
      have hgo := hs.goesOn w hw t ht
      rcases others_or_run w.1 input with ho | ⟨env, rfl⟩
      · have hkept : (s.step K input).node.tasks[w.1]? = some t := task_kept ht ho
        obtain rfl := Option.some.inj (hkept.symm.trans ht')
        show t = .done ∨ ∃ u, owed t = some u ∧
          chunksOf w.1 (recorded K s.node s.issued input) ++ u = w.2
        rw [chunksOf_recorded ho]
        exact hgo
      · exact goesOn_run ht hgo ht'
    · have htasks : (s.step K (.write w.2)).node.tasks[w.1]? = some (Task.write w.2) := by
        rw [hlen]
        exact List.getElem?_concat_length
      obtain rfl := Option.some.inj (htasks.symm.trans ht')
      rcases owed_write w.2 with ⟨hd, -⟩ | hp
      · exact .inl hd
      · refine .inr ⟨w.2, hp, ?_⟩
        show chunksOf w.1 s.issued ++ w.2 = w.2
        rw [chunksOf_fresh hs.call (Nat.le_of_eq hlen.symm), List.nil_append]

/-! ## After the return -/

/-- The call has returned with every packet of its own sent, `l` in all. -/
structure Ended (i : Nat) (l : Bytes) (s : SendLog) : Prop where
  call : CallInv s
  done : s.node.tasks[i]? = some .done
  sent : ∀ x ∈ s.issued, x.call = i → x.sent = true
  bytes : chunksOf i s.issued = l

theorem Ended.handed (h : Ended i l s) {x : Issue} (hx : x ∈ s.issued) (hc : x.call = i) :
    x.handed s.node.hist = true := by
  obtain ⟨w, hw, hh⟩ := h.call.sent x hx (h.sent x hx hc)
  unfold Issue.handed
  simp [hw, hh]

theorem Ended.transmitted (h : Ended i l s) : transmitted s i = l :=
  (callBytes_eq_chunksOf fun _ hx hc => h.handed hx hc).trans h.bytes

/-- A call that has ended has ended. -/
theorem ended_step (h : Ended i l s) (input : Input) : Ended i l (s.step K input) := by
  have hcall := callInv_step h.call (logStep K s input)
  rcases others_or_run i input with ho | ⟨env, rfl⟩
  · refine ⟨hcall, task_kept h.done ho, ?_, (chunksOf_recorded ho).trans h.bytes⟩
    cases input with
    | run j env =>
      intro x hx hc
      simp only [SendLog.step, recorded] at hx
      split at hx
      · rcases SendAct.mem_apply.mp hx with ⟨y, hy, rfl⟩ | hnew
        · rw [SendAct.update_call] at hc
          exact SendAct.sent_update (h.sent y hy hc)
        · exact absurd ((SendAct.call_of_mem_issue hnew).1.symm.trans hc) ho
      · exact h.sent x hx hc
    | _ => exact h.sent
  · have hn : (s.step K (.run i env)).node = _ := run_eq h.done env
    have hx : (s.step K (.run i env)).issued = s.issued := by
      simp [SendLog.step, recorded, h.done, sendAct, SendAct.apply_quiet]
    refine ⟨hcall, ?_, hx ▸ h.sent, hx ▸ h.bytes⟩
    rw [hn, List.getElem?_set_self (List.getElem?_eq_some_iff.mp h.done).1]
    rfl

theorem sent_of_ends (hs : CallInv s) {t : Task} {env : Env} (ht : s.node.tasks[i]? = some t)
    (hu : owed t = some u) (hd : (s.node.conn.exec K env t).2.1 = .done)
    (hok : sectionFails K s.node.conn env t = false) :
    (∀ x ∈ (sendAct K s.node.conn env t).apply i s.issued, x.call = i → x.sent = true)
      ∧ (sendAct K s.node.conn env t).issue i = [] := by
  rcases exec_ends K s.node.conn env hu hd hok with ⟨ha, hh⟩ | ha
  · rw [ha]
    refine ⟨fun x hx hc => ?_, rfl⟩
    rcases SendAct.mem_apply.mp hx with ⟨y, hy, rfl⟩ | hnew
    · by_contra hns
      have hin := hs.under ht y hy (under_iff.mpr ⟨hc, Bool.eq_false_iff.mpr hns⟩)
      rw [hh] at hin
      exact hin
    · cases hnew
  · rw [ha]
    refine ⟨fun x hx hc => ?_, rfl⟩
    rcases SendAct.mem_apply.mp hx with ⟨y, hy, rfl⟩ | hnew
    · cases hy' : y.under i with
      | true => simp [SendAct.update, hy']
      | false =>
        by_contra hns
        have hunder := under_iff.mpr ⟨hc, Bool.eq_false_iff.mpr hns⟩
        rw [SendAct.under_of_update hunder] at hy'
        cases hy'
    · cases hnew

theorem returns_ended (hs : WriteInv s) {p : Bytes} (hw : (i, p) ∈ (s.step K input).writes)
    (hr : Returns K s.node input i) (hok : ¬ SendFails K s.node i input) :
    ∃ l u, Ended i l (s.step K input) ∧ l ++ u = p := by
  have hcall := callInv_step hs.call (logStep K s input)
  rcases mem_writes_step hw with hw | ⟨rfl, hlen⟩
  · obtain ⟨t, ht⟩ : ∃ t, s.node.tasks[i]? = some t :=
      ⟨_, List.getElem?_eq_getElem (hs.started _ hw)⟩
    rcases others_or_run i input with ho | ⟨env, rfl⟩
    · have hkept : (s.node.step K input).tasks[i]? = some t := task_kept ht ho
      exact absurd (ht.trans (hkept.symm.trans hr.2)) hr.1
    · have hn : s.node.step K (.run i env) = _ := run_eq ht env
      have hdone := hr.2
      rw [hn, List.getElem?_set_self (List.getElem?_eq_some_iff.mp ht).1,
        Option.some.injEq] at hdone
      have hx : (s.step K (.run i env)).issued =
          (sendAct K s.node.conn env t).apply i s.issued := by
        simp [SendLog.step, recorded, ht]
      rcases hs.goesOn _ hw t ht with rfl | ⟨u, hu, hsum⟩
      · exact absurd ht hr.1
      · have hfail : sectionFails K s.node.conn env t = false :=
          Bool.eq_false_iff.mpr fun hf => hok ⟨rfl, t, ht, hf⟩
        obtain ⟨hsent, hissue⟩ := sent_of_ends hs.call ht hu hdone hfail
        refine ⟨chunksOf i s.issued, u, ⟨hcall, hr.2, hx ▸ hsent, ?_⟩, hsum⟩
        rw [hx, chunksOf_apply, hissue]
        simp
  · -- the call returns as it begins: there was nothing to write
    have htask : (s.node.step K (.write p)).tasks[i]? = some (Task.write p) := by
      rw [show i = s.node.tasks.length from hlen]
      exact List.getElem?_concat_length
    have hd : Task.write p = .done := Option.some.inj (htask.symm.trans hr.2)
    have hp : p = [] := by
      rcases owed_write p with ⟨-, hp⟩ | hp
      · exact hp
      · rw [hd] at hp; cases hp
    have hnone : chunksOf i s.issued = [] := chunksOf_fresh hs.call (Nat.le_of_eq hlen.symm)
    refine ⟨[], [], ⟨hcall, hr.2, fun x hx hc => ?_, hnone⟩, hp.symm⟩
    have hlt := hs.call.calls x hx
    rw [hc, show i = s.node.tasks.length from hlen] at hlt
    exact absurd hlt (Nat.lt_irrefl _)

/--
**`Write` reports exactly what is delivered** when it ends with its last chunk sent or
in `waitForSendSlot`: in every run up to the step in which it returns, whatever else
the goroutines, the peer and the transport did.
-/
theorem write_reports_delivered (K : Crypto) (localSID remoteSID : SessionID) (wrapper : Wrapper)
    (keyID : UInt8) (ins : List Input) (input : Input) (i : Nat) (p : Bytes) (s : SendLog)
    (hs : s = Machine.run (SendLog.step K) (SendLog.start localSID remoteSID wrapper keyID) ins)
    (hw : (i, p) ∈ (s.step K input).writes) (hr : Returns K s.node input i)
    (hok : ¬ SendFails K s.node i input) : Reports K (s.step K input) i p := by
  subst hs
  have hinv := Machine.run_invariant' (I := WriteInv) (fun _ a h => writeInv_step (K := K) h a)
    (writeInv_start localSID remoteSID wrapper keyID) ins
  obtain ⟨l, u, hend, hsum⟩ := returns_ended hinv hw hr hok
  refine ⟨fun more => ?_, fun x hx hc hns => ?_, fun x hx hc hnh => ?_⟩
  · have hlater :=
      Machine.run_invariant' (I := Ended i l) (fun _ a h => ended_step (K := K) h a) hend more
    rw [hlater.transmitted, writeCount, callBytes_eq_chunksOf hend.sent, hend.bytes, ← hsum,
      List.take_left]
  · rw [hend.sent x hx hc] at hns
    cases hns
  · rw [hend.handed hx hc] at hnh
    cases hnh

/-- One chunk, up to the transport. -/
def oneChunkBuilt : SendLog :=
  Machine.run (SendLog.step toyCrypto) (SendLog.start .zero .zero (toyWrapper true) 0)
    (.write [7] :: List.replicate 5 (.run 0 calm))

/-- `WriteTo` takes it, and `Write` returns 1. -/
theorem sent_chunk_reported :
    Reports toyCrypto (oneChunkBuilt.step toyCrypto (.run 0 calm)) 0 [7]
      ∧ writeCount (oneChunkBuilt.step toyCrypto (.run 0 calm)) 0 = 1 :=
  ⟨write_reports_delivered toyCrypto .zero .zero (toyWrapper true) 0
    (.write [7] :: List.replicate 5 (.run 0 calm)) (.run 0 calm) 0 [7] oneChunkBuilt rfl
      (by decide +kernel)
    ⟨by decide +kernel, by decide +kernel⟩ (by decide +kernel), by decide +kernel⟩

/-- `WriteTo` fails. -/
def refusedByTransport : Env := { clock := 1, expired := false, delivered := false }

/-- `Write` returns 0 and an error, and `retransmitLoop` sends the chunk all the same. -/
theorem failed_write_delivered :
    ¬ Reports toyCrypto (oneChunkBuilt.step toyCrypto (.run 0 refusedByTransport)) 0 [7]
      ∧ writeCount (oneChunkBuilt.step toyCrypto (.run 0 refusedByTransport)) 0 = 0
      ∧ Returns toyCrypto oneChunkBuilt.node (.run 0 refusedByTransport) 0
      ∧ (oneChunkBuilt.step toyCrypto (.run 0 refusedByTransport)).node.conn.sendRel.holds 0 = true
      ∧ (handedIn (Machine.run (SendLog.step toyCrypto)
          (oneChunkBuilt.step toyCrypto (.run 0 refusedByTransport))
          [.retransmit 0, .run 1 calm]).node.hist).length = 2 := by
  refine ⟨fun h => ?_, by decide +kernel, ⟨by decide +kernel, by decide +kernel⟩, by decide +kernel,
    by decide +kernel⟩
  have hd := h.delivers [.retransmit 0, .run 1 calm]
  have hsent : transmitted (Machine.run (SendLog.step toyCrypto)
      (oneChunkBuilt.step toyCrypto (.run 0 refusedByTransport)) [.retransmit 0, .run 1 calm]) 0 =
        [7] := by
    decide +kernel
  have hcount : writeCount (oneChunkBuilt.step toyCrypto (.run 0 refusedByTransport)) 0 = 0 := by
    decide +kernel
  cases hd

end GoVpn.Proof
