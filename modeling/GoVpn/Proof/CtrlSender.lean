import GoVpn.Proof.CtrlLocal

/-!
# One writer

An application that writes from one goroutine, and stops writing once a `Write` has
failed, has at most one send under way. What that send has still to number, put
after the payloads numbered so far, is what the application wrote.
-/

namespace GoVpn.Proof

open GoVpn.Control Tally

/-- What a sending goroutine has still to give packet IDs to; `none` if it is not sending. -/
def unsent : Task → Option Bytes
  | .waitSlot _ payload rest => some (payload ++ rest.getD [])
  | .blocked _ payload rest => some (payload ++ rest.getD [])
  | .mark _ _ payload rest => some (payload ++ rest.getD [])
  | .build (some _) _ _ _ rest => some (rest.getD [])
  | .wrap (some _) _ rest => some (rest.getD [])
  | .setPayload _ _ rest => some (rest.getD [])
  | .transmit _ rest => rest
  | _ => none

def sending (t : Task) : Nat := if (unsent t).isSome then 1 else 0

/-- The goroutines of an end that writes and delivers, but does not respond by itself. -/
def WriterOk : Task → Prop
  | .waitSlot op _ rest | .blocked op _ rest | .mark _ op _ rest =>
    rest.isSome = true ∧ validOpcode op = true
  | .build slot op _ _ rest => rest.isSome = slot.isSome ∧ validOpcode op = true
  | .wrap slot cp rest => rest.isSome = slot.isSome ∧ validOpcode cp.opcode = true
  | .setPayload _ _ rest => rest.isSome = true
  | .absorb _ after | .put _ after | .addAck _ after | .drain after => after = .flush
  | _ => True

/-- No send is under way. -/
def Idle (n : Node) : Prop := ∀ t ∈ n.tasks, unsent t = none

/-- At most one send is under way. -/
structure OneSender (n : Node) : Prop where
  one : tally sending n.tasks ≤ 1
  ok : ∀ t ∈ n.tasks, WriterOk t

structure SenderInv (n : Node) : Prop extends OneSender n where
  pending : ∀ t ∈ n.tasks, ∀ p, unsent t = some p →
    Event.failed ∉ n.hist ∧ (markedIn n.hist).flatten ++ p = writtenIn n.hist
  idle : Idle n → Event.failed ∉ n.hist → (markedIn n.hist).flatten = writtenIn n.hist
  /-- Also after a failure. -/
  written : (markedIn n.hist).flatten <+: writtenIn n.hist

/-! ## One step of a goroutine -/

/-- What a locked section does to the send its goroutine is part of. -/
inductive SendMove (t t' : Task) (es : List Event) : Prop
  | goesOn (p p' : Bytes) : unsent t = some p → unsent t' = some p' → Event.failed ∉ es →
      writtenIn es = [] → (markedIn es).flatten ++ p' = p → SendMove t t' es
  | ends (p : Bytes) : unsent t = some p → unsent t' = none → writtenIn es = [] →
      markedIn es = [] → (Event.failed ∈ es ∨ Event.failed ∉ es ∧ p = []) → SendMove t t' es
  | aside : unsent t = none → unsent t' = none → Event.failed ∉ es → writtenIn es = [] →
      markedIn es = [] → SendMove t t' es

theorem unsent_write (p : Bytes) :
    (p ≠ [] → unsent (Task.write p) = some p) ∧ (p = [] → unsent (Task.write p) = none) := by
  unfold Task.write
  constructor
  · intro h
    rw [if_pos (List.length_pos_iff.mpr h)]
    simp [unsent]
  · rintro rfl; rfl

theorem writerOk_write (p : Bytes) : WriterOk (Task.write p) := by
  unfold Task.write
  split
  · exact ⟨rfl, by decide⟩
  · trivial

variable {t : Task} {es : List Event}

/-- **A locked section of an end that writes and delivers.** -/
theorem exec_sendMove (K : Crypto) (c : Conn) (env : Env) (hok : WriterOk t) :
    SendMove t (c.exec K env t).2.1 (c.exec K env t).2.2 ∧ WriterOk (c.exec K env t).2.1 := by
  cases t with
  | waitSlot op payload rest =>
    simp only [Conn.exec]
    split <;> exact ⟨.goesOn _ _ rfl rfl (by simp) rfl rfl, hok⟩
  | blocked op payload rest =>
    obtain ⟨r, rfl⟩ := Option.isSome_iff_exists.mp hok.1
    simp only [Conn.exec]
    split
    · exact ⟨.ends _ rfl rfl rfl rfl (.inl (by simp [sendFailed])), trivial⟩
    · exact ⟨.goesOn _ _ rfl rfl (by simp) rfl rfl, hok⟩
  | mark idx op payload rest =>
    exact ⟨.goesOn _ _ rfl rfl (by simp [Conn.exec]) rfl (by simp [Conn.exec, markedIn]), hok⟩
  | build slot op id payload rest =>
    cases slot with
    | none => exact ⟨.aside rfl rfl (by simp [Conn.exec]) rfl rfl, hok⟩
    | some idx => exact ⟨.goesOn _ _ rfl rfl (by simp [Conn.exec]) rfl rfl, hok⟩
  | wrap slot cp rest =>
    cases slot with
    | none =>
      obtain rfl : rest = none :=
        Option.isNone_iff_eq_none.mp (Option.isSome_eq_false_iff.mp hok.1)
      simp only [Conn.exec]
      split <;> exact ⟨.aside rfl rfl (by simp [sendFailed]) rfl rfl, trivial⟩
    | some idx =>
      obtain ⟨r, rfl⟩ := Option.isSome_iff_exists.mp hok.1
      simp only [Conn.exec]
      split
      · exact ⟨.ends _ rfl rfl rfl rfl (.inl (by simp [sendFailed])), trivial⟩
      · exact ⟨.goesOn _ _ rfl rfl (by simp) rfl rfl, rfl⟩
  | setPayload idx wire rest =>
    obtain ⟨r, rfl⟩ := Option.isSome_iff_exists.mp hok
    exact ⟨.goesOn _ _ rfl rfl (by simp [Conn.exec]) rfl rfl, trivial⟩
  | transmit wire rest =>
    simp only [Conn.exec]
    cases rest with
    | none => split <;> exact ⟨.aside rfl rfl (by simp [sendFailed]) rfl rfl, trivial⟩
    | some p =>
      split
      · refine ⟨?_, writerOk_write p⟩
        -- the last chunk of a `Write` ends the send, any other goes on
        by_cases hp : p = []
        · exact .ends _ rfl ((unsent_write p).2 hp) rfl rfl (.inr ⟨by simp, hp⟩)
        · exact .goesOn _ _ rfl ((unsent_write p).1 hp) (by simp) rfl rfl
      · exact ⟨.ends _ rfl rfl rfl rfl (.inl (by simp [sendFailed])), trivial⟩
  | absorb cp after | put cp after | drain after =>
    obtain rfl : after = .flush := hok
    simp only [Conn.exec]
    split <;> exact ⟨.aside rfl rfl (by simp) rfl rfl, by trivial⟩
  | addAck id after =>
    obtain rfl : after = .flush := hok
    exact ⟨.aside rfl rfl (by simp [Conn.exec]) rfl rfl, rfl⟩
  | flush =>
    simp only [Conn.exec]
    split
    · exact ⟨.aside rfl rfl (by simp) rfl rfl, rfl, by decide⟩
    · exact ⟨.aside rfl rfl (by simp) rfl rfl, trivial⟩
  | done => exact ⟨.aside rfl rfl (by simp [Conn.exec]) rfl rfl, trivial⟩

variable {c : Conn} {i : Nat} {n : Node} {t' : Task} {ts : List Task}

theorem others_idle (hone : tally sending ts ≤ 1) (hi : ts[i]? = some t) (hs : unsent t ≠ none)
    {x : Task} (hx : x ∈ ts.set i t') : x = t' ∨ unsent x = none := by
  obtain ⟨j, hj⟩ := List.mem_iff_getElem?.mp hx
  by_cases hij : i = j
  · subst hij
    rw [List.getElem?_set_self (List.getElem?_eq_some_iff.mp hi).1] at hj
    exact .inl (Option.some.inj hj).symm
  · right
    rw [List.getElem?_set_ne hij] at hj
    -- take the sender out of the table: nothing is left to count
    have h0 := tally_set sending (y := .done) hi
    have ht : sending t = 1 := by
      unfold sending; rw [if_pos (Option.isSome_iff_ne_none.mpr hs)]
    have hd : sending .done = 0 := rfl
    apply Classical.byContradiction
    intro hne
    have hmem : x ∈ ts.set i .done :=
      List.mem_iff_getElem?.mpr ⟨j, by rw [List.getElem?_set_ne hij]; exact hj⟩
    have hpos : 0 < tally sending (ts.set i .done) :=
      tally_pos.mpr ⟨x, hmem, by
        unfold sending; rw [if_pos (Option.isSome_iff_ne_none.mpr hne)]; exact Nat.one_pos⟩
    omega

theorem sending_le (h : SendMove t t' es) : sending t' ≤ sending t := by
  unfold sending
  rcases h with ⟨p, p', h1, h2, _⟩ | ⟨p, h1, h2, _⟩ | ⟨h1, h2, _⟩ <;> simp [h1, h2]

theorem accounts_append (h : List Event) (hm : markedIn es = []) (hw : writtenIn es = []) :
    markedIn (h ++ es) = markedIn h ∧ writtenIn (h ++ es) = writtenIn h := by
  rw [markedIn_append, writtenIn_append, hm, hw, List.append_nil, List.append_nil]
  exact ⟨rfl, rfl⟩

theorem OneSender.set (h : OneSender n) (hi : n.tasks[i]? = some t) (hmove : SendMove t t' es)
    (hok : WriterOk t') :
    OneSender { conn := c, tasks := n.tasks.set i t', hist := n.hist ++ es } := by
  constructor
  · have h1 := tally_set sending (y := t') hi
    have h2 := sending_le hmove
    have h3 := h.one
    dsimp only
    omega
  · intro x hx
    rcases List.mem_or_eq_of_mem_set hx with hx | rfl
    · exact h.ok x hx
    · exact hok

theorem OneSender.around (h : OneSender n) (hts : ∀ t ∈ ts, WriterOk t ∧ unsent t = none) :
    OneSender (extend n c ts es) := by
  constructor
  · have h0 : tally sending ts = 0 := tally_eq_zero fun t ht => by simp [sending, (hts t ht).2]
    simp only [extend, tally_append, h0]
    exact h.one
  · intro t ht
    exact (List.mem_append.mp ht).elim (h.ok t) fun ht' => (hts t ht').1

theorem OneSender.begin (h : OneSender n) (hidle : Idle n) (hok : WriterOk t) :
    OneSender (extend n c [t] es) := by
  constructor
  · have h0 : tally sending n.tasks = 0 := tally_eq_zero fun x hx => by simp [sending, hidle x hx]
    simp only [extend, tally_append, h0, tally_cons, tally_nil, sending]
    split <;> omega
  · intro x hx
    rcases List.mem_append.mp hx with hx | hx
    · exact h.ok x hx
    · rw [List.mem_singleton.mp hx]; exact hok

theorem senderInv_set (h : SenderInv n) (hi : n.tasks[i]? = some t) (hmove : SendMove t t' es)
    (hok : WriterOk t') :
    SenderInv { conn := c, tasks := n.tasks.set i t', hist := n.hist ++ es } := by
  have hone := h.toOneSender.set (c := c) hi hmove hok
  have hmem := List.mem_of_getElem? hi
  have hself : t' ∈ n.tasks.set i t' := List.mem_set (List.getElem?_eq_some_iff.mp hi).1 _
  rcases hmove with ⟨p, p', hp, hp', hf, hw, hm⟩ | ⟨p, hp, hp', hw, hm, hend⟩ | ⟨hp, hp', hf, hw,
    hm⟩
  · -- the send goes on: what was numbered now comes off what was left
    obtain ⟨hfail, hacc⟩ := h.pending t hmem p hp
    have hacc' : (markedIn (n.hist ++ es)).flatten ++ p' = writtenIn (n.hist ++ es) := by
      rw [markedIn_append, writtenIn_append, hw, List.append_nil, List.flatten_append,
        List.append_assoc, hm, hacc]
    refine ⟨hone, ?_, ?_, ⟨p', hacc'⟩⟩
    · intro x hx q hq
      rcases others_idle h.one hi (by rw [hp]; simp) hx with rfl | hnone
      · rw [hp', Option.some.injEq] at hq
        subst hq
        exact ⟨by simp [hfail, hf], hacc'⟩
      · cases hnone.symm.trans hq
    · intro hidle; rw [hidle t' hself] at hp'; cases hp'
  · -- the send ends: all was numbered, or it failed
    obtain ⟨hfail, hacc⟩ := h.pending t hmem p hp
    have hsame := accounts_append n.hist hm hw
    refine ⟨hone, ?_, ?_, ?_⟩
    · intro x hx q hq
      rcases others_idle h.one hi (by rw [hp]; simp) hx with rfl | hnone
      · cases hp'.symm.trans hq
      · cases hnone.symm.trans hq
    · intro _ hnf
      have hp0 : p = [] := by
        rcases hend with hf | ⟨_, hp0⟩
        · exact absurd (List.mem_append_right _ hf) hnf
        · exact hp0
      rw [hsame.1, hsame.2, ← hacc, hp0, List.append_nil]
    · dsimp only; rw [hsame.1, hsame.2]; exact h.written
  · have hsame := accounts_append n.hist hm hw
    refine ⟨hone, ?_, ?_, ?_⟩
    · intro x hx q hq
      rcases List.mem_or_eq_of_mem_set hx with hold | rfl
      · obtain ⟨hfail, hacc⟩ := h.pending x hold q hq
        refine ⟨by simp [hfail, hf], ?_⟩
        dsimp only; rw [hsame.1, hsame.2]; exact hacc
      · cases hp'.symm.trans hq
    · intro hidle hnf
      rw [hsame.1, hsame.2]
      refine h.idle ?_ fun hf' => hnf (List.mem_append_left _ hf')
      intro x hx
      by_cases hxt : x = t
      · rw [hxt]; exact hp
      · obtain ⟨j, hj⟩ := List.mem_iff_getElem?.mp hx
        refine hidle x (List.mem_iff_getElem?.mpr ⟨j, ?_⟩)
        rw [List.getElem?_set_ne fun hij => hxt ?_]
        · exact hj
        · subst hij; rw [hi] at hj; exact (Option.some.inj hj).symm
    · dsimp only; rw [hsame.1, hsame.2]; exact h.written

/-- A locked section keeps the sender's invariant. -/
theorem senderInv_run {K : Crypto} (h : SenderInv n) (hi : n.tasks[i]? = some t) (env : Env) :
    SenderInv (n.run K i env) := by
  obtain ⟨hmove, hok⟩ := exec_sendMove K n.conn env (h.ok t (List.mem_of_getElem? hi))
  rw [run_eq hi]
  exact senderInv_set h hi hmove hok

theorem SenderInv.around (h : SenderInv n) (hts : ∀ t ∈ ts, WriterOk t ∧ unsent t = none)
    (hf : Event.failed ∉ es) (hw : writtenIn es = []) (hm : markedIn es = []) :
    SenderInv (extend n c ts es) := by
  obtain ⟨hmarked, hwritten⟩ := accounts_append n.hist hm hw
  have hfailed : Event.failed ∈ n.hist ++ es ↔ Event.failed ∈ n.hist := by
    rw [List.mem_append]; simp [hf]
  refine ⟨h.toOneSender.around hts, ?_, ?_, by
    simp only [extend]; rw [hmarked, hwritten]; exact h.written⟩ <;> simp only [extend]
  · intro t ht p hp
    rcases List.mem_append.mp ht with ht' | ht'
    · rw [hmarked, hwritten, hfailed]; exact h.pending t ht' p hp
    · rw [(hts t ht').2] at hp; cases hp
  · intro hidle hnf
    rw [hmarked, hwritten]
    exact h.idle (fun t ht => hidle t (List.mem_append_left _ ht)) (hfailed.not.mp hnf)

theorem SenderInv.begin (h : SenderInv n) (hidle : Idle n) (hnf : Event.failed ∉ n.hist)
    (hok : WriterOk t) (hf : Event.failed ∉ es) (hm : markedIn es = [])
    (hp : (unsent t).getD [] = writtenIn es) : SenderInv (extend n c [t] es) := by
  have hacc : (markedIn (n.hist ++ es)).flatten ++ (unsent t).getD [] =
      writtenIn (n.hist ++ es) := by
    rw [markedIn_append, hm, List.append_nil, h.idle hidle hnf, writtenIn_append, hp]
  refine ⟨h.toOneSender.begin hidle hok, ?_, ?_, ⟨_, hacc⟩⟩ <;> simp only [extend]
  · intro x hx p hxp
    rcases List.mem_append.mp hx with hx | hx
    · rw [hidle x hx] at hxp; cases hxp
    · rw [List.mem_singleton.mp hx] at hxp
      rw [hxp] at hacc
      exact ⟨by simp [hnf, hf], hacc⟩
  · intro hidle' _
    have : unsent t = none := hidle' t (by simp)
    rw [this] at hacc
    simpa using hacc

end GoVpn.Proof
