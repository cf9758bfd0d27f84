import GoVpn.Proof.ControlStrings

/-!
# The push exchange

The loop of `performPushExchange` assigns an address once and answers every request with the same
reply. It goes round again if there is anything in the reader's buffer, which the source takes to be
a request that was sent twice. If what is there is only the beginning of one, the read of the next
turn waits for the rest. So the exchange ends with what was buffered at its first reply exactly if
that was whole requests.
-/

namespace GoVpn.Proof

open GoVpn.Control (Bytes)
open Ovpn

/-- A `PUSH_REQUEST` as the client sends it. -/
def request : Bytes := writeControlString pushRequestLiteral

def requests (k : Nat) : Bytes := (List.replicate k request).flatten

/-- The server can answer the session: nothing that it calls on the way fails. -/
structure Ready (env : PushEnv) (sess : PushSession) : Prop where
  pool : env.pool = true
  cipher : sess.cipher ≠ []
  assign : ∃ a, env.assignTunnelIP 0 = .ok a
  wrapper : env.newWrapper 0 = none
  live : env.closing 0 = false
  write : ∀ n, env.write n = none

/-- What the exchange is meant to be, as its state and its result say. -/
structure PushIdempotent (o : PushState × Option (Except PushErr Unit)) : Prop where
  once : o.1.assigned.length ≤ 1
  answered : o.1.replies.length = o.1.requests
  identical : ∀ x ∈ o.1.replies, ∀ y ∈ o.1.replies, x = y
  /-- It returns, and the buffer has not been filled again since the first reply. -/
  buffered : ∀ r ∈ o.1.readers.head?, o.2 = some (.ok ()) ∧ o.1.reader.fills = r.fills

/-! ## One assignment and one reply -/

/-- What holds before a turn. -/
structure Kept (env : PushEnv) (st : PushState) : Prop where
  once : st.assigned.length ≤ 1
  fresh : st.sess.assignedIP = none → st.assigned = [] ∧ st.replies = []
  same : ∀ x ∈ st.replies, x = env.reply st.sess

/-- What holds when the loop has ended, whether it has got to a reply or not. -/
structure OneReply (st : PushState) : Prop where
  once : st.assigned.length ≤ 1
  identical : ∀ x ∈ st.replies, ∀ y ∈ st.replies, x = y

variable {env : PushEnv} {sess : PushSession} {st : PushState}

theorem Kept.oneReply (h : Kept env st) : OneReply st :=
  ⟨h.once, fun x hx y hy => (h.same x hx).trans (h.same y hy).symm⟩

/-- `publish` has kept the address, assigned one, or given up. -/
inductive Published (env : PushEnv) (st : PushState) : PushState × Option PushErr → Prop
  | kept : st.sess.assignedIP ≠ none → Published env st (st, none)
  | unassigned {e : String} : st.sess.assignedIP = none →
      env.assignTunnelIP st.assigned.length = .error e → Published env st (st, some (.assign e))
  | released {a : Bytes × PeerID} {e : PushErr} : st.sess.assignedIP = none →
      (env.newWrapper st.assigned.length ≠ none ∨ env.closing st.assigned.length = true) →
      Published env st
      ({ st with assigned := st.assigned ++ [a], released := st.released ++ [a] }, some e)
  | assigned {a : Bytes × PeerID} : st.sess.assignedIP = none →
      Published env st ({ st with
        assigned := st.assigned ++ [a]
        sess := { st.sess with assignedIP := some a.1, peerID := a.2 } }, none)

theorem published (env : PushEnv) (st : PushState) : Published env st (env.publish st) := by
  unfold PushEnv.publish
  split
  · next h => exact .kept (Option.isSome_iff_ne_none.mp h)
  · next h =>
      have hnone : st.sess.assignedIP = none := Option.not_isSome_iff_eq_none.mp h
      dsimp only
      split
      · next he => exact .unassigned hnone he
      · split
        · next he => exact .released hnone (.inl (by rw [he]; exact Option.some_ne_none _))
        · split
          · next hc => exact .released hnone (.inr hc)
          · exact .assigned hnone

/-- Publishing leaves the exchange alone. -/
theorem publish_frame (env : PushEnv) (st : PushState) :
    (env.publish st).1.reader = st.reader ∧ (env.publish st).1.requests = st.requests
      ∧ (env.publish st).1.replies = st.replies ∧ (env.publish st).1.readers = st.readers := by
  have h := published env st
  generalize env.publish st = o at h
  cases h with
  | kept | unassigned | released | assigned => exact ⟨rfl, rfl, rfl, rfl⟩

theorem Kept.publish (h : Kept env st) :
    OneReply (env.publish st).1 ∧ ((env.publish st).2 = none →
      (env.publish st).1.sess.assignedIP ≠ none ∧ Kept env (env.publish st).1) := by
  have hp := published env st
  generalize env.publish st = o at hp
  cases hp with
  | kept hip => exact ⟨h.oneReply, fun _ => ⟨hip, h⟩⟩
  | unassigned => exact ⟨h.oneReply, fun he => by cases he⟩
  | released hnone =>
    obtain ⟨hassigned, hreplies⟩ := h.fresh hnone
    exact ⟨⟨by simp [hassigned], by simp [hreplies]⟩, fun he => by cases he⟩
  | assigned hnone =>
    obtain ⟨hassigned, hreplies⟩ := h.fresh hnone
    refine ⟨⟨by simp [hassigned], by simp [hreplies]⟩, fun _ => ⟨Option.some_ne_none _, ?_⟩⟩
    exact ⟨by simp [hassigned], fun hip => (by cases hip), by simp [hreplies]⟩

/-! ## One turn -/

/-- The state once a request has been read, and the reader has become `r`. -/
def asked (st : PushState) (r : BufReader UInt8) : PushState :=
  { st with
    reader := r, requests := st.requests + 1
    sess := { st.sess with pushRequested := true } }

/-- The state once it has been answered. -/
def answered (env : PushEnv) (st : PushState) : PushState :=
  { st with replies := st.replies ++ [env.reply st.sess], readers := st.readers ++ [st.reader] }

/-- How a turn goes. -/
inductive Turned (env : PushEnv) (st : PushState) : PushState × Option (Except PushErr Unit) → Prop
  | unread {e : ControlStringErr} {r : BufReader UInt8} :
      readControlString st.reader maxControlStringLen = (.error e, r) →
      Turned env st ({ st with reader := r }, some (.error (.read e)))
  | unexpected {req : Bytes} {r : BufReader UInt8} :
      readControlString st.reader maxControlStringLen = (.ok req, r) → req ≠ pushRequestLiteral →
      Turned env st ({ st with reader := r }, some (.error (.unexpected req)))
  | refused {r : BufReader UInt8} {st' : PushState} {e : PushErr} :
      readControlString st.reader maxControlStringLen = (.ok pushRequestLiteral, r) →
      env.publish (asked st r) = (st', some e) → Turned env st (st', some (.error e))
  | replied {r : BufReader UInt8} {st' : PushState} {res : Option (Except PushErr Unit)} :
      readControlString st.reader maxControlStringLen = (.ok pushRequestLiteral, r) →
      env.publish (asked st r) = (st', none) →
      (env.write st'.replies.length = none →
        res = if st'.reader.buffered.isEmpty then some (.ok ()) else none) →
      Turned env st (answered env st', res)

theorem turned (env : PushEnv) (st : PushState) : Turned env st (env.turn st) := by
  unfold PushEnv.turn
  split
  · next hread => exact .unread hread
  · next req r hread =>
      split
      · next hreq => exact .unexpected hread hreq
      · next hreq =>
          have hreq : req = pushRequestLiteral := Decidable.not_not.mp hreq
          subst hreq
          split
          · next hp => exact .refused hread hp
          · next hp =>
              dsimp only
              split
              · next hw => exact .replied hread hp fun hnone => by cases hw.symm.trans hnone
              · split
                · next he => exact .replied hread hp fun _ => (if_pos he).symm
                · next he => exact .replied hread hp fun _ => (if_neg he).symm

theorem Kept.asked (h : Kept env st) (r : BufReader UInt8) : Kept env (asked st r) :=
  ⟨h.once, h.fresh, h.same⟩

variable {st' : PushState} {r : BufReader UInt8}

theorem Kept.answered (h : Kept env st') (hip : st'.sess.assignedIP ≠ none) :
    Kept env (answered env st') where
  once := h.once
  fresh := fun hnone => absurd hnone hip
  same := by
    intro x hx
    rcases List.mem_append.mp hx with hx | hx
    · exact h.same x hx
    · exact List.mem_singleton.mp hx

/-- After a turn there is still one reply, however often given. -/
theorem Kept.turn (h : Kept env st) :
    OneReply (env.turn st).1 ∧ ((env.turn st).2 = none → Kept env (env.turn st).1) := by
  have ht := turned env st
  generalize env.turn st = o at ht
  cases ht with
  | unread | unexpected => exact ⟨⟨h.once, h.oneReply.identical⟩, fun he => by cases he⟩
  | @refused r _ _ _ hp =>
    have hone := (h.asked r).publish.1
    rw [hp] at hone
    exact ⟨hone, fun he => by cases he⟩
  | @replied r _ _ _ hp _ =>
    have hkept := (h.asked r).publish.2
    rw [hp] at hkept
    obtain ⟨hip, hkept⟩ := hkept rfl
    have hanswered := hkept.answered hip
    exact ⟨hanswered.oneReply, fun _ => hanswered⟩

/-! ## The loop -/

variable {n : Nat}

theorem pushLoop_of_some {res : Except PushErr Unit} (h : env.turn st = (st', some res)) :
    env.pushLoop (n + 1) st = (st', some res) := by
  rw [PushEnv.pushLoop, h]

theorem pushLoop_of_none (h : env.turn st = (st', none)) :
    env.pushLoop (n + 1) st = env.pushLoop n st' := by
  rw [PushEnv.pushLoop, h]

theorem Kept.pushLoop (n : Nat) (h : Kept env st) : OneReply (env.pushLoop n st).1 := by
  induction n generalizing st with
  | zero => exact h.oneReply
  | succ n ih =>
    have hturn := h.turn
    cases ht : env.turn st with
    | mk st' res =>
      rw [ht] at hturn
      cases res with
      | some res =>
        rw [pushLoop_of_some ht]
        exact hturn.1
      | none =>
        rw [pushLoop_of_none ht]
        exact ih (hturn.2 rfl)

theorem contents_readControlString_lt {r' : BufReader UInt8} {max : Nat} {s : Bytes}
    (h : readControlString r max = (.ok s, r')) : r'.contents.length < r.contents.length := by
  unfold readControlString at h
  split at h
  · next hread =>
      cases h
      exact BufReader.contents_readTo_lt hread
  · cases h
  · cases h

/-- Every turn that goes on consumes input. -/
theorem contents_turn_lt (h : env.turn st = (st', none)) :
    st'.reader.contents.length < st.reader.contents.length := by
  have ht := turned env st
  rw [h] at ht
  cases ht with
  | @replied r st₁ _ hread hp _ =>
    have hreader := (publish_frame env (asked st r)).1
    rw [hp] at hreader
    show st₁.reader.contents.length < _
    rw [hreader]
    exact contents_readControlString_lt hread

theorem pushLoop_ends (hn : st.reader.contents.length < n) : (env.pushLoop n st).2 ≠ none := by
  induction n generalizing st with
  | zero => exact absurd hn (Nat.not_lt_zero _)
  | succ n ih =>
    cases ht : env.turn st with
    | mk st' res =>
      cases res with
      | some res =>
        rw [pushLoop_of_some ht]
        exact Option.some_ne_none _
      | none =>
        have hlt := contents_turn_lt ht
        rw [pushLoop_of_none ht]
        exact ih (by omega)

theorem performPushExchange_ends (env : PushEnv) (sess : PushSession) (r : BufReader UInt8) :
    (env.performPushExchange sess r).2 ≠ none := by
  unfold PushEnv.performPushExchange
  split
  · exact Option.some_ne_none _
  · split
    · exact Option.some_ne_none _
    · exact pushLoop_ends (Nat.lt_succ_self _)

/-! ## A server that can answer -/

/-- What a loop of such a server leaves: an answer to each request, and the readers of all of
them. -/
structure Answers (st st' : PushState) : Prop where
  count : st'.replies.length + st.requests = st'.requests + st.replies.length
  readers : st.readers <+: st'.readers
  fills : st'.reader.fills.length ≤ st.reader.fills.length

theorem Answers.trans {st₁ st₂ st₃ : PushState} (h : Answers st₁ st₂) (h' : Answers st₂ st₃) :
    Answers st₁ st₃ where
  count := by
    have := h.count
    have := h'.count
    omega
  readers := h.readers.trans h'.readers
  fills := Nat.le_trans h'.fills h.fills

theorem fills_readControlString (r : BufReader UInt8) (max : Nat) :
    (readControlString r max).2.fills.length ≤ r.fills.length := by
  have h : (r.readTo 0 max []).2.fills.length ≤ r.fills.length := BufReader.fills_readTo_le r
  unfold readControlString
  split <;> next hread => rw [hread] at h; exact h

theorem Ready.publish (hr : Ready env sess) (h : Kept env st) : (env.publish st).2 = none := by
  have hp := published env st
  generalize env.publish st = o at hp
  cases hp with
  | kept => rfl
  | unassigned hnone he =>
    obtain ⟨a, ha⟩ := hr.assign
    rw [(h.fresh hnone).1] at he
    cases ha.symm.trans he
  | released hnone he =>
    rw [(h.fresh hnone).1] at he
    rcases he with he | he
    · exact absurd hr.wrapper he
    · cases hr.live.symm.trans he
  | assigned => rfl

/-- A turn of a ready server answers the request it reads. -/
theorem Ready.turn (hr : Ready env sess) (h : Kept env st) : Answers st (env.turn st).1 := by
  have hfills := fills_readControlString st.reader maxControlStringLen
  have ht := turned env st
  generalize env.turn st = o at ht
  cases ht with
  | unread hread =>
    rw [hread] at hfills
    exact ⟨Nat.add_comm _ _, List.prefix_rfl, hfills⟩
  | unexpected hread =>
    rw [hread] at hfills
    exact ⟨Nat.add_comm _ _, List.prefix_rfl, hfills⟩
  | @refused r _ _ _ hp => cases (congrArg Prod.snd hp).symm.trans (hr.publish (h.asked r))
  | @replied r st' _ hread hp _ =>
    rw [hread] at hfills
    obtain ⟨hreader, hrequests, hreplies, hreaders⟩ := publish_frame env (asked st r)
    rw [hp] at hreader hrequests hreplies hreaders
    refine ⟨?_, ?_, ?_⟩
    · show (st'.replies ++ [_]).length + _ = st'.requests + _
      rw [List.length_append, hreplies, hrequests]
      simp only [asked, List.length_singleton]
      omega
    · show st.readers <+: st'.readers ++ _
      rw [hreaders]
      exact List.prefix_append _ _
    · show st'.reader.fills.length ≤ _
      rw [hreader]
      exact hfills

theorem Ready.pushLoop (hr : Ready env sess) (n : Nat) (h : Kept env st) :
    Answers st (env.pushLoop n st).1 := by
  induction n generalizing st with
  | zero => exact ⟨Nat.add_comm _ _, List.prefix_rfl, Nat.le_refl _⟩
  | succ n ih =>
    have hanswers := hr.turn h
    have hturn := h.turn
    cases ht : env.turn st with
    | mk st' res =>
      rw [ht] at hanswers hturn
      cases res with
      | some res =>
        rw [pushLoop_of_some ht]
        exact hanswers
      | none =>
        rw [pushLoop_of_none ht]
        exact hanswers.trans (ih (hturn.2 rfl))

/-- A request that has been read is answered, and the buffer decides on another turn. -/
theorem Ready.turn_request (hr : Ready env sess) (h : Kept env st)
    (hread : readControlString st.reader maxControlStringLen = (.ok pushRequestLiteral, r)) :
    ∃ st', env.turn st = (st', if r.buffered.isEmpty then some (.ok ()) else none)
      ∧ st'.reader = r ∧ st'.readers = st.readers ++ [r] := by
  have ht := turned env st
  generalize env.turn st = o at ht
  cases ht with
  | unread hread' => cases hread.symm.trans hread'
  | unexpected hread' hreq =>
    cases hread.symm.trans hread'
    exact absurd rfl hreq
  | @refused r _ _ _ hp => cases (congrArg Prod.snd hp).symm.trans (hr.publish (h.asked r))
  | @replied _ st' _ hread' hp hres =>
    cases hread.symm.trans hread'
    obtain ⟨hreader, -, -, hreaders⟩ := publish_frame env (asked st r)
    rw [hp] at hreader hreaders
    refine ⟨answered env st', ?_, hreader, ?_⟩
    · rw [hres (hr.write _), hreader]
      rfl
    · show st'.readers ++ [st'.reader] = _
      rw [hreader, hreaders]
      rfl

/-! ## The requests of a stream -/

theorem noNul_pushRequestLiteral : 0 ∉ pushRequestLiteral := by decide

theorem length_pushRequestLiteral_lt : pushRequestLiteral.length < maxControlStringLen := by decide

theorem requests_succ (k : Nat) : requests (k + 1) = request ++ requests k := rfl

theorem request_append (rest : Bytes) : request ++ rest = pushRequestLiteral ++ 0 :: rest := by
  rw [request, writeControlString, List.append_assoc, List.singleton_append]

theorem le_length_requests (k : Nat) : k ≤ (requests k).length := by
  induction k with
  | zero => exact Nat.le_refl _
  | succ k ih =>
    have hone : 1 ≤ request.length := by decide
    rw [requests_succ, List.length_append]
    omega

theorem readControlString_buffered (rest : Bytes) (fills : List Bytes) :
    readControlString ⟨request ++ rest, fills⟩ maxControlStringLen
      = (.ok pushRequestLiteral, ⟨rest, fills⟩) := by
  have h : BufReader.readTo 0 maxControlStringLen [] ⟨request ++ rest, fills⟩
      = (.ok pushRequestLiteral, ⟨rest, fills⟩) := by
    exact BufReader.readTo_buffered noNul_pushRequestLiteral length_pushRequestLiteral_lt
  unfold readControlString
  rw [h]

theorem readControlString_unfinished (h : r.contents <+: pushRequestLiteral) :
    ∃ r', readControlString r maxControlStringLen = (.error .read, r') ∧ r'.contents = [] := by
  obtain ⟨r', hread, hrest⟩ := BufReader.readTo_unfinished
    (fun hmem => noNul_pushRequestLiteral (h.subset hmem))
    (Nat.lt_of_le_of_lt h.length_le length_pushRequestLiteral_lt)
  refine ⟨r', ?_, hrest⟩
  unfold readControlString
  rw [hread]

theorem readControlString_needs_fill {b s : Bytes} {fills : List Bytes} (hb : 0 ∉ b)
    (hlen : b.length < maxControlStringLen)
    (h : readControlString ⟨b, fills⟩ maxControlStringLen = (.ok s, r)) :
    r.fills.length < fills.length := by
  have hneeds : (BufReader.readTo 0 maxControlStringLen [] ⟨b, fills⟩).1 = .error .dry
      ∨ (BufReader.readTo 0 maxControlStringLen [] ⟨b, fills⟩).2.fills.length < fills.length :=
    BufReader.readTo_needs_fill hb hlen
  unfold readControlString at h
  split at h
  · next hread =>
      rw [hread] at hneeds
      cases h
      rcases hneeds with hdry | hlt
      · cases hdry
      · exact hlt
  · cases h
  · cases h

/-! ## Waiting -/

theorem Ready.whole (hr : Ready env sess) {fills : List Bytes} {k : Nat} :
    ∀ {n : Nat} {st : PushState}, Kept env st → st.reader = ⟨requests (k + 1), fills⟩ → k < n →
      (env.pushLoop n st).2 = some (.ok ()) ∧ (env.pushLoop n st).1.reader.fills = fills := by
  induction k with
  | zero =>
    intro n st h hst hn
    have hread := readControlString_buffered (requests 0) fills
    rw [← requests_succ, ← hst] at hread
    obtain ⟨st', hturn, hreader, -⟩ := hr.turn_request h hread
    obtain ⟨n, rfl⟩ : ∃ m, n = m + 1 := ⟨n - 1, (Nat.sub_add_cancel hn).symm⟩
    rw [pushLoop_of_some hturn, hreader]
    exact ⟨rfl, rfl⟩
  | succ k ih =>
    intro n st h hst hn
    have hread := readControlString_buffered (requests (k + 1)) fills
    rw [← requests_succ, ← hst] at hread
    obtain ⟨st', hturn, hreader, -⟩ := hr.turn_request h hread
    obtain ⟨n, rfl⟩ : ∃ m, n = m + 1 := ⟨n - 1, by omega⟩
    have hkept := h.turn.2
    rw [hturn] at hkept
    rw [pushLoop_of_none hturn]
    exact ih (hkept rfl) hreader (Nat.lt_of_succ_lt_succ hn)

theorem Ready.waits (hr : Ready env sess) {part : Bytes} (hpart : part <+: pushRequestLiteral)
    {m : Nat} :
    ∀ {n : Nat} {st : PushState}, Kept env st → st.reader.contents = requests m ++ part →
      (¬ ∃ k, st.reader.buffered = requests k) → m < n →
      (env.pushLoop n st).2 ≠ some (.ok ())
        ∨ (env.pushLoop n st).1.reader.fills.length < st.reader.fills.length := by
  induction m with
  | zero =>
    intro n st h hst _ hn
    obtain ⟨r', hread, -⟩ := readControlString_unfinished (by rw [hst]; exact hpart)
    obtain ⟨n, rfl⟩ : ∃ m, n = m + 1 := ⟨n - 1, (Nat.sub_add_cancel hn).symm⟩
    have hturn : env.turn st = ({ st with reader := r' }, some (.error (.read .read))) := by
      unfold PushEnv.turn
      rw [hread]
    rw [pushLoop_of_some hturn]
    exact .inl fun he => by cases he
  | succ m ih =>
    intro n st h hst hpartial hn
    obtain ⟨n, rfl⟩ : ∃ m, n = m + 1 := ⟨n - 1, by omega⟩
    obtain ⟨r, hread, hrest⟩ := readControlString_marked noNul_pushRequestLiteral
      length_pushRequestLiteral_lt hst
    obtain ⟨st', hturn, hreader, -⟩ := hr.turn_request h hread
    have hkept := h.turn.2
    rw [hturn] at hkept
    have hcut : st.reader.buffered <+: pushRequestLiteral ++ 0 :: (requests m ++ part) := by
      exact ⟨st.reader.fills.flatten, hst⟩
    rcases BufReader.cut_marked noNul_pushRequestLiteral hcut with ⟨hnul, hlen⟩ | ⟨b, hb⟩
    · -- the end of this request is not in the buffer
      have hlt : r.fills.length < st.reader.fills.length :=
        readControlString_needs_fill hnul
          (Nat.lt_of_le_of_lt hlen length_pushRequestLiteral_lt) hread
      refine .inr (Nat.lt_of_le_of_lt ?_ hlt)
      rw [← hreader]
      cases hempty : r.buffered.isEmpty with
      | true =>
        rw [hempty] at hturn
        rw [pushLoop_of_some hturn]
      | false =>
        rw [hempty] at hturn hkept
        rw [pushLoop_of_none hturn]
        exact (hr.pushLoop n (hkept rfl)).fills
    · -- it is, and what follows it is no better
      have hr' : r = ⟨b, st.reader.fills⟩ := by
        have hwhole := readControlString_buffered b st.reader.fills
        rw [request_append, ← hb] at hwhole
        exact congrArg Prod.snd (hread.symm.trans hwhole)
      subst hr'
      have hb' : ¬ ∃ k, b = requests k := by
        rintro ⟨k, rfl⟩
        exact hpartial ⟨k + 1, hb.trans (request_append _).symm⟩
      have hempty : b.isEmpty = false := by
        cases b with
        | nil => exact absurd ⟨0, rfl⟩ hb'
        | cons x b => rfl
      rw [hempty] at hturn hkept
      rw [pushLoop_of_none hturn]
      have hwaits := ih (hkept rfl) (hreader ▸ hrest) (hreader ▸ hb') (Nat.lt_of_succ_lt_succ hn)
      rwa [hreader] at hwaits

theorem Ready.returns_iff (hr : Ready env sess) {part : Bytes} (hpart : part <+: pushRequestLiteral)
    {m : Nat} (h : Kept env st) (hst : st.reader.contents = requests m ++ part)
    (hne : st.reader.buffered ≠ []) (hn : st.reader.contents.length < n) :
    (env.pushLoop n st).2 = some (.ok ()) ∧ (env.pushLoop n st).1.reader.fills = st.reader.fills
      ↔ ∃ k, st.reader.buffered = requests k := by
  constructor
  · rintro ⟨hok, hfills⟩
    refine Classical.byContradiction fun hpartial => ?_
    have hm : m < n := by
      have hle := le_length_requests m
      rw [hst, List.length_append] at hn
      omega
    rcases hr.waits hpart h hst hpartial hm with hwaits | hlt
    · exact hwaits hok
    · rw [hfills] at hlt
      exact Nat.lt_irrefl _ hlt
  · rintro ⟨k, hk⟩
    cases k with
    | zero => exact absurd hk hne
    | succ k =>
      have hkn : k < n := by
        have hle := le_length_requests (k + 1)
        rw [BufReader.contents, List.length_append, hk] at hn
        omega
      exact hr.whole h (congrArg (fun b => BufReader.mk b st.reader.fills) hk) hkn

/-! ## The main theorem -/

theorem Kept.init (env : PushEnv) (sess : PushSession) (r : BufReader UInt8) :
    Kept env { sess := sess, reader := r } :=
  ⟨Nat.zero_le _, fun _ => ⟨rfl, rfl⟩, fun x hx => by cases hx⟩

theorem performPushExchange_eq (hr : Ready env sess) (r : BufReader UInt8) :
    env.performPushExchange sess r
      = env.pushLoop (r.contents.length + 1) { sess := sess, reader := r } := by
  have hcipher : sess.cipher.isEmpty = false := by
    cases hc : sess.cipher with
    | nil => exact absurd hc hr.cipher
    | cons => rfl
  unfold PushEnv.performPushExchange
  rw [hr.pool, hcipher]
  rfl

theorem Ready.idempotent_iff (hr : Ready env sess) {o : PushState × Option (Except PushErr Unit)}
    (ho : env.pushLoop n { sess := sess, reader := r } = o) :
    PushIdempotent o ↔ ∀ r₁ ∈ o.1.readers.head?, o.2 = some (.ok ()) ∧
    o.1.reader.fills = r₁.fills := by
  have hinit := Kept.init env sess r
  have hone := hinit.pushLoop n
  have hanswers := hr.pushLoop n hinit
  rw [ho] at hone hanswers
  exact ⟨fun h => h.buffered, fun h => ⟨hone.once, hanswers.count, hone.identical, h⟩⟩

/--
**The push exchange waits exactly for what it has begun to read.**

Take a server that can answer, and a client that sends any number of requests and possibly the
beginning of another, in whatever fills. The exchange assigns one address, answers each request it
reads, always with the same bytes, and returns with what was buffered at its first reply, exactly if
that was whole requests.
-/
theorem push_idempotent_iff (hready : Ready env sess) {part : Bytes}
    (hpart : part <+: pushRequestLiteral) {m : Nat} {r : BufReader UInt8}
    (hstream : r.contents = requests m ++ part) :
    PushIdempotent (env.performPushExchange sess r)
      ↔ ∃ k, (readControlString r maxControlStringLen).2.buffered = requests k := by
  have hinit := Kept.init env sess r
  rw [performPushExchange_eq hready r, hready.idempotent_iff rfl]
  cases m with
  | zero =>
    obtain ⟨r', hread, hrest⟩ := readControlString_unfinished (by rw [hstream]; exact hpart)
    have hturn : env.turn { sess := sess, reader := r }
        = ({ sess := sess, reader := r' }, some (.error (.read .read))) := by
      unfold PushEnv.turn
      rw [hread]
    rw [pushLoop_of_some hturn, hread]
    refine ⟨fun _ => ⟨0, (List.append_eq_nil_iff.mp hrest).1⟩, fun _ r₁ hr₁ => ?_⟩
    cases hr₁
  | succ m =>
    rw [requests_succ, List.append_assoc] at hstream
    obtain ⟨r₁, hread, hrest⟩ := readControlString_marked noNul_pushRequestLiteral
      length_pushRequestLiteral_lt hstream
    obtain ⟨st', hturn, hreader, hreaders⟩ := hready.turn_request hinit hread
    have hkept := hinit.turn.2
    rw [hturn] at hkept
    rw [hread]
    cases hempty : r₁.buffered.isEmpty with
    | true =>
      rw [hempty] at hturn
      rw [pushLoop_of_some hturn, hreaders, hreader]
      refine ⟨fun _ => ⟨0, List.isEmpty_iff.mp hempty⟩, fun _ r₂ hr₂ => ?_⟩
      cases hr₂
      exact ⟨rfl, rfl⟩
    | false =>
      rw [hempty] at hturn hkept
      have hshorter : st'.reader.contents.length < r.contents.length := by
        have hone : 1 ≤ request.length := by decide
        rw [hreader, hrest, hstream]
        simp only [List.length_append]
        omega
      have hne : st'.reader.buffered ≠ [] := by
        rw [hreader]
        exact List.isEmpty_eq_false_iff.mp hempty
      have hreturns := hready.returns_iff hpart (hkept rfl) (hreader ▸ hrest) hne hshorter
      obtain ⟨more, hmore⟩ := (hready.pushLoop r.contents.length (hkept rfl)).readers
      rw [hreader] at hreturns
      rw [pushLoop_of_none hturn, ← hmore, hreaders, ← hreturns]
      refine ⟨fun h => h r₁ rfl, fun h r₂ hr₂ => ?_⟩
      cases hr₂
      exact h

/-- A server whose calls all succeed. -/
def willing : PushEnv where
  pool := true
  network := { ip := [10, 8, 0, 0], mask := [255, 255, 255, 0] }
  pingInterval := 10000000000
  reapWindow := 60000000000
  assignTunnelIP := fun n => .ok (offsetToIP (0x0A080002 + BitVec.ofNat 32 n), BitVec.ofNat 32 n)
  newWrapper := fun _ => none
  closing := fun _ => false
  write := fun _ => none

def gcmSession : PushSession := { cipher := Utf8.ascii "AES-256-GCM", peerSupportsNCP := true }

theorem ready_willing : Ready willing gcmSession :=
  ⟨rfl, by decide, ⟨_, rfl⟩, rfl, rfl, fun _ => rfl⟩

/-- Two requests that arrive together are answered together. -/
theorem two_requests_answered :
    PushIdempotent (willing.performPushExchange gcmSession ⟨[], [request ++ request]⟩) :=
  (push_idempotent_iff ready_willing List.nil_prefix (m := 2) rfl).mpr
    ⟨1, congrArg (fun o => o.2.buffered) (readControlString_buffered request [])⟩

/-- With the beginning of a second request in the buffer the exchange waits, for the fill that
brings the rest, and for ever if none does. -/
theorem half_request_awaited :
    ¬ PushIdempotent (willing.performPushExchange gcmSession
        ⟨[], [request ++ request.take 5, request.drop 5]⟩)
      ∧ ¬ PushIdempotent
        (willing.performPushExchange gcmSession ⟨[], [request ++ request.take 5]⟩) := by
  constructor
  · intro h
    have hbuffered := h.buffered ⟨request.take 5, [request.drop 5]⟩ (by decide +kernel)
    exact absurd hbuffered.2 (by decide +kernel)
  · intro h
    have hbuffered := h.buffered ⟨request.take 5, []⟩ (by decide +kernel)
    exact absurd hbuffered.1 (by decide +kernel)

end GoVpn.Proof
