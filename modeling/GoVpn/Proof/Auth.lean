import GoVpn.Ovpn.Auth
import GoVpn.Proof.ControlStrings
import GoVpn.Proof.KeyMethod2
import GoVpn.Proof.PushExchange

/-!
# Who gets in, and what the others are told

Addresses are handed out in the push exchange only, so the question is who gets there. `Ending`
lists how a bring-up can end. A refused client is sent one control string, which no reason of a hook
can break up.
-/

namespace GoVpn.Proof.Auth

open GoVpn.Control (Bytes)
open Ovpn
open Utf8 (ascii)

/-- `s` is the C string in a field that is not too long. -/
def CString (field s : Bytes) : Prop :=
  field.length ≤ userPassLen ∧ 0 ∉ s ∧ (field = s ∨ ∃ tail, field = s ++ 0 :: tail)

/-- If there is a hook, it accepts the credentials of the client. -/
def Authentic (authUserPass : Option (Bytes → Bytes → AuthAnswer)) (opts : Data.ClientOptions) :
    Prop :=
  ∀ hook, authUserPass = some hook → ∃ username password, CString opts.username username
    ∧ CString opts.password password ∧ username ≠ [] ∧ password ≠ [] ∧
      hook username password = .accept

/-! ## Credentials -/

theorem km2Credential_of_cString {field s : Bytes} (h : CString field s) :
    km2Credential field = some s := by
  obtain ⟨hlen, hs, hfield⟩ := h
  rw [km2Credential, if_neg (Nat.not_lt.mpr hlen)]
  rcases hfield with rfl | ⟨tail, rfl⟩
  · rw [List.idxOf?_eq_none_iff.mpr hs]
  · have hcut : (s ++ 0 :: tail).idxOf? 0 = some s.length := by
      refine List.idxOf?_eq_some_iff.mpr ⟨by simp, by simp, fun j hj => ?_⟩
      rw [List.getElem_append_left hj]
      exact fun h => hs (h ▸ List.getElem_mem hj)
    simp [hcut]

theorem km2Credential_iff {field s : Bytes} : km2Credential field = some s ↔ CString field s := by
  refine ⟨fun h => ?_, km2Credential_of_cString⟩
  by_cases hlen : field.length ≤ userPassLen
  · have hs' : ∃ s', CString field s' := by
      by_cases hmem : 0 ∈ field
      · obtain ⟨s', tail, hfield, hs'⟩ := List.eq_append_cons_of_mem hmem
        exact ⟨s', hlen, hs', .inr ⟨tail, hfield⟩⟩
      · exact ⟨field, hlen, hmem, .inl rfl⟩
    obtain ⟨s', hs'⟩ := hs'
    cases h.symm.trans (km2Credential_of_cString hs')
    exact hs'
  · rw [km2Credential, if_pos (Nat.not_le.mp hlen)] at h
    cases h

theorem verifyUserPass_iff {authUserPass : Option (Bytes → Bytes → AuthAnswer)}
    {opts : Data.ClientOptions} :
    verifyUserPass authUserPass opts = none ↔ Authentic authUserPass opts := by
  cases authUserPass with
  | none => simp [verifyUserPass, Authentic]
  | some hook =>
    simp only [Authentic, Option.some.injEq, forall_eq', ← km2Credential_iff]
    unfold verifyUserPass
    grind

/-! ## What a refused client is told -/

/-- `AUTH_FAILED`, alone or with a reason that can be printed. -/
inductive Refusal : Bytes → Prop
  | bare : Refusal authFailedLiteral
  | because (reason : Bytes) (length : reason.length ≤ 128)
      (printable : ∀ b ∈ reason, 0x20 ≤ b ∧ b ≠ 0x7F) :
      Refusal (authFailedLiteral ++ ascii "," ++ reason)

theorem refusal_buildAuthFailed (clientReason : Bytes) :
    Refusal (buildAuthFailed clientReason) := by
  unfold buildAuthFailed
  dsimp only
  split
  · exact .bare
  · refine .because _ (text_sanitizeAuthClientReason _).length fun b hb => ?_
    have hmem : b ∈ clientReason.filter fun c => !(decide (c < 0x20) || c == 0x7F) := by
      unfold sanitizeAuthClientReason at hb
      dsimp only at hb
      split at hb
      · exact List.mem_of_mem_take hb
      · exact hb
    simpa using (List.mem_filter.mp hmem).2

/-! ## The bring-up -/

section Bringup

variable (env : AuthEnv) (push : PushEnv) (closing : Bool)

/-- The choice of the cipher, for the client that sends `m`. -/
def cipherFor (m : KeyMessage) : Except NoSharedCipher Bytes :=
  negotiate env.fold env.dataCiphers ⟨m.opts.options, m.opts.peerInfo⟩

/-- The server gets to the credentials: there is a cipher, and its own message is out. -/
def Greeted (m : KeyMessage) (cipher : Bytes) (written : List Bytes) : Prop :=
  cipherFor env m = .ok cipher
    ∧ ∃ dataKeys, env.writeServerKeyMethod2AndDeriveKeys m.src cipher = (written, some dataKeys)

/-- How the bring-up ends of a client that sends `m`, and then `rest`. -/
inductive Ending (m : KeyMessage) (rest : Bytes) : Bringup → Prop
  /-- Of the lists that have no cipher in common, the client is told nothing. -/
  | noCipher {e : NoSharedCipher} (h : cipherFor env m = .error e) :
      Ending m rest { outcome := .cipherNegotiationFailed, written :=
        [writeControlString
          (authFailedLiteral ++ ascii "," ++ ascii cipherNegotiationFailedReason)] }
  | failed {cipher : Bytes} {written : List Bytes} (hc : cipherFor env m = .ok cipher)
      (hkeys : env.writeServerKeyMethod2AndDeriveKeys m.src cipher = (written, none)) :
      Ending m rest { written, outcome := .failed }
  | refused {cipher s : Bytes} {written : List Bytes} (h : Greeted env m cipher written)
      (hno : ¬ Authentic env.authUserPass m.opts) (hs : Refusal s) : Ending m rest
        { written := written ++ [writeControlString s], outcome := .authFailed,
          closed := some .authFailed }
  /-- The push exchange takes up the stream where the message ends. -/
  | admitted {cipher : Bytes} {written : List Bytes} {r : BufReader UInt8} {st : PushState}
      {res : Except PushErr Unit} (h : Greeted env m cipher written)
      (hyes : Authentic env.authUserPass m.opts) (hr : r.contents = rest)
      (hpush : push.performPushExchange ⟨cipher, peerSupportsNCP m.opts.peerInfo, none, 0,
      false⟩ r = (st, some res)) :
      Ending m rest { written := written ++ st.replies, push := some st
                      outcome := if res = .ok () ∧ !closing then .completed else .failed
                      closed := if res = .ok () ∧ !closing then none else some .unknown }

theorem ending_of_message {m : KeyMessage} {rest : Bytes} {tlsConn : List Bytes}
    (hm : tlsConn.flatten = m.encode ++ rest) :
    Ending env push closing m rest (env.runHandshake push closing tlsConn) := by
  obtain ⟨r, hread, hrest⟩ := readClientKeyMethod2_encode (r := ⟨[], tlsConn⟩) hm
  rw [AuthEnv.runHandshake, AuthEnv.performKeyMethod2Exchange, readClientKeyMethod2, hread]
  dsimp only
  split
  · next e hc =>
    have he : e.clientReason = cipherNegotiationFailedReason := by
      unfold negotiate at hc
      split at hc <;> cases hc
      rfl
    rw [he]
    exact .noCipher hc
  next cipher hc =>
  split
  · next hkeys => exact .failed hc hkeys
  next written dataKeys hkeys =>
  have hgreeted : Greeted env m cipher written := ⟨hc, dataKeys, hkeys⟩
  split
  · next haf =>
    exact .refused hgreeted (fun h => by cases haf.symm.trans (verifyUserPass_iff.mpr h))
      (refusal_buildAuthFailed _)
  next hyes =>
  dsimp only [AuthEnv.conclude]
  rcases hpush : push.performPushExchange ⟨cipher, peerSupportsNCP m.opts.peerInfo, none, 0,
    false⟩ r
    with ⟨st, _ | res⟩
  · exact (performPushExchange_ends _ _ _ (congrArg Prod.snd hpush)).elim
  · have hadmitted : Ending env push closing m rest _ :=
      .admitted hgreeted (verifyUserPass_iff.mp hyes) hrest hpush
    rcases res with e | ⟨⟨⟩⟩ <;> cases closing <;> exact hadmitted

/--
**The bring-up lets in authentic clients only.**

Whatever a client sends, in whatever pieces, and whatever the hook answers: only a whole message
with credentials that it accepts leads to the push exchange. Any other client gets no address.
-/
theorem bringup_ends (tlsConn : List Bytes) :
    (∀ (m : KeyMessage) rest, tlsConn.flatten = m.encode ++ rest →
      Ending env push closing m rest (env.runHandshake push closing tlsConn))
    ∧ ((∀ (m : KeyMessage) rest, tlsConn.flatten ≠ m.encode ++ rest) →
      env.runHandshake push closing tlsConn = { written := [], outcome := .failed }) := by
  refine ⟨fun m rest => ending_of_message env push closing, fun hno => ?_⟩
  unfold AuthEnv.runHandshake AuthEnv.performKeyMethod2Exchange readClientKeyMethod2
  split
  · rfl
  · next hok =>
    split at hok <;> cases hok
    next hread =>
    obtain ⟨_, ⟨m, -, rfl⟩, hc⟩ := readClientKeyMethod2_exact.sound hread
    exact absurd hc (hno m _)

end Bringup

end GoVpn.Proof.Auth
