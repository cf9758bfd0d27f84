import GoVpn.Ovpn.Push

/-!
# The bring-up, once TLS is done

`runHandshake` (`ovpn.go`) from `performKeyMethod2Exchange` on, with `verifyUserPass` in it: then
comes either the push exchange or `rejectAuthAfterPushRequest`. The reads of the TLS connection are
given, in any pieces, and what goes out is what `Write` is called with.
-/

namespace GoVpn.Ovpn

open GoVpn.Control (Bytes)
open BufReader (Part)
open Utf8 (ascii)

def userPassLen : Nat := 128

/-- `km2Credential`; `none` is a field that is too long. -/
def km2Credential (field : Bytes) : Option Bytes :=
  if field.length > userPassLen then none
  else
    match field.idxOf? 0 with
    | some cut => some (field.take cut)
    | none => some field

/-- What a call of `Config.AuthUserPass` comes to; `callAuthUserPass` recovers a panic. -/
inductive AuthAnswer
  | accept
  /-- An error, and the text of an `AuthClientReason` in its chain. -/
  | reject (clientReason : Option Bytes)
  | panic

/-- `verifyUserPass`: the `clientReason` of the `authFailure`, if it returns one. -/
def verifyUserPass (authUserPass : Option (Bytes → Bytes → AuthAnswer))
    (opts : Data.ClientOptions) : Option Bytes :=
  match authUserPass with
  | none => none
  | some hook =>
    match km2Credential opts.username, km2Credential opts.password with
    | some username, some password =>
      if username = [] ∨ password = [] then some []
      else
        match hook username password with
        | .accept => none
        | .reject clientReason => some (clientReason.getD [])
        | .panic => some []
    | _, _ => some (ascii "Username or password is too long. Maximum length is 128 bytes")

/-- The server, and how the calls turn out that the exchange makes. -/
structure AuthEnv where
  authUserPass : Option (Bytes → Bytes → AuthAnswer)
  dataCiphers : List Bytes
  /-- The case folding of `strings.EqualFold`, beyond ASCII. -/
  fold : Nat → Nat
  /-- What it has written, for the cipher in `serverKM2Options`, and the keys if there was no
  error. -/
  writeServerKeyMethod2AndDeriveKeys : Data.KeySource → Bytes → List Bytes × Option (Part UInt8 256)

inductive AuthFailureKind
  | credential | cipherNegotiation

/-- How `performKeyMethod2Exchange` returns, after what it has written: with an error that is only
logged, with an `authFailure`, or with none. -/
inductive Exchange
  | failed (written : List Bytes)
  | refused (written : List Bytes) (tlsReader : BufReader UInt8) (clientReason : Bytes)
      (kind : AuthFailureKind)
  | passed (written : List Bytes) (tlsReader : BufReader UInt8) (sess : PushSession)
      (dataKeys : Part UInt8 256)

/-- What `runHandshake` has written and counted, the reason it has closed with, and what the push
exchange has left if there was one. -/
structure Bringup where
  written : List Bytes
  outcome : Outcome
  closed : Option CloseReason := some .unknown
  push : Option PushState := none

namespace AuthEnv

variable (env : AuthEnv)

def performKeyMethod2Exchange (tlsConn : List Bytes) : Exchange :=
  match readClientKeyMethod2 tlsConn with
  | .error _ => .failed []
  | .ok (tlsReader, clientKM, clientOpts) =>
    match negotiate env.fold env.dataCiphers ⟨clientOpts.options, clientOpts.peerInfo⟩ with
    | .error e => .refused [] tlsReader (ascii e.clientReason) .cipherNegotiation
    | .ok selected =>
      match env.writeServerKeyMethod2AndDeriveKeys clientKM selected with
      | (written, none) => .failed written
      | (written, some dataKeys) =>
        match verifyUserPass env.authUserPass clientOpts with
        | some clientReason => .refused written tlsReader clientReason .credential
        | none =>
          .passed written tlsReader ⟨selected, peerSupportsNCP clientOpts.peerInfo, none, 0,
            false⟩ dataKeys

/-- `rejectAuthAfterPushRequest`, with `sendAuthFailed`: whatever the next string is, if there is
one. -/
def rejectAuthAfterPushRequest (tlsReader : BufReader UInt8) (clientReason : Bytes) :
    Bytes × BufReader UInt8 :=
  (writeControlString (buildAuthFailed clientReason),
    (readControlString tlsReader maxControlStringLen).2)

/-- `runHandshake`, after the exchange; `closing` is what `sess.closing()` says in the end. -/
def conclude (push : PushEnv) (closing : Bool) : Exchange → Bringup
  | .failed written => { written, outcome := .failed }
  | .refused written tlsReader clientReason kind =>
    let written := written ++ [(rejectAuthAfterPushRequest tlsReader clientReason).1]
    match kind with
    | .credential => { written, outcome := .authFailed, closed := some .authFailed }
    | .cipherNegotiation => { written, outcome := .cipherNegotiationFailed }
  | .passed written tlsReader sess _ =>
    match push.performPushExchange sess tlsReader with
    | (st, some (.ok ())) =>
      let written := written ++ st.replies
      if closing then { written, outcome := .failed, push := some st }
      else { written, outcome := .completed, closed := none, push := some st }
    | (st, _) => { written := written ++ st.replies, outcome := .failed, push := some st }

def runHandshake (push : PushEnv) (closing : Bool) (tlsConn : List Bytes) : Bringup :=
  conclude push closing (env.performKeyMethod2Exchange tlsConn)

end AuthEnv

end GoVpn.Ovpn
