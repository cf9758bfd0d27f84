import GoVpn.Data.KeyMethod2
import GoVpn.Lib.BufReader
import GoVpn.Ovpn.Cipher
import GoVpn.Ovpn.Network

/-!
# Control strings and the push exchange

`readControlString`, `writeControlString` and `buildPushReply` (`push.go`), `buildAuthFailed` and
`performPushExchange` (`ovpn.go`). A control string is text with a NUL after it. The server reads
them through the one `bufio.Reader` of the session, whose fills are what the TLS connection
returns, and answers each `PUSH_REQUEST` it finds there.
-/

namespace GoVpn.Ovpn

open GoVpn.Control (Bytes)
open Utf8 (ascii)

def maxControlStringLen : Nat := 1024
def pushRequestLiteral : Bytes := ascii "PUSH_REQUEST"
def authFailedLiteral : Bytes := ascii "AUTH_FAILED"
def maxAuthClientReasonLen : Nat := 128

/-! ## The reader of the session -/

/-- `readClientKeyMethod2`, on a TLS connection that returns these reads; an error is one of
`ReadClientKeyMethod2`, after `ovpn: read client Key Method 2: `. -/
def readClientKeyMethod2 (tlsConn : List Bytes) :
    Except Data.KeyMethodErr (BufReader UInt8 × Data.KeySource × Data.ClientOptions) :=
  match Data.readClientKeyMethod2 { buffered := [], fills := tlsConn } with
  | (.ok (clientKM, clientOpts), tlsReader) => .ok (tlsReader, clientKM, clientOpts)
  | (.error err, _) => .error err

/-! ## Framing -/

inductive ControlStringErr
  /-- What `ReadByte` has returned. -/
  | read
  /-- `control string exceeds %d bytes without a NUL terminator`. -/
  | exceeds (max : Nat)
  deriving DecidableEq

def readControlString (r : BufReader UInt8) (max : Nat) :
    Except ControlStringErr Bytes × BufReader UInt8 :=
  match r.readTo 0 max [] with
  | (.ok s, r) => (.ok s, r)
  | (.error .dry, r) => (.error .read, r)
  | (.error .full, r) => (.error (.exceeds max), r)

/-- What `writeControlString` hands to `Write`. -/
def writeControlString (s : Bytes) : Bytes := s ++ [0]

/-! ## Packages `fmt`, `net` and `time` -/

/-- The verb `%d`, of a number that is not negative. -/
def decimal (n : Nat) : Bytes := (Nat.toDigits 10 n).map fun c => UInt8.ofNat c.toNat

/-- The verb `%d`, of an `int`. -/
def decimalInt (n : BitVec 64) : Bytes :=
  if n.toInt < 0 then ascii "-" ++ decimal n.toInt.natAbs else decimal n.toInt.natAbs

/-- `IP.String`, of four bytes. -/
def ipString (ip : Bytes) : Bytes := (ascii ".").intercalate (ip.map fun b => decimal b.toNat)

def second : BitVec 64 := 1000000000

def durationToPushedSeconds (d : BitVec 64) : BitVec 64 :=
  let secs := d.sdiv second
  if secs.slt 1 then 1 else secs

/-! ## What the server sends -/

def buildPushReply (clientIP : Bytes) (network : IPNet) (peerID : PeerID) (cipher : Bytes)
    (peerSupportsNCP : Bool) (pingSeconds pingRestartSeconds : BitVec 64) : Bytes :=
  let netmask := ipString (normalizeIPv4Mask network.mask)
  let opts := [ascii "PUSH_REPLY",
    ascii "ifconfig " ++ ipString clientIP ++ ascii " " ++ netmask,
    ascii "topology subnet",
    ascii "peer-id " ++ decimal peerID.toNat]
  let opts := if peerSupportsNCP then opts ++ [ascii "cipher " ++ cipher] else opts
  let opts := opts ++ [ascii "ping " ++ decimalInt pingSeconds,
    ascii "ping-restart " ++ decimalInt pingRestartSeconds]
  (ascii ",").intercalate opts ++ [0]

def sanitizeAuthClientReason (reason : Bytes) : Bytes :=
  let b := reason.filter fun c => !(decide (c < 0x20) || c == 0x7F)
  if maxAuthClientReasonLen < b.length then b.take maxAuthClientReasonLen else b

def buildAuthFailed (clientReason : Bytes) : Bytes :=
  let reason := sanitizeAuthClientReason clientReason
  if reason = [] then authFailedLiteral else authFailedLiteral ++ ascii "," ++ reason

/-! ## The push exchange -/

/-- What `performPushExchange` reads and writes of the session. -/
structure PushSession where
  cipher : Bytes
  peerSupportsNCP : Bool
  assignedIP : Option Bytes := none
  peerID : PeerID := 0
  pushRequested : Bool := false

/-- The server, and how the calls turn out that the exchange makes; the number is that of the
call. -/
structure PushEnv where
  /-- `s.pool` is not nil. -/
  pool : Bool
  network : IPNet
  pingInterval : BitVec 64
  reapWindow : BitVec 64
  assignTunnelIP : Nat → Except String (Bytes × PeerID)
  /-- The error of `datachan.NewWrapper`. -/
  newWrapper : Nat → Option String
  closing : Nat → Bool
  /-- The error of `w.Write`. -/
  write : Nat → Option String

inductive PushErr
  | networkUnset | noCipher
  | read (e : ControlStringErr)
  | unexpected (req : Bytes)
  | assign (e : String)
  | wrapper (e : String)
  | sessionClosed
  | write (e : String)
  deriving DecidableEq

structure PushState where
  sess : PushSession
  /-- `sess.tlsReader`. -/
  reader : BufReader UInt8
  /-- What `assignTunnelIP` has returned, and what has gone back to the pool. -/
  assigned : List (Bytes × PeerID) := []
  released : List (Bytes × PeerID) := []
  /-- The requests that were read. -/
  requests : Nat := 0
  /-- What `w.Write` was called with, in order, and the reader at each of these calls. -/
  replies : List Bytes := []
  readers : List (BufReader UInt8) := []

namespace PushEnv

variable (env : PushEnv)

/-- The reply, which only depends on what the session has been assigned. -/
def reply (sess : PushSession) : Bytes :=
  buildPushReply (sess.assignedIP.getD []) env.network sess.peerID sess.cipher sess.peerSupportsNCP
    (durationToPushedSeconds env.pingInterval) (durationToPushedSeconds env.reapWindow)

/-- The part of the loop for a session without an address. -/
def publish (st : PushState) : PushState × Option PushErr :=
  if st.sess.assignedIP.isSome then (st, none)
  else
    let n := st.assigned.length
    match env.assignTunnelIP n with
    | .error e => (st, some (.assign e))
    | .ok a =>
      let st := { st with assigned := st.assigned ++ [a] }
      match env.newWrapper n with
      | some e => ({ st with released := st.released ++ [a] }, some (.wrapper e))
      | none =>
        if env.closing n then ({ st with released := st.released ++ [a] }, some .sessionClosed)
        else ({ st with sess := { st.sess with assignedIP := some a.1, peerID := a.2 } }, none)

/-- One turn of the loop; `none` is another turn. -/
def turn (st : PushState) : PushState × Option (Except PushErr Unit) :=
  match readControlString st.reader maxControlStringLen with
  | (.error e, r) => ({ st with reader := r }, some (.error (.read e)))
  | (.ok req, r) =>
    if req ≠ pushRequestLiteral then ({ st with reader := r }, some (.error (.unexpected req)))
    else
      match env.publish { st with
        reader := r, requests := st.requests + 1
        sess := { st.sess with pushRequested := true } } with
      | (st, some e) => (st, some (.error e))
      | (st, none) =>
        let n := st.replies.length
        let st := { st with
          replies := st.replies ++ [env.reply st.sess], readers := st.readers ++ [st.reader] }
        match env.write n with
        | some e => (st, some (.error (.write e)))
        | none =>
          -- `Buffered() == 0`
          if st.reader.buffered.isEmpty then (st, some (.ok ())) else (st, none)

/-- The loop, for so many turns. -/
def pushLoop : Nat → PushState → PushState × Option (Except PushErr Unit)
  | 0, st => (st, none)
  | n + 1, st =>
    match env.turn st with
    | (st, some res) => (st, some res)
    | (st, none) => pushLoop n st

/-- `performPushExchange`; a turn that is followed by another has read a byte. -/
def performPushExchange (sess : PushSession) (r : BufReader UInt8) :
    PushState × Option (Except PushErr Unit) :=
  if !env.pool then ({ sess := sess, reader := r }, some (.error .networkUnset))
  else if sess.cipher.isEmpty then ({ sess := sess, reader := r }, some (.error .noCipher))
  else env.pushLoop (r.contents.length + 1) { sess := sess, reader := r }

end PushEnv

end GoVpn.Ovpn
