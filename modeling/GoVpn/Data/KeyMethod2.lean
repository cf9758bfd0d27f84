import GoVpn.Control.Wire
import GoVpn.Lib.MessageReader

/-!
# The Key Method 2 message

`ReadClientKeyMethod2` (`keymethod2.go`): the message in which the client sends its half of the
seed material and four strings, each with its length before it. It is the first message on the TLS
stream, and what follows it there is read through the same reader.
-/

namespace GoVpn.Data

open GoVpn.Control (Bytes)
open BufReader (Part)

def keyMethod2 : UInt8 := 2
def keyMethodMask : UInt8 := 0x0F
def maxOptionsStringLen : Nat := 512

structure KeySource where
  preMaster : Part UInt8 48
  random1 : Part UInt8 32
  random2 : Part UInt8 32
  deriving DecidableEq

/-- `ClientOptions`; a nil string is empty. -/
structure ClientOptions where
  options : Bytes
  username : Bytes
  password : Bytes
  peerInfo : Bytes
  deriving DecidableEq

inductive KeyMethodErr
  /-- What `io.ReadFull` has returned. -/
  | read (e : BufReader.Short)
  /-- `ErrKeyMethod`. -/
  | keyMethod
  /-- `ErrStringTooLong`. -/
  | stringTooLong
  deriving DecidableEq

abbrev Reading : Type → Type := BufReader.Reading UInt8 KeyMethodErr

def readFull (n : Nat) : Reading (Part UInt8 n) := ExceptT.adapt .read (BufReader.readFull n)

def readLengthPrefixedString : Reading Bytes := do
  let lenBuf ← readFull 2
  let n := BigEndian.get lenBuf.val
  if n = 0 then pure []
  else if n > maxOptionsStringLen then throw .stringTooLong
  else
    let buf ← readFull n
    pure buf.val

def readClientKeyMethod2 : Reading (KeySource × ClientOptions) := do
  let _reserved ← readFull 4
  let methodByte ← readFull 1
  if methodByte.head &&& keyMethodMask ≠ keyMethod2 then throw .keyMethod
  else
    let preMaster ← readFull 48
    let random1 ← readFull 32
    let random2 ← readFull 32
    let options ← readLengthPrefixedString
    let username ← readLengthPrefixedString
    let password ← readLengthPrefixedString
    let peerInfo ← readLengthPrefixedString
    pure (⟨preMaster, random1, random2⟩, ⟨options, username, password, peerInfo⟩)

end GoVpn.Data
