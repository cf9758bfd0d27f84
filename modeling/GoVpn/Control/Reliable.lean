import GoVpn.Control.Wire

/-!
# The reliability layer

One direction of a control channel's packet window (`reliable.go`): the send side hands out
packet IDs, keeps what is unacknowledged and says what is due for another try; the receive
side stores packets out of order and gives them up in order.

Packet IDs are 32-bit and wrap. `time.Duration` is a 64-bit two's-complement number whose
doubling overflows. Instants are nanoseconds from the zero `time.Time`, and the clock's
reading is an argument. The entry array is the list of the entries the window uses: the
source never touches those past `size`.
-/

namespace GoVpn.Control

abbrev Duration := BitVec 64

def ackSize : Nat := 8
def capacity : Nat := 12
def nSendBuffers : Nat := 6
def nRecBuffers : Nat := 12
def nAckRetransmit : Nat := 3
/-- Two seconds. -/
def tlsTimeout : Duration := 2000000000

/-- `pidInRange1`: `test - base < extent`, wrapping. -/
def pidInRange1 (test base : PacketID) (extent : BitVec 32) : Bool := test - base < extent

/-- `pidInRange2`: `test < base + extent`, minding the wrap of the sum. -/
def pidInRange2 (test base : PacketID) (extent : BitVec 32) : Bool :=
  if base + extent ≥ base then test < base + extent
  else test + 0x80000000 < (base + 0x80000000) + extent

/-- `pidMin`: `p1` comes before `p2`. -/
def pidMin (p1 p2 : PacketID) : Bool := !pidInRange1 p1 p2 0x80000000

structure Entry where
  active : Bool := false
  timeout : Duration := 0
  nextTry : Int := 0
  packetID : PacketID := 0
  nAcks : Nat := 0
  payload : Bytes := []
  deriving DecidableEq

/-- What one acknowledged ID does to an entry. -/
def Entry.ack (pid : PacketID) (e : Entry) : Entry :=
  if !e.active then e
  else if e.packetID = pid then { e with active := false }
  else if e.packetID < pid then { e with nAcks := e.nAcks + 1 }
  else e

/-- The test in `Due`'s scan. -/
def Entry.due (now : Int) (e : Entry) : Bool :=
  e.active && (e.nAcks ≥ nAckRetransmit || !(now < e.nextTry))

/-- What `Due` does to the entry it returns: back off and forget the later acks. -/
def Entry.backOff (now : Int) (e : Entry) : Entry :=
  { e with nextTry := now + e.timeout.toInt, timeout := e.timeout * 2, nAcks := 0 }

structure Reliable where
  initialTimeout : Duration
  packetID : PacketID
  entries : List Entry
  deriving DecidableEq

/-- `New`; its `size` is in `(0, Capacity]`, and the source panics otherwise. -/
def Reliable.new (size : Nat) : Reliable :=
  { initialTimeout := tlsTimeout, packetID := 0, entries := List.replicate size {} }

inductive PutResult
  | rejected | accepted | duplicate
  deriving DecidableEq

namespace Reliable

def size (r : Reliable) : Nat := r.entries.length

/-! ## The send side -/

/-- One entry in the scan of `Next` for the lowest active packet ID. -/
def scanMin (min : Option PacketID) (e : Entry) : Option PacketID :=
  if e.active then
    match min with
    | none => some e.packetID
    | some m => if pidMin e.packetID m then some e.packetID else some m
  else min

/-- The lowest active packet ID. -/
def minActive (r : Reliable) : Option PacketID := r.entries.foldl scanMin none

/-- The first free entry. -/
def free (r : Reliable) : Option Nat := r.entries.findIdx? fun e => !e.active

/-- `Next`: a free entry, unless the window would grow past `size` IDs. -/
def next (r : Reliable) : Option Nat :=
  match r.minActive with
  | some m => if pidInRange1 r.packetID m (BitVec.ofNat 32 r.size) then r.free else none
  | none => r.free

def markActive (r : Reliable) (idx : Nat) : Reliable :=
  { r with
    packetID := r.packetID + 1
    entries := r.entries.modify idx fun e =>
      { e with packetID := r.packetID, active := true, nAcks := 0, timeout := r.initialTimeout,
               nextTry := 0 } }

def setPayload (r : Reliable) (idx : Nat) (payload : Bytes) : Reliable :=
  { r with entries := r.entries.modify idx fun e => { e with payload := payload } }

def ack (r : Reliable) (ids : List PacketID) : Reliable :=
  { r with entries := ids.foldl (fun es pid => es.map (Entry.ack pid)) r.entries }

/-- `Due`'s scan from index `i` on, with the best entry so far. -/
def bestDue (now : Int) : List Entry → Nat → Option (Nat × PacketID) → Option (Nat × PacketID)
  | [], _, best => best
  | e :: es, i, best =>
    bestDue now es (i + 1)
      (if e.due now then
        match best with
        | none => some (i, e.packetID)
        | some (j, m) => if pidMin e.packetID m then some (i, e.packetID) else some (j, m)
      else best)

/-- `Due`: the index of the entry it returns and the window after it. -/
def due (r : Reliable) (now : Int) : Option (Nat × Reliable) :=
  match bestDue now r.entries 0 none with
  | none => none
  | some (i, _) => some (i, { r with entries := r.entries.modify i (Entry.backOff now) })

/--
The inner loop of `retransmitLoop`, with the clock at `now`: `Due` is called until
it returns nothing, having returned the entries `hits` in this order.
-/
inductive Drains (now : Int) : Reliable → List Nat → Prop
  | stop {r : Reliable} : r.due now = none → Drains now r []
  | resend {r r' : Reliable} {i : Nat} {hits : List Nat} :
      r.due now = some (i, r') → Drains now r' hits → Drains now r (i :: hits)

/-- The payload of an entry. -/
def payloadAt (r : Reliable) (i : Nat) : Bytes := (r.entries[i]?.map Entry.payload).getD []

/-! ## The receive side -/

/-- Some active entry holds `id`. -/
def holds (r : Reliable) (id : PacketID) : Bool :=
  r.entries.any fun e => e.active && e.packetID == id

def put (r : Reliable) (id : PacketID) (payload : Bytes) : Reliable × PutResult :=
  if pidMin id r.packetID then (r, .rejected)
  else if r.holds id then (r, .duplicate)
  -- an ID the window has no room for yet
  else if !pidInRange2 id r.packetID (BitVec.ofNat 32 r.size) then (r, .rejected)
  else
    match r.free with
    | none => (r, .rejected)
    | some i =>
      ({ r with entries := r.entries.modify i fun e =>
          { e with active := true, packetID := id, nAcks := 0, payload := payload } }, .accepted)

def get (r : Reliable) : Option (Bytes × Reliable) :=
  match r.entries.findIdx? fun e => e.active && e.packetID == r.packetID with
  | none => none
  | some i =>
    some (r.payloadAt i,
      { r with packetID := r.packetID + 1
               entries := r.entries.modify i fun e => { e with active := false } })

end Reliable

/-! ## Pending acknowledgements -/

abbrev AckSet := List PacketID

namespace AckSet

def add (a : AckSet) (id : PacketID) : AckSet := if id ∈ a then a else a ++ [id]

/-- `Drain`: up to `AckSize` IDs, and what is left. -/
def drain (a : AckSet) : List PacketID × AckSet := (a.take ackSize, a.drop ackSize)

def peek (a : AckSet) : Bool := a.length > 0

end AckSet

end GoVpn.Control
