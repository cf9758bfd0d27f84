import GoVpn.Lib.Run
import GoVpn.Netstack.TcpConn

/-!
# A connection and everyone who acts on it

The network, the timer goroutine and the application reach a connection in
critical sections of its mutex, in any order. `Action` is one such section.
`Write` is the call that needs several: it drops the lock between two chunks and
while it waits for buffer space, and its unfinished calls are kept in `writers`.

The fields below the line are ghost state: they record what went in and out and
no function of the connection reads them.
-/

namespace GoVpn.Netstack

open TcpConn

/-- One critical section of the connection's mutex. -/
inductive Action
  /-- `handleSegment` for an inbound segment the demux routed here. -/
  | segment (seg : TcpSegment)
  /-- `onRTOFired`. -/
  | rtoFired
  /-- `onAttachmentDetached`. -/
  | detached
  /-- `abort`, from the listener. -/
  | abort
  /-- The application calls `Write(p)`: its first critical section. -/
  | write (p : Bytes) (deadlinePassed : Bool)
  /-- The `i`-th unfinished `Write` takes the lock again. -/
  | resumeWrite (i : Nat) (deadlinePassed : Bool)
  /-- One critical section of a `Read` into `n` bytes. -/
  | read (n : Nat) (deadlinePassed : Bool)
  /-- `CloseWrite`, on its own or as the second half of `Close`. -/
  | closeWrite
  /-- `Close`'s own critical section. -/
  | close

structure World where
  conn : TcpConn
  /-- `Write` calls between two of their critical sections. -/
  writers : List WriteCall
  /-- The connection has been handed to the listener, so an application can hold it. -/
  accepted : Bool
  /-- Every byte `Write` has appended to the send buffer, in order. -/
  written : Bytes
  /-- Every segment transmitted, in order. -/
  emitted : List TcpSegment
  /-- Every byte `Read` has returned, in order. -/
  readOut : Bytes
  /-- Some `Read` has returned `io.EOF`. -/
  eof : Bool
  /-- How many bytes were appended to the send buffer after the FIN was sent. -/
  late : Nat

/-- The bytes of `call` a critical section moved into the send buffer. -/
def WriteResult.queued (call : WriteCall) : WriteResult → Bytes
  | .returned _ _ => []
  | .pending call' => (call.p.drop call.total).take (call'.total - call.total)

namespace World

/-- A connection just built by `handleSYN`, its SYN-ACK on the way. -/
def init (p : SynParams) : World where
  conn := newTCPConn p
  writers := []
  accepted := false
  written := []
  emitted := [(newTCPConn p).synAck]
  readOut := []
  eof := false
  late := 0

def apply (w : World) (o : Outcome) : World :=
  { w with conn := o.conn, accepted := w.accepted || o.enqueue, emitted := w.emitted ++ o.toSend }

/-- Record a critical section of the `Write` call `call`. -/
def applyWrite (w : World) (call : WriteCall) (r : TcpConn × List TcpSegment × WriteResult)
    (writers : List WriteCall) : World :=
  { w with
    conn := r.1
    writers := writers
    emitted := w.emitted ++ r.2.1
    written := w.written ++ r.2.2.queued call
    late := w.late + if w.conn.finSent then (r.2.2.queued call).length else 0 }

/-- Record what a critical section of `Read` returned. -/
def applyRead (w : World) (r : TcpConn × ReadResult) : World :=
  match r.2 with
  | .data bytes => { w with conn := r.1, readOut := w.readOut ++ bytes }
  | .failed e => { w with conn := r.1, eof := w.eof || e = .eof }
  | .blocked => { w with conn := r.1 }

/-- Unfinished calls after a first critical section. -/
def addWriter (ws : List WriteCall) : WriteResult → List WriteCall
  | .returned _ _ => ws
  | .pending call => ws ++ [call]

/-- Unfinished calls after a later critical section of the `i`-th of them. -/
def setWriter (ws : List WriteCall) (i : Nat) : WriteResult → List WriteCall
  | .returned _ _ => ws.eraseIdx i
  | .pending call => ws.set i call

/-- What an application that holds the connection can do to it. -/
def appCall (w : World) : Action → World
  | .write p d =>
    let r := w.conn.writeEntry p d
    w.applyWrite { p := p, total := 0 } r (addWriter w.writers r.2.2)
  | .resumeWrite i d =>
    match w.writers[i]? with
    | none => w
    | some call =>
      let r := w.conn.writeSection call d
      w.applyWrite call r (setWriter w.writers i r.2.2)
  | .read n d => w.applyRead (w.conn.readSection n d)
  | .closeWrite => w.apply w.conn.closeWriteSection
  | .close => w.apply w.conn.closeSection
  | _ => w

/--
One step. Nobody but `Accept` hands out a connection, and only an established one
is ever queued for it, so the application's calls do nothing before that.
-/
def act (w : World) : Action → World
  | .segment seg => w.apply (w.conn.handleSegment seg)
  | .rtoFired => w.apply w.conn.onRTOFired
  | .detached => w.apply w.conn.onAttachmentDetached
  | .abort => w.apply w.conn.abort
  | a => if w.accepted then w.appCall a else w

/-- The segments a step transmits. -/
def emits (w : World) (a : Action) : List TcpSegment := (w.act a).emitted.drop w.emitted.length

/-- The state after the critical sections `as`, from a fresh connection. -/
def after (p : SynParams) (as : List Action) : World := Machine.run act (init p) as

end World

end GoVpn.Netstack
