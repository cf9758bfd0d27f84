import Mathlib.Data.List.AList
import Mathlib.Logic.Function.Basic
import GoVpn.Lib.Threads
import GoVpn.Netstack.Ipv4
import GoVpn.Netstack.TcpListener
import GoVpn.Netstack.TcpWorld

/-!
# The TCP demux

All connections of a stack, and everyone who acts on them: the read loops of the attached
sessions, the timer goroutines, the listeners and the application (`tcp_listener.go`, with
`Attach` and `Detach` of `stack.go`). No call holds the demux's mutex and a connection's at once,
so a call is the list of its critical sections, and any number of calls run at once.

Attachments and connections are numbered; a number is what the source has as a pointer. What a
connection does under its own mutex is `World.act`.
-/

namespace GoVpn.Netstack

def maxHalfOpenPerSession : Nat := 8
def maxLiveConnsPerSession : Nat := 64
def defaultMSSWhenAbsent : BitVec 16 := 536

structure FourTuple where
  remoteIP : Addr
  remotePort : Port
  localPort : Port
  deriving DecidableEq

/-- `attachment`, as far as TCP is concerned. -/
structure Attached where
  ip : Addr
  /-- `stopCh` is closed. -/
  stopped : Bool := false
  deriving DecidableEq

/-- `tcpConn`: what its mutex guards is in `world`. -/
structure DemuxConn where
  world : World
  /-- `c.a`. -/
  owner : Nat
  listener : Nat
  key : FourTuple
  halfOpenCounted : Bool := true
  halfOpenIP : Addr
  liveCounted : Bool := true

/-- A TCP packet that `deliver` hands to `handlePacket`, and the ISN drawn if it opens a
connection. -/
structure Inbound where
  a : Nat
  src : Addr
  seg : TcpSegment
  isn : Seq

def Inbound.key (p : Inbound) : FourTuple :=
  { remoteIP := p.src, remotePort := p.seg.srcPort, localPort := p.seg.dstPort }

/-- A critical section, of the demux, a listener, a connection or the stack. -/
inductive DemuxSection
  /-- `handlePacket`: `d.conns[key]`. -/
  | lookup (p : Inbound)
  /-- `handlePacket`: `d.listeners[seg.dstPort]`. -/
  | findListener (p : Inbound)
  /-- `handleSYN`: `l.closed`. -/
  | checkOpen (l : Nat) (p : Inbound)
  /-- `handleSYN`: the two caps and the two counters. -/
  | count (l : Nat) (p : Inbound)
  /-- `handleSYN`: a new connection goes into the table. -/
  | insert (l : Nat) (p : Inbound)
  /-- `handleSegment`, for a packet of the attachment `a`. -/
  | segment (a id : Nat) (seg : TcpSegment)
  /-- Any other critical section of a connection. -/
  | conn (id : Nat) (act : Action)
  /-- `removeConn`: the table. -/
  | delete (id : Nat)
  /-- `releaseHalfOpen`: the connection's flag. -/
  | releaseHalfOpen (id : Nat)
  /-- `releaseHalfOpen`: the counter. -/
  | decHalfOpen (id : Nat) (ip : Addr)
  /-- `releaseLiveConn`: the connection's flag. -/
  | releaseLiveConn (id : Nat)
  /-- `releaseLiveConn`: the counter. -/
  | decLiveConn (id : Nat) (ip : Addr)
  | enqueue (id : Nat)
  /-- The `select` of `Accept`. -/
  | accept (l : Nat)
  /-- `Close` of a listener, in its four steps. -/
  | closeListener (l : Nat)
  | removeListener (l : Nat)
  | closeCh (l : Nat)
  | drain (l : Nat)
  /-- `stop` of an attachment. -/
  | stop (a : Nat)

/-- What the sessions, the clock and the application do. -/
inductive DemuxEvent
  | listen (port : Port)
  | accept (l : Nat)
  | closeListener (l : Nat)
  | attach (ip : Addr)
  | detach (ip : Addr)
  /-- `Session.Read` fails, and the read loop detaches. -/
  | readFailed (a : Nat)
  /-- The read loop of `a` finds `stopCh` open and delivers a packet. -/
  | packet (a : Nat) (seg : TcpSegment) (isn : Seq)
  /-- A connection's timer fires. -/
  | timer (id : Nat)
  /-- A connection's timer goroutine finds `stopCh` closed. -/
  | noticeStop (id : Nat)
  /-- The application calls `Read`, `Write`, `CloseWrite` or `Close`. -/
  | app (id : Nat) (act : Action)

structure TcpDemux where
  serverIP : Addr
  /-- `stack.maxSegmentSize()`. -/
  maxSegmentSize : BitVec 16
  attachments : List Attached := []
  routes : Addr → Option Nat := fun _ => none
  /-- `d.listeners`, and every listener there has been. -/
  ports : Port → Option Nat := fun _ => none
  listeners : List (Port × Listener Nat) := []
  conns : AList (fun _ : FourTuple => Nat) := ∅
  halfOpen : Addr → Nat := fun _ => 0
  liveConns : Addr → Nat := fun _ => 0
  /-- Every connection there has been. -/
  pool : List DemuxConn := []
  /-- The connections that have taken one off a counter, in order; nothing reads these. -/
  halfOpenReleased : List Nat := []
  liveReleased : List Nat := []

namespace TcpDemux

/-- The calls of `removeConn`. -/
def removeConn (id : Nat) : List DemuxSection :=
  [.delete id, .releaseHalfOpen id, .releaseLiveConn id]

/-- The MSS `handleSYN` settles on. -/
def sendMSS (d : TcpDemux) (seg : TcpSegment) : BitVec 16 :=
  if seg.hasMSS then if seg.mss > d.maxSegmentSize then d.maxSegmentSize else seg.mss
  else defaultMSSWhenAbsent

/-- The connection `handleSYN` makes. -/
def newConn (d : TcpDemux) (l : Nat) (p : Inbound) : DemuxConn where
  world := World.init
    { localPort := p.seg.dstPort, remotePort := p.seg.srcPort, stackMSS := d.maxSegmentSize
      isn := p.isn, clientISN := p.seg.seq, clientWindow := p.seg.window
      sndMSS := d.sendMSS p.seg }
  owner := p.a
  listener := l
  key := p.key
  halfOpenIP := p.src

/-- The section has torn the connection down. -/
def closedBy (before after : World) : Bool :=
  before.conn.state ≠ .closed && after.conn.state = .closed

/-- Whether a section of a connection ends in `removeConn`. -/
def removes (w : World) (act : Action) : Bool :=
  match act with
  -- an inbound RST calls it whatever the state was
  | .segment seg => if seg.has flagRST then w.conn.rstInWindowLocked seg else closedBy w (w.act act)
  | act => closedBy w (w.act act)

/-- `enqueueToListener`. -/
def opens (w : World) : Action → Bool
  | .segment seg => (w.conn.handleSegment seg).enqueue
  | _ => false

/-- What a call does once it has released the connection's mutex. -/
def afterwards (id : Nat) (w : World) (act : Action) : List DemuxSection :=
  (if opens w act then [.releaseHalfOpen id, .enqueue id] else [])
    ++ (if removes w act then removeConn id else
        match act with
        | .close => [.conn id .closeWrite]
        | _ => [])

/-- A critical section of the connection `id`. -/
def execConn (d : TcpDemux) (id : Nat) (act : Action) : TcpDemux × List DemuxSection :=
  match d.pool[id]? with
  | none => (d, [])
  | some c => ({ d with pool := d.pool.set id { c with world := c.world.act act } },
      afterwards id c.world act)

/-- Update the listener `l`. -/
def setListener (d : TcpDemux) (l : Nat) (ln : Listener Nat) : TcpDemux :=
  { d with listeners := d.listeners.modify l fun e => (e.1, ln) }

/-- What an event changes at once, and the call it starts. -/
def start (d : TcpDemux) : DemuxEvent → TcpDemux × List DemuxSection
  | .listen port =>
    if port = 0 ∨ (d.ports port).isSome then (d, [])
    else
      ({ d with ports := Function.update d.ports port (some d.listeners.length)
                listeners := d.listeners ++ [(port, {})] }, [])
  | .accept l => (d, [.accept l])
  | .closeListener l => (d, [.closeListener l])
  | .attach ip =>
    if ip = d.serverIP ∨ (d.routes ip).isSome then (d, [])
    else
      ({ d with routes := Function.update d.routes ip (some d.attachments.length)
                attachments := d.attachments ++ [{ ip := ip }] }, [])
  | .detach ip =>
    match d.routes ip with
    | none => (d, [])
    | some a => ({ d with routes := Function.update d.routes ip none }, [.stop a])
  | .readFailed a =>
    match d.attachments[a]? with
    | none => (d, [])
    | some att =>
      (if d.routes att.ip = some a then
          { d with routes := Function.update d.routes att.ip none }
        else d, [.stop a])
  | .packet a seg isn =>
    match d.attachments[a]? with
    -- `deliver` lets a packet through only if its source is the attachment's address
    | some att =>
      (d, if att.stopped then [] else [.lookup { a := a, src := att.ip, seg := seg, isn := isn }])
    | none => (d, [])
  | .timer id => (d, [.conn id .rtoFired])
  | .noticeStop id =>
    match d.pool[id]? with
    | none => (d, [])
    | some c =>
      (d, if (d.attachments[c.owner]?).any (·.stopped) then [.conn id .detached] else [])
  | .app id act =>
    match act with
    | .write .. | .resumeWrite .. | .read .. | .closeWrite | .close => (d, [.conn id act])
    | _ => (d, [])

/-- One critical section; `takes` decides a `select` with both cases ready. -/
def exec (d : TcpDemux) (sec : DemuxSection) (takes : Bool) : TcpDemux × List DemuxSection :=
  match sec with
  | .lookup p =>
    match d.conns.lookup p.key with
    | some id => (d, [.segment p.a id p.seg])
    | none =>
      -- without a connection, anything but a SYN or an RST is answered with an RST
      if !p.seg.has flagRST && p.seg.has flagSYN && !p.seg.has flagACK then (d, [.findListener p])
      else (d, [])
  | .findListener p =>
    match d.ports p.seg.dstPort with
    | some l => (d, [.checkOpen l p])
    | none => (d, [])
  | .checkOpen l p =>
    if (d.listeners[l]?).any (·.2.closed) then (d, []) else (d, [.count l p])
  | .count l p =>
    if d.halfOpen p.src ≥ maxHalfOpenPerSession then (d, [])
    else if d.liveConns p.src ≥ maxLiveConnsPerSession then (d, [])
    else
      ({ d with halfOpen := Function.update d.halfOpen p.src (d.halfOpen p.src + 1)
                liveConns := Function.update d.liveConns p.src (d.liveConns p.src + 1) },
        [.insert l p])
  | .insert l p =>
    ({ d with pool := d.pool ++ [d.newConn l p]
              conns := d.conns.insert p.key d.pool.length }, [])
  | .segment _ id seg => d.execConn id (.segment seg)
  | .conn id act => d.execConn id act
  | .delete id =>
    match d.pool[id]? with
    | none => (d, [])
    | some c =>
      (if d.conns.lookup c.key = some id then { d with conns := d.conns.erase c.key } else d, [])
  | .releaseHalfOpen id =>
    match d.pool[id]? with
    | none => (d, [])
    | some c =>
      ({ d with pool := d.pool.set id { c with halfOpenCounted := false } },
        if c.halfOpenCounted then [.decHalfOpen id c.halfOpenIP] else [])
  | .decHalfOpen id ip =>
    ({ d with halfOpen := Function.update d.halfOpen ip (d.halfOpen ip - 1)
              halfOpenReleased := d.halfOpenReleased ++ [id] }, [])
  | .releaseLiveConn id =>
    match d.pool[id]? with
    | none => (d, [])
    | some c =>
      ({ d with pool := d.pool.set id { c with liveCounted := false } },
        if c.liveCounted then [.decLiveConn id c.halfOpenIP] else [])
  | .decLiveConn id ip =>
    ({ d with liveConns := Function.update d.liveConns ip (d.liveConns ip - 1)
              liveReleased := d.liveReleased ++ [id] }, [])
  | .enqueue id =>
    match d.pool[id]? with
    | none => (d, [])
    | some c =>
      match d.listeners[c.listener]? with
      | none => (d, [])
      | some (_, ln) =>
        let r := ln.enqueue id
        (d.setListener c.listener r.1, if r.2 then [.conn id .abort] else [])
  | .accept l =>
    match d.listeners[l]? with
    | none => (d, [])
    | some (_, ln) =>
      if ln.closeCh && !takes then (d, [])
      else
        match ln.receive with
        | (some _, ln') => (d.setListener l ln', [])
        | (none, _) => (d, if ln.closeCh then [] else [.accept l])
  | .closeListener l =>
    match d.listeners[l]? with
    | none => (d, [])
    | some (_, ln) =>
      if ln.closed then (d, [])
      else (d.setListener l { ln with closed := true }, [.removeListener l, .closeCh l, .drain l])
  | .removeListener l =>
    match d.listeners[l]? with
    | none => (d, [])
    | some (port, _) => ({ d with ports := Function.update d.ports port none }, [])
  | .closeCh l =>
    match d.listeners[l]? with
    | none => (d, [])
    | some (_, ln) => (d.setListener l { ln with closeCh := true }, [])
  | .drain l =>
    match d.listeners[l]? with
    | none => (d, [])
    | some (_, ln) =>
      match ln.receive with
      | (some id, ln') => (d.setListener l ln', [.conn id .abort, .drain l])
      | (none, _) => (d, [])
  | .stop a =>
    ({ d with attachments := d.attachments.modify a fun att => { att with stopped := true } }, [])

/-- Any number of calls, in any interleaving. -/
def program : Threads.Program TcpDemux DemuxSection DemuxEvent Bool where
  start := start
  exec := exec

/-- The demux after some moves, from a stack without sessions or listeners. -/
def after (serverIP : Addr) (mss : BitVec 16) (ms : List (Threads.Move DemuxEvent Bool)) :
    Threads.Sys TcpDemux DemuxSection :=
  Machine.run (Threads.step program)
    { shared := { serverIP := serverIP, maxSegmentSize := mss } } ms

end TcpDemux

end GoVpn.Netstack
