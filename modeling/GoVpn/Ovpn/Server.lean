import GoVpn.Ovpn.Renegotiation

/-!
# The server: address pool, routing table and all sessions

The pool of tunnel addresses and peer-ids (`ippool.go`), the map from peer-ids to
sessions that data packets are routed by, and the table of live sessions. A server
step is a step of one session's goroutine; what that step does to the shared state,
it does in the same locked section, and what the shared state answers decides the
step. An eviction starts a `closeWithReason` call on another session and waits for it.
-/

namespace GoVpn.Ovpn

open GoVpn.Control (Bytes)
open GoVpn.Data

def maxPeerID : Nat := 0xFFFFFF

/-- `ipPool`; the two maps are lists of their keys. -/
structure IpPool where
  base : BitVec 32
  size : BitVec 32
  usedIPs : List (BitVec 32) := []
  usedPeerIDs : List PeerID := []
  deriving DecidableEq

/-- `newIPPool`, for an IPv4 network with `ones` bits of mask. -/
def newIPPool (ip : IPv4) (ones : Nat) : Option IpPool :=
  let size := (1 : BitVec 32) <<< (32 - ones)
  if size < 4 then none else some { base := ip, size := size }

namespace IpPool

/-- The first of the `n` numbers from `o` that is not in use. -/
def firstFree (used : List (BitVec 32)) : Nat → BitVec 32 → Option (BitVec 32)
  | 0, _ => none
  | n + 1, o => if used.contains o then firstFree used n (o + 1) else some o

/-- `nextFreeOffset`: neither the network, nor the server, nor the broadcast address. -/
def nextFreeOffset (p : IpPool) : Option (BitVec 32) := firstFree p.usedIPs (p.size.toNat - 3) 2

def nextFreePeerID (p : IpPool) : Option PeerID := firstFree p.usedPeerIDs (maxPeerID + 1) 0

/-- Both numbers are taken. -/
def take (p : IpPool) (offset : BitVec 32) (peerID : PeerID) : IpPool :=
  { p with usedIPs := offset :: p.usedIPs, usedPeerIDs := peerID :: p.usedPeerIDs }

def allocate (p : IpPool) : Option (Grant × IpPool) :=
  match p.nextFreeOffset, p.nextFreePeerID with
  | some offset, some peerID =>
    some ({ ip := p.base + offset, peerID := peerID }, p.take offset peerID)
  | _, _ => none

/-- `reserve`; `none` is an address that is not IPv4. -/
def reserve (p : IpPool) : Option IPv4 → ReserveErr ⊕ (PeerID × IpPool)
  | none => .inl .notIPv4
  | some v =>
    if v < p.base then .inl .outsideNetwork
    else
      let offset := v - p.base
      if offset ≥ p.size then .inl .outsideNetwork
      else if offset = 0 ∨ offset = 1 ∨ offset = p.size - 1 then .inl .reserved
      else if p.usedIPs.contains offset then .inl .inUse
      else
        match p.nextFreePeerID with
        | none => .inl .poolExhausted
        | some peerID => .inr (peerID, p.take offset peerID)

def release (p : IpPool) (g : Grant) : IpPool :=
  { p with
    usedIPs := p.usedIPs.filter fun o => decide (o ≠ g.ip - p.base)
    usedPeerIDs := p.usedPeerIDs.filter fun id => decide (id ≠ g.peerID) }

end IpPool

/-- `Server`, as far as the sessions share it. -/
structure Server where
  pool : IpPool
  dataSessions : List (PeerID × Nat) := []
  sessions : List Nat := []
  sess : List Session := []

namespace Server

/-- `dataSessions[peerID] = i`. -/
def route (v : Server) (peerID : PeerID) (i : Nat) : Server :=
  { v with dataSessions := (peerID, i) :: v.dataSessions.filter fun x => decide (x.1 ≠ peerID) }

/-- `dataSessions` loses `peerID` if it is session `i`'s. -/
def unroute (v : Server) (peerID : PeerID) (i : Nat) : Server :=
  { v with dataSessions := v.dataSessions.filter fun x => decide (x ≠ (peerID, i)) }

/-- What the shared state does with, and answers to, a step of `runHandshake`. -/
def serveHandshake (v : Server) (i : Nat) (s : Session) (e : Env) : Server × Env :=
  match s.hs with
  | .allocate =>
    match v.pool.allocate with
    | some (g, pool) => ({ v with pool := pool }, { e with grant := some g })
    | none => (v, { e with grant := none })
  | .reserve want _ =>
    match v.pool.reserve want with
    | .inr (peerID, pool) => ({ v with pool := pool }, { e with reserved := .inr peerID })
    | .inl err => (v, { e with reserved := .inl err })
  | .sessionByIP _ =>
    -- the order of the candidates is the order Go iterates over a map in: any
    (v, { e with
      candidates := if e.candidates.isPerm v.sessions then e.candidates else v.sessions })
  | .lookup want (j :: _) =>
    (v, { e with holds := want.isSome && (v.sess[j]?.bind Session.assignedIP) == want })
  | .evict _ old =>
    match v.sess[old]? with
    | none => (v, { e with caller := 0 })
    | some t =>
      ({ v with sess := v.sess.set old { t with closers := t.closers ++ [(.replaced, .enter)] } },
        { e with caller := t.closers.length })
  | .evicting _ old caller =>
    (v, { e with
      returned :=
        ((v.sess[old]?.bind fun t => t.closers[caller]?).map Prod.snd) == some .returned })
  | .publishKeys g =>
    (if (s.publishKeys g).hs = .pushReply then v.route g.peerID i else v, e)
  | .releaseGrant g => ({ v with pool := v.pool.release g }, e)
  | _ => (v, e)

/-- What a step of the body of `stopOnce` does to the shared state. -/
def serveTeardown (v : Server) (i : Nat) (s : Session) : Server :=
  match s.stopOnce with
  | .running _ .snapshot => if s.primary.wrapper.isSome then v.unroute s.peerID i else v
  | .running _ (.release (some ip) peerID _) =>
    { v with pool := v.pool.release { ip := ip, peerID := peerID } }
  | .running _ (.remove _) => { v with sessions := v.sessions.filter fun j => decide (j ≠ i) }
  | _ => v

/-- The shared part of a session's step, and the step's input with the answers filled in. -/
def serve (v : Server) (i : Nat) (s : Session) : Input → Server × Input
  | .handshake e =>
    let (v, e) := v.serveHandshake i s e
    (v, .handshake e)
  | .teardown => (v.serveTeardown i s, .teardown)
  | inp => (v, inp)

end Server

/-- A new client, or a step of the `i`-th session. -/
inductive ServerInput
  | accept (now : Int)
  | session (i : Nat) (inp : Input)

/-- One step of the server. -/
def Server.step (A : Aead) (cfg : Config) (v : Server) : ServerInput → Server
  | .accept now =>
    { v with
      sessions := v.sessions ++ [v.sess.length]
      sess := v.sess ++ [Session.new v.sess.length now] }
  | .session i inp =>
    match v.sess[i]? with
    | none => v
    | some s =>
      let (v, inp) := v.serve i s inp
      { v with sess := v.sess.set i (s.step A cfg inp) }

end GoVpn.Ovpn
