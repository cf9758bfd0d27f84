import GoVpn.Lib.Run
import GoVpn.Proof.CtrlNode
import GoVpn.Proof.PacketRoundTrip
import GoVpn.Proof.Replay

/-!
# A control packet all the way

`buildControlPacket` drains up to eight acknowledgements, writes the packet and wraps it; the peer
unwraps the datagram and parses header and plaintext. The packet that comes out is the one that
went in, with the oldest acknowledgements, if the peer's replay window takes its sequence number.
The window takes what it has not taken, unless that lies 64 numbers or more behind the highest.
-/

namespace GoVpn.Proof

open GoVpn.Control

/-! ## The peer -/

/-- A wrapper, and the sequence numbers it has taken. -/
structure Taker where
  wrapper : Wrapper
  took : List (BitVec 32) := []

inductive WrapperCall
  | wrap (now : Int) (header plaintext : Bytes)
  | unwrap (packet : Bytes)

namespace Taker

def call (K : Crypto) (t : Taker) : WrapperCall → Taker
  | .wrap now header plaintext => { t with wrapper := (t.wrapper.wrap K now header plaintext).1 }
  | .unwrap packet =>
    match t.wrapper.unwrap K packet with
    | .error _ => t
    | .ok (_, _, w) => { wrapper := w, took := packetSeq packet :: t.took }

/-- A wrapper that was `w` once, after the calls `cs`. -/
def after (K : Crypto) (w : Wrapper) (cs : List WrapperCall) : Taker :=
  Machine.run (call K) { wrapper := w } cs

end Taker

/-- Wrapping leaves the receiving half alone. -/
theorem wrap_frame (K : Crypto) (w : Wrapper) (now : Int) (header plaintext : Bytes) :
    (w.wrap K now header plaintext).1.decrypt = w.decrypt
      ∧ (w.wrap K now header plaintext).1.replay = w.replay := by
  rcases h : w.wrap K now header plaintext with ⟨w', r⟩
  cases r with
  | error e => exact (wrap_error h).2.2.2
  | ok wire => exact (nextPID_frame (wrap_ok h).1).2

/-- The keys stay, and the replay window remembers what was taken. -/
structure TakerInv (dec : KeySlot) (t : Taker) : Prop where
  decrypt : t.wrapper.decrypt = dec
  tracks : Tracks t.wrapper.replay t.took

theorem takerInv_call {K : Crypto} {dec : KeySlot} {t : Taker} (h : TakerInv dec t)
    (c : WrapperCall) : TakerInv dec (t.call K c) := by
  cases c with
  | wrap now header plaintext =>
    obtain ⟨hd, hr⟩ := wrap_frame K t.wrapper now header plaintext
    refine ⟨hd.trans h.decrypt, ?_⟩
    show Tracks (t.wrapper.wrap K now header plaintext).1.replay t.took
    rw [hr]
    exact h.tracks
  | unwrap packet =>
    simp only [Taker.call]
    cases hu : t.wrapper.unwrap K packet with
    | error e => exact h
    | ok p =>
      obtain ⟨header, plaintext, w⟩ := p
      obtain ⟨r, hacc, rfl⟩ := unwrap_frame hu
      exact ⟨h.decrypt, tracks_accept hacc h.tracks⟩

/-- What was taken is in the window, after any calls. -/
theorem takerInv_after (K : Crypto) {w : Wrapper} (hw : w.replay = {}) (cs : List WrapperCall) :
    TakerInv w.decrypt (Taker.after K w cs) := by
  refine Machine.run_invariant' (I := TakerInv w.decrypt) (fun t c h => takerInv_call h c)
    ⟨rfl, ?_⟩ cs
  show Tracks w.replay []
  rw [hw]
  exact tracks_new

/-! ## The two ends of a key -/

theorem newWrapper_mirror {key256 : Bytes} {server : Bool} {w peer : Wrapper}
    (hw : newWrapper key256 server = some w) (hp : newWrapper key256 (!server) = some peer) :
    w.encrypt = peer.decrypt ∧ peer.replay = {} := by
  unfold newWrapper at hw hp
  split at hw
  · cases hw
  rename_i hlen
  rw [if_neg hlen] at hp
  cases server <;> cases hw <;> cases hp <;> exact ⟨rfl, rfl⟩

/-! ## The packet -/

theorem parseHeaderByte_keyID {op : Opcode} (hop : validOpcode op = true) {keyID : UInt8}
    (h : keyID ≤ 7) : (parseHeaderByte (headerByte op keyID)).2 = keyID := by
  have key : ∀ (a : Fin 32) (b : Fin 8),
      (UInt8.ofNat a.val <<< 3 ||| UInt8.ofNat b.val &&& 7) &&& 7 = UInt8.ofNat b.val := by decide
  simp only [validOpcode, firstOpcode, lastOpcode, Bool.and_eq_true, decide_eq_true_eq,
    UInt8.le_iff_toNat_le] at hop h
  have hlt : op.toNat < 32 := by have := hop.2; simp at this; omega
  have hk : keyID.toNat < 8 := by simp at h; omega
  have := key ⟨op.toNat, hlt⟩ ⟨keyID.toNat, hk⟩
  simpa [parseHeaderByte, headerByte] using this

/-- The packet of a connection that drained its acknowledgements just now, as it arrives. -/
def arriving (c : Conn) (opcode : Opcode) (id : PacketID) (payload : Bytes) : ControlPacket where
  opcode := opcode
  keyID := c.keyID
  sessionID := c.localSID
  acks := c.acks.take ackSize
  -- the peer's own session ID comes with the acknowledgements, and only with them
  remoteSessionID := if c.acks = [] then .zero else c.remoteSID
  packetID := if opcode = opAckV1 then 0 else id
  payload := payload

theorem carried_packet (c : Conn) {opcode : Opcode} (hop : validOpcode opcode = true)
    (hkey : c.keyID ≤ 7) (id : PacketID) (payload : Bytes) :
    let cp := c.packet opcode id (c.acks.take ackSize) payload
    ControlPacket.carried cp (headerOf cp) = arriving c opcode id payload := by
  intro cp
  have hid : (headerOf cp).keyID = c.keyID := parseHeaderByte_keyID hop hkey
  have hsid : (if cp.acks.length > 0 then cp.remoteSessionID else .zero)
      = if c.acks = [] then SessionID.zero else c.remoteSID := by
    cases hacks : c.acks with
    | nil => rw [if_neg (by simp [cp, Conn.packet, hacks]), if_pos rfl]
    | cons id ids =>
      rw [if_pos (by simp [cp, Conn.packet, hacks, ackSize]), if_neg (by simp)]
      rfl
  have hown : (if cp.opcode != opAckV1 then cp.packetID else 0) = if opcode = opAckV1 then
      0 else id := by
    by_cases hack : opcode = opAckV1
    · rw [if_neg (by simp [cp, Conn.packet, hack]), if_pos hack]
    · rw [if_pos (by simp [cp, Conn.packet, hack]), if_neg hack]
      rfl
  unfold ControlPacket.carried arriving
  rw [hid, hsid, hown]
  rfl

/-- The section that wraps makes the datagram of the packet it was handed. -/
theorem exec_wrap {K : Crypto} {c : Conn} {env : Env} {slot : Option Nat} {cp cp' : ControlPacket}
    {rest : Option Bytes} {wire : Bytes}
    (h : .wrapped cp' wire ∈ (c.exec K env (.wrap slot cp rest)).2.2) :
    cp' = cp ∧
    ∃ seq ts, wire = wrapWithPID K c.wrapper.encrypt cp.header (pidBytes seq ts) cp.plaintext := by
  simp only [Conn.exec] at h
  rcases hw : c.wrapper.wrap K env.clock cp.header cp.plaintext with ⟨w, r⟩
  rw [hw] at h
  cases r with
  | error e =>
    have hs := (sendFailed_silent rest).wrapped
    have hmem : (cp', wire) ∈ wrappedIn (sendFailed rest) := List.mem_filterMap.mpr ⟨_, h, rfl⟩
    rw [hs] at hmem
    cases hmem
  | ok wire' =>
    obtain ⟨hnext, hwire⟩ := wrap_ok hw
    rw [(nextPID_frame hnext).1] at hwire
    have heq : Event.wrapped cp' wire = .wrapped cp wire' := by
      cases slot with
      | none | some idx => exact List.mem_singleton.mp h
    cases heq
    exact ⟨rfl, _, _, hwire⟩

/--
**A control packet survives.** A connection in any state drains its acknowledgements for a
packet, and wraps the packet whenever it next gets to. The peer has the other half of the
key and may have wrapped and unwrapped anything before. If it has not taken the packet's
sequence number, and none that lies 64 or more beyond it, it unwraps and parses the
datagram to the same packet with the oldest eight acknowledgements; the others stay
pending.
-/
theorem control_packet_survives (K : Crypto) {key256 : Bytes} {server : Bool} {own peer : Wrapper}
    (hown : newWrapper key256 server = some own) (hpeer : newWrapper key256 (!server) = some peer)
    (cs : List WrapperCall) (c c' : Conn) (env env' : Env) (slot : Option Nat) {opcode : Opcode}
    (hop : validOpcode opcode = true) (hkey : c.keyID ≤ 7) (id : PacketID) (payload : Bytes)
    (rest : Option Bytes) (henc : c'.wrapper.encrypt = own.encrypt) {cp : ControlPacket}
    {wire : Bytes} :
    let built := c.exec K env (.build slot opcode id payload rest)
    .wrapped cp wire ∈ (c'.exec K env' built.2.1).2.2 →
    packetSeq wire ∉ (Taker.after K peer cs).took →
    (∀ s ∈ (Taker.after K peer cs).took, s.toNat < (packetSeq wire).toNat + replayWindowSize) →
    (∃ header plaintext w', (Taker.after K peer cs).wrapper.unwrap K wire =
        .ok (header, plaintext, w')
        ∧ parseUnwrapped header plaintext = some (arriving c opcode id payload))
      ∧ built.1 = { c with acks := c.acks.drop ackSize } := by
  intro built hwrap hnew hnear
  refine ⟨?_, rfl⟩
  obtain ⟨hmirror, hempty⟩ := newWrapper_mirror hown hpeer
  have hinv := takerInv_after K hempty cs
  have hlen : (c.acks.take ackSize).length ≤ maxAcks := by
    rw [List.length_take]
    exact Nat.min_le_left _ _
  obtain ⟨rfl, seq, ts, rfl⟩ := exec_wrap hwrap
  rw [henc] at hnew hnear ⊢
  obtain ⟨r, hr⟩ := accept_fresh hinv.tracks hnew hnear
  have hu :=
    unwrap_wrapped K own.encrypt (c.packet opcode id (c.acks.take ackSize) payload).plaintext
    (length_header (c.packet opcode id (c.acks.take ackSize) payload)) (length_pidBytes seq ts)
    (Taker.after K peer cs).wrapper (hinv.decrypt.trans hmirror.symm)
  rw [hr] at hu
  refine ⟨_, _, _, hu, ?_⟩
  rw [parseUnwrapped_packet hlen hop, carried_packet c hop hkey id payload]

/-- A static key, with one half for each direction. -/
def halvedKey : Bytes := List.replicate 128 1 ++ List.replicate 128 2

def halvedWrapper (server : Bool) : Wrapper :=
  let slot (b : UInt8) : KeySlot := { cipher := List.replicate 32 b, hmac := List.replicate 32 b }
  if server then { encrypt := slot 1, decrypt := slot 2 }
    else { encrypt := slot 2, decrypt := slot 1 }

theorem newWrapper_halvedKey (server : Bool) :
    newWrapper halvedKey server = some (halvedWrapper server) := by
  cases server <;> decide +kernel

/-- A server's connection that has sent `n` packets, with one acknowledgement pending. -/
def havingSent (n : BitVec 32) : Conn :=
  { Conn.new .zero .zero { halvedWrapper true with sendSeq := n } 0 with acks := [7] }

/-- What it makes of its next packet. -/
def nextWrapped (n : BitVec 32) : List Event :=
  ((havingSent n).exec toyCrypto calm
    ((havingSent n).exec toyCrypto calm (.build (some 0) opControlV1 3 [9] none)).2.1).2.2

def nextWire (n : BitVec 32) : Bytes := ((wrappedIn (nextWrapped n)).map Prod.snd).headD []

/-- The first packet arrives behind the second. -/
theorem overtaken_packet_survives :
    let peer := Taker.after toyCrypto (halvedWrapper false) [.unwrap (nextWire 1)]
    peer.took = [2] ∧
        (∃ header plaintext w', peer.wrapper.unwrap toyCrypto (nextWire 0) =
          .ok (header, plaintext, w')
        ∧ parseUnwrapped header plaintext = some (arriving (havingSent 0) opControlV1 3 [9])) := by
  intro peer
  have htook : peer.took = [2] := by decide +kernel
  have hseq : packetSeq (nextWire 0) = 1 := by decide +kernel
  have hwrapped : Event.wrapped ((havingSent 0).packet opControlV1 3 [7] [9]) (nextWire 0) ∈
      nextWrapped 0 := by
    decide +kernel
  refine ⟨htook,
    (control_packet_survives toyCrypto (newWrapper_halvedKey true) (newWrapper_halvedKey false)
    [.unwrap (nextWire 1)] (havingSent 0) (havingSent 0) calm calm (some 0) (by decide)
      (by decide) 3 [9] none rfl
    hwrapped ?_ ?_).1⟩
  · rw [show (Taker.after toyCrypto (halvedWrapper false) [.unwrap (nextWire 1)]).took =
      [2] from htook, hseq]
    decide
  · rw [show (Taker.after toyCrypto (halvedWrapper false) [.unwrap (nextWire 1)]).took =
      [2] from htook, hseq]
    intro s hs
    rw [List.mem_singleton.mp hs]
    decide

/-- Behind the sixty-fifth the first packet is refused as a replay, though it never arrived
before. -/
theorem packet_below_floor_refused :
    let peer := Taker.after toyCrypto (halvedWrapper false) [.unwrap (nextWire 64)]
    packetSeq (nextWire 0) = 1 ∧ peer.took = [65]
      ∧ (match peer.wrapper.unwrap toyCrypto (nextWire 0) with
        | .error e => some e
        | .ok _ => none) = some UnwrapErr.replay := by
  decide +kernel

end GoVpn.Proof
