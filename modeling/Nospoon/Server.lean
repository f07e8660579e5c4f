import Nospoon.Config
import Nospoon.Hex
import Nospoon.Library.Machine

/-! The server's event handlers (`server.cpp`) as a machine. The environment is the
DHT and the kernel: it completes handshakes the firewall let through, allocates
duplexes, delivers bytes and reports closes. A duplex lives as long as an entry of
`peers` owns it; destroying it is the end of its callbacks. -/
namespace Nospoon

open Library

structure PeerState where
  duplex : Duplex
  decoder : FrameDecoder
  assignedIp : Text
  pkHex : Text
  deriving DecidableEq, Repr

/-- `std::map<std::string, PeerState>`, keyed by public key in hex. -/
abbrev PeerTable := AList (fun _ : Text => PeerState)

structure ServerCtx where
  routes : RoutingTable
  config : Config
  peers : PeerTable

/-- What the server writes: a packet to the TUN, or bytes to a duplex. -/
inductive Output where
  | tunWrite (pkt : Packet)
  | streamWrite (duplex : Duplex) (bytes : List UInt8)
  deriving DecidableEq, Repr

def sendFramed (duplex : Duplex) (data : Packet) : Output := .streamWrite duplex (frameEncode data)

namespace ServerCtx

/-- The entry that owns a duplex, found by pointer as `on_message` does. -/
def ownerOf (ctx : ServerCtx) (duplex : Duplex) : Option Text :=
  (ctx.peers.entries.find? fun e => e.2.duplex = duplex).map Sigma.fst

/-- The firewall callback: true rejects. Without a peers map everyone may connect. -/
def firewall (ctx : ServerCtx) (remotePk : PublicKey) : Bool :=
  if ctx.config.peers.entries.isEmpty then false
  else (ctx.config.peers.lookup (bytesToHex remotePk.toList)).isNone

def onTunPacket (ctx : ServerCtx) (data : Packet) : List Output :=
  let dest := readDestIp data
  if dest = [] then []
  else match ctx.routes.lookup dest with
    | none => []
    | some stream => [sendFramed stream data]

/-- `setup_peer_stream` once the duplex is allocated. `ctx.peers[pk_hex]` keeps an
existing entry, whose old duplex the assignment destroys; its decoder stays. -/
def setupPeerStream (ctx : ServerCtx) (remotePk : PublicKey) (duplex : Duplex) : ServerCtx :=
  let pkHex := bytesToHex remotePk.toList
  let peerIp := (ctx.config.peers.lookup pkHex).getD []
  let decoder := ((ctx.peers.lookup pkHex).map PeerState.decoder).getD {}
  let peers := ctx.peers.insert pkHex ⟨duplex,decoder,peerIp,pkHex⟩
  let routes := if peerIp = [] then ctx.routes else ctx.routes.add peerIp duplex
  { ctx with routes, peers }

/-- The last part of the frame callback: another peer, or else the TUN. -/
def forward (ctx : ServerCtx) (pkt : Packet) : List Output :=
  let dest := readDestIp pkt
  match if dest = [] then none else ctx.routes.lookup dest with
  | some target => [sendFramed target pkt]
  | none => [.tunWrite pkt]

/-- The callback `on_message` gives to `feed`, for one frame of the peer `ps` stored
under `key` whose stream is `duplex`. -/
def onFrame (ctx : ServerCtx) (key : Text) (ps : PeerState) (duplex : Duplex) (pkt : Packet) :
    ServerCtx × List Output :=
  let src := readSrcIp pkt
  if ps.assignedIp ≠ [] then
    if src ≠ ps.assignedIp then (ctx,[]) else (ctx,ctx.forward pkt)
  else if src ≠ [] then
    if "fe80:".toList <+: src then (ctx,[])
    else if ctx.routes.lookup src = none then
      -- first packet in open mode: the sender's address is learned
      let learned : ServerCtx :=
        { ctx with
          routes := ctx.routes.add src duplex
          peers := ctx.peers.insert key { ps with assignedIp := src } }
      (learned,learned.forward pkt)
    else (ctx,ctx.forward pkt)
  else (ctx,ctx.forward pkt)

end ServerCtx

/-- One frame handed to the callback, with the states around it. -/
structure Handled where
  before : ServerCtx
  key : Text
  duplex : Duplex
  pkt : Packet
  after : ServerCtx
  outputs : List Output

/-- The history of a run: streams opened, bytes received on them, frames handled and
TUN packets answered. -/
inductive Record where
  | opened (duplex : Duplex)
  | received (duplex : Duplex) (data : List UInt8)
  | frame (h : Handled)
  | tun (ctx : ServerCtx) (pkt : Packet) (outputs : List Output)

namespace ServerCtx

/-- The callback on the frames of one `feed`, in order; the peer's state is read
through its entry each time. -/
def onFrames (ctx : ServerCtx) (key : Text) (duplex : Duplex) : List Packet → ServerCtx × List Handled
  | [] => (ctx,[])
  | pkt :: rest =>
    match ctx.peers.lookup key with
    | none => (ctx,[])
    | some ps =>
      let r := ctx.onFrame key ps duplex pkt
      let later := r.1.onFrames key duplex rest
      (later.1,⟨ctx,key,duplex,pkt,r.1,r.2⟩ :: later.2)

def storeDecoder (ctx : ServerCtx) (key : Text) (ps : PeerState) (decoder : FrameDecoder) :
    ServerCtx :=
  { ctx with peers := ctx.peers.insert key { ps with decoder } }

/-- `on_message`: nothing for a stream no entry owns. -/
def onMessage (ctx : ServerCtx) (duplex : Duplex) (data : List UInt8) :
    ServerCtx × List Handled :=
  match ctx.ownerOf duplex with
  | none => (ctx,[])
  | some key =>
    match ctx.peers.lookup key with
    | none => (ctx,[])
    | some ps =>
      let fed := ps.decoder.feed data
      (ctx.storeDecoder key ps fed.decoder).onFrames key duplex fed.frames

/-- `on_close`, with the key its closure captured. -/
def onClose (ctx : ServerCtx) (pkHex : Text) : ServerCtx :=
  match ctx.peers.lookup pkHex with
  | none => ctx
  | some ps =>
    { ctx with
      routes := if ps.assignedIp = [] then ctx.routes else ctx.routes.remove ps.assignedIp
      peers := ctx.peers.erase pkHex }

end ServerCtx

inductive Event where
  | connection (remotePk : PublicKey) (duplex : Duplex)
  | message (duplex : Duplex) (data : List UInt8)
  | close (duplex : Duplex)
  | tunPacket (data : Packet)

/-- The environment: a connection passed the firewall and its duplex is not one that
is still owned; only an owned duplex has callbacks left to fire. -/
def ServerCtx.Enabled (ctx : ServerCtx) : Event → Prop
  | .connection remotePk duplex => ctx.firewall remotePk = false ∧ ctx.ownerOf duplex = none
  | .message duplex _ => ctx.ownerOf duplex ≠ none
  | .close duplex => ctx.ownerOf duplex ≠ none
  | .tunPacket _ => True

instance ServerCtx.decidableEnabled (ctx : ServerCtx) : ∀ e, Decidable (ctx.Enabled e)
  | .connection .. => inferInstanceAs (Decidable (_ ∧ _))
  | .message .. => inferInstanceAs (Decidable (_ ≠ _))
  | .close .. => inferInstanceAs (Decidable (_ ≠ _))
  | .tunPacket _ => isTrue trivial

/-- The closure of `on_close` captured the key under which `setup_peer_stream` stored
the duplex; the duplex never leaves that entry, so it is the owner's key. -/
def ServerCtx.next (ctx : ServerCtx) : Event → ServerCtx
  | .connection remotePk duplex => ctx.setupPeerStream remotePk duplex
  | .message duplex data => (ctx.onMessage duplex data).1
  | .close duplex =>
    match ctx.ownerOf duplex with
    | none => ctx
    | some pkHex => ctx.onClose pkHex
  | .tunPacket _ => ctx

def ServerCtx.emits (ctx : ServerCtx) : Event → List Record
  | .connection _ duplex => [.opened duplex]
  | .message duplex data => .received duplex data :: (ctx.onMessage duplex data).2.map .frame
  | .close _ => []
  | .tunPacket data => [.tun ctx data (ctx.onTunPacket data)]

def server : Machine ServerCtx Event Record := ⟨ServerCtx.Enabled,ServerCtx.next,ServerCtx.emits⟩

instance decidableServer : ∀ s e, Decidable (server.enabled s e) :=
  fun ctx e => inferInstanceAs (Decidable (ctx.Enabled e))

/-- The state in which `run_server` starts to listen. -/
def ServerCtx.initial (config : Config) : ServerCtx := ⟨∅,config,∅⟩

/-- An empty map admits every key, any other only its own. -/
theorem ServerCtx.firewall_eq_false {ctx : ServerCtx} {remotePk : PublicKey} : ctx.firewall remotePk = false ↔
    ctx.config.peers = ∅ ∨ bytesToHex remotePk.toList ∈ ctx.config.peers := by
  rw [ServerCtx.firewall,← AList.lookup_isSome]
  split_ifs with openMode
  · exact iff_of_true rfl (.inl (peers_empty openMode))
  · rw [or_iff_right (peers_ne_empty (Bool.not_eq_true _ ▸ openMode)),← Option.not_isSome,Bool.not_eq_false']

end Nospoon
