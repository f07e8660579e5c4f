import Nospoon.Client
import Nospoon.StreamStart
import Nospoon.Js.Client
import Nospoon.Library.Wiring

/-! The server and its clients on one network, each the C++ or the JavaScript program. A
link is an ordered, reliable byte stream in each direction between one key and the server;
its index is the stream at both ends, and the environment decides when either end learns of
it and in what chunks its bytes are handed over. A key that is not honest runs any program
it likes at its end. -/
namespace Nospoon

open Library

/-- `keepalive_tick` of the client. -/
def ClientCtx.keepaliveTick (ctx : ClientCtx) (established : Bool) : List Effect :=
  if ctx.duplex ∧ established then [.streamWrite frameKeepalive] else []

/-- `keepalive_tick` of the server, on the streams whose handshake is done. -/
def ServerCtx.keepaliveTick (ctx : ServerCtx) (established : List Duplex) : List Output :=
  (ctx.peers.entries.filter fun e => e.2.duplex ∈ established).map fun e =>
    .streamWrite e.2.duplex frameKeepalive

/-- The interval of `startKeepalive` for one connection, cleared with its close. -/
def Js.Server.keepaliveTick (s : Js.Server) (conn : Js.Conn) : List Output :=
  if (s.connections.lookup conn).any fun c => !c.closed && !c.destroyed then [.streamWrite conn Js.keepalive] else []

abbrev Link := Library.Link PublicKey UInt8

/-- Which of the two programs. -/
inductive Implementation where
  | cpp
  | js
  deriving DecidableEq

/-! ### The server -/

inductive ServerProcess where
  | cpp (ctx : ServerCtx)
  | js (s : Js.Server)

def Implementation.serve (config : Config) : Implementation → ServerProcess
  | .cpp => .cpp (.initial config)
  | .js => .js (.initial (some config.peers))

namespace ServerProcess

/-- A new stream of the key can be handed to the server: the firewall lets the key in. -/
def Admits (key : PublicKey) (d : Duplex) : ServerProcess → Prop
  | .cpp ctx => ctx.Enabled (.connection key d)
  | .js s => s.Enabled (.connection d key)

/-- The server still has its end of the stream. -/
def Reads (d : Duplex) : ServerProcess → Prop
  | .cpp ctx => ctx.Enabled (.close d)
  | .js s => s.Enabled (.close d)

/-- A connection object is destroyed some time before its close event; a duplex is not. -/
def Destroys (d : Duplex) : ServerProcess → Prop
  | .cpp _ => False
  | .js s => s.Enabled (.destroy d)

instance (key : PublicKey) (d : Duplex) : ∀ s, Decidable (Admits key d s)
  | .cpp ctx => inferInstanceAs (Decidable (ctx.Enabled (.connection key d)))
  | .js s => inferInstanceAs (Decidable (s.Enabled (.connection d key)))

instance (d : Duplex) : ∀ s, Decidable (Reads d s)
  | .cpp ctx => inferInstanceAs (Decidable (ctx.Enabled (.close d)))
  | .js s => inferInstanceAs (Decidable (s.Enabled (.close d)))

instance (d : Duplex) : ∀ s, Decidable (Destroys d s)
  | .cpp _ => isFalse id
  | .js s => inferInstanceAs (Decidable (s.Enabled (.destroy d)))

def accept (key : PublicKey) (d : Duplex) : ServerProcess → ServerProcess
  | .cpp ctx => .cpp (ctx.next (.connection key d))
  | .js s => .js (s.next (.connection d key))

/-- The stream starts with an empty decoder: always one of its own in JavaScript, in C++
the one that is stored for the key. -/
def cleanStart (key : PublicKey) (d : Duplex) : ServerProcess → Bool
  | .cpp ctx => decide (ctx.ReplacesDrained (.connection key d))
  | .js _ => true

/-- A chunk is received: the packets in it, each with what is written for it. -/
def receive (d : Duplex) (chunk : List UInt8) : ServerProcess → ServerProcess × List (Packet × List Output)
  | .cpp ctx => (.cpp (ctx.onMessage d chunk).1,(ctx.onMessage d chunk).2.map fun h => (h.pkt,h.outputs))
  | .js s => (.js (s.onData d chunk).1,(s.onData d chunk).2.map fun h => (h.packet,h.outputs))

def onTun (data : Packet) : ServerProcess → List Output
  | .cpp ctx => ctx.onTunPacket data
  | .js s => s.onTunData data

def beat (established : List Duplex) : ServerProcess → List Output
  | .cpp ctx => ctx.keepaliveTick established
  | .js s => established.flatMap s.keepaliveTick

def close (d : Duplex) : ServerProcess → ServerProcess
  | .cpp ctx => .cpp (ctx.next (.close d))
  | .js s => .js (s.next (.close d))

def destroy (d : Duplex) : ServerProcess → ServerProcess
  | .cpp ctx => .cpp ctx
  | .js s => .js (s.next (.destroy d))

end ServerProcess

/-! ### The clients -/

/-- A client: in C++ with the link its duplex is an end of, in JavaScript with the link of
each connection it made. -/
inductive ClientProcess where
  | cpp (ctx : ClientCtx) (stream : Option Duplex)
  | js (c : Js.Client) (streams : List Duplex)

/-- What a key's owner runs: `run_client`, or `startClient` in or without full tunnel mode. -/
inductive Program where
  | cpp (config : Config)
  | js (fullTunnel : Bool)

/-- In C++ with its first connect under way, in JavaScript yet to be started. -/
def Program.start : Program → ClientProcess
  | .cpp config => .cpp (.initial config) none
  | .js fullTunnel => .js { fullTunnel } []

/-- Events in which no byte is handed over or read from a TUN. -/
def ClientEvent.Quiet : ClientEvent → Prop
  | .connectResult _ (.error _) | .reconnectTimer | .close | .signal => True
  | .connectResult _ (.connected ..) | .message _ | .tunPacket .. => False

instance : ∀ e : ClientEvent, Decidable e.Quiet
  | .connectResult _ (.error _) | .reconnectTimer | .close | .signal => isTrue trivial
  | .connectResult _ (.connected ..) | .message _ | .tunPacket .. => isFalse id

def Js.ClientEvent.Quiet : Js.ClientEvent → Prop
  | .data .. | .tunData _ => False
  | .opened .. | .destroy _ | .close .. | .timeout _ | .interval _ | .shutdown _ | .exit => True

instance : ∀ e : Js.ClientEvent, Decidable e.Quiet
  | .data .. | .tunData _ => isFalse id
  | .opened .. | .destroy _ | .close .. | .timeout _ | .interval _ | .shutdown _ | .exit => isTrue trivial

namespace ClientProcess

/-- The C++ client can handle the event, and no other can. -/
def Handles (e : ClientEvent) : ClientProcess → Prop
  | .cpp ctx _ => ctx.Enabled e
  | .js .. => False

/-- The JavaScript client can, once it has made its first connection. -/
def Reacts (e : Js.ClientEvent) : ClientProcess → Prop
  | .cpp .. => False
  | .js c _ => c.connections ≠ [] ∧ Js.client.enabled c e

def Unstarted : ClientProcess → Prop
  | .cpp .. => False
  | .js c _ => c.connections = []

/-- The client is handed what comes down the link. -/
def Hears (d : Duplex) : ClientProcess → Prop
  | .cpp _ stream => stream = some d
  | .js c streams => ∃ conn ∈ streams.idxOf? d, Js.client.enabled c (.data conn [])

/-- The process is there to read its TUN. -/
def Runs : ClientProcess → Prop
  | .cpp .. => True
  | .js c _ => c.ended = false

instance (e : ClientEvent) : ∀ p, Decidable (Handles e p)
  | .cpp ctx _ => inferInstanceAs (Decidable (ctx.Enabled e))
  | .js .. => isFalse id

instance (e : Js.ClientEvent) : ∀ p, Decidable (Reacts e p)
  | .cpp .. => isFalse id
  | .js c _ => inferInstanceAs (Decidable (_ ∧ Js.client.enabled c e))

instance : ∀ p, Decidable (Unstarted p)
  | .cpp .. => isFalse id
  | .js c _ => inferInstanceAs (Decidable (c.connections = []))

instance (d : Duplex) : ∀ p, Decidable (Hears d p)
  | .cpp _ stream => inferInstanceAs (Decidable (stream = some d))
  | .js c streams => inferInstanceAs (Decidable (∃ conn ∈ streams.idxOf? d, Js.client.enabled c (.data conn [])))

instance : ∀ p, Decidable (Runs p)
  | .cpp .. => isTrue trivial
  | .js c _ => inferInstanceAs (Decidable (c.ended = false))

end ClientProcess

/-! ### The network -/

structure Network where
  server : ServerProcess
  members : PublicKey → ClientProcess
  links : List Link

/-- What the server writes to its streams goes down their links. -/
def carry (links : List Link) : List Output → List Link
  | [] => links
  | .tunWrite _ :: rest => carry links rest
  | .streamWrite d bytes :: rest => carry (links.modify d fun link => link.writeDown bytes) rest

def Effect.bytes : Effect → List UInt8
  | .streamWrite bytes => bytes
  | _ => []

/-- What a C++ client writes to its duplex goes up its link. -/
def lift (links : List Link) (stream : Option Duplex) (effects : List Effect) : List Link :=
  match stream with
  | none => links
  | some d => links.modify d fun link => link.writeUp (effects.flatMap Effect.bytes)

/-- The effects of a JavaScript client of this key: a connect is a new link, whether or not
the server ever learns of it, and what is written to a connection goes up its link. -/
def Js.wire (key : PublicKey) (links : List Link) (streams : List Duplex) : List Js.ClientEffect → List Link × List Duplex
  | [] => (links,streams)
  | .connect _ :: rest => Js.wire key (links ++ [{ key,attached := true }]) (streams ++ [links.length]) rest
  | .streamWrite conn bytes :: rest =>
    match streams[conn]? with
    | none => Js.wire key links streams rest
    | some d => Js.wire key (links.modify d fun link => link.writeUp bytes) streams rest
  | _ :: rest => Js.wire key links streams rest

inductive NetworkEvent where
  /-- A link comes up that no JavaScript client made. -/
  | opened (key : PublicKey)
  | accepted (d : Duplex)
  | connected (d : Duplex) (generation : Nat) (serverIp : Text) (installs : Bool)
  | client (key : PublicKey) (e : ClientEvent)
  | started (key : PublicKey)
  | script (key : PublicKey) (e : Js.ClientEvent)
  | clientTun (key : PublicKey) (established : Bool) (data : Packet)
  | clientKeepalive (key : PublicKey) (established : Bool)
  | up (d : Duplex) (n : Nat)
  | down (d : Duplex) (n : Nat)
  | serverTun (data : Packet)
  | serverKeepalive (established : List Duplex)
  | serverClose (d : Duplex)
  | serverDestroy (d : Duplex)
  | inject (d : Duplex) (bytes : List UInt8)

/-- What is read from a TUN device: one packet of at most the length the header can tell. -/
def Sized (data : Packet) : Prop := 1 ≤ data.length ∧ data.length ≤ maxFrameSize

instance (data : Packet) : Decidable (Sized data) := inferInstanceAs (Decidable (_ ∧ _))

/-- The most that is handed over at once of what an honest end wrote; a datagram carries far less. -/
def maxChunk : Nat := 196606

namespace Network

/-- The environment. Each end learns of a link at most once, the server through its
firewall; only honest members run the client. -/
def Enabled (honest : PublicKey → Bool) (net : Network) : NetworkEvent → Prop
  | .opened _ => True
  | .accepted d => ∃ link ∈ net.links[d]?, link.accepted = false ∧ net.server.Admits link.key d
  | .connected d generation serverIp installs =>
    ∃ link ∈ net.links[d]?, honest link.key = true ∧ link.attached = false ∧
      (net.members link.key).Handles (.connectResult generation (.connected serverIp installs))
  | .client key e => honest key = true ∧ e.Quiet ∧ (net.members key).Handles e
  | .started key => honest key = true ∧ (net.members key).Unstarted
  | .script key e => honest key = true ∧ e.Quiet ∧ (net.members key).Reacts e
  | .clientTun key _ data => honest key = true ∧ (net.members key).Runs ∧ Sized data
  | .clientKeepalive key _ => honest key = true
  | .up d n => net.server.Reads d ∧ ∀ link ∈ net.links[d]?, honest link.key = true → n ≤ maxChunk
  | .down d n => (∃ link ∈ net.links[d]?, (net.members link.key).Hears d) ∧ n ≤ maxChunk
  | .serverTun data => Sized data
  | .serverKeepalive _ => True
  | .serverClose d => net.server.Reads d
  | .serverDestroy d => net.server.Destroys d
  | .inject d _ => ∃ link ∈ net.links[d]?, honest link.key = false

instance (honest : PublicKey → Bool) (net : Network) : ∀ e, Decidable (net.Enabled honest e)
  | .opened _ | .serverKeepalive _ => isTrue trivial
  | .accepted _ | .connected .. | .inject .. => inferInstanceAs (Decidable (∃ link ∈ _, _))
  | .client .. | .started _ | .script .. | .clientTun .. | .up .. | .down .. => inferInstanceAs (Decidable (_ ∧ _))
  | .clientKeepalive .. => inferInstanceAs (Decidable (_ = _))
  | .serverTun data => inferInstanceAs (Decidable (Sized data))
  | .serverClose d => inferInstanceAs (Decidable (net.server.Reads d))
  | .serverDestroy d => inferInstanceAs (Decidable (net.server.Destroys d))

/-- The chunk that a reader is handed. -/
def chunkUp (net : Network) (d : Duplex) (n : Nat) : List UInt8 := ((net.links[d]?.map Link.up).getD []).take n
def chunkDown (net : Network) (d : Duplex) (n : Nat) : List UInt8 := ((net.links[d]?.map Link.down).getD []).take n

def update (net : Network) (key : PublicKey) (p : ClientProcess) (links : List Link) : Network :=
  { net with members := Function.update net.members key p,links }

/-- A C++ client's handler runs: it may write to its link, and where it ends the duplex it
ends its part in the link. -/
def handle (net : Network) (key : PublicKey) (e : ClientEvent) : Network :=
  match net.members key with
  | .js .. => net
  | .cpp ctx stream =>
    let r := ctx.handle e
    net.update key (.cpp r.1 (if r.1.duplex then stream else none)) (lift net.links stream r.2)

/-- A JavaScript client's handler runs. -/
def react (net : Network) (key : PublicKey) (r : Js.Client → Js.Client × List Js.ClientEffect) : Network :=
  match net.members key with
  | .cpp .. => net
  | .js c streams =>
    let wired := Js.wire key net.links streams (r c).2
    net.update key (.js (r c).1 wired.2) wired.1

/-- The client of a link's key is handed a chunk. -/
def hear (net : Network) (key : PublicKey) (d : Duplex) (chunk : List UInt8) : Network :=
  match net.members key with
  | .cpp .. => net.handle key (.message chunk)
  | .js _ streams =>
    match streams.idxOf? d with
    | none => net
    | some conn => net.react key fun c => c.react (.data conn chunk)

def next (net : Network) : NetworkEvent → Network
  | .opened key => { net with links := net.links ++ [{ key }] }
  | .accepted d =>
    match net.links[d]? with
    | none => net
    | some link =>
      { net with
        server := net.server.accept link.key d
        links := net.links.modify d (Library.Link.accept (net.server.cleanStart link.key d)) }
  | .connected d generation serverIp installs =>
    match net.links[d]? with
    | none => net
    | some link =>
      match net.members link.key with
      | .js .. => net
      | .cpp ctx stream =>
        -- a stale result leaves the client's stream alone
        net.update link.key
          (.cpp (ctx.handle (.connectResult generation (.connected serverIp installs))).1
            (if generation = ctx.dhtGeneration then some d else stream))
          (net.links.modify d Library.Link.attach)
  | .client key e => net.handle key e
  | .started key => net.react key Js.Client.connect
  | .script key e => net.react key fun c => c.react e
  | .clientTun key established data =>
    match net.members key with
    | .cpp .. => net.handle key (.tunPacket established data)
    | .js .. => net.react key fun c => c.react (.tunData data)
  | .clientKeepalive key established =>
    match net.members key with
    | .js .. => net
    | .cpp ctx stream => { net with links := lift net.links stream (ctx.keepaliveTick established) }
  | .up d n =>
    let r := net.server.receive d (net.chunkUp d n)
    { net with
      server := r.1
      links := carry (net.links.modify d (Library.Link.readUp n)) (r.2.flatMap Prod.snd) }
  | .down d n =>
    match net.links[d]? with
    | none => net
    | some link =>
      let net' := net.hear link.key d (net.chunkDown d n)
      { net' with links := net'.links.modify d (Library.Link.readDown n) }
  | .serverTun data => { net with links := carry net.links (net.server.onTun data) }
  | .serverKeepalive established => { net with links := carry net.links (net.server.beat established) }
  | .serverClose d => { net with server := net.server.close d }
  | .serverDestroy d => { net with server := net.server.destroy d }
  | .inject d bytes => { net with links := net.links.modify d fun link => link.writeUp bytes }

end Network

/-- What is watched of a packet the server handles. -/
def Output.seen (origin : Duplex) (pkt : Packet) : Output → Seen Packet
  | .tunWrite _ => .out origin pkt
  | .streamWrite e _ => .put e (some origin) pkt

/-- What is watched of a packet from the server's own TUN. -/
def Output.issued (pkt : Packet) : Output → List (Seen Packet)
  | .tunWrite _ => []
  | .streamWrite e _ => [.put e none pkt]

def Effect.seen (d : Duplex) : Effect → List (Seen Packet)
  | .tunWrite pkt => [.arrived d pkt]
  | _ => []

def Js.ClientEffect.seen (d : Duplex) : Js.ClientEffect → List (Seen Packet)
  | .tunWrite pkt => [.arrived d pkt]
  | _ => []

/-- What is watched of a packet from a JavaScript client's TUN. -/
def Js.ClientEffect.sent (streams : List Duplex) (pkt : Packet) : Js.ClientEffect → List (Seen Packet)
  | .streamWrite conn _ => streams[conn]?.toList.map fun d => .sent d pkt
  | _ => []

namespace Network

def emits (net : Network) : NetworkEvent → List (Seen Packet)
  | .clientTun key established data =>
    match net.members key with
    | .cpp ctx stream => stream.toList.flatMap fun d => (ctx.onTunPacket established data).2.map fun _ => .sent d data
    | .js c streams => (c.onTunData data).flatMap (Js.ClientEffect.sent streams data)
  | .up d n => (net.server.receive d (net.chunkUp d n)).2.flatMap fun h => .took d h.1 :: h.2.map (Output.seen d h.1)
  | .down d n =>
    match net.links[d]? with
    | none => []
    | some link =>
      match net.members link.key with
      | .cpp ctx _ => (ctx.handle (.message (net.chunkDown d n))).2.flatMap (Effect.seen d)
      | .js c streams => (streams.idxOf? d).toList.flatMap fun conn =>
        (c.react (.data conn (net.chunkDown d n))).2.flatMap (Js.ClientEffect.seen d)
  | .serverTun data => .issued data :: (net.server.onTun data).flatMap (Output.issued data)
  | .opened _ | .accepted _ | .connected .. | .client .. | .started _ | .script .. | .clientKeepalive .. |
    .serverKeepalive _ | .serverClose _ | .serverDestroy _ | .inject .. => []

/-- The server listens, the clients are at their start, no link is up. -/
def initial (which : Implementation) (config : Config) (programs : PublicKey → Program) : Network :=
  ⟨which.serve config,fun key => (programs key).start,[]⟩

end Network

def network (honest : PublicKey → Bool) : Machine Network NetworkEvent (Seen Packet) :=
  ⟨Network.Enabled honest,Network.next,Network.emits⟩

instance decidableNetwork (honest : PublicKey → Bool) : ∀ s e, Decidable ((network honest).enabled s e) :=
  fun net e => inferInstanceAs (Decidable (net.Enabled honest e))

end Nospoon
