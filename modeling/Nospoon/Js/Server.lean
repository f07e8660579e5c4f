import Nospoon.Js.Wire
import Nospoon.Server

/-! The JavaScript server's handlers (`server.js`) as a machine. A connection is an
object: destroying it and its close event are two separate moments, and its captured
`clientIp` and decoder buffer live on until nothing refers to it. -/
namespace Nospoon.Js

open Library

/-- A connection object, by identity. -/
abbrev Conn := Nat

/-- The `routes` map of `createRouter`. -/
abbrev Router := RoutingTable

def Router.getByIp (router : Router) (ip : Text) : Option Conn := RoutingTable.lookup router ip

/-- A connection with what its handler's closures captured. -/
structure Connection where
  remotePublicKey : PublicKey
  clientIp : Option Text
  buffer : List UInt8 := []
  destroyed : Bool := false
  closed : Bool := false
  deriving DecidableEq

structure Server where
  allowedPeers : Option PeersMap
  router : Router
  connections : AList (fun _ : Conn => Connection)

/-- `if (ip)`: neither `null` nor the empty string. -/
def truthy : Option Text → Option Text
  | some [] => none
  | ip => ip

theorem truthy_some (h : ip ≠ []) : truthy (some ip) = some ip := by
  cases ip with
  | nil => exact absurd rfl h
  | cons a ip => rfl

/-- One packet handed to the decoder's callback. -/
structure Handled where
  before : Server
  conn : Conn
  packet : Packet
  learned : Option Text
  after : Server
  outputs : List Output

inductive Record where
  | opened (conn : Conn) (clientIp : Option Text)
  | packet (h : Handled)
  | tun (before : Server) (packet : Packet) (outputs : List Output)

namespace Server

def firewall (s : Server) (remotePublicKey : PublicKey) : Bool :=
  match s.allowedPeers with
  | none => false
  | some peers => (peers.lookup (bytesToHex remotePublicKey.toList)).isNone

/-- The address captured for a key; the firewall let the key in, so in authenticated
mode `get` finds it. -/
def givenIp (s : Server) (remotePublicKey : PublicKey) : Option Text :=
  s.allowedPeers.bind fun peers => peers.lookup (bytesToHex remotePublicKey.toList)

def onConnection (s : Server) (conn : Conn) (remotePublicKey : PublicKey) : Server :=
  let clientIp := s.givenIp remotePublicKey
  { s with
    router := match truthy clientIp with
      | some ip => s.router.add ip conn
      | none => s.router
    connections := s.connections.insert conn { remotePublicKey, clientIp } }

/-- `!connection.destroyed`. -/
def alive (s : Server) (conn : Conn) : Bool := (s.connections.lookup conn).any fun c => !c.destroyed

/-- The connection a destination is forwarded to, unless it is destroyed. -/
def target (s : Server) (destIp : Option Text) : Option Conn :=
  (destIp.bind s.router.getByIp).filter fun conn => s.alive conn

def deliver (s : Server) (packet : Packet) : List Output :=
  match s.target (readDestinationIp packet) with
  | some peerConn => [.streamWrite peerConn (encode packet)]
  | none => [.tunWrite packet]

/-- The callback of `createDecoder` for the connection `conn` with fields `c`. -/
def onPacket (s : Server) (conn : Conn) (c : Connection) (packet : Packet) : Handled :=
  let drop : Handled := ⟨s,conn,packet,none,s,[]⟩
  let pass : Handled := ⟨s,conn,packet,none,s,s.deliver packet⟩
  let srcIp := readSourceIp packet
  match s.allowedPeers with
  | some _ => if srcIp ≠ c.clientIp then drop else pass
  | none =>
    match truthy c.clientIp, srcIp with
    | none, some src =>
      if "fe80:".toList <+: src then drop
      else if (s.router.getByIp src).any s.alive then drop
      else
        let learned : Server :=
          { s with
            router := s.router.add src conn
            connections := s.connections.insert conn { c with clientIp := some src } }
        ⟨s,conn,packet,some src,learned,learned.deliver packet⟩
    -- a packet without a source passes while nothing has been learned
    | none, none => pass
    | some ip, _ => if srcIp ≠ some ip then drop else pass

/-- The packets of one chunk, in order; the closure variable is read anew each time. -/
def onPackets (s : Server) (conn : Conn) : List Packet → Server × List Handled
  | [] => (s,[])
  | packet :: rest =>
    match s.connections.lookup conn with
    | none => (s,[])
    | some c =>
      let h := s.onPacket conn c packet
      let later := h.after.onPackets conn rest
      (later.1,h :: later.2)

def onData (s : Server) (conn : Conn) (data : List UInt8) : Server × List Handled :=
  match s.connections.lookup conn with
  | none => (s,[])
  | some c =>
    let pushed := push c.buffer data
    Server.onPackets
      { s with connections := s.connections.insert conn { c with buffer := pushed.1 } } conn pushed.2.1

def onDestroy (s : Server) (conn : Conn) : Server :=
  match s.connections.lookup conn with
  | none => s
  | some c => { s with connections := s.connections.insert conn { c with destroyed := true } }

/-- The close handler removes the address, whichever connection it leads to. -/
def onClose (s : Server) (conn : Conn) : Server :=
  match s.connections.lookup conn with
  | none => s
  | some c =>
    { s with
      router := match truthy c.clientIp with
        | some ip => s.router.remove ip
        | none => s.router
      connections := s.connections.insert conn { c with destroyed := true,closed := true } }

/-- `tun.on('data')`. -/
def onTunData (s : Server) (packet : Packet) : List Output :=
  match s.target (readDestinationIp packet) with
  | some connection => [.streamWrite connection (encode packet)]
  | none => []

end Server

inductive Event where
  | connection (conn : Conn) (remotePublicKey : PublicKey)
  | data (conn : Conn) (chunk : List UInt8)
  | destroy (conn : Conn)
  | close (conn : Conn)
  | tunData (packet : Packet)

def Server.Open (s : Server) (conn : Conn) : Prop :=
  ∃ c ∈ s.connections.lookup conn, c.closed = false

/-- The environment: a connection is a new object that passed the firewall, and nothing
happens to it after its close event. -/
def Server.Enabled (s : Server) : Event → Prop
  | .connection conn remotePublicKey =>
    s.firewall remotePublicKey = false ∧ s.connections.lookup conn = none
  | .data conn _ => s.Open conn
  | .destroy conn => s.Open conn
  | .close conn => s.Open conn
  | .tunData _ => True

instance Server.decidableOpen (s : Server) (conn : Conn) : Decidable (s.Open conn) :=
  decidable_of_iff ((s.connections.lookup conn).any (fun c => !c.closed) = true) (by
    cases h : s.connections.lookup conn <;> simp [Server.Open,h])

instance Server.decidableEnabled (s : Server) : ∀ e, Decidable (s.Enabled e)
  | .connection .. => inferInstanceAs (Decidable (_ ∧ _))
  | .data conn _ | .destroy conn | .close conn => inferInstanceAs (Decidable (s.Open conn))
  | .tunData _ => isTrue trivial

def Server.next (s : Server) : Event → Server
  | .connection conn remotePublicKey => s.onConnection conn remotePublicKey
  | .data conn chunk => (s.onData conn chunk).1
  | .destroy conn => s.onDestroy conn
  | .close conn => s.onClose conn
  | .tunData _ => s

def Server.emits (s : Server) : Event → List Record
  | .connection conn remotePublicKey => [.opened conn (s.givenIp remotePublicKey)]
  | .data conn chunk => (s.onData conn chunk).2.map .packet
  | .destroy _ | .close _ => []
  | .tunData packet => [.tun s packet (s.onTunData packet)]

def server : Machine Server Event Record := ⟨Server.Enabled,Server.next,Server.emits⟩

instance decidableServer : ∀ s e, Decidable (server.enabled s e) :=
  fun s e => inferInstanceAs (Decidable (s.Enabled e))

def Server.initial (allowedPeers : Option PeersMap) : Server := ⟨allowedPeers,∅,∅⟩

/-- In authenticated mode a packet changes nothing and passes when it has its sender's source. -/
theorem Server.onPacket_authenticated {s : Server} (loaded : s.allowedPeers = some peers) (conn : Conn)
    (c : Connection) (packet : Packet) :
    (s.onPacket conn c packet).after = s ∧
    (s.onPacket conn c packet).outputs = if readSourceIp packet = c.clientIp then s.deliver packet else [] := by
  by_cases same : readSourceIp packet = c.clientIp <;> simp [Server.onPacket,loaded,same]

theorem Server.onPackets_authenticated {s : Server} (loaded : s.allowedPeers = some peers)
    (found : s.connections.lookup conn = some c) (packets : List Packet) :
    (s.onPackets conn packets).1 = s ∧
    (s.onPackets conn packets).2.flatMap Handled.outputs =
      packets.flatMap fun packet => if readSourceIp packet = c.clientIp then s.deliver packet else [] := by
  induction packets with
  | nil => exact ⟨rfl,rfl⟩
  | cons packet packets ih =>
    obtain ⟨after,out⟩ := Server.onPacket_authenticated loaded conn c packet
    simp only [Server.onPackets,found,after,List.flatMap_cons,out,ih,and_self]

end Nospoon.Js
