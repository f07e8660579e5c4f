import Nospoon.Js.Admission
import Nospoon.Js.SourceControl

/-! Addresses by value in authenticated mode. The router and the source check compare
the text of the configuration with the text printed from a packet; a client is served
by value when the two spellings coincide and its route leads to a live connection. -/
namespace Nospoon.Js

open Library

/-- The address bytes of a complete header, at the offset of its version. -/
def addressBytes (v4 v6 : Nat) (packet : Packet) : Option Address :=
  if readIpVersion packet = some 4 ∧ 20 ≤ packet.length then some ((packet.drop v4).take 4)
  else if readIpVersion packet = some 6 ∧ 40 ≤ packet.length then some ((packet.drop v6).take 16)
  else none

def sourceBytes : Packet → Option Address := addressBytes 12 8
def destinationBytes : Packet → Option Address := addressBytes 16 24

/-- The text either formatter prints for an address. -/
def formatAddress (bytes : Address) : Text :=
  if bytes.length = 4 then formatIpv4 bytes 0 else formatIpv6 bytes 0

theorem formatIpv6_slice (packet : Packet) (a : Nat) :
    formatIpv6 ((packet.drop a).take 16) 0 = formatIpv6 packet a := by
  simp only [formatIpv6,ipv6Groups_slice]

/-- A reader prints the bytes of the address. -/
theorem readIp_eq (v4 v6 : Nat) (packet : Packet) (low : v4 + 4 ≤ 20) (high : v6 + 16 ≤ 40) :
    readIp v4 v6 packet = (addressBytes v4 v6 packet).map formatAddress := by
  cases packet with
  | nil => rfl
  | cons first rest =>
    have version : readIpVersion (first :: rest) = some (first >>> 4 &&& 0x0f) := rfl
    simp only [readIp,addressBytes,version,Option.some.injEq]
    split_ifs with four six
    · have sized : ((List.drop v4 (first :: rest)).take 4).length = 4 := by
        rw [List.length_take,List.length_drop]
        omega
      rw [Option.map_some,formatAddress,if_pos sized,formatIpv4_slice]
    · have sized : ((List.drop v6 (first :: rest)).take 16).length ≠ 4 := by
        rw [List.length_take,List.length_drop]
        omega
      rw [Option.map_some,formatAddress,if_neg sized,formatIpv6_slice]
    · rfl

theorem readSourceIp_eq (packet : Packet) : readSourceIp packet = (sourceBytes packet).map formatAddress :=
  readIp_eq 12 8 packet (by decide) (by decide)

theorem readDestinationIp_eq (packet : Packet) :
    readDestinationIp packet = (destinationBytes packet).map formatAddress :=
  readIp_eq 16 24 packet (by decide) (by decide)

/-- An IPv6 header around the two addresses. -/
def ipv6Packet (src dst : List UInt8) : Packet := 0x60 :: List.replicate 7 0 ++ src ++ dst

theorem ipv4Packet_bytes (sized : List.length bytes = 4) :
    sourceBytes (ipv4Packet bytes bytes) = some bytes ∧ destinationBytes (ipv4Packet bytes bytes) = some bytes := by
  have version (rest : List UInt8) : readIpVersion (0x45 :: rest) = some 4 := rfl
  constructor
  all_goals simp [sourceBytes,destinationBytes,addressBytes,version,ipv4Packet,sized,List.drop_append]

theorem ipv6Packet_bytes (sized : List.length bytes = 16) :
    sourceBytes (ipv6Packet bytes bytes) = some bytes ∧ destinationBytes (ipv6Packet bytes bytes) = some bytes := by
  have version (rest : List UInt8) : readIpVersion (0x60 :: rest) = some 6 := rfl
  constructor
  all_goals simp [sourceBytes,destinationBytes,addressBytes,version,ipv6Packet,sized,List.drop_append]

/-- Every address occurs as a source and as a destination. -/
theorem exists_packet (valid : parseIp ip = some bytes) :
    ∃ packet, sourceBytes packet = some bytes ∧ destinationBytes packet = some bytes := by
  rcases parseIp_eq_some.mp valid with ⟨sized,-⟩ | ⟨sized,-⟩
  · exact ⟨_,ipv4Packet_bytes sized⟩
  · exact ⟨_,ipv6Packet_bytes sized⟩

namespace Server

/-- Every listed client that is connected is served by value: on each of its live
connections a packet from its address is forwarded, and a TUN packet to its address goes
out on a live connection of the client. -/
def MatchesByValue (peers : PeersMap) (s : Server) : Prop :=
  ∀ e ∈ peers.entries, ∀ key bytes, hexToBytes e.1 = some key → parseIp e.2 = some bytes →
    ∀ conn c, s.live conn = some c → c.remotePublicKey = key →
      (∀ packet, sourceBytes packet = some bytes → (s.onPacket conn c packet).outputs = s.deliver packet) ∧
      ∀ packet, destinationBytes packet = some bytes →
        ∃ peerConn c', s.live peerConn = some c' ∧ c'.remotePublicKey = key ∧
          s.onTunData packet = [.streamWrite peerConn (encode packet)]

/-- Each address listed for a key, under whatever spelling of the key, is the address the
key is given, printed. -/
def Spelled (peers : PeersMap) (key : PublicKey) : Prop :=
  ∀ e ∈ peers.entries, hexToBytes e.1 = some key → ∀ bytes ∈ parseIp e.2,
    peers.lookup (bytesToHex key.toList) = some (formatAddress bytes)

/-- What an authenticated server keeps. -/
structure ByValueInvariant (peers : PeersMap) (s : Server) : Prop where
  loaded : s.allowedPeers = some peers
  given : ∀ conn c, s.connections.lookup conn = some c →
    c.clientIp = peers.lookup (bytesToHex c.remotePublicKey.toList) ∧ c.clientIp ≠ none
  routed : ∀ ip conn, s.router.getByIp ip = some conn →
    ∃ c, s.connections.lookup conn = some c ∧ c.clientIp = some ip
  gone : ∀ conn c, s.connections.lookup conn = some c → c.closed = true → c.destroyed = true

/-- The same property, read off the state: spellings and routes. -/
def Reaches (peers : PeersMap) (s : Server) : Prop :=
  ∀ conn c, s.live conn = some c → Spelled peers c.remotePublicKey ∧
    ∃ ip peerConn, c.clientIp = some ip ∧ s.router.getByIp ip = some peerConn ∧ s.Live peerConn

end Server

section State

variable {peers : PeersMap} {s : Server} {conn conn' : Conn} {c c' : Connection}

theorem Server.live_found (live : s.live conn = some c) :
    s.connections.lookup conn = some c ∧ c.destroyed = false ∧ c.closed = false := by
  simpa [Server.live,Option.filter_eq_some_iff] using live

theorem onTunData_eq (s : Server) (packet : Packet) (dest : readDestinationIp packet = some ip)
    (route : s.router.getByIp ip = some conn) (alive : s.alive conn = true) :
    s.onTunData packet = [.streamWrite conn (encode packet)] := by
  simp [Server.onTunData,Server.target,dest,route,alive,Option.filter]

theorem matchesByValue_iff (valid : Validated peers) (inv : s.ByValueInvariant peers) :
    s.MatchesByValue peers ↔ s.Reaches peers := by
  constructor
  · intro holds conn c live
    obtain ⟨found,-⟩ := Server.live_found live
    obtain ⟨given,some⟩ := inv.given conn c found
    obtain ⟨ip,own⟩ := Option.ne_none_iff_exists'.mp some
    -- every address listed for the key passes the source check, so it is the given one
    have spelled : Server.Spelled peers c.remotePublicKey := by
      intro e member named bytes denotes
      obtain ⟨packet,source,-⟩ := exists_packet denotes
      have passes := (holds e member _ bytes named denotes conn c live rfl).1 packet source
      rw [(Server.onPacket_authenticated inv.loaded conn c packet).2,readSourceIp_eq,source,Option.map_some] at passes
      rw [← given]
      by_contra differs
      rw [if_neg fun same => differs same.symm] at passes
      exact s.deliver_ne_nil packet passes.symm
    refine ⟨spelled,ip,?_⟩
    have listed : (⟨_,ip⟩ : Sigma fun _ : Text => Text) ∈ peers.entries :=
      AList.mem_lookup_iff.mp (given.symm.trans own)
    obtain ⟨bytes,denotes⟩ := Option.isSome_iff_exists.mp (valid.valid _ listed)
    have printed := spelled _ listed (hexToBytes_bytesToHex _) bytes denotes
    rw [← given,own,Option.some.injEq] at printed
    obtain ⟨packet,-,destination⟩ := exists_packet denotes
    obtain ⟨peerConn,c',live',-,out⟩ :=
      (holds _ listed _ bytes (hexToBytes_bytesToHex _) denotes conn c live rfl).2 packet destination
    refine ⟨peerConn,own,?_,by simp [Server.Live,live']⟩
    rw [Server.onTunData,Server.target,readDestinationIp_eq,destination,Option.map_some,← printed,Option.bind_some] at out
    cases route : s.router.getByIp ip with
    | none => simp [route] at out
    | some target =>
      by_cases alive : s.alive target = true
      · simp [route,alive,Option.filter] at out
        rw [out]
      · simp [route,alive,Option.filter] at out
  · intro reaches e member key bytes named denotes conn c live sameKey
    subst sameKey
    obtain ⟨found,-⟩ := Server.live_found live
    obtain ⟨given,-⟩ := inv.given conn c found
    obtain ⟨spelled,ip,peerConn,own,route,up⟩ := reaches conn c live
    have printed := spelled e member named bytes denotes
    rw [← given,own,Option.some.injEq] at printed
    constructor
    · intro packet source
      rw [(Server.onPacket_authenticated inv.loaded conn c packet).2,readSourceIp_eq,source,own,printed,
        Option.map_some,if_pos rfl]
    · intro packet destination
      obtain ⟨c',live'⟩ := Option.ne_none_iff_exists'.mp up
      obtain ⟨found',-⟩ := Server.live_found live'
      obtain ⟨c'',found'',same⟩ := inv.routed ip peerConn route
      obtain rfl : c'' = c' := Option.some.inj (found''.symm.trans found')
      refine ⟨peerConn,c'',live',?_,onTunData_eq s packet ?_ route up.alive⟩
      · apply bytesToHex_injective
        apply valid.same_key
        · exact (inv.given peerConn c'' found').1.symm.trans same
        · exact given.symm.trans own
      · rw [readDestinationIp_eq,destination,Option.map_some,printed]

/-! ### Steps -/

/-- No live connection of the key but this one. -/
def Server.Alone (s : Server) (conn : Conn) (key : PublicKey) : Prop :=
  ∀ conn' ∈ s.connections.keys, ∀ c' ∈ s.live conn', c'.remotePublicKey = key → conn' = conn

/-- A connecting key is listed by the printed spelling of its address; a connection closes,
or is destroyed while its address leads to it, as the last live one of its key. -/
def KeepsReach (peers : PeersMap) (s : Server) : Event → Prop
  | .connection _ key => Server.Spelled peers key
  | .destroy conn => ∀ c ∈ s.connections.lookup conn, ∀ ip ∈ c.clientIp, s.router.getByIp ip = some conn →
      s.Alone conn c.remotePublicKey
  | .close conn => ∀ c ∈ s.connections.lookup conn, s.Alone conn c.remotePublicKey
  | .data .. | .tunData _ => True

instance (s : Server) (conn : Conn) (key : PublicKey) : Decidable (s.Alone conn key) :=
  inferInstanceAs (Decidable (∀ conn' ∈ s.connections.keys, ∀ c' ∈ s.live conn', c'.remotePublicKey = key → conn' = conn))

instance (peers : PeersMap) (key : PublicKey) : Decidable (Server.Spelled peers key) :=
  inferInstanceAs (Decidable (∀ e ∈ peers.entries, hexToBytes e.1 = some key → ∀ bytes ∈ parseIp e.2,
    peers.lookup (bytesToHex key.toList) = some (formatAddress bytes)))

instance (peers : PeersMap) (s : Server) : ∀ e, Decidable (KeepsReach peers s e)
  | .connection _ key => inferInstanceAs (Decidable (Server.Spelled peers key))
  | .destroy conn => inferInstanceAs (Decidable (∀ c ∈ s.connections.lookup conn, ∀ ip ∈ c.clientIp,
      s.router.getByIp ip = some conn → s.Alone conn c.remotePublicKey))
  | .close conn => inferInstanceAs (Decidable (∀ c ∈ s.connections.lookup conn, s.Alone conn c.remotePublicKey))
  | .data .. | .tunData _ => isTrue trivial

theorem Server.Alone.only (alone : s.Alone conn key) (live : s.live conn' = some c') (same : c'.remotePublicKey = key) :
    conn' = conn := by
  refine alone conn' ?_ c' live same
  exact AList.mem_keys.mp (AList.lookup_isSome.mp (by rw [(Server.live_found live).1]; rfl))

/-- Storing a connection with its key's address, and routing only such addresses to it. -/
theorem Server.ByValueInvariant.store (inv : s.ByValueInvariant peers) (conn : Conn) (c : Connection)
    (given : c.clientIp = peers.lookup (bytesToHex c.remotePublicKey.toList) ∧ c.clientIp ≠ none)
    (gone : c.closed = true → c.destroyed = true) (router : Router)
    (routed : ∀ ip target, router.getByIp ip = some target →
      if target = conn then c.clientIp = some ip else s.router.getByIp ip = some target) :
    Server.ByValueInvariant peers { s with router,connections := s.connections.insert conn c } where
  loaded := inv.loaded
  given conn' c' found := by
    by_cases here : conn' = conn
    · subst here
      rw [AList.lookup_insert,Option.some.injEq] at found
      exact found ▸ given
    · rw [AList.lookup_insert_ne here] at found
      exact inv.given conn' c' found
  routed ip target route := by
    have leads := routed ip target route
    by_cases here : target = conn
    · subst here
      rw [if_pos rfl] at leads
      exact ⟨c,AList.lookup_insert _,leads⟩
    · rw [if_neg here] at leads
      obtain ⟨c',found,held⟩ := inv.routed ip target leads
      exact ⟨c',(AList.lookup_insert_ne here).trans found,held⟩
  gone conn' c' found := by
    by_cases here : conn' = conn
    · subst here
      rw [AList.lookup_insert,Option.some.injEq] at found
      exact found ▸ gone
    · rw [AList.lookup_insert_ne here] at found
      exact inv.gone conn' c' found

/-- A stored connection that keeps its address keeps its routes. -/
theorem Server.ByValueInvariant.keeps (inv : s.ByValueInvariant peers) (found : s.connections.lookup conn = some c)
    (same : c'.clientIp = c.clientIp) (ip : Text) (target : Conn) (route : s.router.getByIp ip = some target) :
    if target = conn then c'.clientIp = some ip else s.router.getByIp ip = some target := by
  split_ifs with here
  · subst here
    obtain ⟨c'',found',held⟩ := inv.routed ip target route
    rw [found,Option.some.injEq] at found'
    rw [same,found',held]
  · exact route

/-- Two connections with one address belong to one key. -/
theorem Server.ByValueInvariant.key (inv : s.ByValueInvariant peers) (valid : Validated peers)
    (first : s.connections.lookup conn = some c) (second : s.connections.lookup conn' = some c')
    (held : c.clientIp = some ip) (held' : c'.clientIp = some ip) : c.remotePublicKey = c'.remotePublicKey := by
  apply bytesToHex_injective
  apply valid.same_key
  · exact (inv.given conn c first).1.symm.trans held
  · exact (inv.given conn' c' second).1.symm.trans held'

theorem data_reaches (inv : s.ByValueInvariant peers) (reaches : s.Reaches peers)
    (found : s.connections.lookup conn = some c) (chunk : List UInt8) :
    (s.onData conn chunk).1.ByValueInvariant peers ∧ (s.onData conn chunk).1.Reaches peers := by
  have data : (s.onData conn chunk).1 =
      { s with connections := s.connections.insert conn { c with buffer := (push c.buffer chunk).1 } } := by
    have loaded : Server.allowedPeers { s with
      connections := s.connections.insert conn { c with buffer := (push c.buffer chunk).1 } } = some peers := inv.loaded
    simp only [Server.onData,found]
    exact (Server.onPackets_authenticated loaded (AList.lookup_insert _) _).1
  rw [data]
  constructor
  · exact inv.store conn { c with buffer := (push c.buffer chunk).1 } (inv.given conn c found)
      (inv.gone conn c found) _ (inv.keeps found rfl)
  -- only the buffer of one connection differs
  have live (other : Conn) : (Server.live { s with
      connections := s.connections.insert conn { c with buffer := (push c.buffer chunk).1 } } other).map
        (fun c => (c.remotePublicKey,c.clientIp)) = (s.live other).map fun c => (c.remotePublicKey,c.clientIp) := by
    rw [Server.live_insert]
    split_ifs with here
    · subst here
      cases up : !c.destroyed && !c.closed <;> simp [Server.live,found,Option.filter,up]
    · rfl
  intro other c' up
  have same := live other
  rw [up,Option.map_some,eq_comm,Option.map_eq_some_iff] at same
  obtain ⟨c₀,up₀,fields⟩ := same
  obtain ⟨key,ip⟩ := Prod.mk.inj fields
  obtain ⟨spelled,a,target,held,route,there⟩ := reaches other c₀ up₀
  refine ⟨key ▸ spelled,a,target,ip ▸ held,route,?_⟩
  intro dead
  have still := live target
  rw [dead,Option.map_none,eq_comm,Option.map_eq_none_iff] at still
  exact there still

theorem destroy_reaches_iff (valid : Validated peers) (inv : s.ByValueInvariant peers) (reaches : s.Reaches peers)
    (found : s.connections.lookup conn = some c) :
    (s.onDestroy conn).ByValueInvariant peers ∧
      ((s.onDestroy conn).Reaches peers ↔ KeepsReach peers s (.destroy conn)) := by
  have after : s.onDestroy conn =
      { s with connections := s.connections.insert conn { c with destroyed := true } } := by
    simp only [Server.onDestroy,found]
  have live (other : Conn) : (s.onDestroy conn).live other = if other = conn then none else s.live other := by
    rw [after,Server.live_insert]
    rfl
  have routes : (s.onDestroy conn).router = s.router := by rw [after]
  constructor
  · rw [after]
    exact inv.store conn { c with destroyed := true } (inv.given conn c found) (fun _ => rfl) _ (inv.keeps found rfl)
  constructor
  · intro later c₀ member ip own route conn' _ c' up same
    obtain rfl : c = c₀ := Option.some.inj (found.symm.trans member)
    by_contra other
    obtain ⟨-,ip',target,held,route',there⟩ := later conn' c' (by rw [live,if_neg other]; exact up)
    have given := (inv.given conn' c' (Server.live_found up).1).1
    rw [same,← (inv.given conn c found).1,Option.mem_def.mp own,held,Option.some.injEq] at given
    rw [routes,given,route,Option.some.injEq] at route'
    exact there (by rw [live,if_pos route'.symm])
  · intro lone conn' c' up
    rw [live] at up
    split_ifs at up with here
    obtain ⟨spelled,ip,target,held,route,there⟩ := reaches conn' c' up
    refine ⟨spelled,ip,target,held,routes ▸ route,?_⟩
    have apart : target ≠ conn := by
      rintro rfl
      obtain ⟨c₁,found₁,own⟩ := inv.routed ip target route
      obtain rfl : c = c₁ := Option.some.inj (found.symm.trans found₁)
      have same := inv.key valid (Server.live_found up).1 found held own
      exact here ((lone c found ip own route).only up same)
    rwa [Server.Live,live,if_neg apart]

theorem close_reaches_iff (valid : Validated peers) (inv : s.ByValueInvariant peers) (reaches : s.Reaches peers)
    (found : s.connections.lookup conn = some c) :
    (s.onClose conn).ByValueInvariant peers ∧
      ((s.onClose conn).Reaches peers ↔ KeepsReach peers s (.close conn)) := by
  obtain ⟨given,some⟩ := inv.given conn c found
  obtain ⟨ip,own⟩ := Option.ne_none_iff_exists'.mp some
  have listed : (⟨_,ip⟩ : Sigma fun _ : Text => Text) ∈ peers.entries :=
    AList.mem_lookup_iff.mp (given.symm.trans own)
  have has : ip ≠ [] := parseIp_ne_nil (valid.valid _ listed)
  have after : s.onClose conn = { s with
      router := s.router.remove ip
      connections := s.connections.insert conn { c with destroyed := true,closed := true } } := by
    simp only [Server.onClose,found,own,truthy_some has]
  have live (other : Conn) : (s.onClose conn).live other = if other = conn then none else s.live other := by
    rw [after,Server.live_insert]
    rfl
  have routes (a : Text) : (s.onClose conn).router.getByIp a = if a = ip then none else s.router.getByIp a := by
    rw [after]
    exact RoutingTable.lookup_remove _ _ _
  constructor
  · rw [after]
    apply inv.store conn { c with destroyed := true,closed := true } (inv.given conn c found) (fun _ => rfl)
    intro a target route
    rw [Router.getByIp,RoutingTable.lookup_remove] at route
    split_ifs at route
    exact inv.keeps found rfl a target route
  constructor
  · intro later c₀ member conn' _ c' up same
    obtain rfl : c = c₀ := Option.some.inj (found.symm.trans member)
    by_contra other
    obtain ⟨-,ip',target,held,route,-⟩ := later conn' c' (by rw [live,if_neg other]; exact up)
    have given' := (inv.given conn' c' (Server.live_found up).1).1
    rw [same,← given,own,held,Option.some.injEq] at given'
    rw [routes,if_pos given'] at route
    contradiction
  · intro lone conn' c' up
    rw [live] at up
    split_ifs at up with here
    obtain ⟨spelled,ip',target,held,route,there⟩ := reaches conn' c' up
    have apart : ip' ≠ ip := by
      rintro rfl
      have same := inv.key valid (Server.live_found up).1 found held own
      exact here ((lone c found).only up same)
    have elsewhere : target ≠ conn := by
      rintro rfl
      obtain ⟨c₁,found₁,own₁⟩ := inv.routed ip' target route
      rw [found,Option.some.injEq] at found₁
      subst found₁
      rw [own,Option.some.injEq] at own₁
      exact apart own₁.symm
    refine ⟨spelled,ip',target,held,by rw [routes,if_neg apart]; exact route,?_⟩
    rwa [Server.Live,live,if_neg elsewhere]

theorem connection_reaches_iff (valid : Validated peers) (inv : s.ByValueInvariant peers) (reaches : s.Reaches peers) (key : PublicKey)
    (enabled : s.Enabled (.connection conn key)) :
    (s.onConnection conn key).ByValueInvariant peers ∧
      ((s.onConnection conn key).Reaches peers ↔ KeepsReach peers s (.connection conn key)) := by
  obtain ⟨passed,fresh⟩ := enabled
  obtain ⟨ip,assigned⟩ : ∃ ip, peers.lookup (bytesToHex key.toList) = some ip := by
    simp only [Server.firewall,inv.loaded] at passed
    exact Option.isSome_iff_exists.mp (by rw [← Option.not_isNone,passed]; rfl)
  have given : s.givenIp key = some ip := by rw [Server.givenIp,inv.loaded,Option.bind_some,assigned]
  have has : ip ≠ [] := parseIp_ne_nil (valid.valid ⟨_,ip⟩ (AList.mem_lookup_iff.mp assigned))
  have after : s.onConnection conn key = { s with
      router := s.router.add ip conn
      connections := s.connections.insert conn { remotePublicKey := key,clientIp := some ip } } := by
    simp only [Server.onConnection,given,truthy_some has]
  have live (other : Conn) : (s.onConnection conn key).live other =
      if other = conn then some { remotePublicKey := key,clientIp := some ip } else s.live other := by
    rw [after,Server.live_insert]
    rfl
  have routes (a : Text) : (s.onConnection conn key).router.getByIp a =
      if a = ip then some conn else s.router.getByIp a := by
    rw [after]
    exact RoutingTable.lookup_add _ _ _ _
  constructor
  · rw [after]
    apply inv.store conn { remotePublicKey := key,clientIp := some ip } ⟨assigned.symm,Option.some_ne_none _⟩
      fun closed => absurd closed Bool.false_ne_true
    intro a target route
    rw [Router.getByIp,RoutingTable.lookup_add] at route
    split_ifs at route with here
    · rw [if_pos (Option.some.inj route).symm,here]
    · have apart : target ≠ conn := by
        rintro rfl
        obtain ⟨c,found,-⟩ := inv.routed a target route
        rw [fresh] at found
        contradiction
      rw [if_neg apart]
      exact route
  constructor
  · intro later
    exact (later conn _ (by rw [live,if_pos rfl])).1
  · intro spelled conn' c' up
    have arrives : (s.onConnection conn key).Live conn := by simp [Server.Live,live]
    rw [live] at up
    split_ifs at up with here
    · obtain rfl := Option.some.inj up
      exact ⟨spelled,ip,conn,rfl,by rw [routes,if_pos rfl],arrives⟩
    · obtain ⟨spelled',a,target,held,route,there⟩ := reaches conn' c' up
      by_cases same : a = ip
      · exact ⟨spelled',a,conn,held,by rw [routes,if_pos same],arrives⟩
      · have apart : target ≠ conn := by
          rintro rfl
          obtain ⟨c,found,-⟩ := inv.routed a target route
          rw [fresh] at found
          contradiction
        exact ⟨spelled',a,target,held,by rw [routes,if_neg same]; exact route,by rwa [Server.Live,live,if_neg apart]⟩

theorem next_reaches (valid : Validated peers) (s : Server) (e : Event) (inv : s.ByValueInvariant peers)
    (reaches : s.Reaches peers) (enabled : s.Enabled e) :
    (s.next e).ByValueInvariant peers ∧ ((s.next e).Reaches peers ↔ KeepsReach peers s e) := by
  cases e with
  | connection conn key => exact connection_reaches_iff valid inv reaches key enabled
  | data conn chunk =>
    obtain ⟨c,found,-⟩ := enabled
    obtain ⟨inv',reaches'⟩ := data_reaches inv reaches found chunk
    exact ⟨inv',iff_of_true reaches' trivial⟩
  | destroy conn =>
    obtain ⟨c,found,-⟩ := enabled
    exact destroy_reaches_iff valid inv reaches found
  | close conn =>
    obtain ⟨c,found,-⟩ := enabled
    exact close_reaches_iff valid inv reaches found
  | tunData packet => exact ⟨inv,iff_of_true reaches trivial⟩

end State

/-- In every run with an accepted peers map, all listed clients are served by value in every
state exactly when connecting keys are listed as printed and no connection closes, or dies
with the route, before another live one of its key. -/
theorem matches_by_value_iff (peers : PeersMap) (serverCidr : Option Text)
    (accepted : validatePeers peers serverCidr = .ok peers) (events : List Event)
    (admitted : server.Admits (.initial (some peers)) events) :
    server.Throughout (Server.MatchesByValue peers) (.initial (some peers)) events ↔
      server.Along (KeepsReach peers) (.initial (some peers)) events := by
  have valid := validated_of_ok accepted
  have start : Server.ByValueInvariant peers (.initial (some peers)) :=
    ⟨rfl,fun conn c found => by simp [Server.initial] at found,
      fun ip conn route => by simp [Server.initial,Router.getByIp] at route,
      fun conn c found => by simp [Server.initial] at found⟩
  refine Machine.throughout_iff_along (Server.ByValueInvariant peers) ?_ ?_ start ?_ admitted
  · intro s e inv holds enabled
    exact (next_reaches valid s e inv ((matchesByValue_iff valid inv).mp holds) enabled).1
  · intro s e inv holds enabled
    obtain ⟨inv',exactly⟩ := next_reaches valid s e inv ((matchesByValue_iff valid inv).mp holds) enabled
    exact (matchesByValue_iff valid inv').trans exactly
  · intro e _ key bytes _ _ conn c live
    simp [Server.live,Server.initial] at live

/-- One key with an address. -/
def listedAs (address : Text) : PeersMap := AList.singleton (bytesToHex (List.replicate 32 1)) address

/-- An IPv6 client spelled as it is printed comes, sends, leaves and returns. -/
theorem matches_by_value_printed :
    server.Throughout (Server.MatchesByValue (listedAs "fd00::2".toList)) (.initial (some (listedAs "fd00::2".toList)))
      [.connection 0 (Vector.replicate 32 1),.data 0 [0,0],.destroy 0,.close 0,
        .connection 1 (Vector.replicate 32 1),.tunData [0]] :=
  (matches_by_value_iff (listedAs "fd00::2".toList) (some "10.0.0.1/24".toList) rfl _ (by decide +kernel)).mpr
    (by decide +kernel)

/-- The same address with upper-case digits is accepted, and all its packets are dropped. -/
theorem matches_by_value_dropped :
    ¬∀ (peers : PeersMap) (serverCidr : Option Text), validatePeers peers serverCidr = .ok peers →
      ∀ events : List Event, server.Admits (.initial (some peers)) events →
        server.Throughout (Server.MatchesByValue peers) (.initial (some peers)) events := by
  intro claim
  have holds := (claim (listedAs "FD00::2".toList) (some "10.0.0.1/24".toList) rfl
    [.connection 0 (Vector.replicate 32 1)] (by decide +kernel)).last
  have passes := (holds _ (List.mem_singleton_self _) (Vector.replicate 32 1) (0xfd :: List.replicate 14 0 ++ [2])
    (by decide +kernel) (by decide +kernel) 0 ⟨Vector.replicate 32 1,some "FD00::2".toList,[],false,false⟩
    (by decide +kernel) rfl).1 (ipv6Packet (0xfd :: List.replicate 14 0 ++ [2]) (List.replicate 16 0))
    (by decide +kernel)
  exact absurd passes (by decide +kernel)

end Nospoon.Js
