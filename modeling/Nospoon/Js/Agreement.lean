import Nospoon.AuthMode
import Nospoon.Js.Admission
import Nospoon.Js.Readers

/-! The two servers side by side in authenticated mode. One environment drives both: the
same connections, chunks, TUN packets and closes. The relation below between their
states holds along every joint run, and related states answer alike. -/
namespace Nospoon.Js

open Library

/-- Both servers. A stream is the duplex of one and the connection object of the other. -/
structure Pair where
  cpp : ServerCtx
  js : Server

inductive JointEvent where
  | connect (key : PublicKey) (stream : Nat)
  | received (stream : Nat) (chunk : List UInt8)
  | tun (packet : Packet)
  | close (stream : Nat)

/-- What each server wrote in answer to one event. -/
structure Answer where
  cpp : List Output
  js : List Output
  deriving DecidableEq, Repr

namespace Pair

/-- The stream is up on either server. -/
def Up (p : Pair) (stream : Nat) : Prop := p.js.Open stream ∨ p.cpp.ownerOf stream ≠ none

/-- A connection is a new stream, and its key has no other stream that is not yet closed;
the firewalls are asked later. Bytes and closes come from streams that are up. -/
def Enabled (p : Pair) : JointEvent → Prop
  | .connect key stream => (p.js.connections.lookup stream = none ∧ p.cpp.ownerOf stream = none) ∧
      ∀ conn ∈ p.js.connections.keys, ∀ c ∈ p.js.connections.lookup conn, c.closed = false → c.remotePublicKey ≠ key
  | .received stream _ => p.Up stream
  | .close stream => p.Up stream
  | .tun _ => True

instance (p : Pair) (stream : Nat) : Decidable (p.Up stream) := inferInstanceAs (Decidable (_ ∨ _))

instance decidableEnabled (p : Pair) : ∀ e, Decidable (p.Enabled e)
  | .connect key _ => inferInstanceAs (Decidable ((_ ∧ _) ∧ ∀ conn ∈ p.js.connections.keys,
      ∀ c ∈ p.js.connections.lookup conn, c.closed = false → c.remotePublicKey ≠ key))
  | .received stream _ | .close stream => inferInstanceAs (Decidable (p.Up stream))
  | .tun _ => isTrue trivial

/-- Each server lets its own firewall decide. -/
def next (p : Pair) : JointEvent → Pair
  | .connect key stream =>
    ⟨if p.cpp.firewall key then p.cpp else p.cpp.next (.connection key stream),
      if p.js.firewall key then p.js else p.js.next (.connection stream key)⟩
  | .received stream chunk => ⟨p.cpp.next (.message stream chunk),p.js.next (.data stream chunk)⟩
  | .tun packet => ⟨p.cpp.next (.tunPacket packet),p.js.next (.tunData packet)⟩
  | .close stream => ⟨p.cpp.next (.close stream),p.js.next (.close stream)⟩

def answers (p : Pair) : JointEvent → Answer
  | .received stream chunk =>
    ⟨(p.cpp.onMessage stream chunk).2.flatMap Nospoon.Handled.outputs,(p.js.onData stream chunk).2.flatMap Handled.outputs⟩
  | .tun packet => ⟨p.cpp.onTunPacket packet,p.js.onTunData packet⟩
  | .connect .. | .close _ => ⟨[],[]⟩

end Pair

def joint : Machine Pair JointEvent Answer := ⟨Pair.Enabled,Pair.next,fun p e => [p.answers e]⟩

instance decidableJoint : ∀ p e, Decidable (joint.enabled p e) :=
  fun p e => inferInstanceAs (Decidable (p.Enabled e))

/-- A connection object is up and stands for the peer entry stored under `key`. -/
structure Mirrors (key : Text) (ps : PeerState) (c : Connection) : Prop where
  alive : c.destroyed = false
  up : c.closed = false
  key : bytesToHex c.remotePublicKey.toList = key
  address : c.clientIp = some ps.assignedIp
  buffer : c.buffer = ps.decoder.buf

/-- The simulation: one configuration, the same routes, and peer entries and open
connections in correspondence. -/
structure Sim (config : Config) (p : Pair) : Prop where
  auth : ServerCtx.AuthInvariant config p.cpp
  loaded : p.js.allowedPeers = some config.peers
  routes : ∀ ip, p.js.router.getByIp ip = p.cpp.routes.lookup ip
  mirrored : ∀ k ps, p.cpp.peers.lookup k = some ps →
    ∃ c, p.js.connections.lookup ps.duplex = some c ∧ Mirrors k ps c
  owned : ∀ conn c, p.js.connections.lookup conn = some c → c.closed = false →
    ∃ k ps, p.cpp.peers.lookup k = some ps ∧ ps.duplex = conn

/-- A peers map of the loader, with IPv4 addresses only. -/
structure Ipv4Peers (config : Config) : Prop where
  allow : config.Allowlist
  ipv4 : ∀ k ip, config.peers.lookup k = some ip → '.' ∈ ip

theorem ipv4Peers_of_ok {config : Config} (accepted : validatePeers config.peers serverCidr = .ok config.peers)
    (nonempty : config.peers.entries ≠ []) (ipv4 : ∀ e ∈ config.peers.entries, isIPv4 e.2 = true) :
    Ipv4Peers config where
  allow := ⟨nonempty,(validated_of_ok accepted).distinct,fun e member empty => by
    have dotted := isIPv4_dot (ipv4 e member)
    rw [empty] at dotted
    contradiction⟩
  ipv4 k ip found := isIPv4_dot (ipv4 ⟨k,ip⟩ (AList.mem_lookup_iff.mp found))

section Related

variable {config : Config} {p : Pair} {key : Text} {ps : PeerState} {c : Connection}

/-- Every route leads to a connection that is up. -/
theorem Sim.alive (sim : Sim config p) (route : p.cpp.routes.lookup ip = some conn) : p.js.alive conn = true := by
  obtain ⟨k,slot⟩ := sim.auth.sound ip conn route
  obtain ⟨ps,stored,rfl,-⟩ := ServerCtx.slot_eq_some.mp slot
  obtain ⟨c,found,mirrors⟩ := sim.mirrored k ps stored
  simp [Server.alive,found,mirrors.alive]

/-- Only IPv4 addresses are routed. -/
theorem Sim.dotted (sim : Sim config p) (peers : Ipv4Peers config) (route : p.cpp.routes.lookup ip = some conn) :
    '.' ∈ ip := by
  obtain ⟨k,-,assigned⟩ := (ServerCtx.routes_exact peers.allow sim.auth ip conn).mp route
  exact peers.ipv4 k ip assigned

/-- Both servers send a packet to the same place. -/
theorem Sim.target (sim : Sim config p) (peers : Ipv4Peers config) (packet : Packet) :
    p.js.target (readDestinationIp packet) =
      if readDestIp packet = [] then none else p.cpp.routes.lookup (readDestIp packet) := by
  have unrouted (ip : Text) (noDot : '.' ∉ ip) : p.cpp.routes.lookup ip = none := by
    rw [Option.eq_none_iff_forall_ne_some]
    intro conn route
    exact noDot (sim.dotted peers route)
  rcases readIp_cases 16 24 packet with ⟨ip,cpp,js,readable⟩ | ⟨ip,ip',cpp,js,noDot,noDot'⟩ | ⟨cpp,js⟩
  · rw [readDestinationIp,readDestIp,cpp,js,if_neg readable,Server.target,Option.bind_some,sim.routes]
    cases route : p.cpp.routes.lookup ip with
    | none => rfl
    | some conn => simp [Option.filter,sim.alive route]
  · rw [readDestinationIp,readDestIp,cpp,js,Server.target,Option.bind_some,sim.routes,unrouted ip noDot,
      unrouted ip' noDot',ite_self]
    rfl
  · rw [readDestinationIp,readDestIp,cpp,js,if_pos rfl]
    rfl

theorem Sim.deliver (sim : Sim config p) (peers : Ipv4Peers config) (packet : Packet) :
    p.js.deliver packet = p.cpp.forward packet := by
  rw [Server.deliver,ServerCtx.forward,sim.target peers packet]
  cases if readDestIp packet = [] then none else p.cpp.routes.lookup (readDestIp packet) with
  | none => rfl
  | some conn => simp only [sendFramed,encode_eq]

theorem Sim.tun (sim : Sim config p) (peers : Ipv4Peers config) (packet : Packet) :
    p.js.onTunData packet = p.cpp.onTunPacket packet := by
  rw [Server.onTunData,ServerCtx.onTunPacket,sim.target peers packet]
  by_cases empty : readDestIp packet = []
  · simp only [empty,↓reduceIte]
  · simp only [empty,↓reduceIte]
    cases p.cpp.routes.lookup (readDestIp packet) with
    | none => rfl
    | some conn => simp only [sendFramed,encode_eq]

/-! ### Frames -/

/-- The frames of a message change nothing and are each checked against one address. -/
theorem cpp_frames (allow : config.Allowlist) {ctx : ServerCtx} (auth : ServerCtx.AuthInvariant config ctx)
    (stored : ctx.peers.lookup key = some ps) (duplex : Duplex) (frames : List Packet) :
    (ctx.onFrames key duplex frames).1 = ctx ∧
    (ctx.onFrames key duplex frames).2.flatMap Nospoon.Handled.outputs =
      frames.flatMap fun pkt => if readSrcIp pkt = ps.assignedIp then ctx.forward pkt else [] := by
  induction frames with
  | nil => exact ⟨rfl,rfl⟩
  | cons pkt frames ih =>
    obtain ⟨same,out⟩ := ServerCtx.frame_auth allow auth stored duplex pkt
    simp only [ServerCtx.onFrames,stored,same,List.flatMap_cons,out,ih,and_self]

/-- Related states with a chunk decoded into the same packets: nothing changes, and both
write the same. -/
theorem Sim.frames (sim : Sim config p) (peers : Ipv4Peers config) (stored : p.cpp.peers.lookup key = some ps)
    (found : p.js.connections.lookup ps.duplex = some c) (address : c.clientIp = some ps.assignedIp)
    (frames : List Packet) :
    ((p.cpp.onFrames key ps.duplex frames).1 = p.cpp ∧ (p.js.onPackets ps.duplex frames).1 = p.js) ∧
    (p.cpp.onFrames key ps.duplex frames).2.flatMap Nospoon.Handled.outputs =
      (p.js.onPackets ps.duplex frames).2.flatMap Handled.outputs := by
  obtain ⟨cpp,cppOut⟩ := cpp_frames peers.allow sim.auth stored ps.duplex frames
  obtain ⟨js,jsOut⟩ := Server.onPackets_authenticated sim.loaded found frames
  refine ⟨⟨cpp,js⟩,?_⟩
  have dotted := peers.ipv4 key ps.assignedIp (sim.auth.assigned key ps stored)
  rw [cppOut,jsOut,address]
  simp only [readSource_iff dotted,sim.deliver peers]

/-! ### Steps -/

/-- Two entries never share a stream. -/
theorem Sim.distinct (sim : Sim config p) (first : p.cpp.peers.lookup k = some ps)
    (second : p.cpp.peers.lookup k' = some ps') (same : ps.duplex = ps'.duplex) : k = k' :=
  sim.auth.distinct k k' ps.duplex _ _ (ServerCtx.slot_of_peer first)
    (same ▸ ServerCtx.slot_of_peer second)

theorem Sim.store (sim : Sim config p) (stored : p.cpp.peers.lookup key = some ps)
    (mirrors : Mirrors key ps c) (decoder : FrameDecoder) :
    Sim config ⟨p.cpp.storeDecoder key ps decoder,
      { p.js with connections := p.js.connections.insert ps.duplex { c with buffer := decoder.buf } }⟩ where
  auth := ServerCtx.store_auth sim.auth stored decoder
  loaded := sim.loaded
  routes := sim.routes
  mirrored k ps' stored' := by
    by_cases here : k = key
    · subst here
      rw [ServerCtx.storeDecoder,AList.lookup_insert,Option.some.injEq] at stored'
      subst stored'
      exact ⟨_,AList.lookup_insert _,mirrors.alive,mirrors.up,mirrors.key,mirrors.address,rfl⟩
    · rw [ServerCtx.storeDecoder,AList.lookup_insert_ne here] at stored'
      obtain ⟨c',found',mirrors'⟩ := sim.mirrored k ps' stored'
      have other : ps'.duplex ≠ ps.duplex := fun same => here (sim.distinct stored' stored same)
      exact ⟨c',(AList.lookup_insert_ne other).trans found',mirrors'⟩
  owned conn c' found' up := by
    by_cases here : conn = ps.duplex
    · exact ⟨key,_,AList.lookup_insert _,here.symm⟩
    · rw [AList.lookup_insert_ne here] at found'
      obtain ⟨k,ps',stored',same⟩ := sim.owned conn c' found' up
      have other : k ≠ key := by
        rintro rfl
        rw [stored,Option.some.injEq] at stored'
        exact here (stored' ▸ same.symm)
      exact ⟨k,ps',(AList.lookup_insert_ne other).trans stored',same⟩

theorem Sim.up_iff (sim : Sim config p) (stream : Nat) (up : p.Up stream) :
    ∃ k ps c, p.cpp.ownerOf stream = some k ∧ p.cpp.peers.lookup k = some ps ∧ ps.duplex = stream ∧
      p.js.connections.lookup stream = some c ∧ Mirrors k ps c := by
  obtain ⟨k,ps,stored,rfl⟩ : ∃ k ps, p.cpp.peers.lookup k = some ps ∧ ps.duplex = stream := by
    rcases up with ⟨c,found,up⟩ | owner
    · exact sim.owned stream c found up
    · obtain ⟨k,owner⟩ := Option.ne_none_iff_exists'.mp owner
      obtain ⟨ps,stored,same⟩ := ServerCtx.ownerOf_some owner
      exact ⟨k,ps,stored,same⟩
  obtain ⟨c,found,mirrors⟩ := sim.mirrored k ps stored
  cases owner : p.cpp.ownerOf ps.duplex with
  | none => exact absurd rfl (ServerCtx.ownerOf_none.mp owner k ps stored)
  | some k' =>
    obtain ⟨ps',stored',same⟩ := ServerCtx.ownerOf_some owner
    obtain rfl : k' = k := sim.distinct stored' stored same
    exact ⟨k',ps,c,rfl,stored,rfl,found,mirrors⟩

theorem Sim.received (sim : Sim config p) (peers : Ipv4Peers config) (stream : Nat) (up : p.Up stream)
    (chunk : List UInt8) :
    Sim config (p.next (.received stream chunk)) ∧
      (p.answers (.received stream chunk)).cpp = (p.answers (.received stream chunk)).js := by
  obtain ⟨key,ps,c,owner,stored,rfl,found,mirrors⟩ := sim.up_iff stream up
  have fed := push_eq c.buffer chunk
  rw [mirrors.buffer] at fed
  have later := sim.store stored mirrors (ps.decoder.feed chunk).decoder
  obtain ⟨⟨cpp,js⟩,out⟩ := later.frames peers (AList.lookup_insert _) (AList.lookup_insert _) mirrors.address
    (ps.decoder.feed chunk).frames
  have message := ServerCtx.onMessage_owner stored owner chunk
  have data : p.js.onData ps.duplex chunk = Server.onPackets { p.js with
      connections := p.js.connections.insert ps.duplex { c with buffer := (ps.decoder.feed chunk).decoder.buf } }
      ps.duplex (ps.decoder.feed chunk).frames := by
    simp only [Server.onData,found,mirrors.buffer,fed]
  simp only [Pair.next,Pair.answers,ServerCtx.next,Server.next,message,data]
  exact ⟨by rw [cpp,js]; exact later,out⟩

theorem Sim.close (sim : Sim config p) (peers : Ipv4Peers config) (stream : Nat) (up : p.Up stream) :
    Sim config (p.next (.close stream)) := by
  obtain ⟨key,ps,c,owner,stored,rfl,found,mirrors⟩ := sim.up_iff stream up
  have has : ps.assignedIp ≠ [] := peers.allow.ne_nil (sim.auth.assigned key ps stored)
  have cpp : p.cpp.onClose key = { p.cpp with
      routes := p.cpp.routes.remove ps.assignedIp, peers := p.cpp.peers.erase key } := by
    simp only [ServerCtx.onClose,stored,has,↓reduceIte]
  have js : p.js.onClose ps.duplex = { p.js with
      router := p.js.router.remove ps.assignedIp
      connections := p.js.connections.insert ps.duplex { c with destroyed := true,closed := true } } := by
    simp only [Server.onClose,found,mirrors.address,truthy_some has]
  have auth := ServerCtx.close_auth sim.auth stored
  simp only [Pair.next,ServerCtx.next,Server.next,owner]
  rw [cpp] at auth ⊢
  rw [js]
  refine ⟨auth,sim.loaded,fun ip => ?_,fun k ps' stored' => ?_,fun conn c' found' up' => ?_⟩
  · simp only [Router.getByIp,RoutingTable.lookup_remove]
    split_ifs
    · rfl
    · exact sim.routes ip
  · have other : k ≠ key := by
      rintro rfl
      rw [AList.lookup_erase] at stored'
      contradiction
    rw [AList.lookup_erase_ne other] at stored'
    obtain ⟨c',found',mirrors'⟩ := sim.mirrored k ps' stored'
    have apart : ps'.duplex ≠ ps.duplex := fun same => other (sim.distinct stored' stored same)
    exact ⟨c',(AList.lookup_insert_ne apart).trans found',mirrors'⟩
  · have apart : conn ≠ ps.duplex := by
      rintro rfl
      rw [AList.lookup_insert,Option.some.injEq] at found'
      rw [← found'] at up'
      contradiction
    rw [AList.lookup_insert_ne apart] at found'
    obtain ⟨k,ps',stored',same⟩ := sim.owned conn c' found' up'
    have other : k ≠ key := by
      rintro rfl
      rw [stored,Option.some.injEq] at stored'
      exact apart (stored' ▸ same.symm)
    exact ⟨k,ps',(AList.lookup_erase_ne other).trans stored',same⟩

/-- The firewalls let the same keys in. -/
theorem Sim.firewall (sim : Sim config p) (peers : Ipv4Peers config) (key : PublicKey) :
    p.js.firewall key = p.cpp.firewall key := by
  have occupied : config.peers.entries.isEmpty = false := List.isEmpty_eq_false_iff.mpr peers.allow.nonempty
  simp only [Server.firewall,ServerCtx.firewall,sim.loaded,sim.auth.same,occupied,Bool.false_eq_true,↓reduceIte]

theorem Sim.admit (sim : Sim config p) (peers : Ipv4Peers config) (key : PublicKey) (stream : Nat)
    (enabled : p.Enabled (.connect key stream)) (passed : p.cpp.firewall key = false) :
    Sim config ⟨p.cpp.setupPeerStream key stream,p.js.onConnection stream key⟩ := by
  obtain ⟨⟨fresh,unowned⟩,alone⟩ := enabled
  obtain ⟨ip,assigned⟩ := ServerCtx.admitted_assigned peers.allow sim.auth key passed
  have has : ip ≠ [] := peers.allow.ne_nil assigned
  -- the key's entry went with its last stream, so the new one starts with a fresh decoder
  have absent : p.cpp.peers.lookup (bytesToHex key.toList) = none := by
    rw [Option.eq_none_iff_forall_ne_some]
    intro ps stored
    obtain ⟨c,found,mirrors⟩ := sim.mirrored _ ps stored
    have known : ps.duplex ∈ p.js.connections.keys :=
      AList.mem_keys.mp (AList.lookup_isSome.mp (by rw [found]; rfl))
    exact alone ps.duplex known c found mirrors.up (bytesToHex_injective _ _ mirrors.key)
  have auth := ServerCtx.setup_auth peers.allow sim.auth key stream passed unowned
  have cpp : p.cpp.setupPeerStream key stream = { p.cpp with
      routes := p.cpp.routes.add ip stream
      peers := p.cpp.peers.insert (bytesToHex key.toList) ⟨stream,{},ip,bytesToHex key.toList⟩ } := by
    simp only [ServerCtx.setupPeerStream,sim.auth.same,assigned,absent,Option.getD_some,Option.map_none,
      Option.getD_none,has,↓reduceIte]
  have given : p.js.givenIp key = some ip := by
    rw [Server.givenIp,sim.loaded,Option.bind_some,assigned]
  have js : p.js.onConnection stream key = { p.js with
      router := p.js.router.add ip stream
      connections := p.js.connections.insert stream { remotePublicKey := key,clientIp := some ip } } := by
    simp only [Server.onConnection,given,truthy_some has]
  rw [cpp] at auth ⊢
  rw [js]
  refine ⟨auth,sim.loaded,fun ip' => ?_,fun k ps' stored' => ?_,fun conn c' found' up' => ?_⟩
  · simp only [Router.getByIp,RoutingTable.lookup_add]
    split_ifs
    · rfl
    · exact sim.routes ip'
  · by_cases here : k = bytesToHex key.toList
    · subst here
      rw [AList.lookup_insert,Option.some.injEq] at stored'
      subst stored'
      exact ⟨_,AList.lookup_insert _,rfl,rfl,rfl,rfl,rfl⟩
    · rw [AList.lookup_insert_ne here] at stored'
      obtain ⟨c',found',mirrors'⟩ := sim.mirrored k ps' stored'
      have apart : ps'.duplex ≠ stream := ServerCtx.ownerOf_none.mp unowned k ps' stored'
      exact ⟨c',(AList.lookup_insert_ne apart).trans found',mirrors'⟩
  · by_cases here : conn = stream
    · exact ⟨_,_,AList.lookup_insert _,here.symm⟩
    · rw [AList.lookup_insert_ne here] at found'
      obtain ⟨k,ps',stored',same⟩ := sim.owned conn c' found' up'
      have other : k ≠ bytesToHex key.toList := by
        rintro rfl
        rw [absent] at stored'
        contradiction
      exact ⟨k,ps',(AList.lookup_insert_ne other).trans stored',same⟩

theorem Sim.connect (sim : Sim config p) (peers : Ipv4Peers config) (key : PublicKey) (stream : Nat)
    (enabled : p.Enabled (.connect key stream)) : Sim config (p.next (.connect key stream)) := by
  simp only [Pair.next,sim.firewall peers key,ServerCtx.next,Server.next]
  cases passed : p.cpp.firewall key with
  | true => exact sim
  | false => exact sim.admit peers key stream enabled passed

theorem Sim.next (sim : Sim config p) (peers : Ipv4Peers config) (e : JointEvent) (enabled : p.Enabled e) :
    Sim config (p.next e) ∧ (p.answers e).cpp = (p.answers e).js := by
  cases e with
  | connect key stream => exact ⟨sim.connect peers key stream enabled,rfl⟩
  | received stream chunk => exact sim.received peers stream enabled chunk
  | tun packet => exact ⟨sim,(sim.tun peers packet).symm⟩
  | close stream => exact ⟨sim.close peers stream enabled,rfl⟩

end Related

theorem initial_sim (config : Config) : Sim config ⟨.initial config,.initial (some config.peers)⟩ where
  auth := ServerCtx.initial_auth config
  loaded := rfl
  routes _ := rfl
  mirrored k ps stored := by simp [ServerCtx.initial] at stored
  owned conn c found := by simp [Server.initial] at found

/-- With an accepted peers map of IPv4 addresses, every event of every joint run makes the
two servers write the same packets to the TUN and the same frames to each stream. -/
theorem servers_agree (config : Config) (serverCidr : Option Text)
    (accepted : validatePeers config.peers serverCidr = .ok config.peers)
    (authenticated : config.peers.entries ≠ []) (ipv4 : ∀ e ∈ config.peers.entries, isIPv4 e.2 = true)
    (events : List JointEvent)
    (admitted : joint.Admits ⟨.initial config,.initial (some config.peers)⟩ events) :
    ∀ a ∈ joint.log ⟨.initial config,.initial (some config.peers)⟩ events, a.cpp = a.js := by
  have peers := ipv4Peers_of_ok accepted authenticated ipv4
  refine Machine.log_forall (Sim config) _ (fun p e sim enabled => (sim.next peers e enabled).1) ?_
    (initial_sim config) admitted
  intro p e sim enabled a member
  rw [List.mem_singleton.mp member]
  exact (sim.next peers e enabled).2

/-- Two peers exchange a packet cut in two chunks, a stranger is refused and one peer
comes back. -/
theorem servers_agree_two_peers :
    List.Forall (fun a => a.cpp = a.js) (joint.log ⟨.initial twoPeers,.initial (some twoPeers.peers)⟩
      [.connect (Vector.replicate 32 1) 0,.connect (Vector.replicate 32 2) 1,.connect (Vector.replicate 32 3) 2,
        .received 0 ((frameEncode (ipv4Packet [10,0,0,2] [10,0,0,3])).take 9),
        .received 0 ((frameEncode (ipv4Packet [10,0,0,2] [10,0,0,3])).drop 9),
        .close 0,.connect (Vector.replicate 32 1) 3,.tun (ipv4Packet [10,0,0,1] [10,0,0,2])]) :=
  List.forall_iff_forall_mem.mpr (servers_agree twoPeers (some "10.0.0.1/24".toList) rfl (by decide)
    (by decide +kernel) _ (by decide +kernel))

end Nospoon.Js
