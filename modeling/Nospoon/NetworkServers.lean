import Nospoon.AuthMode
import Nospoon.Js.Readers
import Nospoon.Network

/-! What the network needs of its server, the same of both programs: with a peers map it is
a switch between links. Each step of a server says what becomes of its decoders and that
packets only go where their addresses allow. -/
namespace Nospoon

open Library

/-- The addresses of the peers map, and the readers of the server's program. -/
def Implementation.addressing (config : Config) : Implementation → Addressing PublicKey Packet Text
  | .cpp => ⟨fun key => config.peers.lookup (bytesToHex key.toList),readSrcIp,readDestIp⟩
  | .js => ⟨fun key => config.peers.lookup (bytesToHex key.toList),fun pkt => (Js.readSourceIp pkt).getD [],
    fun pkt => (Js.readDestinationIp pkt).getD []⟩

/-- A packet leaves for another link or through the TUN. -/
def passOn : Option Duplex → Hub.Move
  | some target => .pass target
  | none => .out

/-- What a server writes for a packet it took. -/
def outputs (pkt : Packet) : Hub.Move → List Output
  | .drop => []
  | .out => [.tunWrite pkt]
  | .pass e => [.streamWrite e (frameEncode pkt)]

/-! ### What the server knows of the links -/

structure ServerCtx.Linked (config : Config) (links : List Link) (ctx : ServerCtx) : Prop where
  auth : ctx.AuthInvariant config
  owned : ∀ k ps, ctx.peers.lookup k = some ps →
    ∃ link, links[ps.duplex]? = some link ∧ link.accepted = true ∧ bytesToHex link.key.toList = k

structure Js.Server.Linked (config : Config) (links : List Link) (s : Js.Server) : Prop where
  loaded : s.allowedPeers = some config.peers
  owned : ∀ conn c, s.connections.lookup conn = some c →
    ∃ link, links[conn]? = some link ∧ link.accepted = true ∧
      ∃ ip, c.clientIp = some ip ∧ config.peers.lookup (bytesToHex link.key.toList) = some ip
  routed : ∀ ip conn, s.router.lookup ip = some conn → ∃ c, s.connections.lookup conn = some c ∧ c.clientIp = some ip

namespace ServerProcess

def Linked (which : Implementation) (config : Config) (links : List Link) : ServerProcess → Prop
  | .cpp ctx => which = .cpp ∧ ctx.Linked config links
  | .js s => which = .js ∧ s.Linked config links

/-- What the decoder of a stream holds, as long as there is one. -/
def Buffers (d : Duplex) (buf : List UInt8) : ServerProcess → Prop
  | .cpp ctx => ∃ k ps, ctx.peers.lookup k = some ps ∧ ps.duplex = d ∧ ps.decoder.buf = buf
  | .js s => ∃ c, s.connections.lookup d = some c ∧ c.closed = false ∧ c.buffer = buf

variable {which : Implementation} {config : Config} {links links' : List Link} {s : ServerProcess} {d : Duplex}

theorem Linked.onward (linked : s.Linked which config links) (onward : Onward links links') :
    s.Linked which config links' := by
  cases s with
  | cpp ctx =>
    obtain ⟨same,auth,owned⟩ := linked
    refine ⟨same,auth,fun k ps stored => ?_⟩
    obtain ⟨link,found,accepted,own⟩ := owned k ps stored
    obtain ⟨link',found',key,stays,-⟩ := onward _ link found
    exact ⟨link',found',stays accepted,key ▸ own⟩
  | js s =>
    obtain ⟨same,loaded,owned,routed⟩ := linked
    refine ⟨same,loaded,fun conn c stored => ?_,routed⟩
    obtain ⟨link,found,accepted,own⟩ := owned conn c stored
    obtain ⟨link',found',key,stays,-⟩ := onward _ link found
    exact ⟨link',found',stays accepted,key ▸ own⟩

theorem serve_linked (which : Implementation) (config : Config) (links : List Link) :
    (which.serve config).Linked which config links := by
  cases which with
  | cpp => exact ⟨rfl,ServerCtx.initial_auth config,by intro k ps stored; simp [ServerCtx.initial] at stored⟩
  | js =>
    refine ⟨rfl,rfl,?_,?_⟩
    · intro conn c stored; simp [Js.Server.initial] at stored
    · intro ip conn route; simp [Js.Server.initial] at route

end ServerProcess

/-! ### Reading -/

/-- A chunk received on stream `d`: it is fed to the decoder, and every packet it completes
is dropped, given to the TUN or passed on, lawfully. -/
structure Received (which : Implementation) (config : Config) (links : List Link) (s : ServerProcess) (d : Duplex)
    (chunk : List UInt8) (decoder : FrameDecoder) (move : Packet → Hub.Move) : Prop where
  held : s.Buffers d decoder.buf
  accepted : ∃ link, links[d]? = some link ∧ link.accepted = true
  linked : (s.receive d chunk).1.Linked which config links
  holds : (s.receive d chunk).1.Buffers d (decoder.feed chunk).decoder.buf
  alone : ∀ buf, (s.receive d chunk).1.Buffers d buf → buf = (decoder.feed chunk).decoder.buf
  others : ∀ e, e ≠ d → ∀ buf, (s.receive d chunk).1.Buffers e buf → s.Buffers e buf
  lawful : ∀ pkt, (move pkt).Lawful (which.addressing config) links d pkt
  packets : (s.receive d chunk).2 = (decoder.feed chunk).frames.map fun pkt => (pkt,outputs pkt (move pkt))

namespace ServerCtx

variable {config : Config} {links : List Link} {ctx : ServerCtx} {ps : PeerState}

/-- The route of a packet's destination. -/
def target (ctx : ServerCtx) (pkt : Packet) : Option Duplex :=
  if readDestIp pkt = [] then none else ctx.routes.lookup (readDestIp pkt)

def move (ctx : ServerCtx) (assignedIp : Text) (pkt : Packet) : Hub.Move :=
  if readSrcIp pkt = assignedIp then passOn (ctx.target pkt) else .drop

theorem forward_passOn (ctx : ServerCtx) (pkt : Packet) : outputs pkt (passOn (ctx.target pkt)) = ctx.forward pkt := by
  unfold forward target
  dsimp only
  cases if readDestIp pkt = [] then none else ctx.routes.lookup (readDestIp pkt) <;> rfl

theorem outputs_move (ctx : ServerCtx) (assignedIp : Text) (pkt : Packet) :
    outputs pkt (ctx.move assignedIp pkt) = if readSrcIp pkt = assignedIp then ctx.forward pkt else [] := by
  by_cases same : readSrcIp pkt = assignedIp
  · rw [move,if_pos same,if_pos same,forward_passOn]
  · rw [move,if_neg same,if_neg same]
    rfl

theorem frames_move (allow : config.Allowlist) (auth : ctx.AuthInvariant config) (stored : ctx.peers.lookup key = some ps)
    (duplex : Duplex) (frames : List Packet) :
    (ctx.onFrames key duplex frames).1 = ctx ∧
      (ctx.onFrames key duplex frames).2.map (fun h => (h.pkt,h.outputs)) =
        frames.map fun pkt => (pkt,outputs pkt (ctx.move ps.assignedIp pkt)) := by
  rw [onFrames_auth allow auth stored]
  refine ⟨rfl,?_⟩
  rw [List.map_map]
  refine List.map_congr_left fun pkt _ => ?_
  rw [Function.comp_apply,(frame_auth allow auth stored duplex pkt).2,outputs_move]

/-- A route leads to the link of a key that has the address. -/
theorem Linked.addressed (linked : ctx.Linked config links) (allow : config.Allowlist) (route : ctx.target pkt = some d) :
    Addressed (Implementation.cpp.addressing config) links d (readDestIp pkt) := by
  have route : ctx.routes.lookup (readDestIp pkt) = some d := by
    rw [target] at route
    split_ifs at route
    exact route
  obtain ⟨k,current,assigned⟩ := (routes_exact allow linked.auth _ d).mp route
  obtain ⟨ps,stored,rfl⟩ := duplexes_eq_some.mp current
  obtain ⟨link,found,-,rfl⟩ := linked.owned k ps stored
  exact ⟨link,found,assigned⟩

theorem Linked.lawful (linked : ctx.Linked config links) (allow : config.Allowlist) (stored : ctx.peers.lookup key = some ps)
    (pkt : Packet) : (ctx.move ps.assignedIp pkt).Lawful (Implementation.cpp.addressing config) links ps.duplex pkt := by
  by_cases same : readSrcIp pkt = ps.assignedIp
  · obtain ⟨link,found,-,own⟩ := linked.owned key ps stored
    have sender : Addressed (Implementation.cpp.addressing config) links ps.duplex (readSrcIp pkt) := by
      refine ⟨link,found,?_⟩
      change config.peers.lookup (bytesToHex link.key.toList) = _
      rw [own,same]
      exact linked.auth.assigned key ps stored
    rw [move,if_pos same]
    cases route : ctx.target pkt with
    | none => exact sender
    | some target => exact ⟨sender,linked.addressed allow route⟩
  · rw [move,if_neg same]
    trivial

theorem Linked.receive (linked : ctx.Linked config links) (allow : config.Allowlist) (reads : ctx.ownerOf d ≠ none)
    (chunk : List UInt8) : ∃ decoder move, Received .cpp config links (.cpp ctx) d chunk decoder move := by
  obtain ⟨key,owner⟩ := Option.ne_none_iff_exists'.mp reads
  obtain ⟨ps,stored,rfl⟩ := ownerOf_some owner
  let fed := ps.decoder.feed chunk
  let stocked := ctx.storeDecoder key ps fed.decoder
  have here : stocked.peers.lookup key = some { ps with decoder := fed.decoder } := lookup_storeDecoder ..
  have auth : stocked.AuthInvariant config := store_auth linked.auth stored fed.decoder
  obtain ⟨same,handled⟩ := frames_move allow auth here ps.duplex fed.frames
  have message : ctx.onMessage ps.duplex chunk = stocked.onFrames key ps.duplex fed.frames := onMessage_owner stored owner chunk
  have lookup {k : Text} {ps' : PeerState} (stored' : stocked.peers.lookup k = some ps') :
      (k = key ∧ ps' = { ps with decoder := fed.decoder }) ∨ (k ≠ key ∧ ctx.peers.lookup k = some ps') := by
    by_cases own : k = key
    · subst own
      exact .inl ⟨rfl,(Option.some.inj (here.symm.trans stored')).symm⟩
    · exact .inr ⟨own,(AList.lookup_insert_ne own).symm.trans stored'⟩
  have linked' : stocked.Linked config links := by
    refine ⟨auth,fun k ps' stored' => ?_⟩
    rcases lookup stored' with ⟨rfl,rfl⟩ | ⟨-,old⟩
    · exact linked.owned k ps stored
    · exact linked.owned k ps' old
  obtain ⟨link,found,accepted,-⟩ := linked.owned key ps stored
  have after : (ServerProcess.cpp ctx).receive ps.duplex chunk =
      (.cpp stocked,fed.frames.map fun pkt => (pkt,outputs pkt (stocked.move ps.assignedIp pkt))) := by
    rw [ServerProcess.receive,message,same,handled]
  refine ⟨ps.decoder,stocked.move ps.assignedIp,⟨key,ps,stored,rfl,rfl⟩,⟨link,found,accepted⟩,?_,?_,fun buf now => ?_,
    fun e other buf now => ?_,fun pkt => linked'.lawful allow here pkt,?_⟩
  all_goals rw [after] at *
  · exact ⟨rfl,linked'⟩
  · exact ⟨key,_,here,rfl,rfl⟩
  · obtain ⟨k,ps',stored',shared,rfl⟩ := now
    rcases lookup stored' with ⟨-,rfl⟩ | ⟨own,old⟩
    · rfl
    · refine absurd ?_ own
      exact linked.auth.distinct k key ps.duplex _ _ (shared ▸ slot_of_peer old) (slot_of_peer stored)
  · obtain ⟨k,ps',stored',shared,held⟩ := now
    rcases lookup stored' with ⟨-,rfl⟩ | ⟨-,old⟩
    · exact absurd shared.symm other
    · exact ⟨k,ps',old,shared,held⟩

end ServerCtx

namespace Js.Server

variable {config : Config} {links : List Link} {s : Server} {c : Connection}

def move (s : Server) (clientIp : Option Text) (packet : Packet) : Hub.Move :=
  if readSourceIp packet = clientIp then passOn (s.target (readDestinationIp packet)) else .drop

theorem deliver_passOn (s : Server) (packet : Packet) :
    outputs packet (passOn (s.target (readDestinationIp packet))) = s.deliver packet := by
  unfold deliver
  cases s.target (readDestinationIp packet) with
  | none => rfl
  | some peerConn => simp only [passOn,outputs,encode_eq]

theorem outputs_move (s : Server) (clientIp : Option Text) (packet : Packet) :
    outputs packet (s.move clientIp packet) = if readSourceIp packet = clientIp then s.deliver packet else [] := by
  by_cases same : readSourceIp packet = clientIp
  · rw [move,if_pos same,if_pos same,deliver_passOn]
  · rw [move,if_neg same,if_neg same]
    rfl

theorem packets_move (loaded : s.allowedPeers = some peers) (found : s.connections.lookup conn = some c)
    (packets : List Packet) :
    (s.onPackets conn packets).1 = s ∧
      (s.onPackets conn packets).2.map (fun h => (h.packet,h.outputs)) =
        packets.map fun packet => (packet,outputs packet (s.move c.clientIp packet)) := by
  induction packets with
  | nil => exact ⟨rfl,rfl⟩
  | cons packet packets ih =>
    obtain ⟨same,out⟩ := onPacket_authenticated loaded conn c packet
    have which : (s.onPacket conn c packet).packet = packet := by
      simp only [onPacket,loaded]
      split_ifs <;> rfl
    simp only [onPackets,found,same,List.map_cons,which,out,ih,outputs_move,and_self]

/-- A route leads to the link of a key that has the address. -/
theorem Linked.addressed (linked : s.Linked config links) (route : s.target (readDestinationIp packet) = some d) :
    Addressed (Implementation.js.addressing config) links d ((readDestinationIp packet).getD []) := by
  obtain ⟨routed,-⟩ := Option.filter_eq_some_iff.mp route
  obtain ⟨ip,read,routed⟩ := Option.bind_eq_some_iff.mp routed
  obtain ⟨c,stored,held⟩ := linked.routed ip d routed
  obtain ⟨link,found,-,ip',held',assigned⟩ := linked.owned d c stored
  obtain rfl : ip = ip' := Option.some.inj (held.symm.trans held')
  rw [read]
  exact ⟨link,found,assigned⟩

theorem Linked.lawful (linked : s.Linked config links) (stored : s.connections.lookup d = some c) (packet : Packet) :
    (s.move c.clientIp packet).Lawful (Implementation.js.addressing config) links d packet := by
  by_cases same : readSourceIp packet = c.clientIp
  · obtain ⟨link,found,-,ip,held,assigned⟩ := linked.owned d c stored
    have sender : Addressed (Implementation.js.addressing config) links d ((readSourceIp packet).getD []) := by
      rw [same,held]
      exact ⟨link,found,assigned⟩
    rw [move,if_pos same]
    cases route : s.target (readDestinationIp packet) with
    | none => exact sender
    | some target => exact ⟨sender,linked.addressed route⟩
  · rw [move,if_neg same]
    trivial

/-- A connection object changes, its address does not. -/
theorem Linked.insert (linked : s.Linked config links) (stored : s.connections.lookup conn = some c) {c' : Connection}
    (same : c'.clientIp = c.clientIp) : Linked config links { s with connections := s.connections.insert conn c' } := by
  refine ⟨linked.loaded,fun conn' c'' stored' => ?_,fun ip conn' route => ?_⟩
  · by_cases here : conn' = conn
    · subst here
      obtain rfl : c' = c'' := Option.some.inj ((AList.lookup_insert _).symm.trans stored')
      rw [same]
      exact linked.owned conn' c stored
    · exact linked.owned conn' c'' ((AList.lookup_insert_ne here).symm.trans stored')
  · obtain ⟨c'',stored',held⟩ := linked.routed ip conn' route
    by_cases here : conn' = conn
    · subst here
      obtain rfl : c = c'' := Option.some.inj (stored.symm.trans stored')
      exact ⟨c',AList.lookup_insert _,same.trans held⟩
    · exact ⟨c'',(AList.lookup_insert_ne here).trans stored',held⟩

theorem Linked.receive (linked : s.Linked config links) (reads : s.Open d) (chunk : List UInt8) :
    ∃ decoder move, Received .js config links (.js s) d chunk decoder move := by
  obtain ⟨c,stored,up⟩ := reads
  let fed := FrameDecoder.feed ⟨c.buffer⟩ chunk
  let stocked : Server := { s with connections := s.connections.insert d { c with buffer := fed.decoder.buf } }
  have here : stocked.connections.lookup d = some { c with buffer := fed.decoder.buf } := AList.lookup_insert _
  have linked' : stocked.Linked config links := linked.insert stored rfl
  obtain ⟨same,handled⟩ := packets_move linked'.loaded here fed.frames
  have data : s.onData d chunk = stocked.onPackets d fed.frames := by
    simp only [onData,Option.mem_def.mp stored,push_eq]
    rfl
  obtain ⟨link,found,accepted,-⟩ := linked.owned d c stored
  have after : (ServerProcess.js s).receive d chunk =
      (.js stocked,fed.frames.map fun packet => (packet,outputs packet (stocked.move c.clientIp packet))) := by
    rw [ServerProcess.receive,data,same,handled]
  refine ⟨⟨c.buffer⟩,stocked.move c.clientIp,⟨c,stored,up,rfl⟩,⟨link,found,accepted⟩,?_,?_,fun buf now => ?_,
    fun e other buf now => ?_,fun pkt => linked'.lawful here pkt,?_⟩
  all_goals rw [after] at *
  · exact ⟨rfl,linked'⟩
  · exact ⟨_,here,up,rfl⟩
  · obtain ⟨c',stored',-,rfl⟩ := now
    rw [here,Option.some.injEq] at stored'
    rw [← stored']
  · obtain ⟨c',stored',open',held⟩ := now
    exact ⟨c',(AList.lookup_insert_ne other).symm.trans stored',open',held⟩

end Js.Server

/-! ### The other steps -/

/-- From `s` to `s'` the decoders of stream `d` end or stay. -/
def ServerProcess.Keeps (s s' : ServerProcess) (d : Duplex) : Prop := ∀ buf, s'.Buffers d buf → s.Buffers d buf

/-- The entry that `setup_peer_stream` leaves under the key, and every other. -/
theorem setup_lookup {server : ServerCtx} {remotePk : PublicKey} {ps : PeerState}
    (stored : (server.setupPeerStream remotePk d).peers.lookup k = some ps) :
    (k = bytesToHex remotePk.toList ∧ ps.duplex = d ∧
      (server.ReplacesDrained (.connection remotePk d) → ps.decoder.buf = [])) ∨
    (k ≠ bytesToHex remotePk.toList ∧ server.peers.lookup k = some ps) := by
  by_cases here : k = bytesToHex remotePk.toList
  · subst here
    simp only [ServerCtx.setupPeerStream,AList.lookup_insert,Option.some.injEq] at stored
    subst stored
    refine .inl ⟨rfl,rfl,fun drained => ?_⟩
    cases old : server.peers.lookup (bytesToHex remotePk.toList) with
    | none => rfl
    | some ps => exact drained ps old
  · simp only [ServerCtx.setupPeerStream,AList.lookup_insert_ne here] at stored
    exact .inr ⟨here,stored⟩

/-- A close forgets at most the key that had the stream. -/
theorem lookup_close {ctx : ServerCtx} (stored : (ctx.next (.close d)).peers.lookup k = some ps) : ctx.peers.lookup k = some ps := by
  cases owner : ctx.ownerOf d with
  | none => simpa [ServerCtx.next,owner] using stored
  | some key =>
    obtain ⟨ps',stored',-⟩ := ServerCtx.ownerOf_some owner
    simp only [ServerCtx.next,owner,ServerCtx.onClose,stored'] at stored
    by_cases here : k = key
    · subst here
      simp at stored
    · rwa [AList.lookup_erase_ne here] at stored

/-- A close leaves the connection behind and takes back at most a route. -/
theorem Js.Server.onClose_found {s : Js.Server} {c : Js.Connection} (stored : s.connections.lookup d = some c) :
    ∃ router : Js.Router,
      s.onClose d = { s with router,connections := s.connections.insert d { c with destroyed := true,closed := true } } ∧
      ∀ ip conn, router.lookup ip = some conn → s.router.lookup ip = some conn := by
  simp only [Js.Server.onClose,Option.mem_def.mp stored]
  cases Js.truthy c.clientIp with
  | none => exact ⟨_,rfl,fun _ _ => id⟩
  | some ip =>
    refine ⟨_,rfl,fun ip' conn route => ?_⟩
    rw [RoutingTable.lookup_remove] at route
    split_ifs at route
    exact route

/-- Only connection `d` changes: it closes or keeps its decoder. -/
theorem Js.Server.keeps_insert {s s' : Js.Server} {c c' : Js.Connection} (stored : s.connections.lookup d = some c)
    (after : s'.connections = s.connections.insert d c') (kept : c'.closed = false → c.closed = false ∧ c'.buffer = c.buffer)
    (e : Duplex) : (ServerProcess.js s).Keeps (.js s') e := by
  rintro buf ⟨found,stored',up,rfl⟩
  rw [after] at stored'
  by_cases here : e = d
  · subst here
    obtain rfl : c' = found := Option.some.inj ((AList.lookup_insert _).symm.trans stored')
    obtain ⟨stillUp,same⟩ := kept up
    exact ⟨c,stored,stillUp,same.symm⟩
  · exact ⟨found,(AList.lookup_insert_ne here).symm.trans stored',up,rfl⟩

theorem Js.Server.Linked.accept {s : Js.Server} (linked : s.Linked config links) {link : Link} (at_d : links[d]? = some link)
    (accepted : link.accepted = true) (passed : s.firewall link.key = false) (fresh : s.connections.lookup d = none) :
    (s.onConnection d link.key).Linked config links := by
  have loaded := linked.loaded
  obtain ⟨ip,assigned⟩ : ∃ ip, config.peers.lookup (bytesToHex link.key.toList) = some ip := by
    rw [Js.Server.firewall,loaded] at passed
    exact Option.isSome_iff_exists.mp (by simpa using passed)
  have given : s.givenIp link.key = some ip := by rw [Js.Server.givenIp,loaded,Option.bind_some,assigned]
  refine ⟨loaded,fun conn c stored => ?_,fun ip' conn route => ?_⟩
  · by_cases here : conn = d
    · subst here
      obtain rfl : _ = c := Option.some.inj ((AList.lookup_insert _).symm.trans stored)
      exact ⟨link,at_d,accepted,ip,given,assigned⟩
    · exact linked.owned conn c ((AList.lookup_insert_ne here).symm.trans stored)
  · have old (route : s.router.lookup ip' = some conn) :
        ∃ c, (s.onConnection d link.key).connections.lookup conn = some c ∧ c.clientIp = some ip' := by
      obtain ⟨c,stored,held⟩ := linked.routed ip' conn route
      have apart : conn ≠ d := by
        rintro rfl
        rw [fresh] at stored
        contradiction
      exact ⟨c,(AList.lookup_insert_ne apart).trans stored,held⟩
    simp only [Js.Server.onConnection,given] at route
    cases ip with
    | nil => exact old route
    | cons a ip =>
      rw [Js.truthy_some (List.cons_ne_nil a ip)] at route
      by_cases same : ip' = a :: ip
      · subst same
        obtain rfl : d = conn := by simpa [RoutingTable.add,RoutingTable.lookup] using route
        exact ⟨_,AList.lookup_insert _,given⟩
      · exact old ((RoutingTable.lookup_add_ne _ _ same).symm.trans route)

namespace ServerProcess

variable {which : Implementation} {config : Config} {links : List Link} {s : ServerProcess} {d : Duplex}

theorem Linked.receive (linked : s.Linked which config links) (allow : which = .cpp → config.Allowlist) (reads : s.Reads d)
    (chunk : List UInt8) : ∃ decoder move, Received which config links s d chunk decoder move := by
  cases s with
  | cpp ctx =>
    obtain ⟨rfl,linked⟩ := linked
    exact linked.receive (allow rfl) reads chunk
  | js s =>
    obtain ⟨rfl,linked⟩ := linked
    exact linked.receive reads chunk

theorem Linked.onTun (linked : s.Linked which config links) (allow : which = .cpp → config.Allowlist) (data : Packet) :
    ∃ target : Option Duplex, (∀ e ∈ target, Addressed (which.addressing config) links e ((which.addressing config).dst data)) ∧
      s.onTun data = target.toList.map fun e => .streamWrite e (frameEncode data) := by
  cases s with
  | cpp ctx =>
    obtain ⟨rfl,linked⟩ := linked
    refine ⟨ctx.target data,fun e route => linked.addressed (allow rfl) route,?_⟩
    rw [ServerProcess.onTun,ServerCtx.onTunPacket,ServerCtx.target]
    by_cases empty : readDestIp data = []
    · simp only [empty,↓reduceIte,Option.toList_none,List.map_nil]
    · simp only [empty,↓reduceIte]
      cases ctx.routes.lookup (readDestIp data) <;> rfl
  | js s =>
    obtain ⟨rfl,linked⟩ := linked
    refine ⟨s.target (Js.readDestinationIp data),fun e route => linked.addressed route,?_⟩
    rw [ServerProcess.onTun,Js.Server.onTunData]
    cases s.target (Js.readDestinationIp data) with
    | none => rfl
    | some connection => simp only [Js.encode_eq,Option.toList_some,List.map_cons,List.map_nil]

/-- Keepalives are written to streams, nothing else. -/
theorem beat_keepalives (s : ServerProcess) (established : List Duplex) :
    ∃ ds : List Duplex, s.beat established = ds.map fun d => .streamWrite d frameKeepalive := by
  cases s with
  | cpp ctx => exact ⟨(ctx.peers.entries.filter fun e => e.2.duplex ∈ established).map fun e => e.2.duplex,by
      rw [beat,ServerCtx.keepaliveTick,List.map_map]; rfl⟩
  | js s =>
    induction established with
    | nil => exact ⟨[],rfl⟩
    | cons d rest ih =>
      obtain ⟨ds,same⟩ := ih
      rw [beat] at same
      rw [beat,List.flatMap_cons,same,Js.Server.keepaliveTick]
      split_ifs
      · exact ⟨d :: ds,rfl⟩
      · exact ⟨ds,rfl⟩

/-- The link is already marked when the server takes its stream. -/
theorem Linked.accept (linked : s.Linked which config links) (allow : which = .cpp → config.Allowlist) {link : Link}
    (at_d : links[d]? = some link) (accepted : link.accepted = true) (admits : s.Admits link.key d) :
    (s.accept link.key d).Linked which config links := by
  cases s with
  | cpp ctx =>
    obtain ⟨rfl,auth,owned⟩ := linked
    obtain ⟨passed,fresh⟩ := admits
    refine ⟨rfl,ServerCtx.setup_auth (allow rfl) auth link.key d passed fresh,fun k ps stored => ?_⟩
    rcases setup_lookup stored with ⟨rfl,rfl,-⟩ | ⟨-,old⟩
    · exact ⟨link,at_d,accepted,rfl⟩
    · exact owned k ps old
  | js s =>
    obtain ⟨rfl,linked⟩ := linked
    exact ⟨rfl,linked.accept at_d accepted admits.1 admits.2⟩

theorem accept_buffers (admits : s.Admits key d) :
    (s.cleanStart key d = true → ∀ buf, (s.accept key d).Buffers d buf → buf = []) ∧
      ∀ e, e ≠ d → s.Keeps (s.accept key d) e := by
  cases s with
  | cpp ctx =>
    obtain ⟨-,fresh⟩ := admits
    constructor
    · rintro clean buf ⟨k,ps,stored,own,rfl⟩
      rcases setup_lookup stored with ⟨-,-,drained⟩ | ⟨-,old⟩
      · exact drained (of_decide_eq_true clean)
      · exact absurd own (ServerCtx.ownerOf_none.mp fresh k ps old)
    · rintro e other buf ⟨k,ps,stored,own,held⟩
      rcases setup_lookup stored with ⟨-,here,-⟩ | ⟨-,old⟩
      · exact absurd (own.symm.trans here) other
      · exact ⟨k,ps,old,own,held⟩
  | js s =>
    constructor
    · rintro - buf ⟨c,stored,-,rfl⟩
      obtain rfl : _ = c := Option.some.inj ((AList.lookup_insert _).symm.trans stored)
      rfl
    · rintro e other buf ⟨c,stored,up,held⟩
      exact ⟨c,(AList.lookup_insert_ne other).symm.trans stored,up,held⟩

theorem Linked.close (linked : s.Linked which config links) (allow : which = .cpp → config.Allowlist) (reads : s.Reads d) :
    (s.close d).Linked which config links ∧ ∀ e, s.Keeps (s.close d) e := by
  cases s with
  | cpp ctx =>
    obtain ⟨rfl,auth,owned⟩ := linked
    refine ⟨⟨rfl,ServerCtx.next_auth (allow rfl) _ (.close d) auth reads,fun k ps stored => owned k ps (lookup_close stored)⟩,?_⟩
    rintro e buf ⟨k,ps,stored,held⟩
    exact ⟨k,ps,lookup_close stored,held⟩
  | js s =>
    obtain ⟨rfl,linked⟩ := linked
    obtain ⟨c,stored,-⟩ := reads
    have gone : Js.Server.Linked config links
        { s with connections := s.connections.insert d { c with destroyed := true,closed := true } } := linked.insert stored rfl
    obtain ⟨router,closed,fewer⟩ := Js.Server.onClose_found stored
    have keeps := Js.Server.keeps_insert stored (congrArg Js.Server.connections closed) fun up => Bool.noConfusion up
    refine ⟨⟨rfl,?_⟩,keeps⟩
    change (s.onClose d).Linked config links
    rw [closed]
    exact ⟨gone.loaded,gone.owned,fun ip conn route => gone.routed ip conn (fewer ip conn route)⟩

theorem Linked.destroy (linked : s.Linked which config links) (destroys : s.Destroys d) :
    (s.destroy d).Linked which config links ∧ ∀ e, s.Keeps (s.destroy d) e := by
  cases s with
  | cpp ctx => exact destroys.elim
  | js s =>
    obtain ⟨rfl,linked⟩ := linked
    obtain ⟨c,stored,-⟩ := destroys
    have after : s.onDestroy d = { s with connections := s.connections.insert d { c with destroyed := true } } := by
      simp only [Js.Server.onDestroy,Option.mem_def.mp stored]
    have keeps := Js.Server.keeps_insert stored (congrArg Js.Server.connections after) fun up => ⟨up,rfl⟩
    refine ⟨⟨rfl,?_⟩,keeps⟩
    change (s.onDestroy d).Linked config links
    rw [after]
    exact linked.insert stored rfl

end ServerProcess

end Nospoon
