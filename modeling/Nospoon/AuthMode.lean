import Nospoon.ServerBoard

/-! Authenticated mode: the peers map gives each admitted key its address. Routes follow
connections exactly, so the server is a switch between the addresses of the map. -/
namespace Nospoon

open Library

/-- A peers map as the provisioning commands write it and the JS loader requires it. -/
structure Config.Allowlist (config : Config) : Prop where
  nonempty : config.peers.entries ≠ []
  distinct : (config.peers.entries.map fun e => e.2).Nodup
  assigned : ∀ e ∈ config.peers.entries, e.2 ≠ []

theorem Config.Allowlist.injective {config : Config} {ip : Text} (allow : config.Allowlist)
    (first : config.peers.lookup k = some ip) (second : config.peers.lookup k' = some ip) :
    k = k' := by
  have same := List.inj_on_of_nodup_map allow.distinct (AList.mem_lookup_iff.mp first)
    (AList.mem_lookup_iff.mp second) rfl
  exact congrArg Sigma.fst same

theorem Config.Allowlist.ne_nil {config : Config} {ip : Text} (allow : config.Allowlist)
    (h : config.peers.lookup k = some ip) : ip ≠ [] :=
  allow.assigned ⟨k,ip⟩ (AList.mem_lookup_iff.mp h)

namespace ServerCtx

variable {ctx : ServerCtx} {config : Config}

/-- The current duplex of each connected key. -/
def duplexes (ctx : ServerCtx) (k : Text) : Option Duplex := (ctx.peers.lookup k).map PeerState.duplex

theorem duplexes_eq_some : ctx.duplexes k = some stream ↔ ∃ ps, ctx.peers.lookup k = some ps ∧ ps.duplex = stream :=
  Option.map_eq_some_iff

/-- `stream` belongs to the key whose address in the peers map is `ip`. -/
def StreamAt (config : Config) (duplexes : Text → Option Duplex) (ip : Text) (stream : Duplex) : Prop :=
  ∃ k, duplexes k = some stream ∧ config.peers.lookup k = some ip

/-- `routes` is exactly the map from the assigned address of each connected key to the
key's current duplex. -/
def RoutesExact (config : Config) (ctx : ServerCtx) : Prop :=
  ∀ ip stream, ctx.routes.lookup ip = some stream ↔ StreamAt config ctx.duplexes ip stream

structure AuthInvariant (config : Config) (ctx : ServerCtx) : Prop where
  same : ctx.config = config
  distinct : ctx.board.Distinct
  complete : ctx.board.Complete
  sound : ctx.board.Sound
  /-- A connected peer carries the address of the peers map. -/
  assigned : ∀ k ps, ctx.peers.lookup k = some ps → config.peers.lookup k = some ps.assignedIp

theorem initial_auth (config : Config) : AuthInvariant config (initial config) where
  same := rfl
  distinct := by intro k k' d held held' h; simp [board,initial] at h
  complete := by intro k d a h; simp [board,initial] at h
  sound := by intro a d h; simp [board,initial] at h
  assigned := by intro k ps h; simp [initial] at h

/-- The address in a slot is the one the peers map assigns to its key. -/
theorem slot_assigned (inv : AuthInvariant config ctx) (slot : ctx.board.slots k = some (d,some a)) :
    config.peers.lookup k = some a := by
  obtain ⟨ps,stored,-,held⟩ := slot_eq_some.mp slot
  rw [inv.assigned k ps stored,(known_eq_some.mp held).1]

theorem routes_exact (allow : config.Allowlist) (inv : AuthInvariant config ctx) :
    RoutesExact config ctx := by
  intro ip stream
  constructor
  · intro route
    obtain ⟨k,slot⟩ := inv.sound ip stream route
    obtain ⟨ps,stored,same,-⟩ := slot_eq_some.mp slot
    exact ⟨k,duplexes_eq_some.mpr ⟨ps,stored,same⟩,slot_assigned inv slot⟩
  · rintro ⟨k,live,assigned⟩
    obtain ⟨ps,stored,rfl⟩ := duplexes_eq_some.mp live
    have own := inv.assigned k ps stored
    rw [own,Option.some.injEq] at assigned
    subst assigned
    exact inv.complete k _ _ (known_of_ne (allow.ne_nil own) ▸ slot_of_peer stored)

/-- An admitted connection has an address in the map. -/
theorem admitted_assigned (allow : config.Allowlist) (inv : AuthInvariant config ctx)
    (remotePk : PublicKey) (passed : ctx.firewall remotePk = false) :
    ∃ ip, config.peers.lookup (bytesToHex remotePk.toList) = some ip := by
  rw [← inv.same]
  rcases firewall_eq_false.mp passed with openMode | member
  · rw [inv.same] at openMode
    exact absurd (congrArg AList.entries openMode) allow.nonempty
  · exact Option.isSome_iff_exists.mp (AList.lookup_isSome.mpr member)

/-- A reconnecting key gets its old address again, so the replaced route is the one the
old stream had. -/
theorem setup_auth (allow : config.Allowlist) (inv : AuthInvariant config ctx)
    (remotePk : PublicKey) (duplex : Duplex) (passed : ctx.firewall remotePk = false)
    (fresh : ctx.ownerOf duplex = none) :
    AuthInvariant config (ctx.setupPeerStream remotePk duplex) := by
  obtain ⟨ip,assigned⟩ := admitted_assigned allow inv remotePk passed
  have board := board_setup ctx remotePk duplex
  rw [inv.same,assigned,Option.getD_some,known_of_ne (allow.ne_nil assigned)] at board
  refine ⟨inv.same,setup_distinct inv.distinct remotePk fresh,?_,?_,?_⟩
  · rw [board]
    refine Switchboard.attach_complete inv.complete fun a k' d' held other slot => other ?_
    cases held
    exact allow.injective (slot_assigned inv slot) assigned
  · rw [board,Switchboard.attach_sound_iff inv.distinct inv.complete inv.sound]
    intro d' a slot
    rw [← assigned,slot_assigned inv slot]
  · intro k ps stored
    by_cases here : k = bytesToHex remotePk.toList
    · subst here
      rw [setupPeerStream,inv.same,assigned] at stored
      simp only [AList.lookup_insert,Option.some.injEq] at stored
      rw [assigned,← stored]
      rfl
    · simp only [setupPeerStream,AList.lookup_insert_ne here] at stored
      exact inv.assigned k ps stored

theorem store_auth (inv : AuthInvariant config ctx) (stored : ctx.peers.lookup key = some ps)
    (decoder : FrameDecoder) : AuthInvariant config (ctx.storeDecoder key ps decoder) := by
  have board := board_decoder stored decoder
  refine ⟨inv.same,board ▸ inv.distinct,board ▸ inv.complete,board ▸ inv.sound,?_⟩
  intro k ps' stored'
  by_cases here : k = key
  · subst here
    simp only [storeDecoder,AList.lookup_insert,Option.some.injEq] at stored'
    rw [← stored']
    exact inv.assigned k ps stored
  · simp only [storeDecoder,AList.lookup_insert_ne here] at stored'
    exact inv.assigned k ps' stored'

theorem close_auth (inv : AuthInvariant config ctx) (stored : ctx.peers.lookup key = some ps) :
    AuthInvariant config (ctx.onClose key) := by
  refine ⟨?_,close_distinct inv.distinct key,?_,?_,?_⟩
  · simpa [onClose,stored] using inv.same
  · rw [board_close]; exact Switchboard.detach_complete inv.distinct inv.complete
  · rw [board_close]; exact Switchboard.detach_sound inv.sound
  · intro k ps' stored'
    simp only [onClose,stored] at stored'
    by_cases here : k = key
    · subst here; simp at stored'
    · rw [AList.lookup_erase_ne here] at stored'
      exact inv.assigned k ps' stored'

/-- Every peer has an address, so no frame is ever learned from. -/
theorem frame_auth (allow : config.Allowlist) (inv : AuthInvariant config ctx)
    (stored : ctx.peers.lookup key = some ps) (duplex : Duplex) (pkt : Packet) :
    (ctx.onFrame key ps duplex pkt).1 = ctx ∧
    (ctx.onFrame key ps duplex pkt).2 =
      if readSrcIp pkt = ps.assignedIp then ctx.forward pkt else [] := by
  have has := allow.ne_nil (inv.assigned key ps stored)
  by_cases same : readSrcIp pkt = ps.assignedIp <;> simp [onFrame,has,same]

theorem next_auth (allow : config.Allowlist) (ctx : ServerCtx) (e : Event)
    (inv : AuthInvariant config ctx) (enabled : ctx.Enabled e) :
    AuthInvariant config (ctx.next e) :=
  next_rule (AuthInvariant config) (fun _ => True)
    (fun _ _ _ decoder inv stored => store_auth inv stored decoder)
    (fun _ _ _ pkt inv stored => ⟨by rw [(frame_auth allow inv stored _ pkt).1]; exact inv,trivial⟩)
    (fun _ remotePk duplex inv passed fresh => setup_auth allow inv remotePk duplex passed fresh)
    (fun _ _ _ inv stored => close_auth inv stored) ctx e inv enabled

/-! ### The duplexes of the keys -/

theorem duplexes_setup (ctx : ServerCtx) (remotePk : PublicKey) (duplex : Duplex) :
    (ctx.setupPeerStream remotePk duplex).duplexes = Function.update ctx.duplexes (bytesToHex remotePk.toList) (some duplex) := by
  funext k
  by_cases here : k = bytesToHex remotePk.toList
  · subst here
    simp [duplexes,setupPeerStream]
  · simp [duplexes,setupPeerStream,here,AList.lookup_insert_ne]

theorem duplexes_store (stored : ctx.peers.lookup key = some ps) (decoder : FrameDecoder) :
    (ctx.storeDecoder key ps decoder).duplexes = ctx.duplexes := by
  funext k
  by_cases here : k = key
  · subst here
    simp [duplexes,storeDecoder,stored]
  · simp [duplexes,storeDecoder,here,AList.lookup_insert_ne]

theorem duplexes_close (ctx : ServerCtx) (key : Text) : (ctx.onClose key).duplexes = Function.update ctx.duplexes key none := by
  funext k
  cases stored : ctx.peers.lookup key with
  | none =>
    by_cases here : k = key
    · subst here
      simp [duplexes,onClose,stored]
    · simp [duplexes,onClose,stored,here]
  | some ps =>
    by_cases here : k = key
    · subst here
      simp [duplexes,onClose,stored]
    · simp [duplexes,onClose,stored,here,AList.lookup_erase_ne]

end ServerCtx

/-! ### The switch -/

/-- All that a packet causes when it comes from the peer with the address `own`: nothing
where its source differs, else one unchanged copy, to the peer at the destination or to
the TUN. -/
structure Switched (config : Config) (duplexes : Text → Option Duplex) (own : Text) (pkt : Packet)
    (outputs : List Output) : Prop where
  spoofed : readSrcIp pkt ≠ own → outputs = []
  toPeer : readSrcIp pkt = own → ∀ stream, ServerCtx.StreamAt config duplexes (readDestIp pkt) stream →
    outputs = [.streamWrite stream (frameEncode pkt)]
  toTun : readSrcIp pkt = own → (∀ stream, ¬ServerCtx.StreamAt config duplexes (readDestIp pkt) stream) →
    outputs = [.tunWrite pkt]

/-- All that a packet from the TUN causes: one copy to the peer at its destination, if one
is connected. -/
structure Delivered (config : Config) (duplexes : Text → Option Duplex) (pkt : Packet) (outputs : List Output) : Prop where
  toPeer : ∀ stream, ServerCtx.StreamAt config duplexes (readDestIp pkt) stream →
    outputs = [.streamWrite stream (frameEncode pkt)]
  nobody : (∀ stream, ¬ServerCtx.StreamAt config duplexes (readDestIp pkt) stream) → outputs = []

/-- Everything the server does at an event. A connect gives its key the new stream, a close
takes the stream away, and the packets handled at a message are those the decoder of the
stream's key yields for the bytes that came in. -/
def ServerCtx.Answers (config : Config) (ctx : ServerCtx) : Event → Prop
  | .connection remotePk duplex =>
    (ctx.next (.connection remotePk duplex)).duplexes =
      Function.update ctx.duplexes (bytesToHex remotePk.toList) (some duplex) ∧
    ctx.emits (.connection remotePk duplex) = [.opened duplex]
  | .message duplex data => ∃ key ps own, ∃ handled : List Handled,
    ctx.peers.lookup key = some ps ∧ ps.duplex = duplex ∧ config.peers.lookup key = some own ∧
    (ctx.next (.message duplex data)).peers =
      ctx.peers.insert key { ps with decoder := (ps.decoder.feed data).decoder } ∧
    ctx.emits (.message duplex data) = .received duplex data :: handled.map .frame ∧
    handled.map Handled.pkt = (ps.decoder.feed data).frames ∧
    ∀ h ∈ handled, Switched config ctx.duplexes own h.pkt h.outputs
  | .close duplex => ∃ key, ctx.duplexes key = some duplex ∧
    (ctx.next (.close duplex)).duplexes = Function.update ctx.duplexes key none ∧
    ctx.emits (.close duplex) = []
  | .tunPacket pkt => ∃ outputs, (ctx.next (.tunPacket pkt)).duplexes = ctx.duplexes ∧
    ctx.emits (.tunPacket pkt) = [.tun ctx pkt outputs] ∧ Delivered config ctx.duplexes pkt outputs

namespace ServerCtx

variable {ctx : ServerCtx} {config : Config}

theorem frame_switched (allow : config.Allowlist) (inv : AuthInvariant config ctx)
    (stored : ctx.peers.lookup key = some ps) (duplex : Duplex) (pkt : Packet) :
    Switched config ctx.duplexes ps.assignedIp pkt (ctx.onFrame key ps duplex pkt).2 := by
  have exact := routes_exact allow inv
  have own := inv.assigned key ps stored
  have out := (frame_auth allow inv stored duplex pkt).2
  refine ⟨fun differs => by simp [out,differs],?_,?_⟩
  · intro same stream peer
    have readable : readDestIp pkt ≠ [] :=
      readDestIp_readable pkt (same ▸ allow.ne_nil own)
    have route := (exact _ _).mpr peer
    simp only [out,same,↓reduceIte]
    rcases ctx.forward_cases pkt with ⟨stream,found,-,sent⟩ | ⟨unreadable | unrouted,-⟩
    · rw [sent,Option.some.inj (found.symm.trans route),sendFramed]
    · exact absurd unreadable readable
    · exact absurd (route.symm.trans unrouted) (by simp)
  · intro same nobody
    simp only [out,same,↓reduceIte]
    rcases ctx.forward_cases pkt with ⟨stream,found,-,-⟩ | ⟨-,sent⟩
    · exact absurd ((exact _ _).mp found) (nobody stream)
    · exact sent

/-- Frames change nothing, so each meets the state in which the message came. -/
theorem onFrames_auth (allow : config.Allowlist) (inv : AuthInvariant config ctx)
    (stored : ctx.peers.lookup key = some ps) (duplex : Duplex) (frames : List Packet) :
    ctx.onFrames key duplex frames =
      (ctx,frames.map fun pkt => ⟨ctx,key,duplex,pkt,ctx,(ctx.onFrame key ps duplex pkt).2⟩) := by
  induction frames with
  | nil => rfl
  | cons pkt frames ih => simp only [onFrames,stored,(frame_auth allow inv stored duplex pkt).1,ih,List.map_cons]

theorem message_answers (allow : config.Allowlist) (inv : AuthInvariant config ctx)
    (owned : ctx.ownerOf duplex ≠ none) (data : List UInt8) : ctx.Answers config (.message duplex data) := by
  obtain ⟨key,owner⟩ := Option.ne_none_iff_exists'.mp owned
  obtain ⟨ps,stored,same⟩ := ownerOf_some owner
  let fed := ps.decoder.feed data
  have kept := store_auth inv stored fed.decoder
  have there : (ctx.storeDecoder key ps fed.decoder).peers.lookup key = some { ps with decoder := fed.decoder } :=
    AList.lookup_insert _
  have all := onFrames_auth allow kept there duplex fed.frames
  have handles := onMessage_owner stored owner data
  rw [all] at handles
  refine ⟨key,ps,ps.assignedIp,(ctx.onMessage duplex data).2,stored,same,inv.assigned key ps stored,?_,rfl,?_,?_⟩
  · rw [next,handles]
    rfl
  · rw [handles,List.map_map]
    exact List.map_id' _
  · rw [handles]
    rintro h member
    obtain ⟨pkt,-,rfl⟩ := List.mem_map.mp member
    have switched := frame_switched allow kept there duplex pkt
    rwa [duplexes_store stored] at switched

theorem tunPacket_answers (allow : config.Allowlist) (inv : AuthInvariant config ctx) (pkt : Packet) :
    ctx.Answers config (.tunPacket pkt) := by
  have exact := routes_exact allow inv
  refine ⟨ctx.onTunPacket pkt,rfl,rfl,fun stream peer => ?_,fun nobody => ?_⟩
  · obtain ⟨k,-,assigned⟩ := id peer
    simp only [onTunPacket,if_neg (allow.ne_nil assigned),(exact _ _).mpr peer,sendFramed]
  · simp only [onTunPacket]
    split_ifs with empty
    · rfl
    · cases found : ctx.routes.lookup (readDestIp pkt) with
      | none => rfl
      | some stream => exact absurd ((exact _ _).mp found) (nobody stream)

theorem answers (allow : config.Allowlist) (ctx : ServerCtx) (e : Event) (inv : AuthInvariant config ctx)
    (enabled : ctx.Enabled e) : ctx.Answers config e := by
  cases e with
  | connection remotePk duplex => exact ⟨duplexes_setup ctx remotePk duplex,rfl⟩
  | message duplex data => exact message_answers allow inv enabled data
  | close duplex =>
    obtain ⟨key,owner⟩ := Option.ne_none_iff_exists'.mp enabled
    refine ⟨key,duplexes_eq_some.mpr (ownerOf_some owner),?_,rfl⟩
    rw [next,owner]
    exact duplexes_close ctx key
  | tunPacket pkt => exact tunPacket_answers allow inv pkt

end ServerCtx

/-- With an allowlist of distinct addresses the routes are exact after every event, and
every packet of the run is switched by them. -/
theorem auth_switching (config : Config) (allow : config.Allowlist) (events : List Event)
    (admitted : server.Admits (.initial config) events) :
    server.Throughout (ServerCtx.RoutesExact config) (.initial config) events ∧
    server.Along (ServerCtx.Answers config) (.initial config) events := by
  constructor
  · exact Machine.throughout_of_invariant (ServerCtx.AuthInvariant config) (ServerCtx.next_auth allow)
      (fun _ inv => ServerCtx.routes_exact allow inv) (ServerCtx.initial_auth config) admitted
  · exact Machine.along_of_invariant (ServerCtx.next_auth allow) (ServerCtx.answers allow)
      (ServerCtx.initial_auth config) admitted

def twoPeers : Config where
  peers := ((∅ : PeersMap).insert (bytesToHex (List.replicate 32 1)) "10.0.0.2".toList).insert
    (bytesToHex (List.replicate 32 2)) "10.0.0.3".toList

/-- Two peers talk, the first replaces its own live connection, and then closes. -/
theorem auth_switching_two_peers :
    let events := [.connection (Vector.replicate 32 1) 0,.connection (Vector.replicate 32 2) 1,
      .message 0 (frameEncode (ipv4Packet [10,0,0,2] [10,0,0,3])),.connection (Vector.replicate 32 1) 2,
      .tunPacket (ipv4Packet [10,0,0,1] [10,0,0,2]),.close 2,.message 1 (frameEncode (ipv4Packet [10,0,0,3] [10,0,0,2]))]
    server.Throughout (ServerCtx.RoutesExact twoPeers) (.initial twoPeers) events ∧
    server.Along (ServerCtx.Answers twoPeers) (.initial twoPeers) events :=
  auth_switching twoPeers ⟨by decide,by decide +kernel,by decide +kernel⟩ _ (by decide +kernel)

end Nospoon
