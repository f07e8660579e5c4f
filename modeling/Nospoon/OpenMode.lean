import Nospoon.ServerBoard

/-! Open mode: no peers map, every key may connect, and a client's address is the
source of the first packet from which one can be learned. -/
namespace Nospoon

open Library

namespace ServerCtx

/-- The claim on the two maps: every route leads to a stream that some peer with that
address owns, and every peer with an address is routed there. -/
structure RoutesCurrent (ctx : ServerCtx) : Prop where
  owned : ∀ ip stream, ctx.routes.lookup ip = some stream →
    ∃ k ps, ctx.peers.lookup k = some ps ∧ ps.duplex = stream ∧ ps.assignedIp = ip
  routed : ∀ k ps, ctx.peers.lookup k = some ps → ps.assignedIp ≠ [] →
    ctx.routes.lookup ps.assignedIp = some ps.duplex

/-- What every run keeps, replacements of live peers included. -/
structure OpenInvariant (ctx : ServerCtx) : Prop where
  noPeers : ctx.config.peers = ∅
  distinct : ctx.board.Distinct
  complete : ctx.board.Complete
  noEmptyRoute : ctx.routes.lookup [] = none

variable {ctx : ServerCtx}

theorem initial_open (config : Config) (openMode : config.peers = ∅) :
    (initial config).OpenInvariant where
  noPeers := openMode
  distinct := by intro k k' d held held' h; simp [board,initial] at h
  complete := by intro k d a h; simp [board,initial] at h
  noEmptyRoute := rfl

theorem routed_iff_complete : ctx.board.Complete ↔
    ∀ k ps, ctx.peers.lookup k = some ps → ps.assignedIp ≠ [] →
      ctx.routes.lookup ps.assignedIp = some ps.duplex := by
  constructor
  · intro complete k ps stored has
    exact complete k ps.duplex ps.assignedIp (known_of_ne has ▸ slot_of_peer stored)
  · intro routed k d a slot
    obtain ⟨ps,stored,rfl,held⟩ := slot_eq_some.mp slot
    obtain ⟨rfl,has⟩ := known_eq_some.mp held
    exact routed k ps stored has

/-- Under the invariant the claim is soundness of the routes. -/
theorem current_iff_sound (inv : ctx.OpenInvariant) : ctx.RoutesCurrent ↔ ctx.board.Sound := by
  constructor
  · intro current ip stream route
    obtain ⟨k,ps,stored,rfl,rfl⟩ := current.owned ip stream route
    have has : ps.assignedIp ≠ [] := by
      intro empty
      rw [show ctx.board.routes ps.assignedIp = ctx.routes.lookup ps.assignedIp from rfl,empty,
        inv.noEmptyRoute] at route
      contradiction
    exact ⟨k,known_of_ne has ▸ slot_of_peer stored⟩
  · intro sound
    refine ⟨fun ip stream route => ?_,routed_iff_complete.mp inv.complete⟩
    obtain ⟨k,slot⟩ := sound ip stream route
    obtain ⟨ps,stored,same,held⟩ := slot_eq_some.mp slot
    exact ⟨k,ps,stored,same,(known_eq_some.mp held).1⟩

/-- In open mode a connection attaches without an address. -/
theorem board_setup_open (noPeers : ctx.config.peers = ∅) (remotePk : PublicKey) (duplex : Duplex) :
    (ctx.setupPeerStream remotePk duplex).board =
      ctx.board.attach (bytesToHex remotePk.toList) duplex none := by
  rw [board_setup,noPeers]
  rfl

theorem setup_open (inv : ctx.OpenInvariant) (remotePk : PublicKey) (duplex : Duplex)
    (fresh : ctx.ownerOf duplex = none) : (ctx.setupPeerStream remotePk duplex).OpenInvariant := by
  have board := board_setup_open inv.noPeers remotePk duplex
  refine ⟨inv.noPeers,setup_distinct inv.distinct remotePk fresh,?_,?_⟩
  · rw [board]
    exact Switchboard.attach_complete inv.complete (by simp)
  · simpa [setupPeerStream,inv.noPeers] using inv.noEmptyRoute

theorem store_open (inv : ctx.OpenInvariant) (stored : ctx.peers.lookup key = some ps)
    (decoder : FrameDecoder) : (ctx.storeDecoder key ps decoder).OpenInvariant where
  noPeers := inv.noPeers
  distinct := by rw [board_decoder stored]; exact inv.distinct
  complete := by rw [board_decoder stored]; exact inv.complete
  noEmptyRoute := inv.noEmptyRoute

theorem learned_open (inv : ctx.OpenInvariant) (stored : ctx.peers.lookup key = some ps)
    (learns : ctx.Learns ps pkt) :
    (ctx.learned key ps ps.duplex (readSrcIp pkt)).OpenInvariant := by
  obtain ⟨-,readable,-,free⟩ := learns
  have board := board_learned ctx key ps (readSrcIp pkt) readable
  refine ⟨inv.noPeers,learned_distinct inv.distinct stored readable,?_,?_⟩
  · rw [board]
    apply Switchboard.attach_complete inv.complete
    intro a k' d' known _ slot
    cases known
    rw [show ctx.routes.lookup (readSrcIp pkt) = some d' from inv.complete k' d' _ slot] at free
    contradiction
  · simpa [learned,RoutingTable.lookup_add_ne _ _ (Ne.symm readable)] using inv.noEmptyRoute

theorem close_open (inv : ctx.OpenInvariant) (stored : ctx.peers.lookup key = some ps) :
    (ctx.onClose key).OpenInvariant := by
  refine ⟨?_,close_distinct inv.distinct key,?_,?_⟩
  · simpa [onClose,stored] using inv.noPeers
  · rw [board_close]; exact Switchboard.detach_complete inv.distinct inv.complete
  · have := inv.noEmptyRoute
    simp only [onClose,stored]
    split_ifs with empty
    · exact this
    · rw [RoutingTable.lookup_remove_ne _ (Ne.symm empty)]; exact this

/-- A frame either leaves the state alone or learns. -/
theorem frame_open (inv : ctx.OpenInvariant) (stored : ctx.peers.lookup key = some ps) (pkt : Packet) :
    (ctx.onFrame key ps ps.duplex pkt).1.OpenInvariant := by
  rcases ctx.onFrame_cases key ps ps.duplex pkt with ⟨-,eq⟩ | ⟨-,-,eq⟩ | ⟨learns,eq⟩
  · rw [eq]; exact inv
  · rw [eq]; exact inv
  · rw [eq]; exact learned_open inv stored learns

theorem next_open (ctx : ServerCtx) (e : Event) (inv : ctx.OpenInvariant) (enabled : ctx.Enabled e) :
    (ctx.next e).OpenInvariant :=
  next_rule OpenInvariant (fun _ => True)
    (fun _ _ _ decoder inv stored => store_open inv stored decoder)
    (fun _ _ _ pkt inv stored => ⟨frame_open inv stored pkt,trivial⟩)
    (fun _ remotePk duplex inv _ fresh => setup_open inv remotePk duplex fresh)
    (fun _ _ _ inv stored => close_open inv stored) ctx e inv enabled

/-- A message never strands a route: learning only adds one to its sender. -/
theorem message_sound (inv : ctx.OpenInvariant) (sound : ctx.board.Sound) (duplex : Duplex)
    (data : List UInt8) : (ctx.onMessage duplex data).1.board.Sound := by
  have both := onMessage_rule (fun ctx => ctx.OpenInvariant ∧ ctx.board.Sound) (fun _ => True)
    (fun ctx key ps decoder h stored =>
      ⟨store_open h.1 stored decoder,by rw [board_decoder stored]; exact h.2⟩)
    (fun ctx key ps pkt h stored => ⟨?_,trivial⟩) ⟨inv,sound⟩ duplex data
  · exact both.1.2
  · refine ⟨frame_open h.1 stored pkt,?_⟩
    rcases ctx.onFrame_cases key ps ps.duplex pkt with ⟨-,eq⟩ | ⟨-,-,eq⟩ | ⟨learns,eq⟩
    · rw [eq]; exact h.2
    · rw [eq]; exact h.2
    · rw [eq,board_learned ctx key ps _ learns.2.1,
        Switchboard.attach_sound_iff h.1.distinct h.1.complete h.2]
      intro d' a slot
      rw [slot_of_peer stored,learns.1] at slot
      cases slot

/-- A connection that does not replace a peer whose address was already learned. -/
def ReplacesUnlearned (ctx : ServerCtx) : Event → Prop
  | .connection remotePk _ =>
    ∀ ps ∈ ctx.peers.lookup (bytesToHex remotePk.toList), ps.assignedIp = []
  | _ => True

instance (ctx : ServerCtx) : ∀ e, Decidable (ctx.ReplacesUnlearned e)
  | .connection .. => inferInstanceAs (Decidable (∀ _ ∈ _, _))
  | .message .. => isTrue trivial
  | .close .. => isTrue trivial
  | .tunPacket _ => isTrue trivial

/-- The step that decides: among all events only a replacement can strand a route, and
it does so exactly when the replaced peer had learned an address. -/
theorem next_current_iff (ctx : ServerCtx) (e : Event) (inv : ctx.OpenInvariant)
    (current : ctx.RoutesCurrent) (enabled : ctx.Enabled e) :
    (ctx.next e).RoutesCurrent ↔ ctx.ReplacesUnlearned e := by
  have sound := (current_iff_sound inv).mp current
  rw [current_iff_sound (next_open ctx e inv enabled)]
  cases e with
  | connection remotePk duplex =>
    simp only [next,ReplacesUnlearned]
    rw [board_setup_open inv.noPeers,Switchboard.attach_sound_iff inv.distinct inv.complete sound]
    constructor
    · intro keeps ps stored
      by_contra has
      have lost := keeps ps.duplex ps.assignedIp (known_of_ne has ▸ slot_of_peer stored)
      contradiction
    · intro unlearned d' a slot
      obtain ⟨ps,stored,-,held⟩ := slot_eq_some.mp slot
      rw [unlearned ps stored] at held
      contradiction
  | message duplex data =>
    simp only [ReplacesUnlearned,iff_true]
    exact message_sound inv sound duplex data
  | close duplex =>
    simp only [next,ReplacesUnlearned,iff_true]
    cases owner : ctx.ownerOf duplex with
    | none => exact sound
    | some key => rw [board_close]; exact Switchboard.detach_sound sound
  | tunPacket data => simpa only [next,ReplacesUnlearned,iff_true] using sound

theorem initial_current (config : Config) : (initial config).RoutesCurrent :=
  ⟨by simp [initial],by simp [initial]⟩

end ServerCtx

/-- In open mode routes and peers agree after every event of a run exactly when no
connection of the run replaces a peer that had already learned its address. -/
theorem open_routes_current_iff (config : Config) (openMode : config.peers = ∅)
    (events : List Event) (admitted : server.Admits (.initial config) events) :
    server.Throughout ServerCtx.RoutesCurrent (.initial config) events ↔
      server.Along ServerCtx.ReplacesUnlearned (.initial config) events :=
  Machine.throughout_iff_along ServerCtx.OpenInvariant (fun ctx e inv _ enabled => ServerCtx.next_open ctx e inv enabled)
    ServerCtx.next_current_iff (ServerCtx.initial_open config openMode)
    (ServerCtx.initial_current config) admitted

/-- One client learns 10.0.0.2, its peer sends to it, and it closes before it reconnects. -/
theorem open_routes_current_orderly :
    server.Throughout ServerCtx.RoutesCurrent (.initial {})
      [.connection (Vector.replicate 32 1) 0,
        .message 0 (frameEncode (ipv4Packet [10,0,0,2] [8,8,8,8])),
        .tunPacket (ipv4Packet [8,8,8,8] [10,0,0,2]),.close 0,
        .connection (Vector.replicate 32 1) 1] :=
  (open_routes_current_iff {} rfl _ (by decide +kernel)).mpr (by decide +kernel)

/-- The same client reconnects before its first stream is reported closed: the route
for 10.0.0.2 still leads to the duplex that the replacement destroyed. -/
theorem open_routes_stranded :
    ¬∀ (config : Config) (events : List Event), config.peers = ∅ →
      server.Admits (.initial config) events →
      server.Throughout ServerCtx.RoutesCurrent (.initial config) events := by
  intro claim
  have current := (claim {} [.connection (Vector.replicate 32 1) 0,
    .message 0 (frameEncode (ipv4Packet [10,0,0,2] [8,8,8,8])),
    .connection (Vector.replicate 32 1) 1] rfl (by decide +kernel)).last
  obtain ⟨k,ps,stored,same,-⟩ := current.owned "10.0.0.2".toList 0 (by decide +kernel)
  exact ServerCtx.ownerOf_none.mp (by decide +kernel) k ps stored same

/-! ### Source control -/

namespace Handled

/-- What open mode promises of a frame that causes an output: a readable source, which
is the address its sender has learned, routed to the sender. -/
def SourceLearned (h : Handled) : Prop :=
  h.outputs ≠ [] → readSrcIp h.pkt ≠ [] ∧
    (∃ ps, h.after.peers.lookup h.key = some ps ∧ ps.duplex = h.duplex ∧
      ps.assignedIp = readSrcIp h.pkt) ∧
    h.after.routes.lookup (readSrcIp h.pkt) = some h.duplex

/-- The sender has an address already, or its frame has a readable source that is link
local or not routed yet. -/
def Identified (h : Handled) : Prop :=
  (∀ ps ∈ h.before.peers.lookup h.key, ps.assignedIp ≠ []) ∨
    (readSrcIp h.pkt ≠ [] ∧ ("fe80:".toList <+: readSrcIp h.pkt ∨
      h.before.routes.lookup (readSrcIp h.pkt) = none))

end Handled

namespace ServerCtx

variable {ctx : ServerCtx}

/-- The callback falls through to forwarding in two cases it does not test: no source
at all, and a source that is already routed. -/
theorem frame_source_iff (inv : ctx.OpenInvariant) (stored : ctx.peers.lookup key = some ps)
    (pkt : Packet) :
    (Handled.mk ctx key ps.duplex pkt (ctx.onFrame key ps ps.duplex pkt).1
      (ctx.onFrame key ps ps.duplex pkt).2).SourceLearned ↔
    (Handled.mk ctx key ps.duplex pkt (ctx.onFrame key ps ps.duplex pkt).1
      (ctx.onFrame key ps ps.duplex pkt).2).Identified := by
  simp only [Handled.SourceLearned,Handled.Identified,stored,Option.mem_def,Option.some.injEq,
    forall_eq']
  rcases ctx.onFrame_cases key ps ps.duplex pkt with ⟨dropped,eq⟩ | ⟨kept,notLearns,eq⟩ | ⟨learns,eq⟩
  · rw [eq]
    simp only [ne_eq,not_true_eq_false,false_implies,true_iff]
    rcases dropped with ⟨assigned,-⟩ | ⟨-,readable,link⟩
    · exact .inl assigned
    · exact .inr ⟨readable,.inl link⟩
  · rw [eq]
    have out := ctx.forward_ne_nil pkt
    constructor
    · intro promise
      obtain ⟨readable,⟨ps',stored',-,same⟩,-⟩ := promise out
      cases stored.symm.trans stored'
      exact .inl (same ▸ readable)
    · rintro identified -
      have assigned : ps.assignedIp ≠ [] := by
        intro none
        rcases identified with has | ⟨readable,link | free⟩
        · exact has none
        · exact kept (.inr ⟨none,readable,link⟩)
        · by_cases link : "fe80:".toList <+: readSrcIp pkt
          · exact kept (.inr ⟨none,readable,link⟩)
          · exact notLearns ⟨none,readable,link,free⟩
      have same : readSrcIp pkt = ps.assignedIp := by
        by_contra differs
        exact kept (.inl ⟨assigned,differs⟩)
      rw [same]
      exact ⟨assigned,⟨ps,stored,rfl,rfl⟩,routed_iff_complete.mp inv.complete key ps stored assigned⟩
  · rw [eq]
    obtain ⟨-,readable,-,free⟩ := learns
    refine iff_of_true (fun _ => ⟨readable,?_,?_⟩) (.inr ⟨readable,.inr free⟩)
    · exact ⟨_,AList.lookup_insert _,rfl,rfl⟩
    · exact RoutingTable.lookup_add_self _ _ _

end ServerCtx

/-- In every open-mode run, a frame meets the source promise exactly when its sender is
identified at the moment it arrives. -/
theorem open_source_iff (config : Config) (openMode : config.peers = ∅) (events : List Event)
    (admitted : server.Admits (.initial config) events) (h : Handled)
    (logged : .frame h ∈ server.log (.initial config) events) :
    h.SourceLearned ↔ h.Identified := by
  refine Machine.log_forall ServerCtx.OpenInvariant
    (fun r => ∀ h, r = .frame h → (h.SourceLearned ↔ h.Identified)) ServerCtx.next_open ?_
    (ServerCtx.initial_open config openMode) admitted _ logged h rfl
  rintro ctx e inv - r member h rfl
  exact ServerCtx.emits_rule ServerCtx.OpenInvariant (fun h => h.SourceLearned ↔ h.Identified)
    (fun _ _ _ decoder inv stored => ServerCtx.store_open inv stored decoder)
    (fun _ _ _ pkt inv stored => ⟨ServerCtx.frame_open inv stored pkt,
      ServerCtx.frame_source_iff inv stored pkt⟩) inv e h member

/-- The frames of a log that `p` singles out. -/
theorem exists_frame (log : List Record) (p : Handled → Bool)
    (found : log.any (fun r => match r with | .frame h => p h | _ => false) = true) :
    ∃ h, .frame h ∈ log ∧ p h = true := by
  obtain ⟨r,member,holds⟩ := List.any_eq_true.mp found
  cases r with
  | frame h => exact ⟨h,member,holds⟩
  | opened | received | tun => contradiction

/-- A first packet from 10.0.0.2 is identified, and meets the promise. -/
theorem open_source_first_packet : ∃ h,
    .frame h ∈ server.log (.initial {}) [.connection (Vector.replicate 32 1) 0,
      .message 0 (frameEncode (ipv4Packet [10,0,0,2] [8,8,8,8]))] ∧
    h.outputs ≠ [] ∧ h.SourceLearned := by
  obtain ⟨h,member,holds⟩ := exists_frame
    (server.log (.initial {}) [.connection (Vector.replicate 32 1) 0,
      .message 0 (frameEncode (ipv4Packet [10,0,0,2] [8,8,8,8]))])
    (fun h => h.outputs ≠ [] ∧ readSrcIp h.pkt ≠ [] ∧
      h.before.routes.lookup (readSrcIp h.pkt) = none) (by decide +kernel)
  obtain ⟨out,readable,free⟩ := decide_eq_true_eq.mp holds
  exact ⟨h,member,out,(open_source_iff {} rfl _ (by decide +kernel) h member).mpr
    (.inr ⟨readable,.inr free⟩)⟩

/-- Two clients send from 10.0.0.2. The second never learns an address, and its packet
is written to the TUN all the same. -/
theorem open_source_taken :
    ¬∀ (config : Config) (events : List Event), config.peers = ∅ →
      server.Admits (.initial config) events →
      ∀ h, .frame h ∈ server.log (.initial config) events → h.SourceLearned := by
  intro claim
  have promise := claim {} [.connection (Vector.replicate 32 1) 0,
    .message 0 (frameEncode (ipv4Packet [10,0,0,2] [8,8,8,8])),
    .connection (Vector.replicate 32 2) 1,
    .message 1 (frameEncode (ipv4Packet [10,0,0,2] [8,8,8,8]))] rfl (by decide +kernel)
  obtain ⟨h,member,holds⟩ := exists_frame
    (server.log (.initial {}) [.connection (Vector.replicate 32 1) 0,
      .message 0 (frameEncode (ipv4Packet [10,0,0,2] [8,8,8,8])),
      .connection (Vector.replicate 32 2) 1,
      .message 1 (frameEncode (ipv4Packet [10,0,0,2] [8,8,8,8]))])
    (fun h => h.outputs ≠ [] ∧ (h.after.peers.lookup h.key).all fun ps => ps.assignedIp = [])
    (by decide +kernel)
  obtain ⟨out,unlearned⟩ := decide_eq_true_eq.mp holds
  obtain ⟨readable,⟨ps,stored,-,same⟩,-⟩ := promise h member out
  rw [stored,Option.all_some,decide_eq_true_eq] at unlearned
  exact readable (same ▸ unlearned)

end Nospoon
