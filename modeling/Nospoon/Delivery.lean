import Nospoon.Relaying

/-! What the network delivers, over every run and on either implementation of each process:
links are queues, nothing is lost on them, doubled or reordered while both ends are there,
and a packet that reaches a member was sent by the member whose address it bears or came
from the server's own TUN. -/
namespace Nospoon

open Library Library.Seen

variable {honest : PublicKey → Bool} {which : Implementation} {config : Config}

/-! ### The hub behind the network -/

/-- The links, key for key the spokes of a hub. An honest member's is steady if the server
met it with a clean decoder. -/
def Network.Spoked (honest : PublicKey → Bool) (net : Network) (spokes : List (Spoke PublicKey Packet)) : Prop :=
  ∀ (d : Duplex) (link : Link), net.links[d]? = some link →
    ∃ spoke, spokes[d]? = some spoke ∧ spoke.key = link.key ∧ (link.Faithful honest → spoke.steady = true)

theorem Follows.spoked {net : Network} {spokes : List (Spoke PublicKey Packet)} (follows : Follows honest which config level net spokes) :
    net.Spoked honest spokes := by
  intro d link found
  obtain ⟨spoke,found',paired⟩ := follows.wired.spoke found
  exact ⟨spoke,found',paired.key,fun faithful => paired.steady.mpr fun _ => faithful⟩

/-- At the end of a run the queues of the hub account for what was watched. -/
theorem network_accounted (allow : which = .cpp → config.Allowlist) (programs : PublicKey → Program) (events : List NetworkEvent)
    (admitted : (network honest).Admits (.initial which config programs) events) :
    ∃ spokes, Follows honest which config level ((network honest).run (.initial which config programs) events) spokes ∧
      Hub.Queues (spokes,(network honest).log (.initial which config programs) events) ∧
      Hub.Provenance (which.addressing config) (spokes,(network honest).log (.initial which config programs) events) := by
  obtain ⟨es,can,shows,ends⟩ :=
    (network_simulates honest allow).run (follows_initial honest which config programs) admitted
  refine ⟨_,ends,?_,?_⟩
  · rw [← shows]
    exact Hub.run_queues es can
  · rw [← shows]
    exact Hub.run_provenance es can

/-- Every run of server and clients, with any interleaving of chunks, connects, closes and
hostile bytes, shows what some run of the hub shows. -/
theorem network_refines_hub (which : Implementation) (config : Config) (allow : which = .cpp → config.Allowlist)
    (honest : PublicKey → Bool) (programs : PublicKey → Program) (events : List NetworkEvent)
    (admitted : (network honest).Admits (.initial which config programs) events) :
    ∃ es, (hub (which.addressing config)).Admits [] es ∧
      (hub (which.addressing config)).log [] es = (network honest).log (.initial which config programs) events ∧
      ((network honest).run (.initial which config programs) events).Spoked honest ((hub (which.addressing config)).run [] es) := by
  obtain ⟨es,can,shows,ends⟩ :=
    (network_simulates honest allow).run (follows_initial honest which config programs) admitted
  exact ⟨es,can,shows,ends.spoked⟩

/-- The first peer runs the JavaScript client, everybody else the C++ client. -/
def mixed (key : PublicKey) : Program := if key = Vector.replicate 32 1 then .js false else .cpp {}

/-- Two peers of the JavaScript server write to each other, one packet is handed over in two
chunks each way; then the first peer leaves and comes back. -/
def conversation : List NetworkEvent :=
  [.started (Vector.replicate 32 1),.accepted 0,.script (Vector.replicate 32 1) (.opened 0 none false),
    .opened (Vector.replicate 32 2),.connected 1 0 [] false,
    .clientTun (Vector.replicate 32 2) true (ipv4Packet [10,0,0,3] [10,0,0,2]),.accepted 1,
    .clientTun (Vector.replicate 32 1) true (ipv4Packet [10,0,0,2] [10,0,0,3]),.up 0 3,.serverKeepalive [0,1],
    .script (Vector.replicate 32 1) (.interval 0),.up 0 1000,.up 1 1000,.down 1 9,.down 1 1000,.down 0 1000,
    .script (Vector.replicate 32 1) (.close 0 100 false),.serverDestroy 0,.script (Vector.replicate 32 1) (.timeout 1100),
    .accepted 2,.serverClose 0]

theorem network_refines_hub_conversation : ∃ es, (hub (Implementation.js.addressing twoPeers)).Admits [] es ∧
    (hub (Implementation.js.addressing twoPeers)).log [] es = (network fun _ => true).log (.initial .js twoPeers mixed) conversation ∧
    ((network fun _ => true).run (.initial .js twoPeers mixed) conversation).Spoked (fun _ => true)
      ((hub (Implementation.js.addressing twoPeers)).run [] es) :=
  network_refines_hub .js twoPeers (by intro cpp; contradiction) _ mixed conversation (by decide +kernel)

/-! ### Queues -/

namespace Network

/-- What the two ends of a link can say of each other: the server took a front of what the
member sent, all of it once nothing is on the way and its end still there, and the member
got a front of what the server put, all of it likewise. -/
structure FifoOn (honest : PublicKey → Bool) (net : Network) (log : List (Seen Packet)) (d : Duplex) (link : Link) : Prop where
  up : link.Faithful honest → tookOn d log <+: sentOn d log
  allUp : link.Faithful honest → net.server.Reads d → link.up = [] → tookOn d log = sentOn d log
  down : arrivedOn d log <+: (putOn d log).map Prod.snd
  allDown : (net.members link.key).Hears d → link.down = [] → arrivedOn d log = (putOn d log).map Prod.snd

def Fifo (honest : PublicKey → Bool) (net : Network) (log : List (Seen Packet)) : Prop :=
  ∀ (d : Duplex) (link : Link), net.links[d]? = some link → net.FifoOn honest log d link

end Network

/-- Links are first in, first out. -/
theorem network_fifo (which : Implementation) (config : Config) (allow : which = .cpp → config.Allowlist)
    (honest : PublicKey → Bool) (programs : PublicKey → Program) (events : List NetworkEvent)
    (admitted : (network honest).Admits (.initial which config programs) events) :
    ((network honest).run (.initial which config programs) events).Fifo honest
      ((network honest).log (.initial which config programs) events) := by
  intro d link found
  obtain ⟨spokes,follows,queues,-⟩ := network_accounted allow programs events admitted
  obtain ⟨spoke,found',paired⟩ := follows.wired.spoke found
  have downwards := queues.down d _ found'
  have upwards (faithful : link.Faithful honest) := queues.up d _ found' (paired.steady.mpr fun _ => faithful)
  dsimp only at downwards upwards
  refine ⟨fun faithful => ⟨_,upwards faithful⟩,fun faithful reads none => ?_,⟨_,downwards⟩,fun hears none => ?_⟩
  · obtain ⟨decoder,_,received⟩ := follows.server.receive allow reads []
    obtain ⟨rest,queue,flight⟩ := paired.up faithful decoder.buf (.inr received.held)
    rw [none] at flight
    have empty : spoke.up = [] := queue.trans flight.done.1
    rw [← upwards faithful,empty,List.append_nil]
  · obtain ⟨buf,held⟩ := ClientProcess.hears_buffers hears
    have flight := paired.down buf (.inr ⟨link.key,held⟩)
    rw [none] at flight
    rw [← downwards,flight.done.1,List.append_nil]

theorem twoPeers_allowlist : twoPeers.Allowlist := ⟨by decide,by decide +kernel,by decide +kernel⟩

/-- The same peers at the C++ server, where the second one's packet is still on the way when
the first one leaves. -/
def departure : List NetworkEvent :=
  [.started (Vector.replicate 32 1),.accepted 0,.opened (Vector.replicate 32 2),.connected 1 0 [] false,.accepted 1,
    .clientTun (Vector.replicate 32 2) true (ipv4Packet [10,0,0,3] [10,0,0,2]),
    .clientTun (Vector.replicate 32 1) true (ipv4Packet [10,0,0,2] [10,0,0,3]),.up 0 3,.serverKeepalive [0,1],.up 0 1000,
    .down 1 9,.script (Vector.replicate 32 1) (.close 0 100 false),.up 1 1000,.down 1 1000,.serverClose 0]

theorem network_fifo_departure : ((network fun _ => true).run (.initial .cpp twoPeers mixed) departure).Fifo (fun _ => true)
    ((network fun _ => true).log (.initial .cpp twoPeers mixed) departure) :=
  network_fifo .cpp twoPeers (fun _ => twoPeers_allowlist) _ mixed departure (by decide +kernel)

/-! ### Origins -/

namespace Network

/-- What arrived over link `e`, each packet with the link it came from, or none from the
server's own TUN. -/
structure AuthenticOn (honest : PublicKey → Bool) (g : Addressing PublicKey Packet Text) (net : Network)
    (log : List (Seen Packet)) (e : Duplex) (items : List (Option Duplex × Packet)) : Prop where
  arrived : items.map Prod.snd = arrivedOn e log
  destination : ∀ x ∈ items, Addressed g net.links e (g.dst x.2)
  source : ∀ d pkt, (some d,pkt) ∈ items → Addressed g net.links d (g.src pkt)
  /-- From an honest member's link that started with an empty decoder only what it sent, no
  packet twice and in the order it sent them. -/
  sent : ∀ d link, net.links[d]? = some link → link.Faithful honest →
    ((items.filter fun x => x.1 = some d).map Prod.snd).Sublist (sentOn d log)
  issued : ((items.filter fun x => x.1 = none).map Prod.snd).Sublist (issuedIn log)

def Authentic (honest : PublicKey → Bool) (g : Addressing PublicKey Packet Text) (net : Network) (log : List (Seen Packet)) : Prop :=
  ∀ (e : Duplex) (link : Link), net.links[e]? = some link → ∃ items, net.AuthenticOn honest g log e items

end Network

/-- Whatever hostile keys write to their links, every packet that reaches a member bears
the address of the link it came over and was meant for this member; from an honest
member's link that started with an empty decoder it is one that member sent. -/
theorem network_authentic (which : Implementation) (config : Config) (allow : which = .cpp → config.Allowlist)
    (honest : PublicKey → Bool) (programs : PublicKey → Program) (events : List NetworkEvent)
    (admitted : (network honest).Admits (.initial which config programs) events) :
    ((network honest).run (.initial which config programs) events).Authentic honest (which.addressing config)
      ((network honest).log (.initial which config programs) events) := by
  intro e link found
  obtain ⟨spokes,follows,queues,provenance⟩ := network_accounted allow programs events admitted
  have wired := follows.wired
  obtain ⟨spoke,found',-⟩ := wired.spoke found
  obtain ⟨items,-,delivered⟩ := Hub.delivered queues provenance found'
  refine ⟨items,delivered.arrived,fun x member => ?_,fun d pkt member => ?_,fun d link' there faithful => ?_,
    delivered.issued⟩
  · exact wired.addressed (delivered.addressed x.1 x.2 member).1
  · exact wired.addressed ((delivered.addressed (some d) pkt member).2 d rfl)
  · obtain ⟨spoke,at_d,-,steady⟩ := follows.spoked d link' there
    exact delivered.relayed d spoke at_d (steady faithful)

/-- The first peer is hostile: it writes a packet under a foreign address, one under its own
and half a frame. Then the second one opens a stream besides the one it has. -/
def intrusion : List NetworkEvent :=
  [.opened (Vector.replicate 32 1),.accepted 0,.opened (Vector.replicate 32 2),.accepted 1,.connected 1 0 [] false,
    .inject 0 (frameEncode (ipv4Packet [10,0,0,9] [10,0,0,3])),.inject 0 (frameEncode (ipv4Packet [10,0,0,2] [10,0,0,3])),
    .inject 0 [0,0],.up 0 1000,.serverTun (ipv4Packet [10,0,0,1] [10,0,0,3]),.down 1 1000,.opened (Vector.replicate 32 2),
    .accepted 2,.serverTun (ipv4Packet [10,0,0,1] [10,0,0,3]),.serverClose 2]

theorem network_authentic_intrusion :
    ((network fun key => key = Vector.replicate 32 2).run (.initial .js twoPeers fun _ => .cpp {}) intrusion).Authentic
      (fun key => key = Vector.replicate 32 2) (Implementation.js.addressing twoPeers)
      ((network fun key => key = Vector.replicate 32 2).log (.initial .js twoPeers fun _ => .cpp {}) intrusion) :=
  network_authentic .js twoPeers (by intro cpp; contradiction) _ _ intrusion (by decide +kernel)

end Nospoon
