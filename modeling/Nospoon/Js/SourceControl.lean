import Nospoon.Js.LatestHolder

/-! Source control in the JavaScript server: what a connection may inject. A packet that
leaves the decoder's callback should come from the address its connection holds, given
or learned. The callback's chain of conditions keeps this except in one combination. -/
namespace Nospoon.Js

open Library

/-- The version nibble; `null` for an empty packet. -/
def readIpVersion (packet : Packet) : Option UInt8 := packet.head?.map fun first : UInt8 => (first >>> 4) &&& 0x0f

/-- The bytes are an IPv4 or IPv6 packet, at least up to the end of its fixed header. -/
def CompleteHeader (packet : Packet) : Prop :=
  (readIpVersion packet = some 4 ∧ 20 ≤ packet.length) ∨
    (readIpVersion packet = some 6 ∧ 40 ≤ packet.length)

instance (packet : Packet) : Decidable (CompleteHeader packet) := inferInstanceAs (Decidable (_ ∨ _))

theorem readSourceIp_eq_none : readSourceIp packet = none ↔ ¬CompleteHeader packet := by
  cases packet with
  | nil => simp [readSourceIp,readIp,CompleteHeader,readIpVersion]
  | cons first rest =>
    simp only [readSourceIp,readIp,CompleteHeader,readIpVersion,List.head?_cons,Option.map_some,Option.some.injEq]
    split_ifs with four six
    · exact iff_of_false not_false (not_not.mpr (.inl four))
    · exact iff_of_false not_false (not_not.mpr (.inr six))
    · simp only [true_iff]
      rintro (h | h)
      · exact four h
      · exact six h

theorem completeHeader_of_source (h : readSourceIp packet = some ip) : CompleteHeader packet := by
  by_contra incomplete
  rw [readSourceIp_eq_none.mpr incomplete] at h
  contradiction

namespace Server

/-- The address a connection holds: given in authenticated mode, learned in open mode. -/
def heldBy (s : Server) (conn : Conn) : Option Text :=
  (s.connections.lookup conn).bind fun c => truthy c.clientIp

variable {s : Server} {conn : Conn} {c : Connection}

theorem heldBy_found (found : s.connections.lookup conn = some c) : s.heldBy conn = truthy c.clientIp := by
  rw [heldBy,found,Option.bind_some]

theorem deliver_cases (s : Server) (packet : Packet) :
    (∃ peerConn, s.deliver packet = [.streamWrite peerConn (encode packet)]) ∨ s.deliver packet = [.tunWrite packet] := by
  unfold deliver
  cases s.target (readDestinationIp packet) with
  | none => exact .inr rfl
  | some peerConn => exact .inl ⟨peerConn,rfl⟩

theorem deliver_ne_nil (s : Server) (packet : Packet) : s.deliver packet ≠ [] := by
  rcases s.deliver_cases packet with ⟨peerConn,out⟩ | out <;> simp [out]

/-- In authenticated mode every connection was given an address. -/
def Assigned (s : Server) : Prop :=
  s.allowedPeers ≠ none → ∀ conn c, s.connections.lookup conn = some c → c.clientIp ≠ none

end Server

/-- Whatever the callback wrote is its packet, a complete one, and comes from the address
the connection holds once the callback is done. -/
def Handled.Controlled (h : Handled) : Prop :=
  ∀ o ∈ h.outputs, (o = .tunWrite h.packet ∨ ∃ peerConn, o = .streamWrite peerConn (encode h.packet)) ∧
    CompleteHeader h.packet ∧
    ∃ ip, readSourceIp h.packet = some ip ∧ h.after.heldBy h.conn = some ip

/-- Anything but an unreadable packet from a connection of open mode that has no address yet. -/
def Handled.Sourced (h : Handled) : Prop :=
  h.before.allowedPeers ≠ none ∨ h.before.heldBy h.conn ≠ none ∨ CompleteHeader h.packet

def Record.Controlled : Record → Prop
  | .packet h => h.Controlled
  | .opened .. | .tun .. => True

def Record.Sourced : Record → Prop
  | .packet h => h.Sourced
  | .opened .. | .tun .. => True

instance : ∀ r : Record, Decidable r.Sourced
  | .packet h => inferInstanceAs (Decidable (h.before.allowedPeers ≠ none ∨ h.before.heldBy h.conn ≠ none ∨
      CompleteHeader h.packet))
  | .opened .. | .tun .. => isTrue trivial

section Callback

variable {s : Server} {conn : Conn} {c : Connection} {packet : Packet}

theorem Handled.controlled_of_silent {h : Handled} (silent : h.outputs = []) : h.Controlled := by
  intro o member
  rw [silent] at member
  contradiction

/-- A delivered packet with the source its connection holds is controlled. -/
theorem Handled.controlled_of_source {h : Handled} (out : h.outputs = h.after.deliver h.packet)
    (source : readSourceIp h.packet = some ip) (held : h.after.heldBy h.conn = some ip) : h.Controlled := by
  intro o member
  refine ⟨?_,completeHeader_of_source source,ip,source,held⟩
  rw [out] at member
  rcases h.after.deliver_cases h.packet with ⟨peerConn,sent⟩ | sent
  · rw [sent,List.mem_singleton] at member
    exact .inr ⟨peerConn,member⟩
  · rw [sent,List.mem_singleton] at member
    exact .inl member

/-- An unreadable packet that was delivered is not controlled. -/
theorem Handled.not_controlled {h : Handled} (out : h.outputs = h.after.deliver h.packet)
    (unreadable : ¬CompleteHeader h.packet) : ¬h.Controlled := by
  intro controlled
  obtain ⟨o,member⟩ := List.exists_mem_of_ne_nil _ (h.after.deliver_ne_nil h.packet)
  exact unreadable (controlled o (out ▸ member)).2.1

/-- The callback controls the source exactly of the packets that are `Sourced`. The cases
are those of its chain of conditions. -/
theorem onPacket_controlled_iff (assigned : s.Assigned) (found : s.connections.lookup conn = some c)
    (packet : Packet) :
    (s.onPacket conn c packet).Controlled ↔ (s.onPacket conn c packet).Sourced := by
  have held := Server.heldBy_found found
  have passes (ip : Text) (source : readSourceIp packet = some ip) (holds : truthy c.clientIp = some ip) :
      Handled.Controlled ⟨s,conn,packet,none,s,s.deliver packet⟩ :=
    Handled.controlled_of_source rfl source (held.trans holds)
  have dropped : Handled.Controlled ⟨s,conn,packet,none,s,[]⟩ := Handled.controlled_of_silent rfl
  unfold Server.onPacket
  dsimp only
  split
  · rename_i peers mode
    have given : c.clientIp ≠ none := assigned (by simp [mode]) conn c found
    obtain ⟨ip,own⟩ := Option.ne_none_iff_exists'.mp given
    have sourced (outputs : List Output) : Handled.Sourced ⟨s,conn,packet,none,s,outputs⟩ := .inl (by simp [mode])
    split_ifs with differs
    · exact iff_of_true dropped (sourced _)
    · have source : readSourceIp packet = some ip := own ▸ not_not.mp differs
      have holds : truthy c.clientIp = some ip := own ▸ truthy_some (readSourceIp_ne_nil source)
      exact iff_of_true (passes ip source holds) (sourced _)
  · rename_i openMode
    split
    · rename_i src unlearned source
      have sourced (after : Server) (learned : Option Text) (outputs : List Output) :
          Handled.Sourced ⟨s,conn,packet,learned,after,outputs⟩ :=
        .inr (.inr (completeHeader_of_source source))
      split_ifs with link taken
      · exact iff_of_true dropped (sourced _ _ _)
      · exact iff_of_true dropped (sourced _ _ _)
      · refine iff_of_true (Handled.controlled_of_source rfl source ?_) (sourced _ _ _)
        rw [Server.heldBy_found (AList.lookup_insert _)]
        exact truthy_some (readSourceIp_ne_nil source)
    · rename_i unlearned unreadable
      have incomplete := readSourceIp_eq_none.mp unreadable
      refine iff_of_false (Handled.not_controlled rfl incomplete) ?_
      rintro (mode | holds | complete)
      · exact mode openMode
      · exact holds (held.trans unlearned)
      · exact incomplete complete
    · rename_i ip learned
      have sourced (outputs : List Output) : Handled.Sourced ⟨s,conn,packet,none,s,outputs⟩ :=
        .inr (.inl (by simp [held,learned]))
      split_ifs with differs
      · exact iff_of_true dropped (sourced _)
      · exact iff_of_true (passes ip (not_not.mp differs) learned) (sourced _)

end Callback

/-! ### Runs -/

section Rules

variable (inv : Server → Prop) (good : Handled → Prop)
  (packet : ∀ s conn c packet, inv s → s.connections.lookup conn = some c →
    inv (s.onPacket conn c packet).after ∧ good (s.onPacket conn c packet))

include packet

/-- What the callback preserves and does with every packet holds of all packets of a chunk. -/
theorem onPackets_rule (packets : List Packet) (start : inv s) (found : s.connections.lookup conn = some c) :
    inv (s.onPackets conn packets).1 ∧ ∀ h ∈ (s.onPackets conn packets).2, good h := by
  induction packets generalizing s c with
  | nil => exact ⟨start,by simp [Server.onPackets]⟩
  | cons p rest ih =>
    obtain ⟨kept,handled⟩ := packet s conn c p start found
    obtain ⟨c',found'⟩ := onPacket_found found p
    obtain ⟨later,all⟩ := ih kept found'
    simp only [Server.onPackets,found]
    refine ⟨later,fun h member => ?_⟩
    rcases List.mem_cons.mp member with rfl | member
    · exact handled
    · exact all h member

/-- A chunk stores the new buffer and then hands on its packets. -/
theorem onData_rule
    (store : ∀ s conn c buffer, inv s → s.connections.lookup conn = some c →
      inv { s with connections := s.connections.insert conn { c with buffer } })
    (start : inv s) (conn : Conn) (chunk : List UInt8) :
    inv (s.onData conn chunk).1 ∧ ∀ h ∈ (s.onData conn chunk).2, good h := by
  unfold Server.onData
  cases found : s.connections.lookup conn with
  | none => exact ⟨start,by simp⟩
  | some c => exact onPackets_rule inv good packet _ (store s conn c _ start found) (AList.lookup_insert _)

end Rules

/-- Storing a connection that was given an address keeps every connection assigned. -/
theorem Server.Assigned.store {s : Server} (assigned : s.Assigned) (conn : Conn) (c : Connection)
    (given : s.allowedPeers ≠ none → c.clientIp ≠ none) (router : Router) :
    Server.Assigned { s with router,connections := s.connections.insert conn c } := by
  intro mode conn' c' found
  by_cases here : conn' = conn
  · subst here
    rw [AList.lookup_insert] at found
    exact Option.some.inj found ▸ given mode
  · rw [AList.lookup_insert_ne here] at found
    exact assigned mode conn' c' found

theorem packet_assigned (s : Server) (conn : Conn) (c : Connection) (packet : Packet) (assigned : s.Assigned)
    (found : s.connections.lookup conn = some c) :
    (s.onPacket conn c packet).after.Assigned ∧
      ((s.onPacket conn c packet).Controlled ↔ (s.onPacket conn c packet).Sourced) := by
  refine ⟨?_,onPacket_controlled_iff assigned found packet⟩
  rcases s.onPacket_cases conn c packet with ⟨after,-⟩ | ⟨src,-,-,-,-,after,-⟩
  · rw [after]; exact assigned
  · rw [after]; exact assigned.store conn _ (fun _ => Option.some_ne_none _) _

theorem data_assigned (s : Server) (conn : Conn) (chunk : List UInt8) (assigned : s.Assigned) :
    (s.onData conn chunk).1.Assigned ∧ ∀ h ∈ (s.onData conn chunk).2, h.Controlled ↔ h.Sourced := by
  refine onData_rule Server.Assigned (fun h => h.Controlled ↔ h.Sourced) packet_assigned ?_ assigned conn chunk
  intro s conn c buffer assigned found
  exact assigned.store conn { c with buffer } (fun mode => assigned mode conn c found) _

theorem next_assigned (s : Server) (e : Event) (assigned : s.Assigned) (enabled : s.Enabled e) :
    (s.next e).Assigned := by
  cases e with
  | connection conn remotePublicKey =>
    apply assigned.store conn
    intro mode
    obtain ⟨peers,listed⟩ := Option.ne_none_iff_exists'.mp mode
    have admitted := enabled.1
    rw [Server.firewall,listed] at admitted
    simpa [Server.givenIp,listed,← Option.isNone_iff_eq_none] using admitted
  | data conn chunk => exact (data_assigned s conn chunk assigned).1
  | destroy conn =>
    obtain ⟨c,found,-⟩ := enabled
    simp only [Server.next,Server.onDestroy,Option.mem_def.mp found]
    exact assigned.store conn { c with destroyed := true } (fun mode => assigned mode conn c found) _
  | close conn =>
    obtain ⟨c,found,-⟩ := enabled
    simp only [Server.next,Server.onClose,Option.mem_def.mp found]
    exact assigned.store conn { c with destroyed := true,closed := true } (fun mode => assigned mode conn c found) _
  | tunData packet => exact assigned

theorem emits_controlled_iff (s : Server) (e : Event) (assigned : s.Assigned) (r : Record)
    (member : r ∈ s.emits e) : r.Controlled ↔ r.Sourced := by
  cases e with
  | connection conn remotePublicKey =>
    rw [List.mem_singleton.mp member]
    exact Iff.rfl
  | data conn chunk =>
    obtain ⟨h,handled,rfl⟩ := List.mem_map.mp member
    exact (data_assigned s conn chunk assigned).2 h handled
  | destroy conn => contradiction
  | close conn => contradiction
  | tunData packet =>
    rw [List.mem_singleton.mp member]
    exact Iff.rfl

/-- In every run, in either mode, everything the connections inject is controlled exactly
when no connection without an address sends an unreadable packet in open mode. -/
theorem source_controlled_iff (allowedPeers : Option PeersMap) (events : List Event)
    (admitted : server.Admits (.initial allowedPeers) events) :
    (∀ r ∈ server.log (.initial allowedPeers) events, r.Controlled) ↔
      ∀ r ∈ server.log (.initial allowedPeers) events, r.Sourced := by
  have each : ∀ r ∈ server.log (.initial allowedPeers) events, r.Controlled ↔ r.Sourced := by
    refine Machine.log_forall Server.Assigned _ next_assigned
      (fun s e assigned _ r member => emits_controlled_iff s e assigned r member) ?_ admitted
    intro mode conn c found
    simp [Server.initial] at found
  exact forall₂_congr each

/-- Open mode: a first packet from 10.0.0.2, then one that is no packet. -/
theorem source_controlled_learned :
    List.Forall Record.Controlled (server.log (.initial none) [.connection 0 (Vector.replicate 32 1),
      .data 0 (encode (ipv4Packet [10,0,0,2] [8,8,8,8])),.data 0 (encode [0])]) :=
  List.forall_iff_forall_mem.mpr
    ((source_controlled_iff none _ (by decide +kernel)).mpr (by decide +kernel))

/-- What was written was at least an IP packet. -/
def Record.readable : Record → Bool
  | .packet h => h.outputs = [] ∨ CompleteHeader h.packet
  | .opened .. | .tun .. => true

theorem Record.Controlled.readable {r : Record} (controlled : r.Controlled) : r.readable = true := by
  cases r with
  | packet h =>
    apply decide_eq_true
    rcases List.eq_nil_or_concat h.outputs with silent | ⟨init,o,out⟩
    · exact .inl silent
    · exact .inr (controlled o (by simp [out])).2.1
  | opened => rfl
  | tun => rfl

/-- The same without the first packet: one zero byte goes to the TUN. -/
theorem source_uncontrolled :
    ¬∀ (allowedPeers : Option PeersMap) (events : List Event), server.Admits (.initial allowedPeers) events →
      ∀ r ∈ server.log (.initial allowedPeers) events, r.Controlled := by
  intro claim
  have controlled := claim none [.connection 0 (Vector.replicate 32 1),.data 0 (encode [0])]
    (by decide +kernel)
  have readable := List.all_eq_true.mpr fun r member => (controlled r member).readable
  exact absurd readable (by decide +kernel)

end Nospoon.Js
