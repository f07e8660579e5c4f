import Nospoon.Js.Server

/-! Who is reachable at an address. The router remembers one connection for an address
while several connections may have held it; the one to reach is the latest holder. -/
namespace Nospoon.Js

open Library

/-- A record that gives a connection an address. -/
def Record.held : Record → Option (Conn × Text)
  | .opened conn clientIp => (truthy clientIp).map fun ip => (conn,ip)
  | .packet h => h.learned.map fun ip => (h.conn,ip)
  | .tun .. => none

def latestStep (ip : Text) (found : Option Conn) (r : Record) : Option Conn :=
  match r.held with
  | some (conn,ip') => if ip' = ip then some conn else found
  | none => found

/-- The connection that was given or learned an address last. -/
def latest (ip : Text) (past : List Record) : Option Conn := past.foldl (latestStep ip) none

theorem latest_snoc (ip : Text) (past : List Record) (r : Record) :
    latest ip (past ++ [r]) = latestStep ip (latest ip past) r := by
  simp [latest,List.foldl_append]

namespace Server

/-- A connection neither destroyed nor closed. -/
def live (s : Server) (conn : Conn) : Option Connection :=
  (s.connections.lookup conn).filter fun c => !c.destroyed && !c.closed

def Live (s : Server) (conn : Conn) : Prop := s.live conn ≠ none

/-- A live connection with a given or learned address. -/
def Holds (s : Server) (conn : Conn) (ip : Text) : Prop :=
  ∃ c, s.live conn = some c ∧ truthy c.clientIp = some ip

instance (s : Server) (conn : Conn) : Decidable (s.Live conn) := inferInstanceAs (Decidable (_ ≠ _))

theorem Holds.live {s : Server} (h : s.Holds conn ip) : s.Live conn := by
  obtain ⟨c,found,-⟩ := h
  simp [Live,found]

theorem Live.alive {s : Server} (h : s.Live conn) : s.alive conn = true := by
  simp only [Live,Server.live] at h
  cases found : s.connections.lookup conn <;> simp_all [Server.alive,Option.filter]

/-- Updating one connection leaves what is known of the others. -/
theorem live_insert (s : Server) (conn other : Conn) (c : Connection) (router : Router) :
    live { s with router,connections := s.connections.insert conn c } other =
      if other = conn then (some c).filter fun c => !c.destroyed && !c.closed
      else s.live other := by
  by_cases here : other = conn
  · subst here; simp [live]
  · simp [live,here,AList.lookup_insert_ne]

end Server

/-- The claim about a state and its past: a live latest holder is the one its address
leads to, and open mode never has two live holders of one address. -/
structure LatestRouted (s : Server × List Record) : Prop where
  routed : ∀ ip conn, latest ip s.2 = some conn → s.1.Live conn → s.1.router.getByIp ip = some conn
  unique : s.1.allowedPeers = none → ∀ ip conn conn', s.1.Holds conn ip → s.1.Holds conn' ip →
    conn = conn'

structure HolderInvariant (s : Server × List Record) : Prop where
  known : ∀ ip conn, latest ip s.2 = some conn → ∃ c, s.1.connections.lookup conn = some c
  /-- In open mode a live holder is the latest one. -/
  newest : s.1.allowedPeers = none → ∀ ip conn, s.1.Holds conn ip → latest ip s.2 = some conn

theorem HolderInvariant.unique (inv : HolderInvariant (s,past)) (openMode : s.allowedPeers = none)
    (ip : Text) (conn conn' : Conn) (first : s.Holds conn ip) (second : s.Holds conn' ip) :
    conn = conn' :=
  Option.some.inj ((inv.newest openMode ip conn first).symm.trans (inv.newest openMode ip conn' second))

/-- What events other than a close keep. -/
def Kept (s : Server × List Record) : Prop := HolderInvariant s ∧ LatestRouted s

theorem Kept.of_routed (inv : HolderInvariant (s,past))
    (routed : ∀ ip conn, latest ip past = some conn → s.Live conn → s.router.getByIp ip = some conn) :
    Kept (s,past) := ⟨inv,routed,inv.unique⟩

variable {s : Server} {past : List Record} {conn : Conn} {c : Connection}

/-- A new connection takes over the route of the address it is given. -/
theorem connection_kept (kept : Kept (s,past)) (remotePublicKey : PublicKey)
    (fresh : s.connections.lookup conn = none) :
    Kept (s.onConnection conn remotePublicKey,past ++ [.opened conn (s.givenIp remotePublicKey)]) := by
  have stale (ip : Text) (conn' : Conn) (h : latest ip past = some conn') : conn' ≠ conn := by
    rintro rfl
    obtain ⟨c,found⟩ := kept.1.known ip conn' h
    rw [fresh] at found
    contradiction
  have others (conn' : Conn) (other : conn' ≠ conn) :
      (s.onConnection conn remotePublicKey).live conn' = s.live conn' := by
    rw [Server.onConnection,Server.live_insert,if_neg other]
  apply Kept.of_routed
  · refine ⟨fun ip conn' h => ?_,fun openMode ip conn' holds => ?_⟩
    · by_cases here : conn' = conn
      · subst here; exact ⟨_,AList.lookup_insert _⟩
      · rw [latest_snoc,latestStep] at h
        obtain ⟨c,found⟩ : ∃ c, s.connections.lookup conn' = some c := by
          apply kept.1.known ip conn'
          revert h
          simp only [Record.held]
          cases truthy (s.givenIp remotePublicKey) with
          | none => exact id
          | some given =>
            simp only [Option.map_some]
            split_ifs
            · exact fun same => absurd (Option.some.inj same).symm here
            · exact id
        exact ⟨c,by simp [Server.onConnection,AList.lookup_insert_ne here,found]⟩
    · have given : s.givenIp remotePublicKey = none := by
        simp only [Server.onConnection] at openMode
        simp [Server.givenIp,openMode]
      have other : conn' ≠ conn := by
        rintro rfl
        obtain ⟨c,found,held⟩ := holds
        rw [Server.onConnection,Server.live_insert,if_pos rfl,given] at found
        cases found
        contradiction
      rw [latest_snoc,latestStep]
      simp only [Record.held,given,truthy,Option.map_none]
      apply kept.1.newest openMode ip conn'
      rwa [Server.Holds,others conn' other] at holds
  · intro ip conn' h live
    rw [latest_snoc,latestStep] at h
    simp only [Record.held] at h
    simp only [Server.onConnection]
    cases given : truthy (s.givenIp remotePublicKey) with
    | none =>
      rw [given] at h
      rw [Server.Live,others conn' (stale ip conn' h)] at live
      exact kept.2.routed ip conn' h live
    | some given' =>
      rw [given] at h
      simp only [Option.map_some] at h
      simp only [Router.getByIp,RoutingTable.lookup_add]
      split_ifs at h with same
      · rw [if_pos same.symm,h]
      · rw [if_neg (Ne.symm same)]
        rw [Server.Live,others conn' (stale ip conn' h)] at live
        exact kept.2.routed ip conn' h live

/-- Changing a connection without reviving it or giving it an address keeps everything. -/
theorem update_kept (kept : Kept (s,past)) (found : s.connections.lookup conn = some c)
    (c' : Connection) (sameIp : c'.clientIp = c.clientIp)
    (flags : c'.destroyed = false ∧ c'.closed = false → c.destroyed = false ∧ c.closed = false) :
    Kept ({ s with connections := s.connections.insert conn c' },past) := by
  have weaker (other : Conn) (c₁ : Connection)
      (h : Server.live { s with connections := s.connections.insert conn c' } other = some c₁) :
      ∃ c₀, s.live other = some c₀ ∧ c₀.clientIp = c₁.clientIp := by
    rw [Server.live_insert] at h
    split_ifs at h with here
    · subst here
      simp only [Option.filter_eq_some_iff,Option.some.injEq,Bool.and_eq_true,
        Bool.not_eq_true'] at h
      obtain ⟨rfl,alive⟩ := h
      exact ⟨c,by simp [Server.live,found,flags alive],sameIp.symm⟩
    · exact ⟨c₁,h,rfl⟩
  apply Kept.of_routed
  · refine ⟨fun ip conn' h => ?_,fun openMode ip conn' holds => ?_⟩
    · obtain ⟨c₀,known⟩ := kept.1.known ip conn' h
      by_cases here : conn' = conn
      · subst here; exact ⟨_,AList.lookup_insert _⟩
      · exact ⟨c₀,by simp [AList.lookup_insert_ne here,known]⟩
    · obtain ⟨c₁,live,held⟩ := holds
      obtain ⟨c₀,before,same⟩ := weaker conn' c₁ live
      exact kept.1.newest openMode ip conn' ⟨c₀,before,same ▸ held⟩
  · intro ip conn' h live
    obtain ⟨c₁,now⟩ := Option.ne_none_iff_exists'.mp live
    obtain ⟨c₀,before,-⟩ := weaker conn' c₁ now
    exact kept.2.routed ip conn' h (by simp [Server.Live,before])

namespace Server

/-- The state after an address has been learned. -/
def learn (s : Server) (conn : Conn) (c : Connection) (src : Text) : Server :=
  { s with
    router := s.router.add src conn
    connections := s.connections.insert conn { c with clientIp := some src } }

/-- Everything the callback can do with a packet: nothing but outputs, or learning. -/
theorem onPacket_cases (s : Server) (conn : Conn) (c : Connection) (packet : Packet) :
    ((s.onPacket conn c packet).after = s ∧ (s.onPacket conn c packet).learned = none) ∨
    ∃ src, readSourceIp packet = some src ∧ s.allowedPeers = none ∧ truthy c.clientIp = none ∧
      ((s.router.getByIp src).any s.alive) = false ∧
      (s.onPacket conn c packet).after = s.learn conn c src ∧
      (s.onPacket conn c packet).learned = some src := by
  unfold onPacket
  dsimp only
  split
  · split_ifs <;> exact .inl ⟨rfl,rfl⟩
  · rename_i openMode
    split
    · rename_i src unlearned source
      split_ifs with link taken
      · exact .inl ⟨rfl,rfl⟩
      · exact .inl ⟨rfl,rfl⟩
      · exact .inr ⟨src,source,openMode,unlearned,by simpa using taken,rfl,rfl⟩
    · exact .inl ⟨rfl,rfl⟩
    · split_ifs <;> exact .inl ⟨rfl,rfl⟩

@[simp] theorem onPacket_conn (s : Server) (conn : Conn) (c : Connection) (packet : Packet) :
    (s.onPacket conn c packet).conn = conn := by
  unfold onPacket
  dsimp only
  split
  · split_ifs <;> rfl
  · split
    · split_ifs <;> rfl
    · rfl
    · split_ifs <;> rfl

end Server

/-- Learning happens only at an address no live connection answers for. -/
theorem learn_kept (kept : Kept (s,past)) (found : s.connections.lookup conn = some c)
    (openMode : s.allowedPeers = none) (free : (s.router.getByIp src).any s.alive = false)
    (readable : src ≠ []) (r : Record) (held : r.held = some (conn,src)) :
    Kept (s.learn conn c src,past ++ [r]) := by
  have after (ip : Text) : latest ip (past ++ [r]) = if src = ip then some conn else latest ip past := by
    rw [latest_snoc,latestStep,held]
  have others (conn' : Conn) (other : conn' ≠ conn) :
      (s.learn conn c src).live conn' = s.live conn' := by
    rw [Server.learn,Server.live_insert,if_neg other]
  apply Kept.of_routed
  · refine ⟨fun ip conn' h => ?_,fun _ ip conn' holds => ?_⟩
    · by_cases here : conn' = conn
      · subst here; exact ⟨_,AList.lookup_insert _⟩
      · rw [after] at h
        split_ifs at h with same
        · exact absurd (Option.some.inj h).symm here
        · obtain ⟨c₀,known⟩ := kept.1.known ip conn' h
          exact ⟨c₀,by simp [Server.learn,AList.lookup_insert_ne here,known]⟩
    · rw [after]
      by_cases here : conn' = conn
      · subst here
        obtain ⟨c₁,now,held⟩ := holds
        rw [Server.learn,Server.live_insert,if_pos rfl,Option.filter_eq_some_iff] at now
        obtain ⟨same,-⟩ := now
        rw [← Option.some.inj same] at held
        have same : src = ip := by
          cases src with
          | nil => contradiction
          | cons a src => exact Option.some.inj held
        rw [if_pos same]
      · have before : s.Holds conn' ip := by rwa [Server.Holds,others conn' here] at holds
        have newest := kept.1.newest openMode ip conn' before
        split_ifs with same
        · have route := kept.2.routed ip conn' newest before.live
          rw [same,route,Option.any_some,before.live.alive] at free
          contradiction
        · exact newest
  · intro ip conn' h live
    rw [after] at h
    simp only [Server.learn,Router.getByIp,RoutingTable.lookup_add]
    split_ifs at h with same
    · rw [if_pos same.symm,h]
    · rw [if_neg (Ne.symm same)]
      apply kept.2.routed ip conn' h
      by_cases here : conn' = conn
      · subst here
        rw [Server.Live,Server.learn,Server.live_insert,if_pos rfl] at live
        simpa [Server.Live,Server.live,found] using live
      · rwa [Server.Live,others conn' here] at live

/-- A record that gives no address changes nothing. -/
theorem silent_kept (kept : Kept (s,past)) (r : Record) (silent : r.held = none) :
    Kept (s,past ++ [r]) := by
  have same (ip : Text) : latest ip (past ++ [r]) = latest ip past := by
    rw [latest_snoc,latestStep,silent]
  refine Kept.of_routed ⟨fun ip => ?_,fun openMode ip => ?_⟩ fun ip => ?_
  · rw [same]; exact kept.1.known ip
  · rw [same]; exact kept.1.newest openMode ip
  · rw [same]; exact kept.2.routed ip

theorem packet_kept (kept : Kept (s,past)) (found : s.connections.lookup conn = some c)
    (packet : Packet) :
    Kept ((s.onPacket conn c packet).after,past ++ [.packet (s.onPacket conn c packet)]) := by
  rcases s.onPacket_cases conn c packet with ⟨after,learned⟩ | ⟨src,source,openMode,-,free,after,learned⟩
  · rw [after]
    exact silent_kept kept _ (by rw [Record.held,learned,Option.map_none])
  · rw [after]
    apply learn_kept kept found openMode free (readSourceIp_ne_nil source) _
    rw [Record.held,learned,Option.map_some,Server.onPacket_conn]

/-- The callback never forgets a connection. -/
theorem onPacket_found (found : s.connections.lookup conn = some c) (packet : Packet) :
    ∃ c', (s.onPacket conn c packet).after.connections.lookup conn = some c' := by
  rcases s.onPacket_cases conn c packet with ⟨after,-⟩ | ⟨src,-,-,-,-,after,-⟩
  · exact ⟨c,by rw [after,found]⟩
  · exact ⟨_,by rw [after]; exact AList.lookup_insert _⟩

theorem packets_kept (packets : List Packet) (kept : Kept (s,past))
    (found : s.connections.lookup conn = some c) :
    Kept ((s.onPackets conn packets).1,past ++ (s.onPackets conn packets).2.map .packet) := by
  induction packets generalizing s past c with
  | nil => simpa [Server.onPackets] using kept
  | cons packet packets ih =>
    obtain ⟨c',found'⟩ := onPacket_found found packet
    have later := ih (packet_kept kept found packet) found'
    simpa [Server.onPackets,found] using later

/-- The address is removed whoever answers for it, so a close is harmless exactly when
no other live connection held it later. -/
theorem close_routed_iff (kept : Kept (s,past)) (found : s.connections.lookup conn = some c) :
    LatestRouted (s.onClose conn,past) ↔
      ∀ ip, truthy c.clientIp = some ip → ∀ conn', latest ip past = some conn' →
        conn' = conn ∨ ¬s.Live conn' := by
  -- the router aside, closing is one more harmless update
  have updated := update_kept kept found { c with destroyed := true,closed := true } rfl (by simp)
  have others (conn' : Conn) (other : conn' ≠ conn) : (s.onClose conn).live conn' = s.live conn' := by
    simp only [Server.onClose,found]
    rw [Server.live_insert,if_neg other]
  have closed : ¬(s.onClose conn).Live conn := by
    simp only [Server.onClose,found,Server.Live]
    rw [Server.live_insert,if_pos rfl]
    simp
  constructor
  · intro later ip held conn' newest
    by_cases here : conn' = conn
    · exact .inl here
    · refine .inr fun live => ?_
      have route := later.routed ip conn' newest (by rwa [Server.Live,others conn' here])
      simp [Server.onClose,found,held,Router.getByIp] at route
  · intro harmless
    refine ⟨fun ip conn' newest live => ?_,fun openMode => ?_⟩
    · have here : conn' ≠ conn := fun same => closed (same ▸ live)
      rw [Server.Live,others conn' here] at live
      have route := kept.2.routed ip conn' newest live
      simp only [Server.onClose,found]
      cases held : truthy c.clientIp with
      | none => exact route
      | some ip' =>
        have differs : ip ≠ ip' := by
          rintro rfl
          rcases harmless ip held conn' newest with same | dead
          · exact here same
          · exact dead live
        simpa [Router.getByIp,RoutingTable.lookup_remove_ne _ differs] using route
    · -- `Holds` reads connections only
      have same (ip : Text) (conn' : Conn) (h : (s.onClose conn).Holds conn' ip) :
          Server.Holds { s with
            connections := s.connections.insert conn { c with destroyed := true,closed := true } }
            conn' ip := by
        simpa [Server.onClose,found,Server.Holds,Server.live] using h
      intro ip conn₁ conn₂ first second
      refine updated.2.unique ?_ ip conn₁ conn₂ (same ip conn₁ first) (same ip conn₂ second)
      simpa [Server.onClose,found] using openMode

theorem close_invariant (kept : Kept (s,past)) (found : s.connections.lookup conn = some c) :
    HolderInvariant (s.onClose conn,past) := by
  have updated := update_kept kept found { c with destroyed := true,closed := true } rfl (by simp)
  constructor
  · intro ip conn' newest
    simpa [Server.onClose,found] using updated.1.known ip conn' newest
  · intro openMode ip conn' holds
    apply updated.1.newest (by simpa [Server.onClose,found] using openMode) ip conn'
    simpa [Server.onClose,found,Server.Holds,Server.live] using holds

/-- A connection closes when the latest holder of its address is itself or no longer live. -/
def ClosesOwnRoute (s : Server × List Record) : Event → Prop
  | .close conn => ∀ c ∈ s.1.connections.lookup conn, ∀ ip ∈ truthy c.clientIp,
      ∀ conn' ∈ latest ip s.2, conn' = conn ∨ ¬s.1.Live conn'
  | .connection .. | .data .. | .destroy .. | .tunData .. => True

instance (s : Server × List Record) : ∀ e, Decidable (ClosesOwnRoute s e)
  | .close _ => inferInstanceAs (Decidable (∀ c ∈ _, _))
  | .connection .. | .data .. | .destroy .. | .tunData .. => isTrue trivial

theorem next_holders (st : Server × List Record) (e : Event) (kept : Kept st)
    (enabled : st.1.Enabled e) :
    HolderInvariant (server.withLog.next st e) ∧
      (LatestRouted (server.withLog.next st e) ↔ ClosesOwnRoute st e) := by
  obtain ⟨s,past⟩ := st
  have harmless {e : Event} (h : Kept (server.withLog.next (s,past) e)) (ok : ClosesOwnRoute (s,past) e) :
      HolderInvariant (server.withLog.next (s,past) e) ∧
        (LatestRouted (server.withLog.next (s,past) e) ↔ ClosesOwnRoute (s,past) e) :=
    ⟨h.1,iff_of_true h.2 ok⟩
  cases e with
  | connection conn remotePublicKey =>
    exact harmless (connection_kept kept remotePublicKey enabled.2) trivial
  | data conn chunk =>
    refine harmless ?_ trivial
    obtain ⟨c,found,-⟩ := enabled
    have stored := update_kept kept found { c with buffer := (push c.buffer chunk).1 } rfl id
    have later := packets_kept (push c.buffer chunk).2.1 stored (AList.lookup_insert _)
    simp only [Machine.withLog,server,Server.next,Server.emits,Server.onData,Option.mem_def.mp found]
    exact later
  | destroy conn =>
    refine harmless ?_ trivial
    obtain ⟨c,found,-⟩ := enabled
    have later := update_kept kept found { c with destroyed := true } rfl (by simp)
    simp only [Machine.withLog,server,Server.next,Server.emits,Server.onDestroy,Option.mem_def.mp found,
      List.append_nil]
    exact later
  | close conn =>
    obtain ⟨c,found,-⟩ := enabled
    simp only [Machine.withLog,server,Server.next,Server.emits,List.append_nil]
    refine ⟨close_invariant kept found,(close_routed_iff kept found).trans ?_⟩
    simp only [ClosesOwnRoute,Option.mem_def.mp found,Option.mem_def,Option.some.injEq,forall_eq']
  | tunData packet =>
    exact harmless (silent_kept kept (.tun s packet (s.onTunData packet)) rfl) trivial

/-- In every run, in either mode, the latest live holder of an address is always the one
reached there exactly when no connection is closed while a later holder of its address
is live. -/
theorem latest_routed_iff (allowedPeers : Option PeersMap) (events : List Event)
    (admitted : server.Admits (.initial allowedPeers) events) :
    server.withLog.Throughout LatestRouted (.initial allowedPeers,[]) events ↔
      server.withLog.Along ClosesOwnRoute (.initial allowedPeers,[]) events := by
  refine Machine.throughout_iff_along HolderInvariant
    (fun st e inv holds enabled => (next_holders st e ⟨inv,holds⟩ enabled).1)
    (fun st e inv holds enabled => (next_holders st e ⟨inv,holds⟩ enabled).2) ?_ ?_
    (Machine.withLog_admits.mpr admitted)
  · constructor
    · intro ip conn h; contradiction
    · rintro - ip conn ⟨c,found,-⟩; simp [Server.live,Server.initial] at found
  · constructor
    · intro ip conn h; contradiction
    · rintro - ip conn conn' ⟨c,found,-⟩; simp [Server.live,Server.initial] at found

/-- One key, with one address. -/
def onePeer : PeersMap := AList.singleton (bytesToHex (Vector.replicate 32 1).toList) "10.0.0.2".toList

/-- Two connections of one key, of which the later closes first. -/
theorem latest_routed_nested :
    server.withLog.Throughout LatestRouted (.initial (some onePeer),[])
      [.connection 0 (Vector.replicate 32 1),.connection 1 (Vector.replicate 32 1),
        .data 1 [0,0],.destroy 1,.close 1,.close 0] :=
  (latest_routed_iff (some onePeer) _ (by decide +kernel)).mpr (by decide +kernel)

/-- In authenticated mode the earlier connection of the key closes first; in open mode a
destroyed connection closes after its address was learned anew. Both times the live
connection loses its route. -/
theorem latest_routed_lost :
    (¬∀ (peers : PeersMap) (events : List Event), server.Admits (.initial (some peers)) events →
      server.withLog.Throughout LatestRouted (.initial (some peers),[]) events) ∧
    ¬∀ events : List Event, server.Admits (.initial none) events →
      server.withLog.Throughout LatestRouted (.initial none,[]) events := by
  constructor
  · intro claim
    have kept := (claim onePeer [.connection 0 (Vector.replicate 32 1),
      .connection 1 (Vector.replicate 32 1),.close 0] (by decide +kernel)).last
    have route := kept.routed "10.0.0.2".toList 1 (by decide +kernel) (by decide +kernel)
    exact absurd route (by decide +kernel)
  · intro claim
    have kept := (claim [.connection 0 (Vector.replicate 32 1),
      .data 0 (encode (ipv4Packet [10,0,0,2] [8,8,8,8])),.destroy 0,
      .connection 1 (Vector.replicate 32 1),
      .data 1 (encode (ipv4Packet [10,0,0,2] [8,8,8,8])),.close 0] (by decide +kernel)).last
    have route := kept.routed "10.0.0.2".toList 1 (by decide +kernel) (by decide +kernel)
    exact absurd route (by decide +kernel)

end Nospoon.Js
