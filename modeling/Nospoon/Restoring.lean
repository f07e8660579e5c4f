import Nospoon.FullTunnel

/-! What a cycle of the full tunnel leaves behind. Every change is taken back, except that
the server's host route and the IPv6 routes are deleted even where they were not added, and
that an empty resolver configuration counts as none. -/
namespace Nospoon

open Library

/-! ### Routes -/

section Routes

variable {table : List Route} {r r' : Route} {spec spec' : RouteSpec}

theorem selects_dest (selected : spec.selects r = true) : r.dest = spec.dest := by
  simp only [RouteSpec.selects,Bool.and_eq_true,decide_eq_true_eq] at selected
  exact selected.1.1

theorem selects_other (other : r.dest ≠ spec.dest) : spec.selects r = false :=
  Bool.eq_false_iff.mpr fun selected => other (selects_dest selected)

theorem addRoute_cases (table : List Route) (r : Route) :
    ((∃ old ∈ table, old.dest = r.dest) ∧ addRoute table r = (table,false)) ∨
      ((∀ old ∈ table, old.dest ≠ r.dest) ∧ addRoute table r = (r :: table,true)) := by
  unfold addRoute
  split_ifs with taken
  · exact .inl ⟨by simpa using taken,rfl⟩
  · exact .inr ⟨by simpa using taken,rfl⟩

theorem addRoute_new (fresh : ∀ old ∈ table, old.dest ≠ r.dest) : addRoute table r = (r :: table,true) := by
  rcases addRoute_cases table r with ⟨⟨old,member,same⟩,-⟩ | ⟨-,eq⟩
  · exact absurd same (fresh old member)
  · exact eq

theorem addRoute_ok (added : (addRoute table r).2 = true) : addRoute table r = (r :: table,true) := by
  rcases addRoute_cases table r with ⟨-,eq⟩ | ⟨-,eq⟩
  · rw [eq] at added
    contradiction
  · exact eq

theorem addRoute_fresh (added : (addRoute table r).2 = true) : ∀ old ∈ table, old.dest ≠ r.dest := by
  rcases addRoute_cases table r with ⟨-,eq⟩ | ⟨fresh,-⟩
  · rw [eq] at added
    contradiction
  · exact fresh

theorem delRoute_eq_self : delRoute table spec = table ↔ ∀ old ∈ table, spec.selects old = false := by
  simp [delRoute]

/-- A route that was there in front of the add is deleted in its place. -/
theorem delRoute_addRoute (own : spec.selects r = true) :
    delRoute (addRoute table r).1 spec = table ↔ ∀ old ∈ table, spec.selects old = false := by
  rcases addRoute_cases table r with ⟨-,eq⟩ | ⟨free,eq⟩
  · rw [eq]
    exact delRoute_eq_self
  · rw [eq]
    have others (old : Route) (member : old ∈ table) : spec.selects old = false :=
      selects_other (selects_dest own ▸ free old member)
    exact ⟨fun _ => others,fun _ => List.eraseP_cons_of_pos own⟩

theorem delRoute_addRoute_sublist (own : spec.selects r = true) :
    List.Sublist (delRoute (addRoute table r).1 spec) table := by
  rcases addRoute_cases table r with ⟨-,eq⟩ | ⟨-,eq⟩
  · rw [eq]
    exact List.eraseP_sublist
  · have gone : delRoute (r :: table) spec = table := List.eraseP_cons_of_pos own
    rw [eq,gone]

/-- Deleting one destination and adding another do not meet. -/
theorem delRoute_addRoute_comm (other : r.dest ≠ spec.dest) :
    delRoute (addRoute table r).1 spec = (addRoute (delRoute table spec) r).1 := by
  have same (old : Route) (dest : old.dest = r.dest) : old ∈ delRoute table spec ↔ old ∈ table := by
    have missed : spec.selects old = false := selects_other (dest.trans_ne other)
    exact List.mem_eraseP_of_neg (by simp [missed])
  rcases addRoute_cases table r with ⟨⟨old,member,dest⟩,eq⟩ | ⟨free,eq⟩
  · rcases addRoute_cases (delRoute table spec) r with ⟨-,eq'⟩ | ⟨free',-⟩
    · rw [eq,eq']
    · exact absurd dest (free' old ((same old dest).mpr member))
  · rcases addRoute_cases (delRoute table spec) r with ⟨⟨old,member,dest⟩,-⟩ | ⟨-,eq'⟩
    · exact absurd dest (free old ((same old dest).mp member))
    · rw [eq,eq']
      exact List.eraseP_cons_of_neg (by simp [selects_other other])

/-- Two routes added and deleted in the same order. -/
theorem delRoute_addRoute_two (table : List Route) (own : spec.selects r = true) (own' : spec'.selects r' = true)
    (differ : r'.dest ≠ spec.dest) :
    delRoute (delRoute (addRoute (addRoute table r).1 r').1 spec) spec' = table ↔
      ∀ old ∈ table, spec.selects old = false ∧ spec'.selects old = false := by
  rw [delRoute_addRoute_comm differ]
  constructor
  · intro back
    have second : List.Sublist (delRoute (addRoute (delRoute (addRoute table r).1 spec) r').1 spec')
        (delRoute (addRoute table r).1 spec) := delRoute_addRoute_sublist own'
    have first := (delRoute_addRoute_sublist own).antisymm (back ▸ second)
    rw [first] at back
    exact fun old member => ⟨(delRoute_addRoute own).mp first old member,(delRoute_addRoute own').mp back old member⟩
  · intro free
    rw [(delRoute_addRoute own).mpr fun old member => (free old member).1]
    exact (delRoute_addRoute own').mpr fun old member => (free old member).2

end Routes

/-! ### The client's routes -/

/-- A host kept off the tunnel, and what deletes its route. -/
def viaGateway (gateway device host : Text) : Route := { dest := hostRoute host,via := some gateway,dev := device }

def gatewaySpec (gateway host : Text) : RouteSpec := { dest := hostRoute host,via := some gateway }

theorem gatewaySpec_selects {gateway host : Text} {old : Route} : (gatewaySpec gateway host).selects old = false ↔
    (old.dest = hostRoute host → old.via ≠ some gateway) := by
  simp [gatewaySpec,RouteSpec.selects]
  grind

theorem hostRoute_injective {a b : Text} (same : hostRoute a = hostRoute b) : a = b :=
  List.append_cancel_right same

theorem hostRoute_notHalf (host : Text) : hostRoute host ≠ lowHalf ∧ hostRoute host ≠ highHalf := by
  have ends : (hostRoute host).getLast? = some '2' := by simp [hostRoute]
  have low : lowHalf.getLast? = some '1' := by decide
  have high : highHalf.getLast? = some '1' := by decide
  refine ⟨fun same => ?_,fun same => ?_⟩
  · rw [same,low] at ends
    exact absurd ends (by decide)
  · rw [same,high] at ends
    exact absurd ends (by decide)

/-- The state with routes to more hosts. -/
def TunnelState.exempting (s : TunnelState) (more : List Text) : TunnelState where
  host := { s.host with routes4 := putAll (viaGateway s.client.gateway s.client.gatewayDevice) s.host.routes4 more }
  client := { s.client with remoteHosts := s.client.remoteHosts ++ more }

theorem addHostExemption_cases (s : TunnelState) (host : Text) : addHostExemption s host = s ∨
    (host ∉ s.client.remoteHosts ∧ addHostExemption s host = s.exempting [host]) := by
  by_cases idle : ¬s.client.active ∨ host = [] ∨ s.client.gateway = [] ∨ s.client.gatewayDevice = []
  · exact .inl (if_pos idle)
  by_cases known : s.client.remoteHosts.any (fun h => h = host)
  · exact .inl ((if_neg idle).trans (if_pos known))
  have tried : addHostExemption s host = _ := (if_neg idle).trans (if_neg known)
  rcases addRoute_cases s.host.routes4 (viaGateway s.client.gateway s.client.gatewayDevice host) with
    ⟨-,refused⟩ | ⟨-,added⟩
  · rw [viaGateway] at refused
    left
    rw [tried,refused]
    rfl
  · rw [viaGateway] at added
    refine .inr ⟨by simpa using known,?_⟩
    rw [tried,added]
    rfl

/-- Exemptions are new routes to new hosts, and nothing else changes. -/
theorem exemptions_eq (s : TunnelState) (hosts : List Text) (distinct : s.client.remoteHosts.Nodup) :
    ∃ more, (s.client.remoteHosts ++ more).Nodup ∧ hosts.foldl addHostExemption s = s.exempting more := by
  induction hosts generalizing s with
  | nil => exact ⟨[],by simpa using distinct,by simp [TunnelState.exempting]⟩
  | cons host hosts ih =>
    rw [List.foldl_cons]
    rcases addHostExemption_cases s host with same | ⟨fresh,pushed⟩
    · rw [same]
      exact ih s distinct
    · have distinct' : (s.exempting [host]).client.remoteHosts.Nodup := by
        simp [TunnelState.exempting,List.nodup_append,distinct]
        exact fun known member => fun same => fresh (same ▸ member)
      obtain ⟨more,apart,eq⟩ := ih _ distinct'
      refine ⟨host :: more,?_,?_⟩
      · simpa [TunnelState.exempting] using apart
      · rw [pushed,eq]
        simp [TunnelState.exempting]

/-- The IPv4 routes once the split routes and the exemptions are deleted: what is left is
the table with the server's host route deleted. -/
theorem deletes4_eq (table : List Route) (client : ClientState) (device server : Text) (more : List Text)
    (hosts : client.remoteHosts = server :: more) (distinct : (server :: more).Nodup) :
    client.deletes4.foldl delRoute (putAll (viaGateway client.gateway device)
        ({ dest := highHalf,dev := client.tunName } :: { dest := lowHalf,dev := client.tunName } :: table) more) =
      delRoute table (gatewaySpec client.gateway server) := by
  have past (spec : RouteSpec) (table : List Route) (apart : ∀ host ∈ more, hostRoute host ≠ spec.dest) :
      delRoute (putAll (viaGateway client.gateway device) table more) spec =
        putAll (viaGateway client.gateway device) (delRoute table spec) more :=
    eraseP_putAll _ fun host member => selects_other (apart host member)
  obtain ⟨fresh,rest⟩ := List.nodup_cons.mp distinct
  have high : delRoute ({ dest := highHalf,dev := client.tunName } :: { dest := lowHalf,dev := client.tunName } :: table)
      { dest := highHalf,dev := some client.tunName } = { dest := lowHalf,dev := client.tunName } :: table :=
    List.eraseP_cons_of_pos (by simp [RouteSpec.selects])
  have low : delRoute ({ dest := lowHalf,dev := client.tunName } :: table)
      { dest := lowHalf,dev := some client.tunName } = table :=
    List.eraseP_cons_of_pos (by simp [RouteSpec.selects])
  have others (host : Text) (member : host ∈ more) : hostRoute host ≠ (gatewaySpec client.gateway server).dest :=
    fun same => fresh (hostRoute_injective same ▸ member)
  have specs : client.deletes4 = { dest := highHalf,dev := some client.tunName } ::
      { dest := lowHalf,dev := some client.tunName } :: gatewaySpec client.gateway server ::
        more.map (gatewaySpec client.gateway) := by
    rw [ClientState.deletes4,hosts]
    rfl
  rw [specs,List.foldl_cons,List.foldl_cons,List.foldl_cons]
  rw [past _ _ fun host _ => (hostRoute_notHalf host).2,high,past _ _ fun host _ => (hostRoute_notHalf host).1,low,
    past _ _ others,List.foldl_map]
  apply takeBack_putAll (viaGateway client.gateway device) fun host => (gatewaySpec client.gateway host).selects
  · simp [viaGateway,gatewaySpec,RouteSpec.selects]
  · exact fun a b selected => (hostRoute_injective (selects_dest selected)).symm
  · exact rest

/-- The IPv6 routes after their deletes. -/
theorem deletes6_eq (table : List Route) (client : ClientState) :
    client.deletes6.foldl delRoute (addRoute (addRoute table { dest := lowHalf6,dev := client.tunName }).1
        { dest := highHalf6,dev := client.tunName }).1 = table ↔
      ∀ old ∈ table, old.dev = client.tunName → old.dest ≠ lowHalf6 ∧ old.dest ≠ highHalf6 := by
  have low : RouteSpec.selects { dest := lowHalf6,dev := some client.tunName }
      { dest := lowHalf6,dev := client.tunName } = true := by simp [RouteSpec.selects]
  have high : RouteSpec.selects { dest := highHalf6,dev := some client.tunName }
      { dest := highHalf6,dev := client.tunName } = true := by simp [RouteSpec.selects]
  have differ : highHalf6 ≠ lowHalf6 := by decide
  apply (delRoute_addRoute_two table low high differ).trans
  apply forall₂_congr
  intro old member
  simp only [RouteSpec.selects]
  grind

/-! ### The filter -/

/-- What `sysctl -n` prints comes back as it was. -/
theorem popenCapture_decimalInt (v : Int) : popenCapture (decimalInt v ++ "\n".toList) = decimalInt v := by
  have newline : popenCapture (decimalInt v ++ "\n".toList) = popenCapture (decimalInt v) :=
    List.rdropWhile_concat_pos _ _ _ (by decide)
  rw [newline,popenCapture,List.rdropWhile_eq_self_iff]
  intro nonempty
  have last : (decimalInt v).getLast nonempty ∈ decimalInt v := List.getLast_mem nonempty
  have noBlank (c : Char) (blank : c = '\n' ∨ c = '\r' ∨ c = ' ' ∨ c = '\t') : c ∉ decimalInt v := by
    have noDigit : c.isDigit = false ∧ c ≠ '-' := by rcases blank with rfl | rfl | rfl | rfl <;> decide
    cases v with
    | ofNat n => exact decimal_noChar n c noDigit.1
    | negSucc n =>
      rw [decimalInt,List.mem_cons,not_or]
      exact ⟨noDigit.2,decimal_noChar _ c noDigit.1⟩
  intro blank
  simp only [Bool.or_eq_true,decide_eq_true_eq,or_assoc] at blank
  exact noBlank _ blank last

/-! ### One cycle -/

section Dns

variable (s : TunnelState) (tunName : Text)

/-- The DNS settings are apart from everything else. -/
theorem switchDns_host : (switchDns s tunName).host.routes4 = s.host.routes4 ∧
    (switchDns s tunName).host.routes6 = s.host.routes6 ∧ (switchDns s tunName).host.rpFilter = s.host.rpFilter := by
  unfold switchDns
  split_ifs
  · exact ⟨rfl,rfl,rfl⟩
  · exact ⟨rfl,rfl,rfl⟩
  · exact ⟨rfl,rfl,rfl⟩

theorem switchDns_client : ∃ saved method, (switchDns s tunName).client =
    { s.client with savedResolvConf := saved,dnsMethod := method } := by
  unfold switchDns
  split_ifs
  · exact ⟨_,_,rfl⟩
  · exact ⟨_,_,rfl⟩
  · exact ⟨_,_,rfl⟩

theorem restoreDns_host (client : ClientState) (host : Host) : (restoreDns client host).routes4 = host.routes4 ∧
    (restoreDns client host).routes6 = host.routes6 ∧ (restoreDns client host).rpFilter = host.rpFilter ∧
    (restoreDns client host).resolvConf =
      if client.dnsMethod = .resolvconf ∧ client.savedResolvConf ≠ [] ∧ host.resolvWritable = true
        then some client.savedResolvConf else host.resolvConf := by
  unfold restoreDns
  cases method : client.dnsMethod with
  | unset => exact ⟨rfl,rfl,rfl,rfl⟩
  | resolvectl => exact ⟨rfl,rfl,rfl,rfl⟩
  | resolvconf =>
    by_cases saved : client.savedResolvConf ≠ [] ∧ host.resolvWritable = true
    · simp [saved]
    · simp only [if_neg saved,true_and]

end Dns

section Cycle

variable (showDefault : List Route → Text) (s : TunnelState) (tunNameArg remoteHost : Text)

/-- A successful enable of a cleared client, before its DNS part. -/
def tunnelled : TunnelState :=
  let gw := getDefaultGateway (showDefault s.host.routes4)
  let tunName := orDefault tunNameArg
  { host := { s.host with
      rpFilter := 2
      routes4 := { dest := highHalf,dev := tunName } :: { dest := lowHalf,dev := tunName } ::
        (addRoute s.host.routes4 (viaGateway gw.gateway gw.device remoteHost)).1
      routes6 := (addRoute (addRoute s.host.routes6 { dest := lowHalf6,dev := tunName }).1
        { dest := highHalf6,dev := tunName }).1 }
    client := {
      active := true
      tunName
      gateway := gw.gateway
      gatewayDevice := gw.device
      savedRpFilter := decimalInt s.host.rpFilter
      remoteHosts := [remoteHost] } }

theorem enable_ok {s : TunnelState} {tunNameArg remoteHost : Text} (cleared : s.client = {})
    (ok : (enableClientFullTunnel showDefault s tunNameArg remoteHost).2 = true) :
    (enableClientFullTunnel showDefault s tunNameArg remoteHost).1 =
      switchDns (tunnelled showDefault s tunNameArg remoteHost) (orDefault tunNameArg) := by
  unfold enableClientFullTunnel at ok ⊢
  dsimp only at ok ⊢
  split_ifs at ok ⊢ with empty gateway low high
  have atLow := addRoute_ok low
  rw [atLow] at high
  have atHigh := addRoute_ok high
  have filter : s.host.setRpFilter "2".toList = { s.host with rpFilter := 2 } := by
    rw [Host.setRpFilter,show leadingInt "2".toList = 2 by decide]
  rw [atLow,atHigh,filter,popenCapture_decimalInt,cleared]
  rfl

/-- Everything a disable of an active client puts back. -/
theorem disable_host {s : TunnelState} (active : s.client.active = true) :
    (disableClientFullTunnel s).client = {} ∧
    (disableClientFullTunnel s).host.routes4 = s.client.deletes4.foldl delRoute s.host.routes4 ∧
    (disableClientFullTunnel s).host.routes6 = s.client.deletes6.foldl delRoute s.host.routes6 ∧
    (disableClientFullTunnel s).host.rpFilter =
      (if s.client.savedRpFilter ≠ [] then leadingInt s.client.savedRpFilter else s.host.rpFilter) ∧
    (disableClientFullTunnel s).host.resolvConf =
      if s.client.dnsMethod = .resolvconf ∧ s.client.savedResolvConf ≠ [] ∧ s.host.resolvWritable = true
        then some s.client.savedResolvConf else s.host.resolvConf := by
  rw [disableClientFullTunnel,if_neg (not_not.mpr active)]
  dsimp only
  by_cases saved : s.client.savedRpFilter ≠ []
  · rw [if_pos saved,if_pos saved]
    exact ⟨rfl,restoreDns_host s.client _⟩
  · rw [if_neg saved,if_neg saved]
    exact ⟨rfl,restoreDns_host s.client _⟩

/-- What a cycle does not spoil: a server host route over the same gateway, the IPv6 halves
over the same device, a resolver configuration it would take for none. -/
structure Reversible (s : TunnelState) (c : Cycle) : Prop where
  routes4 : ∀ old ∈ s.host.routes4, old.dest = hostRoute c.remoteHost →
    old.via ≠ some (getDefaultGateway (showDefault s.host.routes4)).gateway
  routes6 : ∀ old ∈ s.host.routes6, old.dev = orDefault c.tunName → old.dest ≠ lowHalf6 ∧ old.dest ≠ highHalf6
  resolvConf : s.host.resolvectl = true ∨ s.host.resolvWritable = false ∨
    ∃ content, s.host.resolvConf = some content ∧ content ≠ []

variable {s : TunnelState} {c : Cycle}

theorem cycle_eq (cleared : s.client = {}) (ok : (enableClientFullTunnel showDefault s c.tunName c.remoteHost).2 = true) :
    ∃ more, (c.remoteHost :: more).Nodup ∧ cycle showDefault s c = disableClientFullTunnel
      ((switchDns (tunnelled showDefault s c.tunName c.remoteHost) (orDefault c.tunName)).exempting more) := by
  have enabled := enable_ok showDefault cleared ok
  obtain ⟨saved,method,client⟩ := switchDns_client (tunnelled showDefault s c.tunName c.remoteHost) (orDefault c.tunName)
  have hosts : (switchDns (tunnelled showDefault s c.tunName c.remoteHost) (orDefault c.tunName)).client.remoteHosts =
      [c.remoteHost] := by rw [client]; rfl
  obtain ⟨more,distinct,eq⟩ := exemptions_eq _ c.exemptions (hosts ▸ List.nodup_singleton c.remoteHost)
  refine ⟨more,?_,?_⟩
  · rwa [hosts] at distinct
  · rw [cycle,enabled,eq]

/-- The resolver's configuration after it was switched and restored. -/
theorem resolvConf_restored (s : TunnelState) (tunName : Text) (unsaved : s.client.savedResolvConf = []) :
    (if (switchDns s tunName).client.dnsMethod = .resolvconf ∧ (switchDns s tunName).client.savedResolvConf ≠ [] ∧
        (switchDns s tunName).host.resolvWritable = true
      then some (switchDns s tunName).client.savedResolvConf else (switchDns s tunName).host.resolvConf) =
        s.host.resolvConf ↔
    s.host.resolvectl = true ∨ s.host.resolvWritable = false ∨ ∃ content, s.host.resolvConf = some content ∧ content ≠ [] := by
  unfold switchDns
  cases resolvectl : s.host.resolvectl with
  | true => simp
  | false =>
    cases writable : s.host.resolvWritable with
    | false => simp [writable]
    | true =>
      cases content : s.host.resolvConf with
      | none => simp [unsaved]
      | some text =>
        have written : tunnelResolvConf ≠ [] := by decide
        by_cases empty : text = []
        · simp [empty,written]
        · simp [empty,writable]

theorem cycle_restored (cleared : s.client = {})
    (ok : (enableClientFullTunnel showDefault s c.tunName c.remoteHost).2 = true) :
    (cycle showDefault s c).client = {} ∧ (Restored s.host (cycle showDefault s c) ↔ Reversible showDefault s c) := by
  obtain ⟨more,distinct,eq⟩ := cycle_eq showDefault cleared ok
  obtain ⟨saved,method,client⟩ := switchDns_client (tunnelled showDefault s c.tunName c.remoteHost) (orDefault c.tunName)
  obtain ⟨routes4,routes6,rpFilter⟩ := switchDns_host (tunnelled showDefault s c.tunName c.remoteHost) (orDefault c.tunName)
  have dns := resolvConf_restored (tunnelled showDefault s c.tunName c.remoteHost) (orDefault c.tunName) rfl
  generalize switchDns (tunnelled showDefault s c.tunName c.remoteHost) (orDefault c.tunName) = e at *
  obtain ⟨host,_⟩ := e
  obtain rfl := client
  let reached := TunnelState.exempting
    ⟨host,{ (tunnelled showDefault s c.tunName c.remoteHost).client with savedResolvConf := saved,dnsMethod := method }⟩
    more
  have active : reached.client.active = true := rfl
  obtain ⟨again,back4,back6,backFilter,backConf⟩ := disable_host active
  rw [← eq] at again back4 back6 backFilter backConf
  let gw := getDefaultGateway (showDefault s.host.routes4)
  have left4 : (cycle showDefault s c).host.routes4 =
      delRoute (addRoute s.host.routes4 (viaGateway gw.gateway gw.device c.remoteHost)).1
        (gatewaySpec gw.gateway c.remoteHost) := by
    have table : reached.host.routes4 = putAll (viaGateway gw.gateway gw.device) host.routes4 more := rfl
    rw [back4,table,routes4]
    exact deletes4_eq _ reached.client gw.device c.remoteHost more rfl distinct
  have left6 : (cycle showDefault s c).host.routes6 = s.host.routes6 ↔
      ∀ old ∈ s.host.routes6, old.dev = orDefault c.tunName → old.dest ≠ lowHalf6 ∧ old.dest ≠ highHalf6 := by
    have table : reached.host.routes6 = host.routes6 := rfl
    rw [back6,table,routes6]
    exact deletes6_eq s.host.routes6 reached.client
  have leftFilter : (cycle showDefault s c).host.rpFilter = s.host.rpFilter :=
    backFilter.trans ((if_pos (decimalInt_ne_nil s.host.rpFilter)).trans (leadingInt_decimalInt _))
  have own : (gatewaySpec gw.gateway c.remoteHost).selects (viaGateway gw.gateway gw.device c.remoteHost) = true := by
    simp [gatewaySpec,viaGateway,RouteSpec.selects]
  refine ⟨again,?_⟩
  constructor
  · intro restored
    have kept := (delRoute_addRoute own).mp (left4.symm.trans restored.routes4)
    exact ⟨fun old member => gatewaySpec_selects.mp (kept old member),left6.mp restored.routes6,
      dns.mp (backConf.symm.trans restored.resolvConf)⟩
  · intro reversible
    have kept := (delRoute_addRoute own).mpr fun old member => gatewaySpec_selects.mpr (reversible.routes4 old member)
    exact ⟨left4.trans kept,left6.mpr reversible.routes6,leftFilter,backConf.trans (dns.mpr reversible.resolvConf)⟩

/-- A sequence of cycles restores the host throughout exactly if every cycle is reversible. -/
theorem tunnelCycles_restored_iff (host : Host) (cycles : List Cycle)
    (admitted : (tunnelCycles showDefault).Admits { host } cycles) :
    (tunnelCycles showDefault).Throughout (Restored host) { host } cycles ↔
      (tunnelCycles showDefault).Along (Reversible showDefault) { host } cycles := by
  apply Machine.throughout_iff_along (fun s => s.client = {})
  · exact fun s c cleared _ enabled => (cycle_restored showDefault cleared enabled).1
  · intro s c cleared kept enabled
    rw [← (cycle_restored showDefault cleared enabled).2]
    constructor
    · exact fun now => ⟨now.routes4.trans kept.routes4.symm,now.routes6.trans kept.routes6.symm,
        now.rpFilter.trans kept.rpFilter.symm,now.resolvConf.trans kept.resolvConf.symm⟩
    · exact fun now => ⟨now.routes4.trans kept.routes4,now.routes6.trans kept.routes6,
        now.rpFilter.trans kept.rpFilter,now.resolvConf.trans kept.resolvConf⟩
  · rfl
  · exact ⟨rfl,rfl,rfl,rfl⟩
  · exact admitted

instance decidableReversible : ∀ s c, Decidable (Reversible showDefault s c) := fun s c =>
  decidable_of_iff
    ((∀ old ∈ s.host.routes4, old.dest = hostRoute c.remoteHost →
        old.via ≠ some (getDefaultGateway (showDefault s.host.routes4)).gateway) ∧
      (∀ old ∈ s.host.routes6, old.dev = orDefault c.tunName → old.dest ≠ lowHalf6 ∧ old.dest ≠ highHalf6) ∧
      (s.host.resolvectl = true ∨ s.host.resolvWritable = false ∨ s.host.resolvConf.any (· ≠ []) = true))
    ⟨fun ⟨routes4,routes6,conf⟩ => ⟨routes4,routes6,by simpa [Option.any_eq_true] using conf⟩,
      fun ⟨routes4,routes6,conf⟩ => ⟨routes4,routes6,by simpa [Option.any_eq_true] using conf⟩⟩

end Cycle

/-- Prints the default routes, one a line. -/
def printDefault (table : List Route) : Text := table.flatMap fun r =>
  if r.dest = "default".toList then "default via ".toList ++ r.via.getD [] ++ " dev ".toList ++ r.dev ++ "\n".toList
  else []

def lan : Host where
  routes4 := [{ dest := "default".toList,via := some "192.168.1.1".toList,dev := "eth0".toList },
    { dest := "192.168.1.0/24".toList,dev := "eth0".toList }]
  routes6 := []
  rpFilter := 1
  resolvConf := some "nameserver 192.168.1.1\n".toList

/-- Two cycles, with an exemption that is already there. -/
theorem tunnelCycles_restored_twice : (tunnelCycles printDefault).Throughout (Restored lan) { host := lan }
    [⟨"tun0".toList,"5.6.7.8".toList,["9.9.9.9".toList,"5.6.7.8".toList]⟩,⟨[],"9.9.9.9".toList,[]⟩] :=
  (tunnelCycles_restored_iff printDefault lan _ (by decide +kernel)).mpr (by decide +kernel)

/-- An empty resolver configuration is not put back, and a host route that was there
before is deleted. -/
theorem tunnelCycles_left_behind :
    let server : Text := "5.6.7.8".toList
    let empty : Host := { lan with resolvConf := some [] }
    let routed : Host := { lan with routes4 := viaGateway "192.168.1.1".toList "eth0".toList server :: lan.routes4 }
    (tunnelCycles printDefault).Admits { host := empty } [⟨"tun0".toList,server,[]⟩] ∧
      ¬(tunnelCycles printDefault).Throughout (Restored empty) { host := empty } [⟨"tun0".toList,server,[]⟩] ∧
      (tunnelCycles printDefault).Admits { host := routed } [⟨"tun0".toList,server,[]⟩] ∧
      ¬(tunnelCycles printDefault).Throughout (Restored routed) { host := routed } [⟨"tun0".toList,server,[]⟩] := by
  refine ⟨by decide +kernel,fun holds => ?_,by decide +kernel,fun holds => ?_⟩
  · exact absurd holds.last.resolvConf (by decide +kernel)
  · exact absurd holds.last.routes4 (by decide +kernel)

end Nospoon
