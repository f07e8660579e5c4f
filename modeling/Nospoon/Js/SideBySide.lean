import Nospoon.Js.Porting

/-! Two clients on two hosts that were the same, one with each full tunnel. As long as the
JavaScript one throws nothing the hosts stay the same, up to a disable that deletes the route
of a host it never added, or puts back an empty resolver configuration. -/
namespace Nospoon.Js

open Library

inductive TunnelStep where
  | enable (remoteHost : Option Text) (tunName : Text)
  | exempt (remoteHost : Option Text)
  | disable

section Machine

variable (showDefault : List Route → Text)

/-- Both get the same calls, a null host as an empty one. A client disables only what it
enabled, and enables only what is not. -/
def sideBySide : Machine (Tunnel × TunnelState) TunnelStep Unit where
  enabled s
    | .enable remoteHost tunName => s.1.saved.gateway = none ∧ Ascii (showDefault s.1.host.routes4) ∧
        (enableClientFullTunnel showDefault s.1 remoteHost tunName).2 = none
    | .exempt _ => True
    | .disable => s.1.saved.gateway ≠ none
  next s
    | .enable remoteHost tunName => ((enableClientFullTunnel showDefault s.1 remoteHost tunName).1,
        (Nospoon.enableClientFullTunnel showDefault s.2 tunName (remoteHost.getD [])).1)
    | .exempt remoteHost => (addHostExemption s.1 remoteHost,Nospoon.addHostExemption s.2 (remoteHost.getD []))
    | .disable => ((disableClientFullTunnel s.1).1,Nospoon.disableClientFullTunnel s.2)
  emits _ _ := []

-- `Char` is finite, and instances for finite types would go through all of it
instance (line : Text) : Decidable (Ascii line) := List.decidableBAll (fun c => isJsSpace c = isSpace c) line

instance decidableSideBySide : ∀ s e, Decidable ((sideBySide showDefault).enabled s e)
  | _, .enable .. => inferInstanceAs (Decidable (_ ∧ _ ∧ _))
  | _, .exempt _ => isTrue trivial
  | _, .disable => inferInstanceAs (Decidable (_ ≠ _))

end Machine

/-- What a disable must not meet: a route over the gateway to a host that only the
JavaScript client saved, and an empty resolver configuration. -/
def Portable (s : Tunnel × TunnelState) : TunnelStep → Prop
  | .disable =>
    (∀ host ∈ s.1.saved.remoteHosts, host ∉ s.2.client.remoteHosts → ∀ old ∈ s.1.host.routes4,
      old.dest = hostRoute host → old.via ≠ some s.2.client.gateway) ∧
    (s.2.client.dnsMethod = .resolvconf → s.1.saved.resolvConf ≠ some [])
  | .enable .. | .exempt _ => True

instance decidablePortable : ∀ s e, Decidable (Portable s e)
  | _, .enable .. | _, .exempt _ => isTrue trivial
  | _, .disable => inferInstanceAs (Decidable (_ ∧ (_ → _)))

/-- Both tunnels are up, and the C++ client knows the hosts whose routes were added. -/
structure Up (t : Tunnel) (t' : TunnelState) : Prop where
  active : t'.client.active = true
  gateway : t.saved.gateway = some { gateway := t'.client.gateway,device := t'.client.gatewayDevice }
  valid : t'.client.gateway ≠ [] ∧ t'.client.gatewayDevice ≠ []
  tunName : t.saved.tunName = some t'.client.tunName ∧ t'.client.tunName ≠ []
  part : List.Sublist t'.client.remoteHosts t.saved.remoteHosts
  distinct : t.saved.remoteHosts.Nodup
  refused : ∀ host ∈ t.saved.remoteHosts, host ∉ t'.client.remoteHosts → ∃ old ∈ t.host.routes4, old.dest = hostRoute host
  rpFilter : ∃ v, t.saved.rpFilter = some (decimalInt v) ∧ t'.client.savedRpFilter = decimalInt v
  dnsMethod : t.saved.dnsMethod = t'.client.dnsMethod
  dns : t'.client.dnsMethod = .resolvectl ∨ (t'.client.dnsMethod = .resolvconf ∧ t.host.resolvWritable = true ∧
    t.host.resolvConf = some tunnelResolvConf ∧ t'.client.savedResolvConf = t.saved.resolvConf.getD [])

/-- Nothing is up, or both are. -/
def Alongside (s : Tunnel × TunnelState) : Prop := (s.1.saved = {} ∧ s.2.client = {}) ∨ Up s.1 s.2

section Steps

variable {showDefault : List Route → Text} {t : Tunnel} {t' : TunnelState}

theorem orDefault_ne_nil (tunName : Text) : orDefault tunName ≠ [] := by
  unfold orDefault
  split_ifs with empty
  · decide
  · exact empty

theorem enable_alongside (host : t.host = t'.host) (fresh : t.saved = {}) (cleared : t'.client = {})
    (ascii : Ascii (showDefault t.host.routes4)) {remoteHost : Option Text} {tunName : Text}
    (ok : (enableClientFullTunnel showDefault t remoteHost tunName).2 = none) :
    (enableClientFullTunnel showDefault t remoteHost tunName).1.host =
        (Nospoon.enableClientFullTunnel showDefault t' tunName (remoteHost.getD [])).1.host ∧
      Up (enableClientFullTunnel showDefault t remoteHost tunName).1
        (Nospoon.enableClientFullTunnel showDefault t' tunName (remoteHost.getD [])).1 := by
  obtain ⟨gw,server,rfl,valid,-,resolver,js,-,cpp⟩ := enable_unthrown host fresh cleared ascii ok
  rw [js,Option.getD_some,cpp]
  refine ⟨rfl,rfl,rfl,?_,⟨rfl,orDefault_ne_nil tunName⟩,List.Sublist.refl _,List.nodup_singleton server,?_,⟨_,rfl,rfl⟩,rfl,?_⟩
  · simpa [GatewayInfo.valid] using valid
  · intro host member missing
    exact absurd member missing
  · cases resolvectl : t.host.resolvectl with
    | true => exact .inl (by simp)
    | false =>
      have writable : t.host.resolvWritable = true := resolver.resolve_left (by simp [resolvectl])
      right
      simp [resolverHost,installedHost,resolvectl,writable]

/-- A call for no host does nothing. -/
theorem exempt_nobody (t : Tunnel) (t' : TunnelState) {remoteHost : Option Text} (nobody : truthy remoteHost = none) :
    addHostExemption t remoteHost = t ∧ Nospoon.addHostExemption t' (remoteHost.getD []) = t' := by
  have empty : remoteHost.getD [] = [] := by
    unfold truthy at nobody
    split at nobody
    · rfl
    · rw [nobody]
      rfl
  refine ⟨?_,?_⟩
  · rw [addHostExemption,nobody]
  · rw [empty]
    exact if_pos (.inr (.inl rfl))

/-- The C++ client asks again for a host whose route was refused. -/
theorem exempt_cpp (up : Up t t') {server : Text} (nonempty : server ≠ []) : Nospoon.addHostExemption t' server =
    if server ∈ t'.client.remoteHosts then t'
    else if (addRoute t'.host.routes4 (viaGateway t'.client.gateway t'.client.gatewayDevice server)).2 then t'.exempting [server]
    else t' := by
  have going : ¬(¬t'.client.active ∨ server = [] ∨ t'.client.gateway = [] ∨ t'.client.gatewayDevice = []) := by
    simp [up.active,nonempty,up.valid]
  have known : t'.client.remoteHosts.any (fun host => host = server) = true ↔ server ∈ t'.client.remoteHosts := by simp
  rw [Nospoon.addHostExemption,if_neg going,viaGateway]
  by_cases member : server ∈ t'.client.remoteHosts
  · rw [if_pos (known.mpr member),if_pos member]
  · rw [if_neg (mt known.mp member),if_neg member]
    dsimp only
    split_ifs with added
    · have eq := addRoute_ok added
      rw [eq]
      rfl
    · rfl

theorem exempt_up (host : t.host = t'.host) (up : Up t t') {server : Text} (nonempty : server ≠ []) :
    (addHostExemption t (some server)).host = (Nospoon.addHostExemption t' server).host ∧
      Up (addHostExemption t (some server)) (Nospoon.addHostExemption t' server) := by
  have cpp := exempt_cpp up nonempty
  have js := exempt_js up.gateway nonempty
  by_cases known : server ∈ t.saved.remoteHosts
  · rw [if_pos known] at js
    have same : Nospoon.addHostExemption t' server = t' := by
      rw [cpp]
      split_ifs with member added
      · rfl
      · obtain ⟨old,there,dest⟩ := up.refused server known member
        exact absurd dest (addRoute_fresh added old (host ▸ there))
      · rfl
    rw [js,same]
    exact ⟨host,up⟩
  · have unknown : server ∉ t'.client.remoteHosts := fun member => known (up.part.subset member)
    have distinct : (t.saved.remoteHosts ++ [server]).Nodup := by
      apply List.Nodup.append up.distinct (List.nodup_singleton server)
      simpa using known
    rw [if_neg known] at js
    rw [if_neg unknown] at cpp
    rw [js,cpp]
    rcases addRoute_cases t.host.routes4 (viaGateway t'.client.gateway t'.client.gatewayDevice server) with
      ⟨taken,refused⟩ | ⟨-,added⟩
    · rw [← host,refused]
      refine ⟨host,?_⟩
      exact { up with
        part := up.part.trans (List.sublist_append_left _ _)
        distinct
        refused := fun other member missing => by
          rcases List.mem_append.mp member with before | new
          · exact up.refused other before missing
          · rw [List.mem_singleton.mp new]
            exact taken }
    · rw [← host,added]
      refine ⟨by rw [TunnelState.exempting,← host]; rfl,?_⟩
      exact { up with
        part := up.part.append (List.Sublist.refl _)
        distinct
        refused := fun other member missing => by
          obtain ⟨absent,differ⟩ := not_or.mp (mt List.mem_append.mpr missing)
          have before := (List.mem_append.mp member).resolve_right differ
          obtain ⟨old,there,dest⟩ := up.refused other before absent
          exact ⟨old,List.mem_cons_of_mem _ there,dest⟩ }

theorem exempt_alongside (host : t.host = t'.host) (alongside : Alongside (t,t')) (remoteHost : Option Text) :
    (addHostExemption t remoteHost).host = (Nospoon.addHostExemption t' (remoteHost.getD [])).host ∧
      Alongside (addHostExemption t remoteHost,Nospoon.addHostExemption t' (remoteHost.getD [])) := by
  cases given : truthy remoteHost with
  | none =>
    obtain ⟨js,cpp⟩ := exempt_nobody t t' given
    rw [js,cpp]
    exact ⟨host,alongside⟩
  | some server =>
    obtain ⟨rfl,nonempty⟩ := truthy_eq_some given
    rw [Option.getD_some]
    rcases alongside with ⟨fresh,cleared⟩ | up
    · have js : addHostExemption t (some server) = t := by
        rw [addHostExemption,given,show t.saved.gateway = none from congrArg Saved.gateway fresh]
      have idle : t'.client.active = false := congrArg ClientState.active cleared
      have cpp : Nospoon.addHostExemption t' server = t' := if_pos (.inl (by simp [idle]))
      rw [js,cpp]
      exact ⟨host,.inl ⟨fresh,cleared⟩⟩
    · obtain ⟨same,still⟩ := exempt_up host up nonempty
      exact ⟨same,.inr still⟩

/-- What deletes a host's route over the gateway. -/
def forgets (gateway host : Text) : Route → Bool := (gatewaySpec gateway host).selects

/-- The IPv4 routes without the split ones. -/
def unsplit (table : List Route) (tun : Text) : List Route :=
  delRoute (delRoute table { dest := highHalf,dev := some tun }) { dest := lowHalf,dev := some tun }

theorem mem_unsplit {table : List Route} {tun host : Text} {old : Route} (dest : old.dest = hostRoute host) :
    old ∈ unsplit table tun ↔ old ∈ table := by
  obtain ⟨notLow,notHigh⟩ := hostRoute_notHalf host
  have low : ¬RouteSpec.selects { dest := lowHalf,dev := some tun } old = true := fun selected =>
    notLow (dest.symm.trans (selects_dest selected))
  have high : ¬RouteSpec.selects { dest := highHalf,dev := some tun } old = true := fun selected =>
    notHigh (dest.symm.trans (selects_dest selected))
  exact (List.mem_eraseP_of_neg low).trans (List.mem_eraseP_of_neg high)

/-- The deletes of the two clients come to the same unless one hits a route of old. -/
theorem forgets_iff (up : Up t t') :
    takeBack (forgets t'.client.gateway) (unsplit t.host.routes4 t'.client.tunName) t.saved.remoteHosts =
        takeBack (forgets t'.client.gateway) (unsplit t.host.routes4 t'.client.tunName) t'.client.remoteHosts ↔
      ∀ host ∈ t.saved.remoteHosts, host ∉ t'.client.remoteHosts → ∀ old ∈ t.host.routes4,
        old.dest = hostRoute host → old.via ≠ some t'.client.gateway := by
  have apart (a b : Text) (r : Route) (first : forgets t'.client.gateway a r = true)
      (second : forgets t'.client.gateway b r = true) : a = b :=
    hostRoute_injective ((selects_dest first).symm.trans (selects_dest second))
  rw [takeBack_more apart up.part up.distinct]
  refine forall₃_congr fun host member missing => ⟨fun none old there dest => ?_,fun none old there => ?_⟩
  · exact gatewaySpec_selects.mp (none old ((mem_unsplit dest).mpr there)) dest
  · exact gatewaySpec_selects.mpr fun dest => none old ((mem_unsplit dest).mp there) dest

/-- The host of a disable, before its resolver. -/
def unroutedHost (host : Host) (client : ClientState) (hosts : List Text) (v : Int) : Host :=
  { host with
    routes4 := takeBack (forgets client.gateway) (unsplit host.routes4 client.tunName) hosts
    routes6 := client.deletes6.foldl delRoute host.routes6
    rpFilter := v }

theorem disable_js (up : Up t t') {v : Int} (filter : t.saved.rpFilter = some (decimalInt v)) :
    let host := unroutedHost t.host t'.client t.saved.remoteHosts v
    disableClientFullTunnel t =
      match t'.client.dnsMethod, t.saved.resolvConf with
      | .resolvectl, _ => ({ host := { host with linkDns := host.linkDns.filter fun link => link ≠ t'.client.tunName } },none)
      | .resolvconf, some content =>
        if host.resolvWritable then ({ host := { host with resolvConf := some content } },none)
        else ({ host,saved := { t.saved with rpFilter := none } },some (.write resolvConfPath))
      | .resolvconf, none | .unset, _ => ({ host },none) := by
  have tun : (truthy t.saved.tunName).getD "tun0".toList = t'.client.tunName := by
    rw [up.tunName.1,truthy_some up.tunName.2,Option.getD_some]
  have routes : (t.saved.deletes4 t'.client.tunName).foldl delRoute t.host.routes4 =
      takeBack (forgets t'.client.gateway) (unsplit t.host.routes4 t'.client.tunName) t.saved.remoteHosts := by
    rw [Saved.deletes4,up.gateway]
    dsimp only
    rw [List.foldl_cons,List.foldl_cons,List.foldl_map]
    rfl
  have back : leadingInt (trim (decimalInt v)) = v := by rw [(trim_printed v).1,leadingInt_decimalInt]
  unfold disableClientFullTunnel
  dsimp only
  rw [tun,routes,filter,up.dnsMethod]
  dsimp only [Host.setRpFilter]
  rw [back]
  rfl

theorem disable_cpp (host : t.host = t'.host) (up : Up t t') {v : Int} (filter : t'.client.savedRpFilter = decimalInt v) :
    Nospoon.disableClientFullTunnel t' = { host := restoreDns t'.client (unroutedHost t.host t'.client t'.client.remoteHosts v) } := by
  have routes : t'.client.deletes4.foldl delRoute t'.host.routes4 =
      takeBack (forgets t'.client.gateway) (unsplit t'.host.routes4 t'.client.tunName) t'.client.remoteHosts := by
    rw [ClientState.deletes4,List.foldl_cons,List.foldl_cons,List.foldl_map]
    rfl
  have saved : t'.client.savedRpFilter ≠ [] := filter ▸ decimalInt_ne_nil v
  rw [Nospoon.disableClientFullTunnel,if_neg (not_not.mpr up.active)]
  dsimp only
  rw [if_pos saved,routes,filter,Host.setRpFilter,leadingInt_decimalInt,host]
  rfl

theorem disable_alongside (host : t.host = t'.host) (up : Up t t') :
    ((disableClientFullTunnel t).1.saved = {} ∧ (Nospoon.disableClientFullTunnel t').client = {}) ∧
      ((disableClientFullTunnel t).1.host = (Nospoon.disableClientFullTunnel t').host ↔ Portable (t,t') .disable) := by
  obtain ⟨v,js,cpp⟩ := up.rpFilter
  have whole := disable_js up js
  dsimp only at whole
  rw [disable_cpp host up cpp,whole,Portable,← forgets_iff up]
  rcases up.dns with resolvectl | ⟨resolvconf,writable,current,saved⟩
  · rw [restoreDns,resolvectl]
    refine ⟨⟨rfl,rfl⟩,fun same => ⟨congrArg Host.routes4 same,nofun⟩,fun ⟨routes,_⟩ => ?_⟩
    simp only [unroutedHost,routes]
  · rw [restoreDns,resolvconf,saved]
    cases content : t.saved.resolvConf with
    | none =>
      refine ⟨⟨rfl,rfl⟩,fun same => ⟨congrArg Host.routes4 same,nofun⟩,fun ⟨routes,_⟩ => ?_⟩
      simp only [unroutedHost,routes,Option.getD_none,ne_eq,not_true_eq_false,false_and,↓reduceIte]
    | some text =>
      have still (hosts : List Text) : (unroutedHost t.host t'.client hosts v).resolvWritable = true := writable
      rw [Option.getD_some]
      dsimp only
      rw [if_pos (still _)]
      by_cases empty : text = []
      · have kept : ¬(text ≠ [] ∧ (unroutedHost t.host t'.client t'.client.remoteHosts v).resolvWritable = true) := by
          simp [empty]
        rw [if_neg kept,empty]
        refine ⟨⟨rfl,rfl⟩,iff_of_false (fun same => ?_) fun portable => portable.2 rfl rfl⟩
        have conf : some [] = t.host.resolvConf := congrArg Host.resolvConf same
        rw [current] at conf
        exact absurd conf (by decide)
      · rw [if_pos ⟨empty,still _⟩]
        refine ⟨⟨rfl,rfl⟩,fun same => ⟨congrArg Host.routes4 same,?_⟩,fun ⟨routes,_⟩ => ?_⟩
        · intro _ none
          exact empty (Option.some.inj none)
        · simp only [unroutedHost,routes]

end Steps

/-- The hosts stay the same exactly as long as no disable meets what it must not. -/
theorem port_agrees_iff (showDefault : List Route → Text) (host : Host) (steps : List TunnelStep)
    (admitted : (sideBySide showDefault).Admits ({ host },{ host }) steps) :
    (sideBySide showDefault).Throughout (fun s => s.1.host = s.2.host) ({ host },{ host }) steps ↔
      (sideBySide showDefault).Along Portable ({ host },{ host }) steps := by
  have off {s : Tunnel × TunnelState} (alongside : Alongside s) (gateway : s.1.saved.gateway = none) :
      s.1.saved = {} ∧ s.2.client = {} := by
    rcases alongside with cleared | up
    · exact cleared
    · rw [up.gateway] at gateway
      contradiction
  have on {s : Tunnel × TunnelState} (alongside : Alongside s) (gateway : s.1.saved.gateway ≠ none) : Up s.1 s.2 := by
    rcases alongside with cleared | up
    · exact absurd (congrArg Saved.gateway cleared.1) gateway
    · exact up
  apply Machine.throughout_iff_along Alongside
  · intro s e alongside same enabled
    cases e with
    | enable remoteHost tunName =>
      obtain ⟨idle,ascii,ok⟩ := enabled
      obtain ⟨fresh,cleared⟩ := off alongside idle
      exact .inr (enable_alongside same fresh cleared ascii ok).2
    | exempt remoteHost => exact (exempt_alongside same alongside remoteHost).2
    | disable => exact .inl (disable_alongside same (on alongside enabled)).1
  · intro s e alongside same enabled
    cases e with
    | enable remoteHost tunName =>
      obtain ⟨idle,ascii,ok⟩ := enabled
      obtain ⟨fresh,cleared⟩ := off alongside idle
      exact iff_of_true (enable_alongside same fresh cleared ascii ok).1 trivial
    | exempt remoteHost => exact iff_of_true (exempt_alongside same alongside remoteHost).1 trivial
    | disable => exact (disable_alongside same (on alongside enabled)).2
  · exact .inl ⟨rfl,rfl⟩
  · rfl
  · exact admitted

/-- Two cycles on a local network, the first with an exemption of the server itself and one of
another host. -/
theorem port_agrees_twice : (sideBySide printDefault).Throughout (fun s => s.1.host = s.2.host) ({ host := lan },{ host := lan })
    [.enable (some "5.6.7.8".toList) "tun0".toList,.exempt (some "5.6.7.8".toList),.exempt (some "9.9.9.9".toList),.disable,
      .enable (some "9.9.9.9".toList) [],.exempt none,.disable] :=
  (port_agrees_iff printDefault lan _ (by decide +kernel)).mpr (by decide +kernel)

end Nospoon.Js
