import Nospoon.Js.Checks
import Nospoon.Js.FullTunnel
import Nospoon.Restoring

/-! The JavaScript full tunnel and its C++ port side by side. Where the stricter of the two
gets through, both make the same of the host, and both take it back alike but for two cases:
an exempted host that had a route of its own, and an empty resolver configuration. -/
namespace Nospoon.Js

open Library

/-! ### The gateway -/

section Gateway

variable {word line : Text} {c : Char}

theorem afterPrefix_concat (fresh : c ∉ word) (line : Text) : afterPrefix word (line ++ [c]) = (afterPrefix word line).map (· ++ [c]) := by
  by_cases inside : word <+: line
  · obtain ⟨rest,rfl⟩ := inside
    rw [afterPrefix_eq_some.mpr (List.append_assoc word rest [c]),afterPrefix_eq_some.mpr rfl]
    rfl
  · have outside : ¬word <+: line ++ [c] := by
      intro whole
      rcases List.prefix_concat_iff.mp whole with same | before
      · exact fresh (same ▸ List.mem_append_right _ List.mem_cons_self)
      · exact inside before
    rw [afterPrefix_eq_none.mpr outside,afterPrefix_eq_none.mpr inside]
    rfl

theorem takeWhile_concat {f : Char → Bool} (stops : f c = false) (line : Text) : (line ++ [c]).takeWhile f = line.takeWhile f := by
  induction line with
  | nil => exact List.takeWhile_cons_of_neg (by simp [stops])
  | cons d line ih =>
    rw [List.cons_append]
    by_cases goes : f d = true
    · rw [List.takeWhile_cons_of_pos goes,List.takeWhile_cons_of_pos goes,ih]
    · rw [List.takeWhile_cons_of_neg goes,List.takeWhile_cons_of_neg goes]

theorem dropWhile_concat {f : Char → Bool} (skips : f c = true) (line : Text) :
    (line ++ [c]).dropWhile f = if line.dropWhile f = [] then [] else line.dropWhile f ++ [c] := by
  induction line with
  | nil =>
    rw [List.dropWhile_nil,if_pos rfl]
    exact List.dropWhile_cons_of_pos skips
  | cons d line ih =>
    rw [List.cons_append]
    by_cases goes : f d = true
    · rw [List.dropWhile_cons_of_pos goes,List.dropWhile_cons_of_pos goes,ih]
    · rw [List.dropWhile_cons_of_neg goes,List.dropWhile_cons_of_neg goes,if_neg (by simp)]
      rfl

/-- What follows a word is read up to a blank, so one more at the end is not seen. -/
theorem found_concat (blank : isSpace c = true) (rest : Text) :
    ((rest ++ [c]).dropWhile isSpace).takeWhile (fun c => !isSpace c) =
      (rest.dropWhile isSpace).takeWhile fun c => !isSpace c := by
  rw [dropWhile_concat blank]
  by_cases empty : rest.dropWhile isSpace = []
  · rw [if_pos empty,empty]
  · rw [if_neg empty]
    exact takeWhile_concat (by simp [blank]) _

theorem afterWord_cons (word : Text) (c : Char) (line : Text) : Nospoon.afterWord word (c :: line) =
    match afterPrefix word (c :: line) with
    | none => Nospoon.afterWord word line
    | some rest =>
      let found := (rest.dropWhile isSpace).takeWhile fun c => !isSpace c
      if rest.takeWhile isSpace = [] ∨ found = [] then Nospoon.afterWord word line else some found := rfl

/-- A blank at the end is not part of what follows a word. -/
theorem afterWord_concat (fresh : c ∉ word) (nonempty : word ≠ []) (blank : isSpace c = true) (line : Text) :
    Nospoon.afterWord word (line ++ [c]) = Nospoon.afterWord word line := by
  induction line with
  | nil =>
    have none : afterPrefix word [c] = none := by
      apply afterPrefix_eq_none.mpr
      intro inside
      obtain ⟨d,rest,rfl⟩ := List.exists_cons_of_ne_nil nonempty
      obtain ⟨same,-⟩ := List.cons_prefix_cons.mp inside
      exact fresh (same ▸ List.mem_cons_self)
    rw [List.nil_append,afterWord_cons,none]
  | cons d line ih =>
    have step := afterPrefix_concat fresh (d :: line)
    rw [List.cons_append] at step ⊢
    rw [afterWord_cons,afterWord_cons,step]
    cases afterPrefix word (d :: line) with
    | none => exact ih
    | some rest =>
      simp only [Option.map_some,found_concat blank,ih]
      by_cases nothing : (rest.dropWhile isSpace).takeWhile (fun c => !isSpace c) = []
      · simp only [nothing,or_true,↓reduceIte]
      · have spaced : (rest ++ [c]).takeWhile isSpace = [] ↔ rest.takeWhile isSpace = [] := by
          cases rest with
          | nil => exact absurd rfl nothing
          | cons e rest =>
            rw [List.cons_append]
            cases space : isSpace e <;> simp [space]
        simp only [nothing,or_false,spaced]

/-- No more is a blank at the start. -/
theorem afterWord_blank (fresh : c ∉ word) (nonempty : word ≠ []) (line : Text) :
    Nospoon.afterWord word (c :: line) = Nospoon.afterWord word line := by
  have none : afterPrefix word (c :: line) = none := by
    apply afterPrefix_eq_none.mpr
    intro inside
    obtain ⟨d,rest,rfl⟩ := List.exists_cons_of_ne_nil nonempty
    obtain ⟨same,-⟩ := List.cons_prefix_cons.mp inside
    exact fresh (same ▸ List.mem_cons_self)
  rw [afterWord_cons,none]

section Trimming

variable (fresh : ∀ c ∈ word, isSpace c = false) (nonempty : word ≠ [])

include fresh nonempty in
theorem afterWord_rdropWhile {f : Char → Bool} (blank : ∀ c, f c = true → isSpace c = true) (line : Text) :
    Nospoon.afterWord word (line.rdropWhile f) = Nospoon.afterWord word line := by
  induction line using List.reverseRecOn with
  | nil => rfl
  | append_singleton line c ih =>
    by_cases drops : f c = true
    · have space := blank c drops
      have other : c ∉ word := fun member => by
        rw [fresh c member] at space
        contradiction
      rw [List.rdropWhile_concat_pos _ _ _ drops,ih,afterWord_concat other nonempty space]
    · rw [List.rdropWhile_concat_neg _ _ _ drops]

include fresh nonempty in
theorem afterWord_dropWhile (line : Text) : Nospoon.afterWord word (line.dropWhile isSpace) = Nospoon.afterWord word line := by
  induction line with
  | nil => rfl
  | cons c line ih =>
    by_cases space : isSpace c = true
    · have other : c ∉ word := fun member => by
        rw [fresh c member] at space
        contradiction
      rw [List.dropWhile_cons_of_pos space,ih,afterWord_blank other nonempty]
    · rw [List.dropWhile_cons_of_neg space]

end Trimming

/-- The two kinds of blanks are the same on this text. -/
def Ascii (line : Text) : Prop := ∀ c ∈ line, isJsSpace c = isSpace c

theorem Ascii.takeWhile (ascii : Ascii line) : line.takeWhile isJsSpace = line.takeWhile isSpace ∧
    line.takeWhile (fun c => !isJsSpace c) = line.takeWhile fun c => !isSpace c := by
  induction line with
  | nil => exact ⟨rfl,rfl⟩
  | cons c line ih =>
    obtain ⟨here,later⟩ := List.forall_mem_cons.mp ascii
    obtain ⟨blanks,letters⟩ := ih later
    simp only [List.takeWhile_cons,here,blanks,letters,and_self]

theorem Ascii.dropWhile (ascii : Ascii line) : line.dropWhile isJsSpace = line.dropWhile isSpace := by
  induction line with
  | nil => rfl
  | cons c line ih =>
    obtain ⟨here,later⟩ := List.forall_mem_cons.mp ascii
    simp only [List.dropWhile_cons,here,ih later]

theorem Ascii.sublist {part : Text} (ascii : Ascii line) (inside : List.Sublist part line) : Ascii part :=
  fun c member => ascii c (inside.subset member)

theorem Ascii.afterWord (ascii : Ascii line) (word : Text) : Js.afterWord word line = Nospoon.afterWord word line := by
  induction line with
  | nil => rfl
  | cons c line ih =>
    have rest' := ih (List.forall_mem_cons.mp ascii).2
    rw [Js.afterWord,afterWord_cons]
    cases after : afterPrefix word (c :: line) with
    | none => exact rest'
    | some rest =>
      have part : Ascii rest := ascii.sublist (afterPrefix_eq_some.mp after ▸ List.sublist_append_right word rest)
      have dropped : Ascii (rest.dropWhile isSpace) := part.sublist (List.dropWhile_sublist _)
      simp only [part.takeWhile.1,part.dropWhile,dropped.takeWhile.2,rest']

theorem Ascii.rdropWhile (ascii : Ascii line) : line.rdropWhile isJsSpace = line.rdropWhile isSpace := by
  have reversed : Ascii line.reverse := fun c member => ascii c (List.mem_reverse.mp member)
  rw [List.rdropWhile,List.rdropWhile,reversed.dropWhile]

theorem Ascii.trim (ascii : Ascii line) : Js.trim line = (line.dropWhile isSpace).rdropWhile isSpace := by
  have dropped : Ascii (line.dropWhile isSpace) := ascii.sublist (List.dropWhile_sublist _)
  rw [Js.trim,ascii.dropWhile,dropped.rdropWhile]

/-- Neither sees the blanks the other trims. -/
theorem Ascii.afterWord_trim (ascii : Ascii line) (fresh : ∀ c ∈ word, isSpace c = false) (nonempty : word ≠ []) :
    Js.afterWord word (Js.trim line) = Nospoon.afterWord word (popenCapture line) := by
  have part : Ascii (Js.trim line) :=
    ascii.sublist ((List.rdropWhile_prefix _ _).sublist.trans (List.dropWhile_sublist _))
  have captured : Nospoon.afterWord word (popenCapture line) = Nospoon.afterWord word line := by
    apply afterWord_rdropWhile fresh nonempty
    intro c blank
    simp only [Bool.or_eq_true,decide_eq_true_eq] at blank
    rcases blank with ((rfl | rfl) | rfl) | rfl <;> decide
  rw [part.afterWord,ascii.trim,afterWord_rdropWhile fresh nonempty (fun _ space => space),
    afterWord_dropWhile fresh nonempty,captured]

theorem afterWord_ne_nil {found : Text} (some : Nospoon.afterWord word line = some found) : found ≠ [] := by
  induction line with
  | nil => contradiction
  | cons c line ih =>
    rw [afterWord_cons] at some
    split at some
    · exact ih some
    · dsimp only at some
      split_ifs at some with again
      · exact ih some
      · exact Option.some.inj some ▸ (not_or.mp again).2

/-- Both parts have to be there. -/
theorem usableGateway_bind (shown : Text) : usableGateway shown = (getDefaultGateway shown).bind fun parts =>
    (truthy parts.1).bind fun gateway => (truthy parts.2).map fun device => { gateway,device } := by
  unfold usableGateway
  cases getDefaultGateway shown with
  | none => rfl
  | some parts =>
    dsimp only [Option.bind_some]
    cases truthy parts.1 with
    | none => rfl
    | some gateway => cases truthy parts.2 <;> rfl

/-- The gateway is read alike. -/
theorem usableGateway_eq {shown : Text} (ascii : Ascii shown) : usableGateway shown =
    if (Nospoon.getDefaultGateway shown).valid then some (Nospoon.getDefaultGateway shown) else none := by
  have via : Js.afterWord "via".toList (Js.trim shown) = Nospoon.afterWord "via".toList (popenCapture shown) :=
    ascii.afterWord_trim (by simp [isSpace]) (by decide)
  have dev : Js.afterWord "dev".toList (Js.trim shown) = Nospoon.afterWord "dev".toList (popenCapture shown) :=
    ascii.afterWord_trim (by simp [isSpace]) (by decide)
  have parts (gateway device : Option Text) (given : ∀ g ∈ gateway, g ≠ []) (named : ∀ d ∈ device, d ≠ []) :
      ((truthy gateway).bind fun gateway => (truthy device).map fun device => ({ gateway,device } : GatewayInfo)) =
      if GatewayInfo.valid { gateway := gateway.getD [],device := device.getD [] }
        then some { gateway := gateway.getD [],device := device.getD [] } else none := by
    cases gateway with
    | none => rfl
    | some gateway =>
      rw [truthy_some (given gateway rfl)]
      cases device with
      | none => simp [truthy,GatewayInfo.valid]
      | some device =>
        rw [truthy_some (named device rfl)]
        simp [GatewayInfo.valid,given gateway rfl,named device rfl]
  have read := parts (Nospoon.afterWord "via".toList (popenCapture shown)) (Nospoon.afterWord "dev".toList (popenCapture shown))
    (fun _ found => afterWord_ne_nil found) (fun _ found => afterWord_ne_nil found)
  refine Eq.trans ?_ read
  rw [usableGateway_bind]
  unfold getDefaultGateway
  by_cases empty : trim shown = []
  · have unread : truthy (Nospoon.afterWord "via".toList (popenCapture shown)) = none := by
      rw [← via,empty]
      decide
    rw [if_pos empty,unread]
    rfl
  · rw [if_neg empty,via]
    exact dev ▸ rfl

end Gateway

/-! ### The filter and the resolver -/

theorem trim_solid {t : Text} (solid : ∀ c ∈ t, isJsSpace c = false) : trim t = t ∧ trim (t ++ "\n".toList) = t := by
  have ends : t.rdropWhile isJsSpace = t := by
    apply List.rdropWhile_eq_self_iff.mpr
    intro nonempty
    simp [solid _ (List.getLast_mem nonempty)]
  have starts (rest : Text) (nonempty : t ≠ []) : (t ++ rest).dropWhile isJsSpace = t ++ rest := by
    obtain ⟨c,t,rfl⟩ := List.exists_cons_of_ne_nil nonempty
    exact List.dropWhile_cons_of_neg (by simp [solid c List.mem_cons_self])
  by_cases empty : t = []
  · rw [empty]
    exact ⟨rfl,by decide⟩
  · have whole := starts [] empty
    rw [List.append_nil] at whole
    have newline : (t ++ "\n".toList).rdropWhile isJsSpace = t.rdropWhile isJsSpace :=
      List.rdropWhile_concat_pos _ _ _ (by decide)
    refine ⟨?_,?_⟩
    · rw [trim,whole,ends]
    · rw [trim,starts _ empty,newline,ends]

/-- What `sysctl -n` prints comes back as it was, however often it is trimmed. -/
theorem trim_printed (v : Int) : trim (decimalInt v) = decimalInt v ∧ trim (decimalInt v ++ "\n".toList) = decimalInt v := by
  have digits (n : Nat) (c : Char) (member : c ∈ decimal n) : isJsSpace c = false := by
    apply digit_noJsSpace
    by_contra noDigit
    exact decimal_noChar n c (by simpa using noDigit) member
  apply trim_solid
  cases v with
  | ofNat n => exact digits n
  | negSucc n =>
    rw [decimalInt]
    exact List.forall_mem_cons.mpr ⟨by decide,digits _⟩

theorem dnsEntries_eq : dnsEntries = tunnelResolvConf := by decide +kernel

/-! ### Enabling -/

section Enable

variable {showDefault : List Route → Text} {s : Tunnel} {gw : GatewayInfo} {server tun tunName : Text}

/-- The host once everything was installed, but for its resolver. -/
def installedHost (host : Host) (gw : GatewayInfo) (server tun : Text) : Host :=
  { host with
    rpFilter := 2
    routes4 := { dest := highHalf,dev := tun } :: { dest := lowHalf,dev := tun } ::
      viaGateway gw.gateway gw.device server :: host.routes4
    routes6 := (addRoute (addRoute host.routes6 { dest := lowHalf6,dev := tun }).1 { dest := highHalf6,dev := tun }).1 }

/-- The routes an install needs to add are not there. -/
structure Free (table : List Route) (server : Text) : Prop where
  server : ∀ old ∈ table, old.dest ≠ hostRoute server
  low : ∀ old ∈ table, old.dest ≠ lowHalf
  high : ∀ old ∈ table, old.dest ≠ highHalf

/-- The three adds of an enable, one after the other. -/
theorem Free.adds {table : List Route} (free : Free table server) (gw : GatewayInfo) (tun : Text) :
    addRoute table (viaGateway gw.gateway gw.device server) = (viaGateway gw.gateway gw.device server :: table,true) ∧
      addRoute (viaGateway gw.gateway gw.device server :: table) { dest := lowHalf,dev := tun } =
        ({ dest := lowHalf,dev := tun } :: viaGateway gw.gateway gw.device server :: table,true) ∧
      addRoute ({ dest := lowHalf,dev := tun } :: viaGateway gw.gateway gw.device server :: table)
          { dest := highHalf,dev := tun } =
        ({ dest := highHalf,dev := tun } :: { dest := lowHalf,dev := tun } :: viaGateway gw.gateway gw.device server :: table,
          true) := by
  have differ : lowHalf ≠ highHalf := by decide
  obtain ⟨notLow,notHigh⟩ := hostRoute_notHalf server
  exact ⟨addRoute_new free.server,addRoute_new (List.forall_mem_cons.mpr ⟨notLow,free.low⟩),
    addRoute_new (List.forall_mem_cons.mpr ⟨differ,List.forall_mem_cons.mpr ⟨notHigh,free.high⟩⟩)⟩

/-- Each add is refused where its destination has a route. -/
theorem install_unthrown (ok : (install s gw server tun).2 = none) : Free s.host.routes4 server := by
  unfold install at ok
  dsimp only at ok
  split_ifs at ok with exempted low high
  rw [addRoute_ok exempted] at low high
  rw [addRoute_ok low] at high
  have aboveLow := (List.forall_mem_cons.mp (addRoute_fresh low)).2
  have aboveHigh := (List.forall_mem_cons.mp (List.forall_mem_cons.mp (addRoute_fresh high)).2).2
  exact ⟨addRoute_fresh exempted,aboveLow,aboveHigh⟩

/-- An install adds all its routes or throws. -/
theorem install_cases (s : Tunnel) (gw : GatewayInfo) (server tun : Text) :
    (¬Free s.host.routes4 server ∧ (install s gw server tun).2 ≠ none) ∨
      (Free s.host.routes4 server ∧ install s gw server tun = switchDns
        { host := installedHost s.host gw server tun
          saved := { s.saved with
            tunName := some tun
            gateway := some gw
            rpFilter := some (decimalInt s.host.rpFilter)
            remoteHosts := s.saved.remoteHosts ++ [server] } } tun) := by
  have filter : s.host.setRpFilter "2".toList = { s.host with rpFilter := 2 } := by
    rw [Host.setRpFilter,show leadingInt "2".toList = 2 by decide]
  by_cases free : Free s.host.routes4 server
  · obtain ⟨exempted,low,high⟩ := free.adds gw tun
    rw [viaGateway] at exempted low high
    refine .inr ⟨free,?_⟩
    unfold install
    rw [filter,(trim_printed s.host.rpFilter).2]
    dsimp only
    rw [exempted,low,high]
    rfl
  · exact .inl ⟨free,mt install_unthrown free⟩

/-- The resolver's part of an enable. -/
def resolverHost (host : Host) (tun : Text) : Host :=
  if host.resolvectl then { host with linkDns := tun :: host.linkDns }
  else if host.resolvWritable then { host with resolvConf := some tunnelResolvConf } else host

theorem switchDns_whole (t : TunnelState) (tun : Text) : Nospoon.switchDns t tun =
    ⟨resolverHost t.host tun,{ t.client with
      dnsMethod := if t.host.resolvectl then .resolvectl else .resolvconf
      savedResolvConf := if t.host.resolvectl then t.client.savedResolvConf
        else t.host.resolvConf.getD t.client.savedResolvConf }⟩ := by
  unfold Nospoon.switchDns resolverHost
  split_ifs <;> rfl

/-- The two resolver parts do the same where the JavaScript one throws nothing. -/
theorem switchDns_cases (s : Tunnel) (tun : Text) :
    ((s.host.resolvectl = true ∨ s.host.resolvWritable = true) ∧ switchDns s tun =
      (⟨resolverHost s.host tun,{ s.saved with
        dnsMethod := if s.host.resolvectl then .resolvectl else .resolvconf
        resolvConf := if s.host.resolvectl then s.saved.resolvConf else s.host.resolvConf }⟩,none)) ∨
      (¬(s.host.resolvectl = true ∨ s.host.resolvWritable = true) ∧ (switchDns s tun).2 ≠ none) := by
  unfold switchDns resolverHost
  rw [dnsEntries_eq]
  cases resolvectl : s.host.resolvectl with
  | true => exact .inl ⟨.inl rfl,by simp [resolvectl]⟩
  | false =>
    cases writable : s.host.resolvWritable with
    | true => exact .inl ⟨.inr rfl,by simp [resolvectl,writable]⟩
    | false => exact .inr ⟨by simp,by simp⟩

/-- When the C++ enable finds all its routes free it succeeds. -/
theorem enable_free (tunName : Text) {t : TunnelState} (cleared : t.client = {}) (nonempty : server ≠ [])
    (valid : (Nospoon.getDefaultGateway (showDefault t.host.routes4)).valid = true) (free : Free t.host.routes4 server) :
    (Nospoon.enableClientFullTunnel showDefault t tunName server).2 = true ∧
      (Nospoon.enableClientFullTunnel showDefault t tunName server).1 = Nospoon.switchDns
        (tunnelled showDefault t tunName server) (orDefault tunName) ∧
      (tunnelled showDefault t tunName server).host = installedHost t.host
        (Nospoon.getDefaultGateway (showDefault t.host.routes4)) server (orDefault tunName) := by
  obtain ⟨exempted,low,high⟩ := free.adds (Nospoon.getDefaultGateway (showDefault t.host.routes4)) (orDefault tunName)
  have succeeds : (Nospoon.enableClientFullTunnel showDefault t tunName server).2 = true := by
    rw [viaGateway] at exempted low high
    unfold Nospoon.enableClientFullTunnel
    dsimp only
    rw [if_neg nonempty,if_neg (not_not.mpr valid),exempted]
    dsimp only
    rw [low]
    dsimp only
    rw [high]
    rfl
  refine ⟨succeeds,enable_ok showDefault cleared succeeds,?_⟩
  rw [tunnelled,exempted]
  rfl

theorem truthy_eq_some {given : Option Text} {text : Text} (h : truthy given = some text) : given = some text ∧ text ≠ [] := by
  unfold truthy at h
  split at h
  · contradiction
  · rename_i other
    refine ⟨h,?_⟩
    rintro rfl
    exact other h

/-- A host is asked for once, whatever became of its route. -/
theorem exempt_js {t : Tunnel} (gateway : t.saved.gateway = some gw) (nonempty : server ≠ []) :
    addHostExemption t (some server) =
      if server ∈ t.saved.remoteHosts then t
      else
        { host := { t.host with routes4 := (addRoute t.host.routes4 (viaGateway gw.gateway gw.device server)).1 }
          saved := { t.saved with remoteHosts := t.saved.remoteHosts ++ [server] } } := by
  rw [addHostExemption,truthy_some nonempty,gateway]
  dsimp only
  rw [viaGateway]
  simp only [List.contains_iff_mem]

/-- Where the JavaScript enable throws nothing, the C++ one succeeds and makes the same of the host. -/
theorem enable_unthrown {t : TunnelState} (host : s.host = t.host) (fresh : s.saved = {}) (cleared : t.client = {})
    (ascii : Ascii (showDefault s.host.routes4)) {remoteHost : Option Text}
    (ok : (enableClientFullTunnel showDefault s remoteHost tunName).2 = none) :
    ∃ gw server, remoteHost = some server ∧ gw.valid = true ∧ Free s.host.routes4 server ∧
      (s.host.resolvectl = true ∨ s.host.resolvWritable = true) ∧
      (enableClientFullTunnel showDefault s remoteHost tunName).1 =
        { host := resolverHost (installedHost s.host gw server (orDefault tunName)) (orDefault tunName)
          saved := {
            tunName := some (orDefault tunName)
            remoteHosts := [server]
            gateway := some gw
            rpFilter := some (decimalInt s.host.rpFilter)
            resolvConf := if s.host.resolvectl then none else s.host.resolvConf
            dnsMethod := if s.host.resolvectl then .resolvectl else .resolvconf } } ∧
      (Nospoon.enableClientFullTunnel showDefault t tunName server).2 = true ∧
      (Nospoon.enableClientFullTunnel showDefault t tunName server).1 =
        { host := resolverHost (installedHost s.host gw server (orDefault tunName)) (orDefault tunName)
          client := {
            active := true
            tunName := orDefault tunName
            gateway := gw.gateway
            gatewayDevice := gw.device
            savedRpFilter := decimalInt s.host.rpFilter
            remoteHosts := [server]
            savedResolvConf := if s.host.resolvectl then [] else s.host.resolvConf.getD []
            dnsMethod := if s.host.resolvectl then .resolvectl else .resolvconf } } := by
  have gateway := usableGateway_eq ascii
  unfold enableClientFullTunnel at ok ⊢
  cases given : truthy remoteHost with
  | none =>
    rw [given] at ok
    contradiction
  | some server =>
    obtain ⟨same,nonempty⟩ := truthy_eq_some given
    rw [given] at ok
    dsimp only at ok ⊢
    by_cases named : ifaceRe (orDefault tunName)
    · rw [if_neg (not_not.mpr named)] at ok ⊢
      by_cases valid : (Nospoon.getDefaultGateway (showDefault s.host.routes4)).valid
      · rw [if_pos valid] at gateway
        rw [gateway] at ok ⊢
        dsimp only at ok ⊢
        rcases install_cases s (Nospoon.getDefaultGateway (showDefault s.host.routes4)) server (orDefault tunName) with
          ⟨-,throws⟩ | ⟨free,eq⟩
        · exact absurd ok throws
        rw [eq] at ok ⊢
        rcases switchDns_cases _ (orDefault tunName) with ⟨resolver,switched⟩ | ⟨-,throws⟩
        · rw [switched]
          rw [host] at valid free
          obtain ⟨succeeds,enabled,tunnel⟩ := enable_free tunName cleared nonempty valid free
          refine ⟨_,server,same,host ▸ valid,host ▸ free,resolver,?_,succeeds,?_⟩
          · rw [fresh]
            rfl
          · rw [enabled,switchDns_whole,tunnel,host]
            rfl
        · exact absurd ok throws
      · rw [if_neg valid] at gateway
        rw [gateway] at ok
        contradiction
    · rw [if_pos named] at ok
      contradiction

end Enable

end Nospoon.Js
