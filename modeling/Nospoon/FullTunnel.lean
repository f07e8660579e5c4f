import Mathlib.Data.List.DropRight
import Nospoon.Library.Machine
import Nospoon.Library.Undo
import Nospoon.Validation

/-! The client's full tunnel on Linux (`full_tunnel_linux.cpp`). The commands it shells
out to act on a host of routes, the reverse path filter and the resolver's configuration.
What `ip route show default` prints is a function of the IPv4 routes. -/
namespace Nospoon

open Library

structure Route where
  dest : Text
  via : Option Text := none
  dev : Text
  deriving DecidableEq

/-- What `ip route del` is given: a destination and what else must match. -/
structure RouteSpec where
  dest : Text
  via : Option Text := none
  dev : Option Text := none

def RouteSpec.selects (spec : RouteSpec) (r : Route) : Bool :=
  r.dest = spec.dest && (spec.via = none || spec.via = r.via) && (spec.dev = none || spec.dev = some r.dev)

structure Host where
  routes4 : List Route
  routes6 : List Route
  rpFilter : Int
  /-- `/etc/resolv.conf`, if there is one. -/
  resolvConf : Option Text
  resolvWritable : Bool := true
  /-- Whether `which resolvectl` finds it. -/
  resolvectl : Bool := false
  /-- The links `resolvectl` has settings for. -/
  linkDns : List Text := []

/-- `ip route add`: refused if there is a route for the destination. -/
def addRoute (table : List Route) (r : Route) : List Route × Bool :=
  if table.any fun old => old.dest = r.dest then (table,false) else (r :: table,true)

/-- `ip route del`. -/
def delRoute (table : List Route) (spec : RouteSpec) : List Route := table.eraseP spec.selects

inductive DnsMethod where
  | unset
  | resolvectl
  | resolvconf
  deriving DecidableEq

structure ClientState where
  active : Bool := false
  tunName : Text := []
  gateway : Text := []
  gatewayDevice : Text := []
  remoteHosts : List Text := []
  savedRpFilter : Text := []
  savedResolvConf : Text := []
  dnsMethod : DnsMethod := .unset

structure TunnelState where
  host : Host
  client : ClientState := {}

/-! ### Shell helpers -/

/-- Captured output, without the blanks at its end. -/
def popenCapture (out : Text) : Text :=
  out.rdropWhile fun c => c = '\n' || c = '\r' || c = ' ' || c = '\t'

/-- The first match of `word\s+(\S+)`. -/
def afterWord (word : Text) : Text → Option Text
  | [] => none
  | c :: line =>
    match afterPrefix word (c :: line) with
    | none => afterWord word line
    | some rest =>
      let found := (rest.dropWhile isSpace).takeWhile fun c => !isSpace c
      if rest.takeWhile isSpace = [] ∨ found = [] then afterWord word line else some found

structure GatewayInfo where
  gateway : Text := []
  device : Text := []

def GatewayInfo.valid (gw : GatewayInfo) : Bool := gw.gateway ≠ [] && gw.device ≠ []

/-- Reads the output of `ip route show default`. -/
def getDefaultGateway (shown : Text) : GatewayInfo :=
  let line := popenCapture shown
  { gateway := (afterWord "via".toList line).getD [],device := (afterWord "dev".toList line).getD [] }

/-- `sysctl -w net.ipv4.conf.all.rp_filter=value`. -/
def Host.setRpFilter (host : Host) (value : Text) : Host := { host with rpFilter := leadingInt value }

/-! ### The client -/

def orDefault (tunName : Text) : Text := if tunName = [] then "tun0".toList else tunName

def hostRoute (remoteHost : Text) : Text := remoteHost ++ "/32".toList

def lowHalf : Text := "0.0.0.0/1".toList
def highHalf : Text := "128.0.0.0/1".toList
def lowHalf6 : Text := "::/1".toList
def highHalf6 : Text := "8000::/1".toList

def tunnelResolvConf : Text :=
  "# nospoon full-tunnel DNS\nnameserver 1.1.1.1\nnameserver 8.8.8.8\n".toList

/-- The DNS part of `enable_client_full_tunnel`. -/
def switchDns (s : TunnelState) (tunName : Text) : TunnelState :=
  if s.host.resolvectl then
    { host := { s.host with linkDns := tunName :: s.host.linkDns }
      client := { s.client with dnsMethod := .resolvectl } }
  else
    { host := if s.host.resolvWritable then { s.host with resolvConf := some tunnelResolvConf } else s.host
      client := { s.client with
        dnsMethod := .resolvconf,savedResolvConf := s.host.resolvConf.getD s.client.savedResolvConf } }

section Commands

variable (showDefault : List Route → Text)

/-- A refused split route leaves everything before it in place. -/
def enableClientFullTunnel (s : TunnelState) (tunNameArg remoteHost : Text) : TunnelState × Bool :=
  if remoteHost = [] then (s,false)
  else
    let tunName := orDefault tunNameArg
    let gw := getDefaultGateway (showDefault s.host.routes4)
    if ¬gw.valid then (s,false)
    else
      let exempted := addRoute s.host.routes4 { dest := hostRoute remoteHost,via := some gw.gateway,dev := gw.device }
      let host := { s.host.setRpFilter "2".toList with routes4 := exempted.1 }
      let client := { s.client with
        active := true
        tunName
        gateway := gw.gateway
        gatewayDevice := gw.device
        savedRpFilter := popenCapture (decimalInt s.host.rpFilter ++ "\n".toList)
        remoteHosts := s.client.remoteHosts ++ [remoteHost] }
      let low := addRoute exempted.1 { dest := lowHalf,dev := tunName }
      if ¬low.2 then ({ host,client },false)
      else
        let high := addRoute low.1 { dest := highHalf,dev := tunName }
        if ¬high.2 then ({ host := { host with routes4 := low.1 },client },false)
        else
          let routes6 := (addRoute (addRoute host.routes6 { dest := lowHalf6,dev := tunName }).1
            { dest := highHalf6,dev := tunName }).1
          (switchDns { host := { host with routes4 := high.1,routes6 },client } tunName,true)

def addHostExemption (s : TunnelState) (remoteHost : Text) : TunnelState :=
  if ¬s.client.active ∨ remoteHost = [] ∨ s.client.gateway = [] ∨ s.client.gatewayDevice = [] then s
  else if s.client.remoteHosts.any fun host => host = remoteHost then s
  else
    let added := addRoute s.host.routes4
      { dest := hostRoute remoteHost,via := some s.client.gateway,dev := s.client.gatewayDevice }
    if added.2 then
      { host := { s.host with routes4 := added.1 }
        client := { s.client with remoteHosts := s.client.remoteHosts ++ [remoteHost] } }
    else s

/-- The DNS part of `disable_client_full_tunnel`. -/
def restoreDns (client : ClientState) (host : Host) : Host :=
  match client.dnsMethod with
  | .resolvectl => { host with linkDns := host.linkDns.filter fun link => link ≠ client.tunName }
  | .resolvconf =>
    if client.savedResolvConf ≠ [] ∧ host.resolvWritable then { host with resolvConf := some client.savedResolvConf }
    else host
  | .unset => host

/-- The routes `disable_client_full_tunnel` deletes, in its order. -/
def ClientState.deletes4 (client : ClientState) : List RouteSpec :=
  { dest := highHalf,dev := some client.tunName } :: { dest := lowHalf,dev := some client.tunName } ::
    client.remoteHosts.map fun host => { dest := hostRoute host,via := some client.gateway }

def ClientState.deletes6 (client : ClientState) : List RouteSpec :=
  [{ dest := lowHalf6,dev := some client.tunName },{ dest := highHalf6,dev := some client.tunName }]

def disableClientFullTunnel (s : TunnelState) : TunnelState :=
  if ¬s.client.active then s
  else
    let host := { s.host with
      routes4 := s.client.deletes4.foldl delRoute s.host.routes4
      routes6 := s.client.deletes6.foldl delRoute s.host.routes6 }
    let host := if s.client.savedRpFilter ≠ [] then host.setRpFilter s.client.savedRpFilter else host
    { host := restoreDns s.client host }

/-- Enabled, exempted as often as it likes, disabled. -/
structure Cycle where
  tunName : Text
  remoteHost : Text
  exemptions : List Text := []

def cycle (s : TunnelState) (c : Cycle) : TunnelState :=
  disableClientFullTunnel
    (c.exemptions.foldl addHostExemption (enableClientFullTunnel showDefault s c.tunName c.remoteHost).1)

/-- Cycles in which the enable succeeds. -/
def tunnelCycles : Machine TunnelState Cycle Unit :=
  ⟨fun s c => (enableClientFullTunnel showDefault s c.tunName c.remoteHost).2 = true,cycle showDefault,fun _ _ => []⟩

instance decidableTunnelCycles : ∀ s c, Decidable ((tunnelCycles showDefault).enabled s c) :=
  fun _ _ => inferInstanceAs (Decidable (_ = true))

end Commands

/-- What a user would miss: the routes, the filter and the resolver are those of `host`. -/
structure Restored (host : Host) (s : TunnelState) : Prop where
  routes4 : s.host.routes4 = host.routes4
  routes6 : s.host.routes6 = host.routes6
  rpFilter : s.host.rpFilter = host.rpFilter
  resolvConf : s.host.resolvConf = host.resolvConf

end Nospoon
