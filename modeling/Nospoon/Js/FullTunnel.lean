import Nospoon.FullTunnel
import Nospoon.Js.LoadConfig
import Nospoon.Js.Server

/-! The JavaScript client's full tunnel on Linux (`full-tunnel-linux.js`), on the same hosts
as its C++ port. A strict command that fails throws, and so does a resolver configuration
that cannot be written. -/
namespace Nospoon.Js

open Library

/-- What is thrown: an error of its own, or what a command or a write failed with. -/
inductive Thrown where
  | error (message : Text)
  | command (cmd : Text) (args : List Text)
  | write (path : Text)
  deriving DecidableEq

/-- The variables of the module. -/
structure Saved where
  tunName : Option Text := none
  remoteHosts : List Text := []
  gateway : Option GatewayInfo := none
  rpFilter : Option Text := none
  resolvConf : Option Text := none
  dnsMethod : DnsMethod := .unset

structure Tunnel where
  host : Host
  saved : Saved := {}

/-! ### Shell helpers -/

/-- `/^[a-zA-Z0-9_-]+$/`. -/
def ifaceRe (name : Text) : Bool := name ≠ [] && name.all fun c => c.isAlphanum || c = '_' || c = '-'

/-- The first match of `word\s+(\S+)`. -/
def afterWord (word : Text) : Text → Option Text
  | [] => none
  | c :: line =>
    match afterPrefix word (c :: line) with
    | none => afterWord word line
    | some rest =>
      let found := (rest.dropWhile isJsSpace).takeWhile fun c => !isJsSpace c
      if rest.takeWhile isJsSpace = [] ∨ found = [] then afterWord word line else some found

/-- Reads the output of `ip route show default`; `null` for either part is `none`. -/
def getDefaultGateway (shown : Text) : Option (Option Text × Option Text) :=
  let line := trim shown
  if line = [] then none else some (afterWord "via".toList line,afterWord "dev".toList line)

/-- The gateway that an enable does not refuse. -/
def usableGateway (shown : Text) : Option GatewayInfo :=
  match getDefaultGateway shown with
  | none => none
  | some (gateway,device) =>
    match truthy gateway, truthy device with
    | some gateway, some device => some { gateway,device }
    | _, _ => none

def tunnelDns : List Text := ["1.1.1.1".toList,"8.8.8.8".toList]

def resolvConfPath : Text := "/etc/resolv.conf".toList

/-- What is written to `/etc/resolv.conf`. -/
def dnsEntries : Text :=
  "# nospoon full-tunnel DNS\n".toList ++ ['\n'].intercalate (tunnelDns.map ("nameserver ".toList ++ ·)) ++ ['\n']

/-! ### The client -/

/-- The DNS part of `enableClientFullTunnel`. -/
def switchDns (s : Tunnel) (tun : Text) : Tunnel × Option Thrown :=
  if s.host.resolvectl then
    ({ host := { s.host with linkDns := tun :: s.host.linkDns }
       saved := { s.saved with dnsMethod := .resolvectl } },none)
  else
    let saved := { s.saved with dnsMethod := .resolvconf,resolvConf := s.host.resolvConf }
    if s.host.resolvWritable then
      ({ host := { s.host with resolvConf := some dnsEntries },saved },none)
    else ({ host := s.host,saved },some (.write resolvConfPath))

/-- `enableClientFullTunnel` from its first change on. A refused route leaves everything
before it in place. -/
def install (s : Tunnel) (gw : GatewayInfo) (remoteHost tun : Text) : Tunnel × Option Thrown :=
  let saved := { s.saved with
    tunName := some tun
    gateway := some gw
    rpFilter := some (trim (decimalInt s.host.rpFilter ++ "\n".toList)) }
  let host := s.host.setRpFilter "2".toList
  let exempted := addRoute host.routes4 { dest := hostRoute remoteHost,via := some gw.gateway,dev := gw.device }
  if ¬exempted.2 then
    ({ host,saved },some (.command "ip".toList ["route".toList,"add".toList,hostRoute remoteHost,"via".toList,gw.gateway,
      "dev".toList,gw.device]))
  else
    let saved := { saved with remoteHosts := saved.remoteHosts ++ [remoteHost] }
    let low := addRoute exempted.1 { dest := lowHalf,dev := tun }
    if ¬low.2 then
      ({ host := { host with routes4 := exempted.1 },saved },
        some (.command "ip".toList ["route".toList,"add".toList,lowHalf,"dev".toList,tun]))
    else
      let high := addRoute low.1 { dest := highHalf,dev := tun }
      if ¬high.2 then
        ({ host := { host with routes4 := low.1 },saved },
          some (.command "ip".toList ["route".toList,"add".toList,highHalf,"dev".toList,tun]))
      else
        let routes6 := (addRoute (addRoute host.routes6 { dest := lowHalf6,dev := tun }).1
          { dest := highHalf6,dev := tun }).1
        switchDns { host := { host with routes4 := high.1,routes6 },saved } tun

def enableClientFullTunnel (showDefault : List Route → Text) (s : Tunnel) (remoteHost : Option Text) (tunName : Text) :
    Tunnel × Option Thrown :=
  match truthy remoteHost with
  | none => (s,some (.error "Cannot determine DHT server address for host route".toList))
  | some remoteHost =>
    let tun := orDefault tunName
    if ¬ifaceRe tun then (s,some (.error ("Invalid interface name: ".toList ++ tun)))
    else
      match usableGateway (showDefault s.host.routes4) with
      | none => (s,some (.error "Cannot detect default gateway".toList))
      | some gw => install s gw remoteHost tun

/-- A host is saved whether or not its route could be added. -/
def addHostExemption (s : Tunnel) (remoteHost : Option Text) : Tunnel :=
  match truthy remoteHost, s.saved.gateway with
  | some remoteHost, some gw =>
    if s.saved.remoteHosts.contains remoteHost then s
    else
      { host := { s.host with
          routes4 := (addRoute s.host.routes4 { dest := hostRoute remoteHost,via := some gw.gateway,dev := gw.device }).1 }
        saved := { s.saved with remoteHosts := s.saved.remoteHosts ++ [remoteHost] } }
  | _, _ => s

/-- The IPv4 routes `disableClientFullTunnel` deletes, in its order. -/
def Saved.deletes4 (saved : Saved) (tun : Text) : List RouteSpec :=
  { dest := highHalf,dev := some tun } :: { dest := lowHalf,dev := some tun } ::
    match saved.gateway with
    | some gw => saved.remoteHosts.map fun host => { dest := hostRoute host,via := some gw.gateway }
    | none => []

def deletes6 (tun : Text) : List RouteSpec :=
  [{ dest := lowHalf6,dev := some tun },{ dest := highHalf6,dev := some tun }]

/-- Runs whether or not the tunnel was enabled. What `async` changes is only that the
commands are not waited for. -/
def disableClientFullTunnel (s : Tunnel) : Tunnel × Option Thrown :=
  let tun := (truthy s.saved.tunName).getD "tun0".toList
  let host := { s.host with
    routes4 := (s.saved.deletes4 tun).foldl delRoute s.host.routes4
    routes6 := (deletes6 tun).foldl delRoute s.host.routes6 }
  let host := match s.saved.rpFilter with
    | some value => host.setRpFilter (trim value)
    | none => host
  match s.saved.dnsMethod, s.saved.resolvConf with
  | .resolvectl, _ => ({ host := { host with linkDns := host.linkDns.filter fun link => link ≠ tun } },none)
  | .resolvconf, some content =>
    if host.resolvWritable then ({ host := { host with resolvConf := some content } },none)
    else ({ host,saved := { s.saved with rpFilter := none } },some (.write resolvConfPath))
  | .resolvconf, none | .unset, _ => ({ host },none)

end Nospoon.Js
