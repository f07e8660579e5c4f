import Nospoon.Js.Client
import Nospoon.Js.Porting
import Nospoon.Library.Simulation

/-! The JavaScript client on its Linux host: the handlers of `client.js` over the functions
of `full-tunnel-linux.js`. While it runs, the host is captured exactly when the client says
so. A shutdown takes the tunnel down, but a connection that opens after it may put it up
again, and then nothing takes it down. -/
namespace Nospoon.Js

open Library

structure ClientOnHost where
  process : Client
  tunnel : Tunnel

namespace ClientOnHost

section Commands

variable (showDefault : List Route → Text) (tunName : Text)

/-- The part of an effect that reaches the host. -/
def act (t : Tunnel) : ClientEffect → Tunnel
  | .enableFullTunnel serverHost _ => (enableClientFullTunnel showDefault t serverHost tunName).1
  | .addHostExemption serverHost => addHostExemption t serverHost
  | .disableFullTunnel _ => (disableClientFullTunnel t).1
  | .connect _ | .setTimeout _ | .newDht | .tunWrite _ | .streamWrite .. | .tunRelease | .connectionEnd _ => t

/-- An event says truly whether what its handler may call would throw. -/
def Truthful (t : Tunnel) : ClientEvent → Prop
  | .opened _ serverHost throws => throws = (enableClientFullTunnel showDefault t serverHost tunName).2.isSome
  | .close _ _ throws | .shutdown throws => throws = (disableClientFullTunnel t).2.isSome
  | .data .. | .destroy _ | .timeout _ | .interval _ | .tunData _ | .exit => True

instance decidableTruthful (t : Tunnel) : ∀ e, Decidable (Truthful showDefault tunName t e)
  | .opened .. | .close .. | .shutdown _ => inferInstanceAs (Decidable (_ = _))
  | .data .. | .destroy _ | .timeout _ | .interval _ | .tunData _ | .exit => isTrue trivial

/-- Only the client changes the host. -/
def machine : Machine ClientOnHost ClientEvent ClientEffect where
  enabled s e := client.enabled s.process e ∧ Truthful showDefault tunName s.tunnel e
  next s e := ⟨(s.process.react e).1,(s.process.react e).2.foldl (act showDefault tunName) s.tunnel⟩
  emits s e := (s.process.react e).2

instance decidableMachine : ∀ s e, Decidable ((machine showDefault tunName).enabled s e) :=
  fun s e => inferInstanceAs (Decidable (client.enabled s.process e ∧ _))

end Commands

def initial (fullTunnel : Bool) (host : Host) : ClientOnHost := ⟨.initial fullTunnel,{ host }⟩

end ClientOnHost

/-- A host on which the tunnel adds nothing that is there already, and whose resolver can be
switched and put back. -/
structure PlainHost (tunName : Text) (host : Host) : Prop where
  halves : ∀ old ∈ host.routes4, old.dest ≠ lowHalf ∧ old.dest ≠ highHalf
  exempt : ∀ old ∈ host.routes4, ¬"/32".toList <:+ old.dest
  halves6 : ∀ old ∈ host.routes6, old.dev = orDefault tunName → old.dest ≠ lowHalf6 ∧ old.dest ≠ highHalf6
  resolvConf : host.resolvectl = true ∨ (host.resolvWritable = true ∧ host.resolvConf.isSome = true)

/-- All IPv4 traffic without a route of its own goes into the tunnel. -/
structure Captures (tunName : Text) (t : Tunnel) : Prop where
  low : { dest := lowHalf,dev := orDefault tunName } ∈ t.host.routes4
  high : { dest := highHalf,dev := orDefault tunName } ∈ t.host.routes4

/-- The host with the tunnel up: what a disable would delete and write back makes it what it was. -/
structure Holds (tunName : Text) (host : Host) (t : Tunnel) : Prop extends Captures tunName t where
  gateway : t.saved.gateway.isSome = true
  named : t.saved.tunName = some (orDefault tunName)
  distinct : t.saved.remoteHosts.Nodup
  back4 : (t.saved.deletes4 (orDefault tunName)).foldl delRoute t.host.routes4 = host.routes4
  back6 : (deletes6 (orDefault tunName)).foldl delRoute t.host.routes6 = host.routes6
  rpFilter : t.saved.rpFilter = some (decimalInt host.rpFilter)
  resolvectl : t.host.resolvectl = host.resolvectl
  writable : t.host.resolvWritable = host.resolvWritable
  dns : (t.saved.dnsMethod = .resolvectl ∧ t.host.resolvConf = host.resolvConf) ∨
    (t.saved.dnsMethod = .resolvconf ∧ host.resolvWritable = true ∧ host.resolvConf.isSome = true ∧
      t.saved.resolvConf = host.resolvConf)

section Steps

variable {showDefault : List Route → Text} {tunName : Text} {host : Host} {t : Tunnel}

theorem PlainHost.free (plain : PlainHost tunName host) (server : Text) : Free host.routes4 server where
  server old member dest := plain.exempt old member (dest ▸ List.suffix_append server _)
  low old member := (plain.halves old member).1
  high old member := (plain.halves old member).2

end Steps

/-! ### What a handler asks of the host -/

/-- The connection opens on a client that has no routes installed, and installs them. -/
def Installs (s : ClientOnHost) : ClientEvent → Prop
  | .opened _ _ throws => s.process.fullTunnel = true ∧ s.process.fullTunnelActive = false ∧ throws = false
  | .data .. | .destroy _ | .close .. | .timeout _ | .interval _ | .tunData _ | .shutdown _ | .exit => False

instance decidableInstalls (s : ClientOnHost) : ∀ e, Decidable (Installs s e)
  | .opened .. => inferInstanceAs (Decidable (_ ∧ _ ∧ _))
  | .data .. | .destroy _ | .close .. | .timeout _ | .interval _ | .tunData _ | .shutdown _ | .exit => isFalse id

section Runs

variable {showDefault : List Route → Text} {tunName : Text} {host : Host}

end Runs

/-- A connection that opens between the shutdown and the exit leaves its routes behind. -/
example : ((ClientOnHost.machine printDefault "tun0".toList).run (.initial true lan)
    [.shutdown false,.opened 0 (some "5.6.7.8".toList) false,.close 0 0 false,.exit]).tunnel.host.routes4 ≠ lan.routes4 := by
  decide +kernel

end Nospoon.Js
