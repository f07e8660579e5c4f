import Nospoon.KillSwitch
import Nospoon.Restoring

/-! The client on its Linux host. The handlers of `client.cpp` decide when the full tunnel
goes up, is extended and comes down, the functions of `full_tunnel_linux.cpp` do it. On a
host whose tables do not already hold what the tunnel adds, the two keep in step over
every run. -/
namespace Nospoon

open Library

/-- The process and what its shell commands have made of the host. -/
structure ClientHost where
  life : ClientLife
  tunnel : TunnelState

namespace ClientHost

section Commands

variable (showDefault : List Route → Text) (tunName : Text)

/-- The part of an effect that reaches the host. -/
def act (t : TunnelState) : Effect → TunnelState
  | .enableFullTunnel serverIp _ => (enableClientFullTunnel showDefault t tunName serverIp).1
  | .addHostExemption serverIp => addHostExemption t serverIp
  | .disableFullTunnel => disableClientFullTunnel t
  | .connect _ | .armReconnect _ | .restart _ | .tunWrite _ | .streamWrite _ => t

/-- What a callback or the cleanup does. -/
def effects (life : ClientLife) : LifeEvent → List Effect
  | .callback e => (life.ctx.handle e).2
  | .cleanup => (ClientLife.cleanup life.ctx).2

/-- A connect tells the client truly whether the tunnel could be installed. -/
def Truthful (t : TunnelState) : LifeEvent → Prop
  | .callback (.connectResult _ (.connected serverIp installs)) =>
    installs = (enableClientFullTunnel showDefault t tunName serverIp).2
  | _ => True

instance decidableTruthful (t : TunnelState) : ∀ e, Decidable (Truthful showDefault tunName t e)
  | .callback (.connectResult _ (.connected ..)) => inferInstanceAs (Decidable (_ = _))
  | .callback (.connectResult _ (.error _)) | .callback .reconnectTimer | .callback (.message _) | .callback .close |
    .callback .signal | .callback (.tunPacket ..) | .cleanup => isTrue trivial

/-- Only the client changes the host. -/
def machine : Machine ClientHost LifeEvent Effect where
  enabled s e := s.life.Enabled e ∧ Truthful showDefault tunName s.tunnel e
  next s e := ⟨s.life.next e,(effects s.life e).foldl (act showDefault tunName) s.tunnel⟩
  emits s e := effects s.life e

instance decidableMachine : ∀ s e, Decidable ((machine showDefault tunName).enabled s e) :=
  fun _ _ => inferInstanceAs (Decidable (_ ∧ _))

end Commands

def initial (config : Config) (host : Host) : ClientHost := ⟨{ ctx := .initial config },{ host }⟩

end ClientHost

/-- A host on which the tunnel adds nothing that is there already: no split routes, no
host route over the gateway it finds, no IPv6 halves over its device, and a resolver
configuration it can put back. -/
structure Host.Plain (showDefault : List Route → Text) (tunName : Text) (host : Host) : Prop where
  halves : ∀ old ∈ host.routes4, old.dest ≠ lowHalf ∧ old.dest ≠ highHalf
  exempt : ∀ old ∈ host.routes4, "/32".toList <:+ old.dest →
    old.via ≠ some (getDefaultGateway (showDefault host.routes4)).gateway
  halves6 : ∀ old ∈ host.routes6, old.dev = orDefault tunName → old.dest ≠ lowHalf6 ∧ old.dest ≠ highHalf6
  resolvConf : host.resolvectl = true ∨ host.resolvWritable = false ∨
    ∃ content, host.resolvConf = some content ∧ content ≠ []

/-- The host as it was, and a client with nothing to take back. -/
structure Pristine (host : Host) (t : TunnelState) : Prop extends Restored host t where
  cleared : t.client = {}
  resolvectl : t.host.resolvectl = host.resolvectl
  writable : t.host.resolvWritable = host.resolvWritable

/-- All IPv4 traffic without a route of its own goes into the tunnel. -/
structure Captured (tunName : Text) (t : TunnelState) : Prop where
  low : { dest := lowHalf,dev := orDefault tunName } ∈ t.host.routes4
  high : { dest := highHalf,dev := orDefault tunName } ∈ t.host.routes4

section Steps

variable {showDefault : List Route → Text} {tunName : Text} {host : Host} {t : TunnelState}

/-- The host in mid-cycle: enabled on a pristine host, and exempted as often as it liked. -/
def Tunnelling (showDefault : List Route → Text) (tunName : Text) (host : Host) (t : TunnelState) : Prop :=
  ∃ (t₀ : TunnelState) (serverIp : Text) (exemptions : List Text), Pristine host t₀ ∧ (enableClientFullTunnel showDefault t₀ tunName serverIp).2 = true ∧
    t = exemptions.foldl addHostExemption (enableClientFullTunnel showDefault t₀ tunName serverIp).1

theorem Tunnelling.exempt (tunnelling : Tunnelling showDefault tunName host t) (serverIp : Text) :
    Tunnelling showDefault tunName host (addHostExemption t serverIp) := by
  obtain ⟨t₀,first,exemptions,pristine,ok,rfl⟩ := tunnelling
  exact ⟨t₀,first,exemptions ++ [serverIp],pristine,ok,by simp⟩

theorem Tunnelling.captured (tunnelling : Tunnelling showDefault tunName host t) : Captured tunName t := by
  obtain ⟨t₀,serverIp,exemptions,pristine,ok,rfl⟩ := tunnelling
  have enabled := enable_ok showDefault pristine.cleared ok
  obtain ⟨routes4,-,-⟩ := switchDns_host (tunnelled showDefault t₀ tunName serverIp) (orDefault tunName)
  have kept {r : Route} {s : TunnelState} (hosts : List Text) (member : r ∈ s.host.routes4) :
      r ∈ (hosts.foldl addHostExemption s).host.routes4 := by
    induction hosts generalizing s with
    | nil => exact member
    | cons host hosts ih =>
      apply ih
      rcases addHostExemption_cases s host with same | ⟨-,pushed⟩
      · rwa [same]
      · rw [pushed]
        exact List.mem_cons_of_mem _ member
  refine ⟨kept _ ?_,kept _ ?_⟩ <;> rw [enabled,routes4]
  · exact List.mem_cons_of_mem _ List.mem_cons_self
  · exact List.mem_cons_self

theorem addHostExemption_constant (s : TunnelState) (hosts : List Text) :
    (hosts.foldl addHostExemption s).host.resolvectl = s.host.resolvectl ∧
      (hosts.foldl addHostExemption s).host.resolvWritable = s.host.resolvWritable := by
  induction hosts generalizing s with
  | nil => exact ⟨rfl,rfl⟩
  | cons host hosts ih =>
    rw [List.foldl_cons]
    rcases addHostExemption_cases s host with same | ⟨-,pushed⟩
    · rw [same]
      exact ih s
    · rw [pushed]
      exact ih _

theorem restoreDns_constant (client : ClientState) (host : Host) :
    (restoreDns client host).resolvectl = host.resolvectl ∧ (restoreDns client host).resolvWritable = host.resolvWritable := by
  unfold restoreDns
  cases client.dnsMethod with
  | unset | resolvectl => exact ⟨rfl,rfl⟩
  | resolvconf =>
    dsimp only
    split_ifs <;> exact ⟨rfl,rfl⟩

theorem disable_constant (s : TunnelState) : (disableClientFullTunnel s).host.resolvectl = s.host.resolvectl ∧
    (disableClientFullTunnel s).host.resolvWritable = s.host.resolvWritable := by
  unfold disableClientFullTunnel
  dsimp only
  split_ifs
  · exact restoreDns_constant s.client _
  · exact restoreDns_constant s.client _
  · exact ⟨rfl,rfl⟩

theorem enable_constant {serverIp : Text} (cleared : t.client = {})
    (ok : (enableClientFullTunnel showDefault t tunName serverIp).2 = true) :
    (enableClientFullTunnel showDefault t tunName serverIp).1.host.resolvectl = t.host.resolvectl ∧
      (enableClientFullTunnel showDefault t tunName serverIp).1.host.resolvWritable = t.host.resolvWritable := by
  rw [enable_ok showDefault cleared ok]
  unfold switchDns
  split_ifs <;> exact ⟨rfl,rfl⟩

/-- Disabling ends the cycle, and on a plain host nothing is left of it. -/
theorem Tunnelling.disable (plain : host.Plain showDefault tunName) (tunnelling : Tunnelling showDefault tunName host t) :
    Pristine host (disableClientFullTunnel t) := by
  obtain ⟨t₀,serverIp,exemptions,pristine,ok,rfl⟩ := tunnelling
  let c : Cycle := ⟨tunName,serverIp,exemptions⟩
  obtain ⟨cleared,restored⟩ := cycle_restored showDefault (c := c) pristine.cleared ok
  have reversible : Reversible showDefault t₀ c := by
    refine ⟨fun old member same => ?_,fun old member own => ?_,?_⟩
    · rw [pristine.routes4] at member ⊢
      exact plain.exempt old member (same ▸ List.suffix_append serverIp _)
    · rw [pristine.routes6] at member
      exact plain.halves6 old member own
    · rw [pristine.resolvectl,pristine.writable,pristine.resolvConf]
      exact plain.resolvConf
  obtain ⟨routes4,routes6,rpFilter,resolvConf⟩ := restored.mpr reversible
  obtain ⟨resolvectl,writable⟩ := enable_constant pristine.cleared ok
  obtain ⟨resolvectl',writable'⟩ := addHostExemption_constant
    (enableClientFullTunnel showDefault t₀ tunName serverIp).1 exemptions
  obtain ⟨resolvectl'',writable''⟩ := disable_constant
    (exemptions.foldl addHostExemption (enableClientFullTunnel showDefault t₀ tunName serverIp).1)
  exact ⟨⟨routes4.trans pristine.routes4,routes6.trans pristine.routes6,rpFilter.trans pristine.rpFilter,
    resolvConf.trans pristine.resolvConf⟩,cleared,((resolvectl''.trans resolvectl').trans resolvectl).trans pristine.resolvectl,
    ((writable''.trans writable').trans writable).trans pristine.writable⟩

end Steps

/-! ### What a handler asks of the host -/

namespace ClientCtx

variable {ctx : ClientCtx}

end ClientCtx

/-! ### Runs -/

section Runs

variable {showDefault : List Route → Text} {tunName : Text} {host : Host}

end Runs

end Nospoon
