import Nospoon.Restoring

/-! The client's full tunnel with commands that fail for whatever reason. The enable marks
its state as active before its first command and gives up at a refused split route. -/
namespace Nospoon

open Library

/-- Which commands of an enable succeed, if the host does not refuse them. -/
structure Outcomes where
  showDefault : Bool := true
  readRpFilter : Bool := true
  writeRpFilter : Bool := true
  hostRoute : Bool := true
  lowHalf : Bool := true
  highHalf : Bool := true
  lowHalf6 : Bool := true
  highHalf6 : Bool := true
  linkDns : Bool := true
  linkDomain : Bool := true

def tryRoute (ok : Bool) (table : List Route) (r : Route) : List Route × Bool :=
  if ok then addRoute table r else (table,false)

/-- The DNS part of `enable_client_full_tunnel`. -/
def switchDnsUnder (ok : Outcomes) (s : TunnelState) (tunName : Text) : TunnelState :=
  if s.host.resolvectl ∧ ok.linkDns = false ∧ ok.linkDomain = false then
    { s with client := { s.client with dnsMethod := .resolvectl } }
  else switchDns s tunName

section

variable (showDefault : List Route → Text) (ok : Outcomes) (s : TunnelState) (tunNameArg remoteHost : Text)

/-- The gateway that an enable finds. -/
def gatewayUnder : GatewayInfo := getDefaultGateway (if ok.showDefault then showDefault s.host.routes4 else [])

/-- `enable_client_full_tunnel`. -/
def enableUnder : TunnelState × Bool :=
  if remoteHost = [] then (s,false)
  else
    let tunName := orDefault tunNameArg
    let gw := gatewayUnder showDefault ok s
    if ¬gw.valid then (s,false)
    else
      let host := if ok.writeRpFilter then s.host.setRpFilter "2".toList else s.host
      let exempted := tryRoute ok.hostRoute s.host.routes4
        { dest := hostRoute remoteHost,via := some gw.gateway,dev := gw.device }
      let host := { host with routes4 := exempted.1 }
      let client := { s.client with
        active := true
        tunName
        gateway := gw.gateway
        gatewayDevice := gw.device
        savedRpFilter := if ok.readRpFilter then popenCapture (decimalInt s.host.rpFilter ++ "\n".toList) else []
        remoteHosts := s.client.remoteHosts ++ [remoteHost] }
      let low := tryRoute ok.lowHalf exempted.1 { dest := lowHalf,dev := tunName }
      if ¬low.2 then ({ host,client },false)
      else
        let high := tryRoute ok.highHalf low.1 { dest := highHalf,dev := tunName }
        if ¬high.2 then ({ host := { host with routes4 := low.1 },client },false)
        else
          let routes6 := (tryRoute ok.highHalf6 (tryRoute ok.lowHalf6 host.routes6 { dest := lowHalf6,dev := tunName }).1
            { dest := highHalf6,dev := tunName }).1
          (switchDnsUnder ok { host := { host with routes4 := high.1,routes6 },client } tunName,true)

/-- Where no command fails but by the host's refusal it is the enable of before. -/
theorem enableUnder_succeeds :
    enableUnder showDefault {} s tunNameArg remoteHost = enableClientFullTunnel showDefault s tunNameArg remoteHost := by
  have dns (s : TunnelState) (tunName : Text) : switchDnsUnder {} s tunName = switchDns s tunName := by
    simp [switchDnsUnder]
  simp only [enableUnder,dns]
  rfl

end

/-- The routes, the filter and the DNS configuration of the host are those of before, and
the saved state is inactive. -/
structure Untouched (s s' : TunnelState) : Prop where
  restored : Restored s.host s'
  linkDns : s'.host.linkDns = s.host.linkDns
  inactive : s'.client.active = false

/-- A failure leaves no trace. -/
def Atomic (s : TunnelState) (result : TunnelState × Bool) : Prop := result.2 = false → Untouched s result.1

theorem tryRoute_cases (ok : Bool) (table : List Route) (r : Route) :
    (¬(ok = true ∧ ∀ old ∈ table, old.dest ≠ r.dest) ∧ tryRoute ok table r = (table,false)) ∨
      ((ok = true ∧ ∀ old ∈ table, old.dest ≠ r.dest) ∧ tryRoute ok table r = (r :: table,true)) := by
  cases ok with
  | false => exact .inl ⟨by simp,rfl⟩
  | true =>
    rcases addRoute_cases table r with ⟨⟨old,inside,same⟩,eq⟩ | ⟨free,eq⟩
    · exact .inl ⟨fun ⟨_,free⟩ => free old inside same,eq⟩
    · exact .inr ⟨⟨rfl,free⟩,eq⟩

/-- The host route is for none of the two halves. -/
theorem exempted_free (ok : Bool) (table : List Route) (host gateway device : Text) (dest : Text)
    (apart : hostRoute host ≠ dest) :
    (∀ old ∈ (tryRoute ok table { dest := hostRoute host,via := some gateway,dev := device }).1, old.dest ≠ dest) ↔
      ∀ old ∈ table, old.dest ≠ dest := by
  rcases tryRoute_cases ok table { dest := hostRoute host,via := some gateway,dev := device } with ⟨-,eq⟩ | ⟨-,eq⟩
  · rw [eq]
  · rw [eq,List.forall_mem_cons]
    exact and_iff_right apart

/-- The enable is atomic exactly where it gives up before its first change, with a state that
was inactive before, or both split routes are taken. -/
theorem enable_atomic_iff (showDefault : List Route → Text) (ok : Outcomes) (s : TunnelState)
    (tunNameArg remoteHost : Text) :
    Atomic s (enableUnder showDefault ok s tunNameArg remoteHost) ↔
      if remoteHost = [] ∨ (gatewayUnder showDefault ok s).valid = false then s.client.active = false
      else ok.lowHalf = true ∧ ok.highHalf = true ∧
        ∀ old ∈ s.host.routes4, old.dest ≠ lowHalf ∧ old.dest ≠ highHalf := by
  have early : Atomic s (s,false) ↔ s.client.active = false := by
    constructor
    · intro atomic
      exact (atomic rfl).inactive
    · intro inactive _
      exact ⟨⟨rfl,rfl,rfl,rfl⟩,rfl,inactive⟩
  have late (host : Host) (client : ClientState) (active : client.active = true) : ¬Atomic s ({ host,client },false) := by
    intro atomic
    exact absurd (atomic rfl).inactive (by simp [active])
  have halves : lowHalf ≠ highHalf := by decide
  have refusal (table : List Route) : ¬(table,false).2 = true := by simp
  have success (table : List Route) : ¬¬(table,true).2 = true := by simp
  unfold enableUnder
  dsimp only
  by_cases nobody : remoteHost = []
  · rw [if_pos nobody,if_pos (.inl nobody)]
    exact early
  · rw [if_neg nobody]
    by_cases valid : (gatewayUnder showDefault ok s).valid = true
    · rw [if_neg (not_not.mpr valid),if_neg (not_or.mpr ⟨nobody,by simp [valid]⟩)]
      generalize (gatewayUnder showDefault ok s).gateway = gateway
      generalize (gatewayUnder showDefault ok s).device = device
      have freeLow := exempted_free ok.hostRoute s.host.routes4 remoteHost gateway device lowHalf (hostRoute_notHalf remoteHost).1
      have freeHigh := exempted_free ok.hostRoute s.host.routes4 remoteHost gateway device highHalf (hostRoute_notHalf remoteHost).2
      generalize (tryRoute ok.hostRoute s.host.routes4
        { dest := hostRoute remoteHost,via := some gateway,dev := device }).1 = exempted at freeLow freeHigh ⊢
      rcases tryRoute_cases ok.lowHalf exempted { dest := lowHalf,dev := orDefault tunNameArg } with
        ⟨refused,eq⟩ | ⟨⟨low,free⟩,eq⟩
      · rw [eq,if_pos (refusal _)]
        refine iff_of_false (late _ _ rfl) fun ⟨low,_,free⟩ => refused ⟨low,?_⟩
        exact freeLow.mpr fun old inside => (free old inside).1
      · rw [eq,if_neg (success _)]
        rcases tryRoute_cases ok.highHalf ({ dest := lowHalf,dev := orDefault tunNameArg } :: exempted)
          { dest := highHalf,dev := orDefault tunNameArg } with ⟨refused,eq'⟩ | ⟨⟨high,free'⟩,eq'⟩
        · rw [eq',if_pos (refusal _)]
          refine iff_of_false (late _ _ rfl) fun ⟨_,high,free⟩ => refused ⟨high,?_⟩
          rw [List.forall_mem_cons]
          exact ⟨halves,freeHigh.mpr fun old inside => (free old inside).2⟩
        · rw [eq',if_neg (success _)]
          refine iff_of_true (fun failed => absurd failed (by simp)) ⟨low,high,fun old inside => ⟨freeLow.mp free old inside,?_⟩⟩
          exact freeHigh.mp (List.forall_mem_cons.mp free').2 old inside
    · rw [if_pos valid,if_pos (.inr (by simpa using valid))]
      exact early

/-- Another VPN has the lower half already: the enable fails, and its state stays active. -/
theorem enable_halfway : ¬∀ (showDefault : List Route → Text) (ok : Outcomes) (s : TunnelState)
    (tunNameArg remoteHost : Text), s.client = {} → Atomic s (enableUnder showDefault ok s tunNameArg remoteHost) := by
  intro claim
  have atomic := claim (fun _ => "default via 192.168.1.1 dev eth0".toList) {}
    { host := { routes4 := [{ dest := lowHalf,dev := "wg0".toList }],routes6 := [],rpFilter := 1,resolvConf := none } }
    [] "5.6.7.8".toList rfl
  have untouched := atomic (by decide +kernel)
  exact absurd untouched.restored.rpFilter (by decide +kernel)

end Nospoon
