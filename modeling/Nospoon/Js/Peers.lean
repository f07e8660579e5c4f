import Nospoon.Address
import Nospoon.Config
import Nospoon.Library.Mask

/-! The peers object as the JavaScript loader validates it (`config.js`), where all its
values are strings and no address has a zone; `checkEntry` takes any value of a parsed
file. -/
namespace Nospoon.Js

open Library

/-- `HEX_RE`. -/
def hexRe (value : Text) : Bool := value.length = 64 && value.all isXDigit

def validateHex64 (value label : Text) : Except Text Text :=
  if hexRe value then .ok value else .error (label ++ " must be exactly 64 hex characters".toList)

def require64 (value field : Text) : Except Text Text := validateHex64 value field

/-- `ip.split('.').map(Number)`, shifted into 32 bits. Only texts of four numbers get here.
The operators of the source work on 32 signed bits; every result of `ipToInt` and
`parseSubnet` and every masked value is made unsigned by `>>> 0` before it is compared, so
that a comparison is one of bits. -/
def ipToInt (ip : Text) : BitVec 32 :=
  let octets := (ip.splitOn '.').map natOf
  BitVec.ofNat 32 (octets.getD 0 0) <<< 24 ||| BitVec.ofNat 32 (octets.getD 1 0) <<< 16 |||
    BitVec.ofNat 32 (octets.getD 2 0) <<< 8 ||| BitVec.ofNat 32 (octets.getD 3 0)

structure Subnet where
  hostIp : BitVec 32
  network : BitVec 32
  broadcast : BitVec 32
  mask : BitVec 32
  prefixLength : Nat
  deriving DecidableEq, Repr

/-- The server's CIDR has been checked before, so its two numbers are plain digits. -/
def parseSubnet (cidr : Text) : Subnet :=
  let parts := cidr.splitOn '/'
  let ip := parts.getD 0 []
  let prefixStr := parts.getD 1 []
  let prefixLength := natOf (if prefixStr = [] then ['2','4'] else prefixStr)
  let mask := if prefixLength = 0 then 0#32 else 0xffffffff#32 <<< (32 - prefixLength)
  let hostIp := ipToInt ip
  let network := hostIp &&& mask
  let broadcast := network ||| ~~~mask
  { hostIp, network, broadcast, mask, prefixLength }

/-- The checks on an IPv4 value. -/
def checkIpv4 (subnet : Option Subnet) (label ip : Text) : Except Text Unit :=
  let ipInt := ipToInt ip
  if ipInt = 0 then .error ("Invalid IP for peer ".toList ++ label ++ ": 0.0.0.0".toList)
  else if ipInt >>> 24 = 127 then
    .error ("Invalid IP for peer ".toList ++ label ++ ": loopback address".toList)
  else match subnet with
  | none => .ok ()
  | some subnet =>
    let error (reason : String) : Except Text Unit :=
      .error ("Peer ".toList ++ label ++ " IP ".toList ++ ip ++ reason.toList)
    if ipInt &&& subnet.mask ≠ subnet.network then error " is not in server subnet"
    else if ipInt = subnet.network then error " is the network address"
    else if ipInt = subnet.broadcast then error " is the broadcast address"
    else if ipInt = subnet.hostIp then error " conflicts with server IP"
    else .ok ()

/-- The checks on a value by itself. -/
def checkIp (subnet : Option Subnet) (label ip : Text) : Except Text Unit :=
  if !isIPv4 ip && !isIPv6 ip then .error ("Invalid IP for peer ".toList ++ label ++ ": ".toList ++ ip)
  else if isIPv4 ip then checkIpv4 subnet label ip
  else .ok ()

def checkSeen (seen : List Text) (ip : Text) : Except Text Unit :=
  if ip ∈ seen then .error ("Duplicate IP assignment in peers: ".toList ++ ip) else .ok ()

/-- One round of the loop; `seen` holds the addresses of the rounds before. -/
def checkPeer (subnet : Option Subnet) (seen : List Text) (key ip : Text) : Except Text Unit := do
  let _ ← require64 key "peer key".toList
  let label := key.take 8 ++ "...".toList
  checkIp subnet label ip
  checkSeen seen ip

def checkPeers (subnet : Option Subnet) : List Text → List (Text × Text) → Except Text Unit
  | _, [] => .ok ()
  | seen, (key,ip) :: rest => do
    checkPeer subnet seen key ip
    checkPeers subnet (ip :: seen) rest

/-- `Object.entries`. -/
def entries (peers : PeersMap) : List (Text × Text) := peers.entries.map fun e => (e.1,e.2)

def validatePeers (peers : PeersMap) (serverCidr : Option Text) : Except Text PeersMap := do
  let subnet := serverCidr.bind fun cidr => if cidr = [] then none else some (parseSubnet cidr)
  checkPeers subnet [] (entries peers)
  return peers

/-! ### What passes -/

theorem hexRe_eq_true : hexRe value = true ↔ value.length = 64 ∧ ∀ c ∈ value, isXDigit c = true := by
  rw [hexRe,Bool.and_eq_true,decide_eq_true_eq,List.all_eq_true]

theorem require64_ok : require64 value field = .ok v ↔
    v = value ∧ value.length = 64 ∧ ∀ c ∈ value, isXDigit c = true := by
  rw [← hexRe_eq_true]
  unfold require64 validateHex64
  split_ifs with hex
  · simp only [Except.ok.injEq,hex,and_true]
    exact eq_comm
  · exact iff_of_false nofun fun h => hex h.2

/-- A peer entry that may stand after addresses already seen. -/
structure PeerPasses (subnet : Option Subnet) (seen : List Text) (key ip : Text) : Prop where
  length : key.length = 64
  hex : ∀ c ∈ key, isXDigit c = true
  valid : (parseIp ip).isSome = true
  fits : isIPv4 ip = true → ∀ label, checkIpv4 subnet label ip = .ok ()
  fresh : ip ∉ seen

/-- Labels only appear in messages. -/
theorem checkIpv4_label (subnet : Option Subnet) (label label' ip : Text)
    (passes : checkIpv4 subnet label ip = .ok ()) : checkIpv4 subnet label' ip = .ok () := by
  cases subnet with
  | none =>
    simp only [checkIpv4] at passes ⊢
    split_ifs at passes ⊢
    rfl
  | some subnet =>
    simp only [checkIpv4] at passes ⊢
    split_ifs at passes ⊢
    rfl

theorem checkIp_ok : checkIp subnet label ip = .ok () ↔
    (parseIp ip).isSome = true ∧ (isIPv4 ip = true → checkIpv4 subnet label ip = .ok ()) := by
  unfold checkIp
  rw [isSome_parseIp]
  cases isIPv4 ip <;> cases isIPv6 ip <;> simp

theorem checkSeen_ok : checkSeen seen ip = .ok () ↔ ip ∉ seen := by
  unfold checkSeen
  split_ifs with old
  · exact iff_of_false nofun (not_not.mpr old)
  · exact iff_of_true rfl old

theorem checkPeer_ok : checkPeer subnet seen key ip = .ok () ↔ PeerPasses subnet seen key ip := by
  unfold checkPeer
  rw [bind_ok]
  simp only [seq_ok,require64_ok,checkIp_ok,checkSeen_ok]
  constructor
  · rintro ⟨_,⟨-,length,hex⟩,⟨valid,fits⟩,fresh⟩
    exact ⟨length,hex,valid,fun four label => checkIpv4_label _ _ _ _ (fits four),fresh⟩
  · rintro ⟨length,hex,valid,fits,fresh⟩
    exact ⟨key,⟨rfl,length,hex⟩,⟨valid,fun four => fits four _⟩,fresh⟩

theorem checkPeers_ok (seen : List Text) (rest : List (Text × Text)) :
    checkPeers subnet seen rest = .ok () ↔
      (∀ e ∈ rest, PeerPasses subnet seen e.1 e.2) ∧ (rest.map Prod.snd).Nodup := by
  induction rest generalizing seen with
  | nil => simp [checkPeers]
  | cons e rest ih =>
    obtain ⟨key,ip⟩ := e
    simp only [checkPeers,seq_ok,checkPeer_ok,ih,List.forall_mem_cons,List.map_cons,List.nodup_cons]
    constructor
    · rintro ⟨here,later,distinct⟩
      refine ⟨⟨here,fun e member => ?_⟩,?_,distinct⟩
      · obtain ⟨length,hex,valid,fits,fresh⟩ := later e member
        exact ⟨length,hex,valid,fits,fun old => fresh (List.mem_cons_of_mem _ old)⟩
      · intro again
        obtain ⟨e,member,same⟩ := List.mem_map.mp again
        exact (later e member).fresh (same ▸ List.mem_cons_self)
    · rintro ⟨⟨here,later⟩,apart,distinct⟩
      refine ⟨here,fun e member => ?_,distinct⟩
      obtain ⟨length,hex,valid,fits,fresh⟩ := later e member
      refine ⟨length,hex,valid,fits,fun old => ?_⟩
      rcases List.mem_cons.mp old with same | old
      · exact apart (List.mem_map.mpr ⟨e,member,same⟩)
      · exact fresh old

theorem validatePeers_ok : validatePeers peers serverCidr = .ok allowed ↔ allowed = peers ∧
    (∀ e ∈ peers.entries, PeerPasses
      (serverCidr.bind fun cidr => if cidr = [] then none else some (parseSubnet cidr)) [] e.1 e.2) ∧
    (peers.entries.map fun e => e.2).Nodup := by
  simp only [validatePeers,seq_ok,checkPeers_ok,entries,List.forall_mem_map,List.map_map,Function.comp_def,pure,
    Except.pure,Except.ok.injEq]
  tauto

/-- The addresses that `validatePeers` lets through. -/
structure Validated (peers : PeersMap) : Prop where
  valid : ∀ e ∈ peers.entries, (parseIp e.2).isSome = true
  distinct : (peers.entries.map fun e => e.2).Nodup

theorem validated_of_ok (accepted : validatePeers peers serverCidr = .ok allowed) : Validated peers := by
  obtain ⟨-,passes,distinct⟩ := validatePeers_ok.mp accepted
  exact ⟨fun e member => (passes e member).valid,distinct⟩

/-- An address belongs to one entry. -/
theorem Validated.same_key (validated : Validated peers) (first : peers.lookup k = some ip)
    (second : peers.lookup k' = some ip) : k = k' := by
  have same := List.inj_on_of_nodup_map validated.distinct (AList.mem_lookup_iff.mp first)
    (AList.mem_lookup_iff.mp second) rfl
  exact congrArg Sigma.fst same

end Nospoon.Js
