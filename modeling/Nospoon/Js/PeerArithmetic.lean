import Nospoon.PeerRules
import Nospoon.Js.Checks

/-! The masks of `validatePeers` against plain arithmetic: a map of keys to IPv4 texts passes
exactly if every address has a place of its own in the block around the server. -/
namespace Nospoon.Js

open Library Library.Json

/-! ### Plain arithmetic -/

/-- The addresses that share the first `length` bits with `host`. -/
def subnetOf (length host : Nat) : Set Nat := blockOf (32 - length) host

/-- An address that a client may have in the server's subnet. -/
structure Place (length host value : Nat) : Prop where
  inside : value ∈ subnetOf length host
  notLowest : ¬IsLeast (subnetOf length host) value
  notHighest : ¬IsGreatest (subnetOf length host) value
  notServer : value ≠ host
  notZero : value ≠ 0
  notLoopback : value / 2 ^ 24 ≠ 127

/-- The number that an IPv4 text stands for. -/
def Denotes (ip : Text) (value : Nat) : Prop :=
  ∃ bytes, parseIpv4 ip = some bytes ∧ addressValue (bytes.map UInt8.toNat) = value

/-- Every address has a place, and no two are the same number. -/
structure Placed (length host : Nat) (peers : PeersMap) : Prop where
  places : ∀ key ip value, peers.lookup key = some ip → Denotes ip value → Place length host value
  distinct : ∀ key key' ip ip' value, peers.lookup key = some ip → peers.lookup key' = some ip' →
    Denotes ip value → Denotes ip' value → key = key'

theorem place_iff {length host value : Nat} : Place length host value ↔
    value ≠ 0 ∧ value / 2 ^ 24 ≠ 127 ∧ InSubnet host length value := by
  constructor
  · rintro ⟨inside,notLowest,notHighest,notServer,notZero,notLoopback⟩
    exact ⟨notZero,notLoopback,inside,mt isLeast_block.mpr notLowest,mt isGreatest_block.mpr notHighest,notServer⟩
  · rintro ⟨notZero,notLoopback,inside,notNetwork,notBroadcast,notServer⟩
    exact ⟨inside,mt isLeast_block.mp notNetwork,mt isGreatest_block.mp notBroadcast,notServer,notZero,notLoopback⟩

/-- Four bytes are told by their number. -/
theorem addressValue_injective {bytes bytes' : Address} (four : bytes.length = 4) (four' : bytes'.length = 4)
    (same : addressValue (bytes.map UInt8.toNat) = addressValue (bytes'.map UInt8.toNat)) : bytes = bytes' := by
  obtain ⟨a,b,c,d,rfl⟩ := List.length_eq_four.mp four
  obtain ⟨a',b',c',d',rfl⟩ := List.length_eq_four.mp four'
  simp only [addressValue,List.map_cons,List.map_nil,List.foldl_cons,List.foldl_nil] at same
  have small (x : UInt8) : x.toNat < 256 := x.toNat_lt
  have := small a; have := small b; have := small c; have := small d
  have := small a'; have := small b'; have := small c'; have := small d'
  have ha : a = a' := UInt8.toNat_inj.mp (by omega)
  have hb : b = b' := UInt8.toNat_inj.mp (by omega)
  have hc : c = c' := UInt8.toNat_inj.mp (by omega)
  have hd : d = d' := UInt8.toNat_inj.mp (by omega)
  rw [ha,hb,hc,hd]

/-- Different texts of IPv4 addresses are different numbers. -/
theorem denotes_injective (first : Denotes ip value) (second : Denotes ip' value) : ip = ip' := by
  obtain ⟨bytes,read,rfl⟩ := first
  obtain ⟨bytes',read',same⟩ := second
  obtain ⟨four,rfl⟩ := parseIpv4_eq_some.mp read
  obtain ⟨four',rfl⟩ := parseIpv4_eq_some.mp read'
  rw [addressValue_injective four four' same.symm]

/-! ### What passes -/

/-- A CIDR that the loader accepts has four octets and a prefix length up to 32. -/
theorem requireCidr_text {cidr : Text} (accepted : requireCidr (textValue cidr) field = .ok v) (label : Text) :
    Nospoon.validateCidr cidr label = .ok () :=
  (requireCidr_ok accepted).2.2 cidr (isText_textValue.mpr rfl) label

/-- The checks of one IPv4 address. -/
theorem checkIpv4_place (valid : Nospoon.validateCidr cidr field = .ok ()) (found : matchCidr cidr = some (octets,length))
    (denotes : Denotes ip value) (label : Text) :
    checkIpv4 (some (parseSubnet cidr)) label ip = .ok () ↔
      Place (natOf length) (addressValue (octets.map natOf)) value := by
  obtain ⟨bytes,read,rfl⟩ := denotes
  rw [checkIpv4_ok valid read,place_iff]
  constructor
  · rintro ⟨notZero,notLoopback,inSubnet⟩
    exact ⟨notZero,notLoopback,inSubnet octets length found⟩
  · rintro ⟨notZero,notLoopback,inSubnet⟩
    refine ⟨notZero,notLoopback,fun octets' length' found' => ?_⟩
    obtain ⟨rfl,rfl⟩ := Prod.mk.inj (Option.some.inj (found.symm.trans found'))
    exact inSubnet

/-- For every accepted CIDR, IPv4 peers under 64-digit keys pass exactly if each has a place
of its own, and then the map is returned as it is. -/
theorem validatePeers_iff (cidr field : Text) (v : Value) (accepted : requireCidr (textValue cidr) field = .ok v)
    (peers : PeersMap) (keys : ∀ key ∈ peers, ∃ k, validateHex64 key "peer key".toList = .ok k)
    (values : ∀ key ip, peers.lookup key = some ip → isIPv4 ip = true) :
    ∃ octets length, matchCidr cidr = some (octets,length) ∧
      ((∃ allowed, validatePeers peers (some cidr) = .ok allowed) ↔
        Placed (natOf length) (addressValue (octets.map natOf)) peers) ∧
      ∀ allowed, validatePeers peers (some cidr) = .ok allowed → allowed = peers := by
  have valid := requireCidr_text accepted field
  obtain ⟨octets,length,found,-,-⟩ := validateCidr_ok.mp valid
  have nonempty : cidr ≠ [] := by
    rintro rfl
    have none : matchCidr [] = none := rfl
    rw [none] at found
    contradiction
  have denoted (key ip : Text) (stored : peers.lookup key = some ip) : ∃ value, Denotes ip value := by
    obtain ⟨bytes,read⟩ := Option.isSome_iff_exists.mp (values key ip stored)
    exact ⟨_,bytes,read,rfl⟩
  have passes : (∃ allowed, validatePeers peers (some cidr) = .ok allowed) ↔
      (∀ key ip, peers.lookup key = some ip → PeerPasses (some (parseSubnet cidr)) [] key ip) ∧
        (peers.entries.map fun e => e.2).Nodup := by
    simp only [validatePeers_ok,Option.bind_some,if_neg nonempty]
    constructor
    · rintro ⟨_,-,checked,distinct⟩
      exact ⟨fun key ip stored => checked ⟨key,ip⟩ (AList.mem_lookup_iff.mp stored),distinct⟩
    · rintro ⟨checked,distinct⟩
      exact ⟨peers,rfl,fun e member => checked e.1 e.2 (AList.mem_lookup_iff.mpr member),distinct⟩
  refine ⟨octets,length,found,?_,fun allowed ok => (validatePeers_ok.mp ok).1⟩
  rw [passes]
  constructor
  · rintro ⟨checked,distinct⟩
    refine ⟨fun key ip value stored denotes => ?_,fun key key' ip ip' value stored stored' denotes denotes' => ?_⟩
    · have fits := (checked key ip stored).fits (values key ip stored) []
      exact (checkIpv4_place valid found denotes []).mp fits
    · obtain rfl := denotes_injective denotes denotes'
      have equal := List.inj_on_of_nodup_map distinct (AList.mem_lookup_iff.mp stored) (AList.mem_lookup_iff.mp stored') rfl
      exact congrArg Sigma.fst equal
  · rintro ⟨places,distinct⟩
    refine ⟨fun key ip stored => ?_,?_⟩
    · obtain ⟨k,checked⟩ := keys key (AList.lookup_isSome.mp (by rw [stored]; rfl))
      obtain ⟨-,sized,hex⟩ := require64_ok.mp checked
      obtain ⟨value,denotes⟩ := denoted key ip stored
      refine ⟨sized,hex,?_,fun _ label => ?_,List.not_mem_nil⟩
      · rw [isSome_parseIp,values key ip stored]
        rfl
      · exact (checkIpv4_place valid found denotes label).mpr (places key ip value stored denotes)
    · have separate : peers.entries.Nodup := (List.Nodup.of_map _ peers.nodupKeys)
      refine separate.map_on fun e member e' member' same => ?_
      obtain ⟨key,ip⟩ := e
      obtain ⟨key',ip'⟩ := e'
      obtain rfl : ip = ip' := same
      have stored := AList.mem_lookup_iff.mpr member
      obtain ⟨value,denotes⟩ := denoted key ip stored
      rw [distinct key key' ip ip value stored (AList.mem_lookup_iff.mpr member') denotes denotes]

/-- Two clients at the ends of the upper half of all addresses, the top bit set in both. -/
def highPeers : PeersMap :=
  (AList.singleton (List.replicate 64 'a') "128.0.0.2".toList).insert (List.replicate 64 'b') "255.255.255.254".toList

theorem validatePeers_iff_high : ∃ octets length, matchCidr "200.0.0.1/1".toList = some (octets,length) ∧
    ((∃ allowed, validatePeers highPeers (some "200.0.0.1/1".toList) = .ok allowed) ↔
      Placed (natOf length) (addressValue (octets.map natOf)) highPeers) ∧
    ∀ allowed, validatePeers highPeers (some "200.0.0.1/1".toList) = .ok allowed → allowed = highPeers := by
  have listed (key ip : Text) (stored : highPeers.lookup key = some ip) :
      ⟨key,ip⟩ ∈ highPeers.entries := AList.mem_lookup_iff.mp stored
  refine validatePeers_iff "200.0.0.1/1".toList "ip".toList (textValue "200.0.0.1/1".toList) rfl highPeers ?_ ?_
  · intro key inside
    obtain ⟨ip,stored⟩ := Option.isSome_iff_exists.mp (AList.lookup_isSome.mpr inside)
    have all : ∀ e ∈ highPeers.entries, hexRe e.1 = true := by decide +kernel
    exact ⟨key,if_pos (all _ (listed key ip stored))⟩
  · intro key ip stored
    have all : ∀ e ∈ highPeers.entries, isIPv4 e.2 = true := by decide +kernel
    exact all _ (listed key ip stored)

end Nospoon.Js
