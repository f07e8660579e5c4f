import Nospoon.Allocation
import Nospoon.FailClosed
import Nospoon.Js.Peers

/-! The rules for a server's peers map, and whether a loaded map obeys them. The JavaScript
loader checks them with masks; the C++ loader reads the map and checks nothing. -/
namespace Nospoon

open Library

/-! ### The rules -/

/-- Octets as one number, the first the highest. -/
def addressValue (octets : List Nat) : Nat := octets.foldl (fun value octet => 256 * value + octet) 0

/-- A place for a client in the block of `2 ^ (32 - length)` addresses around the server. -/
structure InSubnet (server length value : Nat) : Prop where
  inside : value / 2 ^ (32 - length) = server / 2 ^ (32 - length)
  notNetwork : value ≠ server / 2 ^ (32 - length) * 2 ^ (32 - length)
  notBroadcast : value ≠ server / 2 ^ (32 - length) * 2 ^ (32 - length) + (2 ^ (32 - length) - 1)
  notServer : value ≠ server

/-- What is asked of a client's IPv4 address under a server's CIDR. -/
structure Ipv4Rules (cidr : Text) (bytes : Address) : Prop where
  notZero : addressValue (bytes.map UInt8.toNat) ≠ 0
  notLoopback : addressValue (bytes.map UInt8.toNat) / 2 ^ 24 ≠ 127
  inSubnet : ∀ octets length, matchCidr cidr = some (octets,length) →
    InSubnet (addressValue (octets.map natOf)) (natOf length) (addressValue (bytes.map UInt8.toNat))

/-- The documented rules. Addresses are the same when they have the same bytes. -/
structure PeerRules (cidr : Text) (peers : PeersMap) : Prop where
  keys : ∀ key ∈ peers, key.length = 64 ∧ ∀ c ∈ key, isXDigit c = true
  valid : ∀ key ip, peers.lookup key = some ip → (parseIp ip).isSome = true
  ipv4 : ∀ key ip bytes, peers.lookup key = some ip → parseIpv4 ip = some bytes → Ipv4Rules cidr bytes
  distinct : ∀ key key' ip ip', peers.lookup key = some ip → peers.lookup key' = some ip' →
    parseIp ip = parseIp ip' → key = key'

/-- Every server config that loads has peers by the rules. -/
def PeersEnforced (read : Text → Option Text) (path : Text) : Prop :=
  ∀ cfg, loadConfig read path = .ok cfg → cfg.mode = "server".toList → PeerRules cfg.ip cfg.peers

/-! ### The reference check -/

namespace Js

theorem splitOn_dotted {a b c d : Text} (plain : ∀ s ∈ [a,b,c,d], '.' ∉ s) :
    (a ++ '.' :: b ++ '.' :: c ++ '.' :: d).splitOn '.' = [a,b,c,d] := by
  have joined := List.splitOn_intercalate '.' plain (List.cons_ne_nil _ _)
  simpa [List.intercalate] using joined

theorem toNat_octets {a b c d : Nat} (small : ∀ n ∈ [a,b,c,d], n ≤ 255) :
    (BitVec.ofNat 32 a <<< 24 ||| BitVec.ofNat 32 b <<< 16 ||| BitVec.ofNat 32 c <<< 8 ||| BitVec.ofNat 32 d).toNat =
      addressValue [a,b,c,d] := by
  simp only [List.forall_mem_cons,List.not_mem_nil,false_implies,implies_true,and_true] at small
  obtain ⟨ha,hb,hc,hd⟩ := small
  have low : c <<< 8 ||| d = 256 * c + d := by
    rw [← Nat.shiftLeft_add_eq_or_of_lt (by omega),Nat.shiftLeft_eq]
    omega
  have middle : b <<< 16 ||| (256 * c + d) = 65536 * b + (256 * c + d) := by
    rw [← Nat.shiftLeft_add_eq_or_of_lt (by omega),Nat.shiftLeft_eq]
    omega
  have high : a <<< 24 ||| (65536 * b + (256 * c + d)) = 16777216 * a + (65536 * b + (256 * c + d)) := by
    rw [← Nat.shiftLeft_add_eq_or_of_lt (by omega),Nat.shiftLeft_eq]
    omega
  have fits (n k : Nat) (bound : n * 2 ^ k < 2 ^ 32) : (BitVec.ofNat 32 n <<< k).toNat = n <<< k := by
    have small : n < 2 ^ 32 := lt_of_le_of_lt (Nat.le_mul_of_pos_right n (Nat.two_pow_pos k)) bound
    rw [BitVec.toNat_shiftLeft,BitVec.toNat_ofNat,Nat.mod_eq_of_lt small,Nat.shiftLeft_eq,Nat.mod_eq_of_lt bound]
  have last : (BitVec.ofNat 32 d).toNat = d := Nat.mod_eq_of_lt (by omega)
  rw [BitVec.toNat_or,BitVec.toNat_or,BitVec.toNat_or,fits a 24 (by omega),fits b 16 (by omega),fits c 8 (by omega),last,
    Nat.or_assoc,Nat.or_assoc,low,middle,high]
  simp only [addressValue,List.foldl_cons,List.foldl_nil]
  omega

/-- Four dotted numbers as a word. -/
theorem ipToInt_dotted {a b c d : Text} (plain : ∀ s ∈ [a,b,c,d], '.' ∉ s) (small : ∀ s ∈ [a,b,c,d], natOf s ≤ 255) :
    (ipToInt (a ++ '.' :: b ++ '.' :: c ++ '.' :: d)).toNat = addressValue ([a,b,c,d].map natOf) := by
  have octets : ∀ n ∈ [natOf a,natOf b,natOf c,natOf d], n ≤ 255 := by simpa using small
  rw [ipToInt,splitOn_dotted plain]
  exact toNat_octets octets

/-- A peer's address as a word. -/
theorem ipToInt_parsed (read : parseIpv4 ip = some bytes) :
    (ipToInt ip).toNat = addressValue (bytes.map UInt8.toNat) := by
  obtain ⟨sized,rfl⟩ := parseIpv4_eq_some.mp read
  match bytes, sized with
  | [w,x,y,z], _ =>
    have plain : ∀ s ∈ [decimal w.toNat,decimal x.toNat,decimal y.toNat,decimal z.toNat], '.' ∉ s := by
      simp [decimal_noChar _ '.' rfl]
    have small : ∀ s ∈ [decimal w.toNat,decimal x.toNat,decimal y.toNat,decimal z.toNat], natOf s ≤ 255 := by
      have bound (b : UInt8) : b.toNat ≤ 255 := Nat.le_of_lt_succ b.toNat_lt
      simp [bound]
    have value := ipToInt_dotted plain small
    simpa [formatIpv4,byteAt] using value

/-- The server's CIDR by its numbers. -/
theorem parseSubnet_eq (accepted : Nospoon.validateCidr cidr label = .ok ()) :
    ∃ octets length, matchCidr cidr = some (octets,length) ∧ natOf length ≤ 32 ∧
      (parseSubnet cidr).hostIp.toNat = addressValue (octets.map natOf) ∧
      (parseSubnet cidr).mask = leadingOnes 32 (32 - natOf length) := by
  obtain ⟨octets,length,found,short,small⟩ := validateCidr_ok.mp accepted
  obtain ⟨a,b,c,d,rfl,rfl,shape,digits,long⟩ := matchCidr_eq_some found
  have noChar (s : Text) (numeral : ∀ x ∈ s, x.isDigit = true) (c : Char) (other : c.isDigit = false) : c ∉ s :=
    fun member => absurd ((numeral c member).symm.trans other) (by decide)
  have plain (s : Text) (member : s ∈ [a,b,c,d]) : '.' ∉ s := noChar s (shape s member).1 '.' rfl
  have noSlash : '/' ∉ a ++ '.' :: b ++ '.' :: c ++ '.' :: d := by
    simp only [List.forall_mem_cons] at shape
    simp [noChar _ shape.1.1 '/' rfl,noChar _ shape.2.1.1 '/' rfl,noChar _ shape.2.2.1.1 '/' rfl,
      noChar _ shape.2.2.2.1.1 '/' rfl]
  have parts : (a ++ '.' :: b ++ '.' :: c ++ '.' :: d ++ '/' :: length).splitOn '/' =
      [a ++ '.' :: b ++ '.' :: c ++ '.' :: d,length] := by
    have apart : ∀ s ∈ [a ++ '.' :: b ++ '.' :: c ++ '.' :: d,length], '/' ∉ s := by
      rw [List.forall_mem_cons,List.forall_mem_singleton]
      exact ⟨noSlash,noChar length digits '/' rfl⟩
    have joined := List.splitOn_intercalate '/' apart (List.cons_ne_nil _ _)
    simpa [List.intercalate] using joined
  have written : length ≠ [] := List.ne_nil_of_length_pos long.1
  refine ⟨_,length,found,short,?_,?_⟩
  · rw [parseSubnet,parts]
    exact ipToInt_dotted plain small
  · have mask : (parseSubnet (a ++ '.' :: b ++ '.' :: c ++ '.' :: d ++ '/' :: length)).mask =
        if natOf length = 0 then 0#32 else 0xffffffff#32 <<< (32 - natOf length) := by
      rw [parseSubnet,parts]
      simp [written]
    rw [mask]
    split_ifs with zero
    · rw [zero]
      rfl
    · rfl

/-- The masks compute the documented rules, at every prefix length. -/
theorem checkIpv4_ok (accepted : Nospoon.validateCidr cidr field = .ok ()) (read : parseIpv4 ip = some bytes)
    (label : Text) : checkIpv4 (some (parseSubnet cidr)) label ip = .ok () ↔ Ipv4Rules cidr bytes := by
  obtain ⟨octets,length,found,short,server,mask⟩ := parseSubnet_eq accepted
  have value := ipToInt_parsed read
  have network : (parseSubnet cidr).network = (parseSubnet cidr).hostIp &&& leadingOnes 32 (32 - natOf length) := by
    rw [← mask]
    rfl
  have broadcast : (parseSubnet cidr).broadcast = (parseSubnet cidr).hostIp &&& leadingOnes 32 (32 - natOf length) |||
      ~~~leadingOnes 32 (32 - natOf length) := by
    rw [← mask]
    rfl
  have zero : ipToInt ip = 0 ↔ addressValue (bytes.map UInt8.toNat) = 0 := by
    rw [← value,← BitVec.toNat_inj]
    rfl
  have loopback : ipToInt ip >>> 24 = 127 ↔ addressValue (bytes.map UInt8.toNat) / 2 ^ 24 = 127 := by
    rw [← value,← BitVec.toNat_inj,BitVec.toNat_ushiftRight,Nat.shiftRight_eq_div_pow]
    rfl
  have inside : ipToInt ip &&& (parseSubnet cidr).mask = (parseSubnet cidr).network ↔
      addressValue (bytes.map UInt8.toNat) / 2 ^ (32 - natOf length) =
        addressValue (octets.map natOf) / 2 ^ (32 - natOf length) := by
    rw [network,mask,and_leadingOnes_eq_iff,value,server]
  have atNetwork : ipToInt ip = (parseSubnet cidr).network ↔ addressValue (bytes.map UInt8.toNat) =
      addressValue (octets.map natOf) / 2 ^ (32 - natOf length) * 2 ^ (32 - natOf length) := by
    rw [network,← BitVec.toNat_inj,toNat_and_leadingOnes,value,server]
  have atBroadcast : ipToInt ip = (parseSubnet cidr).broadcast ↔ addressValue (bytes.map UInt8.toNat) =
      addressValue (octets.map natOf) / 2 ^ (32 - natOf length) * 2 ^ (32 - natOf length) +
        (2 ^ (32 - natOf length) - 1) := by
    rw [broadcast,← BitVec.toNat_inj,toNat_or_not_leadingOnes _ (Nat.sub_le _ _),value,server]
  have atServer : ipToInt ip = (parseSubnet cidr).hostIp ↔
      addressValue (bytes.map UInt8.toNat) = addressValue (octets.map natOf) := by
    rw [← BitVec.toNat_inj,value,server]
  unfold checkIpv4
  simp only [zero,loopback,ne_eq,inside,atNetwork,atBroadcast,atServer]
  constructor
  · intro passes
    split_ifs at passes with h₁ h₂ h₃ h₄ h₅ h₆
    refine ⟨h₁,h₂,fun octets' length' found' => ?_⟩
    obtain ⟨rfl,rfl⟩ := Prod.mk.inj (Option.some.inj (found.symm.trans found'))
    exact ⟨h₃,h₄,h₅,h₆⟩
  · rintro ⟨notZero,notLoopback,inSubnet⟩
    obtain ⟨inside,notNetwork,notBroadcast,notServer⟩ := inSubnet octets length found
    rw [if_neg notZero,if_neg notLoopback,if_neg (not_not.mpr inside),if_neg notNetwork,if_neg notBroadcast,
      if_neg notServer]

end Js

/-! ### The text of a peers block -/

/-- The pairs a block lists: four quotes enclose a key and a value, and what is left when
fewer than four are left does not count. -/
inductive Lists : Text → List (Text × Text) → Prop
  | done : block.count '"' < 4 → Lists block []
  | pair : '"' ∉ gap → '"' ∉ key → '"' ∉ mid → '"' ∉ ip → Lists rest pairs →
      Lists (gap ++ '"' :: key ++ '"' :: mid ++ '"' :: ip ++ '"' :: rest) ((key,ip) :: pairs)

theorem blockPairs_next (found : nextPeer block = some (p,rest)) : blockPairs block = p :: blockPairs rest := by
  have next : peerReader.next block = some (some p,rest) := by simp [peerReader,found]
  rw [blockPairs,peerReader.drain_next next]
  rfl

theorem lists_blockPairs (block : Text) : Lists block (blockPairs block) := by
  induction size : block.length using Nat.strong_induction_on generalizing block with
  | h n ih =>
    cases found : nextPeer block with
    | none =>
      have few := nextPeer_eq_none.mp found
      rw [blockPairs_eq_nil.mpr few]
      exact .done few
    | some r =>
      obtain ⟨⟨key,ip⟩,rest⟩ := r
      rw [blockPairs_next found]
      obtain ⟨gap,mid,rfl,hg,hk,hm,hi⟩ := nextPeer_eq_some.mp found
      refine .pair hg hk hm hi (ih rest.length ?_ rest rfl)
      simp only [List.length_append,List.length_cons] at size
      omega

theorem lists_iff : Lists block pairs ↔ blockPairs block = pairs := by
  constructor
  · intro lists
    induction lists with
    | done few => exact blockPairs_eq_nil.mpr few
    | @pair gap key mid ip rest pairs hg hk hm hi _ ih =>
      have found : nextPeer (gap ++ '"' :: key ++ '"' :: mid ++ '"' :: ip ++ '"' :: rest) = some ((key,ip),rest) :=
        nextPeer_eq_some.mpr ⟨gap,mid,rfl,hg,hk,hm,hi⟩
      rw [blockPairs_next found,ih]
  · rintro rfl
    exact lists_blockPairs block

/-- The address a list of pairs leaves a key with: that of its last pair. -/
def Stands (pairs : List (Text × Text)) (key ip : Text) : Prop :=
  ∃ front back, pairs = front ++ (key,ip) :: back ∧ key ∉ back.map Prod.fst

theorem stands_cons : Stands (p :: pairs) key ip ↔
    Stands pairs key ip ∨ (p = (key,ip) ∧ key ∉ pairs.map Prod.fst) := by
  constructor
  · rintro ⟨front,back,split,last⟩
    cases front with
    | nil =>
      obtain ⟨rfl,rfl⟩ := List.cons.inj split
      exact .inr ⟨rfl,last⟩
    | cons q front => exact .inl ⟨front,back,(List.cons.inj split).2,last⟩
  · rintro (⟨front,back,rfl,last⟩ | ⟨rfl,last⟩)
    · exact ⟨p :: front,back,rfl,last⟩
    · exact ⟨[],pairs,rfl,last⟩

theorem Stands.listed (stands : Stands pairs key ip) : key ∈ pairs.map Prod.fst := by
  obtain ⟨front,back,rfl,-⟩ := stands
  simp

theorem stands_insertPairs (m : PeersMap) (pairs : List (Text × Text)) (key ip : Text) :
    (insertPairs m pairs).lookup key = some ip ↔
      Stands pairs key ip ∨ (key ∉ pairs.map Prod.fst ∧ m.lookup key = some ip) := by
  induction pairs generalizing m with
  | nil => simp [insertPairs,Stands]
  | cons p pairs ih =>
    obtain ⟨key',ip'⟩ := p
    rw [insertPairs_cons,ih,stands_cons]
    by_cases same : key = key'
    · obtain rfl := same
      rw [AList.lookup_insert]
      simp
      tauto
    · rw [AList.lookup_insert_ne same]
      simp [same,Ne.symm same]

/-- The pairs of the text's block: between the first `{` after the first `"peers"` key and
the first `}` after that. -/
def ListsPeers (json : Text) (pairs : List (Text × Text)) : Prop :=
  ∃ gap body tail, findKey "peers".toList json = some (gap ++ '{' :: body ++ '}' :: tail) ∧
    '{' ∉ gap ∧ '}' ∉ body ∧ Lists body pairs

theorem listsPeers_iff : ListsPeers json pairs ↔ (peersBlock json).map blockPairs = some pairs := by
  rw [Option.map_eq_some_iff]
  constructor
  · rintro ⟨gap,body,tail,found,hg,hb,lists⟩
    exact ⟨body,peersBlock_eq_some.mpr ⟨gap,tail,found,hg,hb⟩,lists_iff.mp lists⟩
  · rintro ⟨body,block,lists⟩
    obtain ⟨gap,tail,found,hg,hb⟩ := peersBlock_eq_some.mp block
    exact ⟨gap,body,tail,found,hg,hb,lists_iff.mpr lists⟩

theorem lookup_jsonPeers : (jsonPeers json).lookup key = some ip ↔
    ∃ pairs, ListsPeers json pairs ∧ Stands pairs key ip := by
  unfold jsonPeers
  cases block : peersBlock json with
  | none => simp [listsPeers_iff,block]
  | some body =>
    simp only [listsPeers_iff,block,Option.map_some,Option.some.injEq,exists_eq_left']
    simp [stands_insertPairs]

/-! ### Enforcement -/

/-- The pairs a text lists pass the check of the JavaScript loader, each by itself, and
those that stand name different addresses. -/
structure ListedPass (json : Text) : Prop where
  passes : ∀ pairs key ip, ListsPeers json pairs → Stands pairs key ip →
    Js.checkPeer (some (Js.parseSubnet (jsonString json "ip".toList))) [] key ip = .ok ()
  distinct : ∀ pairs key key' ip ip', ListsPeers json pairs → Stands pairs key ip → Stands pairs key' ip' →
    parseIp ip = parseIp ip' → key = key'

theorem peerRules_iff (accepted : validateCidr (jsonString json "ip".toList) field = .ok ()) :
    PeerRules (jsonString json "ip".toList) (jsonPeers json) ↔ ListedPass json := by
  constructor
  · intro rules
    constructor
    · intro pairs key ip lists stands
      have found : (jsonPeers json).lookup key = some ip := lookup_jsonPeers.mpr ⟨pairs,lists,stands⟩
      have inside : key ∈ jsonPeers json := AList.lookup_isSome.mp (by rw [found]; rfl)
      obtain ⟨length,hex⟩ := rules.keys key inside
      refine Js.checkPeer_ok.mpr ⟨length,hex,rules.valid key ip found,fun four label => ?_,List.not_mem_nil⟩
      obtain ⟨bytes,read⟩ := Option.isSome_iff_exists.mp four
      exact (Js.checkIpv4_ok accepted read label).mpr (rules.ipv4 key ip bytes found read)
    · intro pairs key key' ip ip' lists stands stands' same
      exact rules.distinct key key' ip ip' (lookup_jsonPeers.mpr ⟨pairs,lists,stands⟩)
        (lookup_jsonPeers.mpr ⟨pairs,lists,stands'⟩) same
  · intro listed
    have check (key ip : Text) (found : (jsonPeers json).lookup key = some ip) :
        Js.PeerPasses (some (Js.parseSubnet (jsonString json "ip".toList))) [] key ip := by
      obtain ⟨pairs,lists,stands⟩ := lookup_jsonPeers.mp found
      exact Js.checkPeer_ok.mp (listed.passes pairs key ip lists stands)
    constructor
    · intro key inside
      obtain ⟨ip,found⟩ := Option.isSome_iff_exists.mp (AList.lookup_isSome.mpr inside)
      exact ⟨(check key ip found).length,(check key ip found).hex⟩
    · exact fun key ip found => (check key ip found).valid
    · intro key ip bytes found read
      have four : isIPv4 ip = true := by rw [isIPv4,read]; rfl
      exact (Js.checkIpv4_ok accepted read []).mp ((check key ip found).fits four [])
    · intro key key' ip ip' found found' same
      obtain ⟨pairs,lists,stands⟩ := lookup_jsonPeers.mp found
      obtain ⟨pairs',lists',stands'⟩ := lookup_jsonPeers.mp found'
      obtain rfl := Option.some.inj ((listsPeers_iff.mp lists).symm.trans (listsPeers_iff.mp lists'))
      exact listed.distinct pairs key key' ip ip' lists stands stands' same

/-- A file's peers obey the rules exactly when it does not load as a server's config or
what it lists passes the reference check. -/
theorem loadConfig_peerRules_iff (read : Text → Option Text) (path raw : Text) (file : read path = some raw) :
    PeersEnforced read path ↔ ¬(extract (stripComments raw)).Accepted read ∨
      jsonString (stripComments raw) "mode".toList ≠ "server".toList ∨ ListedPass (stripComments raw) := by
  constructor
  · intro enforced
    by_cases accepted : (extract (stripComments raw)).Accepted read
    · by_cases server : jsonString (stripComments raw) "mode".toList = "server".toList
      · obtain ⟨cfg,resolved⟩ := resolveSeed_total accepted
        have loaded := (loadConfig_ok read path cfg).mpr ⟨raw,file,accepted,resolved⟩
        have rules := enforced cfg loaded
        rw [resolveSeed_fields resolved] at rules
        exact .inr (.inr ((peerRules_iff accepted.ip).mp (rules server)))
      · exact .inr (.inl server)
    · exact .inl accepted
  · intro h cfg loaded server
    obtain ⟨raw',file',accepted,resolved⟩ := (loadConfig_ok read path cfg).mp loaded
    obtain rfl := Option.some.inj (file.symm.trans file')
    rw [resolveSeed_fields resolved] at server ⊢
    rcases h with refused | client | listed
    · exact absurd accepted refused
    · exact absurd server client
    · exact (peerRules_iff accepted.ip).mpr listed

theorem listedPass_of (lists : ListsPeers json pairs)
    (passes : ∀ p ∈ pairs, Js.checkPeer (some (Js.parseSubnet (jsonString json "ip".toList))) [] p.1 p.2 = .ok ())
    (distinct : (pairs.map fun p => parseIp p.2).Nodup) : ListedPass json := by
  have same (pairs' : List (Text × Text)) (lists' : ListsPeers json pairs') : pairs' = pairs :=
    Option.some.inj ((listsPeers_iff.mp lists').symm.trans (listsPeers_iff.mp lists))
  have listed (pairs' : List (Text × Text)) (lists' : ListsPeers json pairs') (key ip : Text)
      (stands : Stands pairs' key ip) : (key,ip) ∈ pairs := by
    obtain ⟨front,back,split,-⟩ := stands
    rw [← same pairs' lists',split]
    simp
  constructor
  · exact fun pairs' key ip lists' stands => passes (key,ip) (listed pairs' lists' key ip stands)
  · intro pairs' key key' ip ip' lists' stands stands' equal
    have here := listed pairs' lists' key ip stands
    have there := listed pairs' lists' key' ip' stands'
    exact congrArg Prod.fst (List.inj_on_of_nodup_map distinct here there equal)

/-- A server config with one peer inside its subnet. -/
theorem loadConfig_peerRules_valid :
    PeersEnforced (holding (serverWith ('{' :: onePeerText ++ "\x7d\x7d".toList))) [] := by
  refine (loadConfig_peerRules_iff (holding _) [] _ rfl).mpr (.inr (.inr ?_))
  have lists : ListsPeers (stripComments (serverWith ('{' :: onePeerText ++ "\x7d\x7d".toList)))
      [(List.replicate 64 'a',"10.0.0.2".toList)] := listsPeers_iff.mpr (by decide +kernel)
  exact listedPass_of lists (by decide +kernel) (by decide +kernel)

/-- One more client with the address of the server, and one outside its subnet. -/
def strayPeersText : Text :=
  '"' :: List.replicate 64 'b' ++ "\":\"10.0.0.1\",\"".toList ++ List.replicate 64 'c' ++ "\":\"192.168.7.7\"".toList

theorem loadConfig_peersStray :
    ¬∀ (read : Text → Option Text) (path raw : Text), read path = some raw → PeersEnforced read path := by
  intro claim
  obtain ⟨cfg,loaded,stray⟩ := exists_loaded (holding (serverWith ('{' :: strayPeersText ++ "\x7d\x7d".toList))) []
    (fun cfg => cfg.mode = "server".toList && cfg.ip = "10.0.0.1/24".toList &&
      cfg.peers.lookup (List.replicate 64 'c') = some "192.168.7.7".toList) (by decide +kernel)
  simp only [Bool.and_eq_true,decide_eq_true_eq] at stray
  obtain ⟨⟨server,cidr⟩,listed⟩ := stray
  have rules := claim (holding _) [] _ rfl cfg loaded server
  have outside := (rules.ipv4 _ _ [192,168,7,7] listed (by decide)).inSubnet
    ["10".toList,"0".toList,"0".toList,"1".toList] "24".toList (by rw [cidr]; decide)
  exact absurd outside.inside (by decide)

end Nospoon
