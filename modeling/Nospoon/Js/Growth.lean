import Nospoon.Js.Fields
import Nospoon.Library.JsonInsertion

/-! A config with one entry more somewhere in it, as the JavaScript loader checks it: a key
with an address that is permitted and not taken is accepted wherever it stands. -/
namespace Nospoon.Js

open Library Library.Json

/-! ### Grown values -/

/-- What the checks look at does not change in a value that grows, and no text is in it. -/
def GrownAlike : Phrase → Phrase → Prop
  | .value v, .value v' => testedText v = none ∧ testedText v' = none ∧ parseIntValue v' = parseIntValue v
  | .items vs, .items vs' => vs ≠ [] ∧ vs' ≠ [] ∧
    testedText (.arr vs) = none ∧ testedText (.arr vs') = none ∧ parseIntValue (.arr vs') = parseIntValue (.arr vs)
  | _, _ => True

theorem grownAlike (grown : Grown m p p') : GrownAlike p p' := by
  induction grown with
  | front | member | later => trivial
  | obj => exact ⟨rfl,rfl,rfl⟩
  | @item v v' vs value ih =>
    obtain ⟨text,text',number⟩ := ih
    refine ⟨List.cons_ne_nil _ _,List.cons_ne_nil _ _,?_⟩
    cases vs with
    | nil => exact ⟨text,text',number⟩
    | cons w vs => exact ⟨rfl,rfl,number⟩
  | @laterItem vs vs' v more ih =>
    obtain ⟨nonempty,nonempty',-⟩ := ih
    obtain ⟨w,ws,rfl⟩ := List.exists_cons_of_ne_nil nonempty
    obtain ⟨w',ws',rfl⟩ := List.exists_cons_of_ne_nil nonempty'
    exact ⟨List.cons_ne_nil _ _,List.cons_ne_nil _ _,rfl,rfl,rfl⟩
  | arr inside ih => exact ih.2.2

theorem grown_truthy (grown : Grown m (.value v) (.value v')) : isTruthy v = true ∧ isTruthy v' = true := by
  cases grown <;> exact ⟨rfl,rfl⟩

theorem grown_hasKeys (grown : Grown m (.value v) (.value v')) : hasKeys v = true ∧ hasKeys v' = true := by
  cases grown with
  | obj inside =>
    cases inside with
    | front several =>
      obtain ⟨e,ms,rfl⟩ := List.exists_cons_of_ne_nil several
      exact ⟨rfl,rfl⟩
    | member | later => exact ⟨rfl,rfl⟩
  | arr inside => cases inside <;> exact ⟨rfl,rfl⟩

/-! ### Properties -/

theorem ownEntries_cons (e : Parts × Value) (ms : List (Parts × Value)) (name : List (Option Char)) :
    (ownEntries (e :: ms)).lookup name =
      ((ownEntries ms).lookup name).or (if name = characters e.1 then some e.2 else none) := by
  have first := lookup_insertAll_or ((∅ : Table (List (Option Char)) Value).insert (characters e.1) e.2)
    (ms.map fun e => (characters e.1,e.2)) name
  have inserted : ((∅ : Table (List (Option Char)) Value).insert (characters e.1) e.2).lookup name =
      if name = characters e.1 then some e.2 else none := by
    split_ifs with same
    · rw [same,AList.lookup_insert]
    · rw [AList.lookup_insert_ne same,AList.lookup_empty]
  rw [inserted] at first
  exact first

theorem property_eq (ms : List (Parts × Value)) (key : Text) : property ms key = (ownEntries ms).lookup (ofText key) := by
  induction ms with
  | nil => rfl
  | cons e ms ih =>
    rw [ownEntries_cons,← ih,property,property,List.reverse_cons,List.find?_append,Option.map_or]
    congr 1
    rw [List.find?_singleton]
    by_cases same : characters e.1 = ofText key
    · rw [if_pos same.symm,if_pos (by simpa using same)]
      rfl
    · rw [if_neg (Ne.symm same),if_neg (by simpa using same)]
      rfl

/-- What stands under a name after growth: what stood there before, or what became of it,
or the new member. -/
theorem lookup_grown (grown : Grown m (.members ms) (.members ms')) (name : List (Option Char)) :
    (ownEntries ms').lookup name = (ownEntries ms).lookup name ∨
    (∃ v v', (ownEntries ms).lookup name = some v ∧ (ownEntries ms').lookup name = some v' ∧ Grown m (.value v) (.value v')) ∨
    (name = characters m.1 ∧ (ownEntries ms').lookup name = some m.2) := by
  generalize first : Phrase.members ms = p at grown
  generalize second : Phrase.members ms' = p' at grown
  induction grown generalizing ms ms' with
  | front =>
    obtain rfl := Phrase.members.inj first
    obtain rfl := Phrase.members.inj second
    rw [ownEntries_cons]
    cases (ownEntries ms).lookup name with
    | some v => exact .inl rfl
    | none =>
      by_cases same : name = characters m.1
      · exact .inr (.inr ⟨same,by rw [if_pos same]; rfl⟩)
      · exact .inl (by rw [if_neg same]; rfl)
  | @member v v' s rest value ih =>
    obtain rfl := Phrase.members.inj first
    obtain rfl := Phrase.members.inj second
    rw [ownEntries_cons,ownEntries_cons]
    cases (ownEntries rest).lookup name with
    | some v => exact .inl rfl
    | none =>
      by_cases same : name = characters s
      · exact .inr (.inl ⟨v,v',by rw [if_pos same]; rfl,by rw [if_pos same]; rfl,value⟩)
      · exact .inl (by rw [if_neg same,if_neg same])
  | @later ms ms' e more ih =>
    obtain rfl := Phrase.members.inj first
    obtain rfl := Phrase.members.inj second
    rw [ownEntries_cons,ownEntries_cons]
    rcases ih rfl rfl with same | ⟨v,v',old,new,value⟩ | ⟨here,new⟩
    · exact .inl (by rw [same])
    · exact .inr (.inl ⟨v,v',by rw [old]; rfl,by rw [new]; rfl,value⟩)
    · exact .inr (.inr ⟨here,by rw [new]; rfl⟩)
  | obj | item | laterItem | arr => cases first

/-! ### Checked entries -/

/-- An address that the peers object may hold. -/
def Permitted (subnet : Option Subnet) (ip : Text) : Prop :=
  (isIPv4 ip = true ∨ netIsIPv6 ip = true) ∧ (isIPv4 ip = true → ∀ label, checkIpv4 subnet label ip = .ok ())

/-- An entry that passes the checks, other addresses apart: an IPv4 address is a string. -/
structure EntryFits (subnet : Option Subnet) (e : List (Option Char) × Value) : Prop where
  key : hexRe (e.1.map (·.getD '\ufffd')) = true
  ip : Permitted subnet (peerText e.2)
  string : isIPv4 (peerText e.2) = true → (stringOf e.2).isSome = true

theorem peerText_string (string : stringOf value = some ip) : peerText value = ip := by
  cases value with
  | str s => exact Option.some.inj string
  | null | bool | num | arr | obj => contradiction

theorem checkIpv4Value_ok : checkIpv4Value subnet label value = .ok () ↔
    (stringOf value).isSome = true ∧ checkIpv4 subnet label (peerText value) = .ok () := by
  unfold checkIpv4Value
  cases string : stringOf value with
  | none => simp
  | some ip => simp [peerText_string string]

theorem checkSeenValue_ok : checkSeenValue seen value = .ok () ↔ ∀ ip ∈ stringOf value, ip ∉ seen := by
  unfold checkSeenValue
  cases stringOf value with
  | none => simp
  | some ip => simp [checkSeen_ok]

theorem checkEntry_iff : (∃ pair, checkEntry subnet seen name value = .ok pair) ↔
    EntryFits subnet (name,value) ∧ ∀ ip ∈ stringOf value, ip ∉ seen := by
  unfold checkEntry
  simp only [bind_ok,require64_ok,← hexRe_eq_true,unknown_iff,ite_not]
  constructor
  · rintro ⟨pair,_,⟨rfl,hex⟩,checked⟩
    by_cases known : isIPv4 (peerText value) = true ∨ netIsIPv6 (peerText value) = true
    swap
    · rw [if_neg known] at checked
      contradiction
    rw [if_pos known] at checked
    simp only [seq_ok] at checked
    obtain ⟨fits,fresh,-⟩ := checked
    have four (is : isIPv4 (peerText value) = true) := checkIpv4Value_ok.mp ((if_pos is).symm.trans fits)
    exact ⟨⟨hex,⟨known,fun is label => checkIpv4_label _ _ _ _ (four is).2⟩,fun is => (four is).1⟩,checkSeenValue_ok.mp fresh⟩
  · rintro ⟨⟨hex,⟨known,fits⟩,string⟩,fresh⟩
    refine ⟨(name.map (·.getD '\ufffd'),value),_,⟨rfl,hex⟩,?_⟩
    rw [if_pos known]
    simp only [seq_ok]
    refine ⟨?_,checkSeenValue_ok.mpr fresh,rfl⟩
    split_ifs with four
    · exact checkIpv4Value_ok.mpr ⟨string four,fits four _⟩
    · rfl

theorem checkEntries_iff {seen : List Text} {rest : List (List (Option Char) × Value)} :
    (∃ pairs, checkEntries subnet seen rest = .ok pairs) ↔
      (∀ e ∈ rest, EntryFits subnet e ∧ ∀ ip ∈ stringOf e.2, ip ∉ seen) ∧
      rest.Pairwise fun e e' => ∀ ip ∈ stringOf e.2, ip ∉ stringOf e'.2 := by
  induction rest generalizing seen with
  | nil => simp [checkEntries]
  | cons e rest ih =>
    obtain ⟨name,value⟩ := e
    simp only [checkEntries,bind_ok,List.forall_mem_cons,List.pairwise_cons]
    constructor
    · rintro ⟨all,pair,here,pairs,later,-⟩
      obtain ⟨others,distinct⟩ := ih.mp ⟨pairs,later⟩
      refine ⟨⟨checkEntry_iff.mp ⟨pair,here⟩,fun e member => ?_⟩,fun e member ip mine again => ?_,distinct⟩
      · obtain ⟨fits,fresh⟩ := others e member
        exact ⟨fits,fun ip string old => fresh ip string (List.mem_append_right _ old)⟩
      · exact (others e member).2 ip again (List.mem_append_left _ (Option.mem_toList.mpr mine))
    · rintro ⟨⟨here,others⟩,apart,distinct⟩
      obtain ⟨pair,checked⟩ := checkEntry_iff.mpr here
      have later : ∃ pairs, checkEntries subnet ((stringOf value).toList ++ seen) rest = .ok pairs := by
        refine ih.mpr ⟨fun e member => ?_,distinct⟩
        obtain ⟨fits,fresh⟩ := others e member
        refine ⟨fits,fun ip string old => ?_⟩
        rcases List.mem_append.mp old with mine | old
        · exact apart e member ip (Option.mem_toList.mp mine) string
        · exact fresh ip string old
      obtain ⟨pairs,checked'⟩ := later
      exact ⟨_,pair,checked,pairs,checked',rfl⟩

/-- A peers object is accepted if every entry that counts fits and no string comes twice. -/
theorem validatePeersValue_iff : (∃ allowed, validatePeersValue (.obj ms) cidr = .ok allowed) ↔
    (∀ name v, (ownEntries ms).lookup name = some v → EntryFits (some (parseSubnet cidr)) (name,v)) ∧
    ∀ name name' v v', (ownEntries ms).lookup name = some v → (ownEntries ms).lookup name' = some v' →
      ∀ ip, stringOf v = some ip → stringOf v' = some ip → name = name' := by
  have member (name : List (Option Char)) (v : Value) :
      (name,v) ∈ (ownEntries ms).entries.map (fun e => (e.1,e.2)) ↔ (ownEntries ms).lookup name = some v := mem_pairs_iff
  have distinct : (((ownEntries ms).entries.map fun e => (e.1,e.2)).map Prod.fst).Nodup := by
    rw [List.map_map]
    exact (ownEntries ms).nodupKeys
  have accepted : (∃ allowed, validatePeersValue (.obj ms) cidr = .ok allowed) ↔
      ∃ pairs, checkEntries (some (parseSubnet cidr)) [] ((ownEntries ms).entries.map fun e => (e.1,e.2)) = .ok pairs := by
    simp only [validatePeersValue,bind_ok]
    exact ⟨fun ⟨_,pairs,checked,_⟩ => ⟨pairs,checked⟩,fun ⟨pairs,checked⟩ => ⟨_,pairs,checked,rfl⟩⟩
  rw [accepted,checkEntries_iff]
  constructor
  · rintro ⟨fits,apart⟩
    refine ⟨fun name v found => (fits _ ((member name v).mpr found)).1,
      fun name name' v v' found found' ip string again => ?_⟩
    by_contra other
    have symmetric : Std.Symm fun e e' : List (Option Char) × Value => ∀ ip ∈ stringOf e.2, ip ∉ stringOf e'.2 :=
      ⟨fun _ _ apart ip string again => apart ip again string⟩
    exact apart.forall ((member name v).mpr found) ((member name' v').mpr found')
      (fun same => other (congrArg Prod.fst same)) ip string again
  · rintro ⟨fits,apart⟩
    refine ⟨fun e inside => ⟨fits e.1 e.2 ((member e.1 e.2).mp inside),fun _ _ => List.not_mem_nil⟩,?_⟩
    refine distinct.of_map.pairwise_of_forall_ne fun e inside e' inside' other ip string again => other ?_
    have name := apart e.1 e'.1 e.2 e'.2 ((member e.1 e.2).mp inside) ((member e'.1 e'.2).mp inside') ip string again
    have found := (member e.1 e.2).mp inside
    rw [name,(member e'.1 e'.2).mp inside'] at found
    exact Prod.ext name (Option.some.inj found).symm

/-- The values of the accepted peers are those of the entries that count. -/
theorem allowed_iff (h : validatePeersValue (.obj ms) cidr = .ok allowed) :
    (∃ key, allowed.lookup key = some v) ↔ ∃ name, (ownEntries ms).lookup name = some v := by
  obtain ⟨_,same,found,passes⟩ := validatePeersValue_ok h
  obtain rfl := Value.obj.inj same
  constructor
  · rintro ⟨key,here⟩
    exact ⟨_,(found key).symm.trans here⟩
  · rintro ⟨name,stands⟩
    obtain ⟨pair,passed⟩ := passes name v stands
    rw [show name = ofText pair.1 from passed.name] at stands
    exact ⟨pair.1,(found pair.1).trans stands⟩

theorem loadPeers_some {get : Text → Option Value} (found : get "peers".toList = some v) (truthy : isTruthy v = true)
    (keys : hasKeys v = true) (cidr : Value) :
    loadPeers get cidr = (validatePeersValue v ((testedText cidr).getD [])).map some := by
  have present : (given get "peers".toList).filter hasKeys = some v := by
    rw [given,found]
    simp [truthy,keys]
  rw [loadPeers,present]

/-! ### The other fields -/

/-- The loader reads everything but the peers the same. -/
structure SameLoads (read : Text → Option Text) (get get' : Text → Option Value) : Prop where
  mode : loadMode get' = loadMode get
  ip : ∀ isServer, loadIp get' isServer = loadIp get isServer
  ipv6 : loadOptional get' "ipv6".toList requireCidrV6 = loadOptional get "ipv6".toList requireCidrV6
  seed : loadSeed read get' = loadSeed read get
  mtu : loadMtu get' = loadMtu get
  server : loadServer get' = loadServer get

theorem SameLoads.symm {read : Text → Option Text} {get get' : Text → Option Value} (same : SameLoads read get get') :
    SameLoads read get' get :=
  ⟨same.mode.symm,fun isServer => (same.ip isServer).symm,same.ipv6.symm,same.seed.symm,same.mtu.symm,same.server.symm⟩

/-- So what it makes of the peers decides. -/
theorem SameLoads.load {read : Text → Option Text} {get get' : Text → Option Value} (same : SameLoads read get get')
    (accepted : loadProperties read get = .ok js)
    (peers : (if js.isServer then loadPeers get' js.ip else .ok none) = .ok p) :
    ∃ js', loadProperties read get' = .ok js' ∧ js'.ip = js.ip ∧ js'.peers = p := by
  have loads := loads_of_ok accepted
  have server := loads.server
  rw [← same.server] at server
  simp only [loadProperties,bind_ok]
  exact ⟨_,⟨js.mode,same.mode.trans loads.mode,js.ip,(same.ip _).trans loads.ip,js.ipv6,same.ipv6.trans loads.ipv6,js.seed,
    same.seed.trans loads.seed,js.mtu,same.mtu.trans loads.mtu,p,peers,js.server,server,rfl⟩,rfl,rfl⟩

/-! ### A new entry -/

section

variable {m : Parts × Value} {ms ms' : List (Parts × Value)} {key ip : Text} {s : Parts}
  (grown : Grown m (.members ms) (.members ms')) (name : characters m.1 = ofText key) (hex : hexRe key = true)
  (value : m.2 = .str s) (text : characters s = ofText ip)

include grown name

/-- A field is what it was, or has grown inside. -/
theorem property_grown (other : key' ≠ key) : property ms' key' = property ms key' ∨
    ∃ v v', property ms key' = some v ∧ property ms' key' = some v' ∧ Grown m (.value v) (.value v') := by
  rw [property_eq,property_eq]
  rcases lookup_grown grown (ofText key') with same | inside | ⟨here,-⟩
  · exact .inl same
  · exact .inr inside
  · exact absurd (List.map_injective_iff.mpr (Option.some_injective _) (here.trans name)) other

include hex

/-- The name of the new entry is longer than those of the fields. -/
theorem field_grown (field : key' ∈ fieldNames) : property ms' key' = property ms key' ∨
    ∃ v v', property ms key' = some v ∧ property ms' key' = some v' ∧ Grown m (.value v) (.value v') := by
  refine property_grown grown name ?_
  rintro rfl
  have long := (hexRe_eq_true.mp hex).1
  simp only [fieldNames,List.mem_cons,List.not_mem_nil,or_false] at field
  rcases field with rfl | rfl | rfl | rfl | rfl | rfl | rfl | rfl | rfl | rfl <;> exact absurd long (by decide)

theorem given_grown (field : key' ∈ fieldNames) : given (property ms') key' = given (property ms) key' ∨
    ∃ v v', given (property ms) key' = some v ∧ given (property ms') key' = some v' ∧ Grown m (.value v) (.value v') := by
  rcases field_grown grown name hex field with same | ⟨v,v',found,found',inside⟩
  · exact .inl (by rw [given,given,same])
  · refine .inr ⟨v,v',?_,?_,inside⟩
    · rw [given,found]
      exact Option.filter_eq_some_iff.mpr ⟨rfl,(grown_truthy inside).1⟩
    · rw [given,found']
      exact Option.filter_eq_some_iff.mpr ⟨rfl,(grown_truthy inside).2⟩

/-- Only the peers can notice: a field that has grown is refused before and after, or is an
MTU that reads the same. -/
theorem loads_grown (read : Text → Option Text) : SameLoads read (property ms) (property ms') := by
  have fields {key' : Text} (field : key' ∈ fieldNames) := given_grown grown name hex field
  have noHex {v v' : Value} (inside : Grown m (.value v) (.value v')) (label : Text) :
      requireHex64 v' label = requireHex64 v label := by
    rw [requireHex64,requireHex64,(grownAlike inside).1,(grownAlike inside).2.1]
    rfl
  refine ⟨?_,fun isServer => ?_,?_,?_,?_,?_⟩
  · rcases fields (by simp [fieldNames] : "mode".toList ∈ fieldNames) with same | ⟨v,v',found,found',inside⟩
    · rw [loadMode,loadMode,same]
    · rw [loadMode,loadMode,found,found']
      cases inside <;> rfl
  · rcases fields (by simp [fieldNames] : "ip".toList ∈ fieldNames) with same | ⟨v,v',found,found',inside⟩
    · rw [loadIp,loadIp,same]
    · rw [loadIp,loadIp,found,found']
      show requireCidr v' _ = requireCidr v _
      unfold requireCidr
      rw [(grownAlike inside).1,(grownAlike inside).2.1]
      rfl
  · rcases fields (by simp [fieldNames] : "ipv6".toList ∈ fieldNames) with same | ⟨v,v',found,found',inside⟩
    · rw [loadOptional,loadOptional,same]
    · rw [loadOptional,loadOptional,found,found']
      cases inside <;> rfl
  · have seedFile : ∀ path path', Grown m (.value path) (.value path') → readSeedFile read path' = readSeedFile read path := by
      intro path path' inside
      cases inside <;> rfl
    unfold loadSeed
    rcases fields (by simp [fieldNames] : "seed".toList ∈ fieldNames) with same | ⟨v,v',found,found',inside⟩
    · rw [same]
      rcases fields (by simp [fieldNames] : "seedFile".toList ∈ fieldNames) with same' | ⟨p,p',there,there',within⟩
      · rw [same']
      · rw [there,there']
        cases given (property ms) "seed".toList with
        | none => exact congrArg (Except.map some) (seedFile p p' within)
        | some seed => rfl
    · rw [found,found']
      rcases fields (by simp [fieldNames] : "seedFile".toList ∈ fieldNames) with same' | ⟨p,p',there,there',within⟩
      · rw [same']
        cases given (property ms) "seedFile".toList with
        | none => exact congrArg (Except.map some) (noHex inside _)
        | some path => rfl
      · rw [there,there']
  · rcases field_grown grown name hex (by simp [fieldNames] : "mtu".toList ∈ fieldNames) with same | ⟨v,v',found,found',inside⟩
    · rw [loadMtu,loadMtu,same]
    · rw [loadMtu,loadMtu,found,found']
      show requireMtu v' = requireMtu v
      rw [requireMtu,requireMtu,(grownAlike inside).2.2]
  · rcases fields (by simp [fieldNames] : "server".toList ∈ fieldNames) with same | ⟨v,v',found,found',inside⟩
    · rw [loadServer,loadServer,same]
    · rw [loadServer,loadServer,found,found']
      exact congrArg (Except.map some) (noHex inside _)

include value text

/-- Peers stay accepted when a key joins them whose address is permitted and free. -/
theorem validatePeersValue_grown (accepted : validatePeersValue (.obj ms) cidr = .ok allowed)
    (permitted : Permitted (some (parseSubnet cidr)) ip) (fresh : ∀ key v, allowed.lookup key = some v → stringOf v ≠ some ip) :
    ∃ allowed', validatePeersValue (.obj ms') cidr = .ok allowed' ∧
      ∀ a, (∃ key, allowed'.lookup key = some a) → a = m.2 ∨ ∃ key, allowed.lookup key = some a := by
  obtain ⟨fits,apart⟩ := validatePeersValue_iff.mp ⟨allowed,accepted⟩
  have free (name : List (Option Char)) (v : Value) (found : (ownEntries ms).lookup name = some v) : stringOf v ≠ some ip := by
    obtain ⟨key,taken⟩ := (allowed_iff accepted).mpr ⟨name,found⟩
    exact fresh key v taken
  have entry : stringOf m.2 = some ip := by
    rw [value]
    exact congrArg some (shown_eq text)
  have stands (n : List (Option Char)) (v : Value) (found : (ownEntries ms').lookup n = some v) :
      (ownEntries ms).lookup n = some v ∨ (n = characters m.1 ∧ v = m.2) := by
    rcases lookup_grown grown n with same | ⟨old,new,here,-,inside⟩ | ⟨here,new⟩
    · exact .inl (same.symm.trans found)
    · -- no address grows
      have known := (fits n old here).ip.1
      rw [peerText,(grownAlike inside).1] at known
      exact absurd known (by decide)
    · exact .inr ⟨here,Option.some.inj (found.symm.trans new)⟩
  have accepted' : ∃ allowed', validatePeersValue (.obj ms') cidr = .ok allowed' := by
    refine validatePeersValue_iff.mpr ⟨fun n v found => ?_,fun n n' v v' found found' a string again => ?_⟩
    · rcases stands n v found with old | ⟨rfl,rfl⟩
      · exact fits n v old
      · refine ⟨?_,(peerText_string entry).symm ▸ permitted,fun _ => Option.isSome_of_mem entry⟩
        rw [name,ofText,List.map_map]
        exact (List.map_id key).symm ▸ hex
    · rcases stands n v found with old | ⟨rfl,rfl⟩
      · rcases stands n' v' found' with old' | ⟨rfl,rfl⟩
        · exact apart n n' v v' old old' a string again
        · obtain rfl := Option.some.inj (again.symm.trans entry)
          exact absurd string (free n v old)
      · rcases stands n' v' found' with old' | ⟨rfl,-⟩
        · obtain rfl := Option.some.inj (string.symm.trans entry)
          exact absurd again (free n' v' old')
        · rfl
  obtain ⟨allowed',accepted'⟩ := accepted'
  refine ⟨allowed',accepted',fun a taken => ?_⟩
  obtain ⟨n,found⟩ := (allowed_iff accepted').mp taken
  rcases stands n a found with old | ⟨-,rfl⟩
  · exact .inr ((allowed_iff accepted).mpr ⟨n,old⟩)
  · exact .inl rfl

omit grown in
/-- Where the peers themselves have grown, the new address joins theirs. -/
theorem loadPeers_grown {v v' cidr : Value} (inside : Grown m (.value v) (.value v'))
    (found : property ms "peers".toList = some v) (found' : property ms' "peers".toList = some v')
    (checked : loadPeers (property ms) cidr = .ok peers) (permitted : Permitted (some (parseSubnet ((testedText cidr).getD []))) ip)
    (fresh : ∀ allowed, peers = some allowed → ∀ key v, allowed.lookup key = some v → stringOf v ≠ some ip) :
    ∃ peers', loadPeers (property ms') cidr = .ok peers' ∧
      ∀ allowed', peers' = some allowed' → ∀ a, (∃ key, allowed'.lookup key = some a) →
        a = m.2 ∨ ∃ allowed, peers = some allowed ∧ ∃ key, allowed.lookup key = some a := by
  rw [loadPeers_some found (grown_truthy inside).1 (grown_hasKeys inside).1] at checked
  rw [loadPeers_some found' (grown_truthy inside).2 (grown_hasKeys inside).2]
  obtain ⟨allowed,accepted,rfl⟩ := map_ok.mp checked
  cases inside with
  | arr inside => contradiction
  | obj inside =>
    obtain ⟨allowed',accepted',known⟩ :=
      validatePeersValue_grown inside name hex value text accepted permitted (fresh allowed rfl)
    refine ⟨some allowed',?_,?_⟩
    · exact map_ok.mpr ⟨allowed',accepted',rfl⟩
    · intro others same a taken
      obtain rfl := Option.some.inj same
      exact (known a taken).imp_right fun old => ⟨allowed,rfl,old⟩

/-- A config stays accepted when such an entry joins it anywhere. -/
theorem loadProperties_grown {read : Text → Option Text} (accepted : loadProperties read (property ms) = .ok js)
    (permitted : Permitted (some (parseSubnet ((testedText js.ip).getD []))) ip)
    (fresh : ∀ allowed, js.peers = some allowed → ∀ key v, allowed.lookup key = some v → stringOf v ≠ some ip) :
    ∃ js', loadProperties read (property ms') = .ok js' ∧ js'.ip = js.ip ∧
      ∀ allowed', js'.peers = some allowed' → ∀ a, (∃ key, allowed'.lookup key = some a) →
        a = m.2 ∨ ∃ allowed, js.peers = some allowed ∧ ∃ key, allowed.lookup key = some a := by
  have same := loads_grown grown name hex read
  obtain ⟨p,peers,known⟩ : ∃ p, (if js.isServer then loadPeers (property ms') js.ip else .ok none) = .ok p ∧
      ∀ allowed', p = some allowed' → ∀ a, (∃ key, allowed'.lookup key = some a) →
        a = m.2 ∨ ∃ allowed, js.peers = some allowed ∧ ∃ key, allowed.lookup key = some a := by
    have before := (loads_of_ok accepted).peers
    by_cases isServer : js.isServer = true
    · rw [if_pos isServer] at before ⊢
      rcases field_grown grown name hex (by simp [fieldNames] : "peers".toList ∈ fieldNames) with same | ⟨v,v',found,found',inside⟩
      · refine ⟨js.peers,?_,fun allowed' here a taken => .inr ⟨allowed',here,taken⟩⟩
        rw [← before,loadPeers,loadPeers,given,given,same]
      · exact loadPeers_grown name hex value text inside found found' before permitted fresh
    · rw [if_neg isServer] at before ⊢
      refine ⟨none,rfl,fun allowed' absent => ?_⟩
      contradiction
  obtain ⟨js',loaded,ipSame,peersSame⟩ := same.load accepted peers
  exact ⟨js',loaded,ipSame,by rw [peersSame]; exact known⟩

end

/-! ### Without the entry -/

/-- No peer has this key. -/
def PeersLack (ms : List (Parts × Value)) (key : Text) : Prop :=
  ∀ inner, property ms "peers".toList = some (.obj inner) → (ownEntries inner).lookup (ofText key) = none

section

variable {m : Parts × Value} {ms ms' : List (Parts × Value)} {key : Text}
  (grown : Grown m (.members ms) (.members ms')) (name : characters m.1 = ofText key)

include grown name

/-- Peers that are accepted with a new key are accepted without it. -/
theorem validatePeersValue_shrunk (absent : (ownEntries ms).lookup (ofText key) = none)
    (accepted : validatePeersValue (.obj ms') cidr = .ok allowed) :
    ∃ allowed, validatePeersValue (.obj ms) cidr = .ok allowed := by
  obtain ⟨fits,apart⟩ := validatePeersValue_iff.mp ⟨allowed,accepted⟩
  have stays (n : List (Option Char)) (v : Value) (found : (ownEntries ms).lookup n = some v) :
      (ownEntries ms').lookup n = some v := by
    rcases lookup_grown grown n with same | ⟨old,new,-,here,inside⟩ | ⟨rfl,-⟩
    · exact same.trans found
    · -- no address grows
      have known := (fits n new here).ip.1
      rw [peerText,(grownAlike inside).2.1] at known
      exact absurd known (by decide)
    · rw [name,absent] at found
      contradiction
  refine validatePeersValue_iff.mpr ⟨fun n v found => fits n v (stays n v found),fun n n' v v' found found' => ?_⟩
  exact apart n n' v v' (stays n v found) (stays n' v' found')

/-- The peers of the grown config have no keys but those of the old ones and the new one. -/
theorem peersLack_grown (hex : hexRe key = true) (other : key' ≠ key) (lack : PeersLack ms key') : PeersLack ms' key' := by
  intro inner' found'
  rcases field_grown grown name hex (by simp [fieldNames] : "peers".toList ∈ fieldNames) with same | ⟨v,v',found,there,inside⟩
  · exact lack inner' (same.symm.trans found')
  · obtain rfl := Option.some.inj (there.symm.trans found')
    cases inside with
    | obj inside =>
      have before := lack _ found
      rcases lookup_grown inside (ofText key') with same | ⟨old,new,here,-,-⟩ | ⟨here,-⟩
      · exact same.trans before
      · rw [before] at here
        contradiction
      · exact absurd (List.map_injective_iff.mpr (Option.some_injective _) (here.trans name)) other

/-- A config that is accepted with an entry is accepted without it, if its key is new. -/
theorem loadProperties_shrunk {read : Text → Option Text} (hex : hexRe key = true) (lack : PeersLack ms key)
    (accepted : loadProperties read (property ms') = .ok js') : ∃ js, loadProperties read (property ms) = .ok js := by
  have same := (loads_grown grown name hex read).symm
  have after := (loads_of_ok accepted).peers
  obtain ⟨p,peers⟩ : ∃ p, (if js'.isServer then loadPeers (property ms) js'.ip else .ok none) = .ok p := by
    by_cases isServer : js'.isServer = true
    · rw [if_pos isServer] at after ⊢
      rcases field_grown grown name hex (by simp [fieldNames] : "peers".toList ∈ fieldNames) with same | ⟨v,v',found,found',inside⟩
      · exact ⟨js'.peers,by rw [← after,loadPeers,loadPeers,given,given,same]⟩
      · rw [loadPeers_some found' (grown_truthy inside).2 (grown_hasKeys inside).2] at after
        rw [loadPeers_some found (grown_truthy inside).1 (grown_hasKeys inside).1]
        obtain ⟨allowed',accepted',-⟩ := map_ok.mp after
        cases inside with
        | arr inside => contradiction
        | obj inside =>
          obtain ⟨allowed,fewer⟩ := validatePeersValue_shrunk inside name (lack _ found) accepted'
          exact ⟨some allowed,map_ok.mpr ⟨allowed,fewer,rfl⟩⟩
    · rw [if_neg isServer]
      exact ⟨none,rfl⟩
  obtain ⟨js,loaded,-⟩ := same.load accepted peers
  exact ⟨js,loaded⟩

end

end Nospoon.Js
