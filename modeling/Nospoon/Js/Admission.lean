import Nospoon.Js.Compatible
import Nospoon.Js.Server

/-! Who is let in. A config file names keys by text and both servers look a key up under
the hex of its bytes; what they admit is what the file lists exactly when the file lists
every key in lower case, and the C++ loader finds the same keys there. -/
namespace Nospoon.Js

open Library Library.Json

/-- A server that goes by key values: it lets in the listed keys and gives each the
address listed with it. -/
def AdmitsByValue (peers : PeersMap) (rejects : PublicKey → Bool) (assigns : PublicKey → Option Text) : Prop :=
  ∀ key, (rejects key = false ↔ ∃ e ∈ peers.entries, hexToBytes e.1 = some key) ∧
    (rejects key = false → ∀ e ∈ peers.entries, hexToBytes e.1 = some key → assigns key = some e.2)

/-- The address assigned to a new connection, as its handler captures it. -/
def Server.assigns (s : Server) (conn : Conn) (remotePublicKey : PublicKey) : Option Text :=
  ((s.onConnection conn remotePublicKey).connections.lookup conn).bind Connection.clientIp

/-- The address stored with a new stream. -/
def streamAssigns (ctx : ServerCtx) (duplex : Duplex) (remotePk : PublicKey) : Option Text :=
  ((ctx.setupPeerStream remotePk duplex).peers.lookup (bytesToHex remotePk.toList)).map PeerState.assignedIp

/-- A loaded map with its addresses as texts; an array of one address prints as the address. -/
def addressTexts (peers : Table Text Value) : PeersMap where
  entries := peers.entries.map fun e => ⟨e.1,peerText e.2⟩
  nodupKeys := by
    have keys : (peers.entries.map fun e => (⟨e.1,peerText e.2⟩ : (_ : Text) × Text)).keys = peers.keys := by
      simp [List.keys,AList.keys]
    rw [List.NodupKeys,keys]
    exact peers.nodupKeys

/-- The servers started from one file, in any state of theirs: the JavaScript one with the
peers of its loader, the C++ one with what its own loader makes of the file. A file that
it refuses, or takes for a client's, starts no server. -/
structure FileAdmits (read : Text → Option Text) (path : Text) (peers : PeersMap) : Prop where
  js : ∀ s : Server, s.allowedPeers = some peers → ∀ conn, AdmitsByValue peers s.firewall (s.assigns conn)
  cpp : ∀ cfg, Nospoon.loadConfig read path = .ok cfg → cfg.mode = "server".toList →
    ∀ ctx : ServerCtx, ctx.config = cfg → ∀ duplex, AdmitsByValue peers ctx.firewall (streamAssigns ctx duplex)

/-- Every key is also listed in lower case, with the same address. -/
def ListedLower (peers : PeersMap) : Prop := ∀ e ∈ peers.entries, peers.lookup (e.1.map Char.toLower) = some e.2

instance (peers : PeersMap) : Decidable (ListedLower peers) := inferInstanceAs (Decidable (∀ _ ∈ _, _))

/-- The C++ loader accepts the file for a server. -/
def StartsServer (read : Text → Option Text) (path : Text) : Prop :=
  ∃ cfg, Nospoon.loadConfig read path = .ok cfg ∧ cfg.mode = "server".toList

/-- Where it does, `json_peers` finds the same addresses in the text under the keys in
lower case. -/
def FindsKeys (read : Text → Option Text) (path : Text) (peers : PeersMap) : Prop :=
  StartsServer read path → ∀ raw, read path = some raw → ∀ key : PublicKey,
    (jsonPeers (Nospoon.stripComments raw)).lookup (bytesToHex key.toList) = peers.lookup (bytesToHex key.toList)

/-! ### Loaded peers -/

theorem lookup_addressTexts (peers : Table Text Value) (key : Text) :
    (addressTexts peers).lookup key = (peers.lookup key).map peerText := by
  ext ip
  rw [← Option.mem_def,AList.mem_lookup_iff,Option.map_eq_some_iff]
  constructor
  · intro member
    obtain ⟨e,inside,same⟩ := List.mem_map.mp member
    obtain ⟨rfl,text⟩ := Sigma.mk.inj same
    exact ⟨e.2,AList.mem_lookup_iff.mpr inside,eq_of_heq text⟩
  · rintro ⟨v,found,rfl⟩
    exact List.mem_map.mpr ⟨⟨key,v⟩,AList.mem_lookup_iff.mp found,rfl⟩

/-- What the loader lets through, as far as keys are looked up. -/
structure Listing (peers : PeersMap) : Prop where
  keys : ∀ e ∈ peers.entries, ∃ key : PublicKey, hexToBytes e.1 = some key ∧
    bytesToHex key.toList = e.1.map Char.toLower
  given : ∀ e ∈ peers.entries, e.2 ≠ []

theorem listing_of_ok (accepted : validatePeersValue value cidr = .ok peers) : Listing (addressTexts peers) := by
  obtain ⟨es,-,found,passes⟩ := validatePeersValue_ok accepted
  have passed (e : (_ : Text) × Value) (member : e ∈ peers.entries) :
      hexRe e.1 = true ∧ (isIPv4 (peerText e.2) = true ∨ netIsIPv6 (peerText e.2) = true) := by
    obtain ⟨pair,passed⟩ := passes _ e.2 ((found e.1).symm.trans (AList.mem_lookup_iff.mpr member))
    obtain same : e.1 = pair.1 := List.map_injective_iff.mpr (Option.some_injective _) passed.name
    exact ⟨same ▸ passed.hex,passed.known⟩
  constructor
  · intro e member
    obtain ⟨e,inside,rfl⟩ := List.mem_map.mp member
    obtain ⟨length,hex⟩ := hexRe_eq_true.mp (passed e inside).1
    exact hexToBytes_total length hex
  · intro e member empty
    obtain ⟨e,inside,rfl⟩ := List.mem_map.mp member
    have known := (passed e inside).2
    dsimp only at empty
    rw [empty] at known
    exact absurd known (by decide)

theorem listing_of_loaded {read : Text → Option Text} (loaded : loadConfig read path = .ok js)
    (present : js.peers = some peers) : js.isServer = true ∧ Listing (addressTexts peers) := by
  obtain ⟨raw,v,-,-,parsed⟩ := loadConfig_ok.mp loaded
  obtain ⟨ms,-,properties⟩ := loadParsed_ok parsed
  obtain ⟨isServer,v,-,checked⟩ := (loads_of_ok properties).peers_some present
  exact ⟨isServer,listing_of_ok checked⟩

theorem loaded_peers {read : Text → Option Text} (file : read path = some raw)
    (accepted : Nospoon.loadConfig read path = .ok cfg) : cfg.peers = jsonPeers (Nospoon.stripComments raw) := by
  obtain ⟨raw',file',-,resolved⟩ := (Nospoon.loadConfig_ok read path cfg).mp accepted
  obtain rfl := Option.some.inj (file.symm.trans file')
  rw [resolveSeed_fields resolved]
  rfl

namespace Listing

variable {peers : PeersMap}

/-- A server whose lookups go by hex goes by value exactly when all keys are listed in lower case. -/
theorem admitsByValue_iff (listing : Listing peers) {rejects : PublicKey → Bool} {assigns : PublicKey → Option Text}
    (admits : ∀ key, rejects key = false ↔ (peers.lookup (bytesToHex key.toList)).isSome = true)
    (assigned : ∀ key ip, peers.lookup (bytesToHex key.toList) = some ip → assigns key = some ip) :
    AdmitsByValue peers rejects assigns ↔ ListedLower peers := by
  constructor
  · intro byValue e member
    obtain ⟨key,named,lower⟩ := listing.keys e member
    have admitted := (byValue key).1.mpr ⟨e,member,named⟩
    obtain ⟨ip,found⟩ := Option.isSome_iff_exists.mp ((admits key).mp admitted)
    have given := (byValue key).2 admitted e member named
    rw [assigned key ip found] at given
    rw [← lower,found,given]
  · intro listed key
    have lookup (e : (_ : Text) × Text) (member : e ∈ peers.entries) (named : hexToBytes e.1 = some key) :
        peers.lookup (bytesToHex key.toList) = some e.2 := by
      obtain ⟨key',named',lower⟩ := listing.keys e member
      obtain rfl := Option.some.inj (named'.symm.trans named)
      rw [lower]
      exact listed e member
    constructor
    · rw [admits,Option.isSome_iff_exists]
      constructor
      · rintro ⟨ip,found⟩
        exact ⟨⟨bytesToHex key.toList,ip⟩,AList.mem_lookup_iff.mp found,hexToBytes_bytesToHex key⟩
      · rintro ⟨e,member,named⟩
        exact ⟨e.2,lookup e member named⟩
    · exact fun _ e member named => assigned key e.2 (lookup e member named)

theorem js_iff (listing : Listing peers) (s : Server) (loaded : s.allowedPeers = some peers) (conn : Conn) :
    AdmitsByValue peers s.firewall (s.assigns conn) ↔ ListedLower peers := by
  apply listing.admitsByValue_iff
  · intro key
    simp only [Server.firewall,loaded]
    cases peers.lookup (bytesToHex key.toList) <;> simp
  · intro key ip found
    simp [Server.assigns,Server.onConnection,Server.givenIp,loaded,found]

/-- The C++ server with other peers does, if all keys are listed in lower case, exactly when
its own peers hold the same under them. -/
theorem cpp_iff (listing : Listing peers) (nonempty : peers.entries ≠ []) (listed : ListedLower peers) (ctx : ServerCtx)
    (duplex : Duplex) : AdmitsByValue peers ctx.firewall (streamAssigns ctx duplex) ↔
      ∀ key : PublicKey, ctx.config.peers.lookup (bytesToHex key.toList) = peers.lookup (bytesToHex key.toList) := by
  have assigns (key : PublicKey) : streamAssigns ctx duplex key =
      some ((ctx.config.peers.lookup (bytesToHex key.toList)).getD []) := by
    simp [streamAssigns,ServerCtx.setupPeerStream]
  constructor
  · intro byValue key
    cases found : peers.lookup (bytesToHex key.toList) with
    | some ip =>
      have member := AList.mem_lookup_iff.mp found
      have named := hexToBytes_bytesToHex key
      have given := (byValue key).2 ((byValue key).1.mpr ⟨_,member,named⟩) _ member named
      rw [assigns,Option.some.injEq] at given
      cases own : ctx.config.peers.lookup (bytesToHex key.toList) with
      | none =>
        rw [own] at given
        exact absurd given.symm (listing.given _ member)
      | some ip' =>
        rw [own] at given
        exact congrArg some given
    | none =>
      have unlisted : ¬∃ e ∈ peers.entries, hexToBytes e.1 = some key := by
        rintro ⟨e,member,named⟩
        obtain ⟨key',named',lower⟩ := listing.keys e member
        obtain rfl := Option.some.inj (named'.symm.trans named)
        have here := listed e member
        rw [← lower,found] at here
        contradiction
      have rejected := mt (byValue key).1.mp unlisted
      rw [ServerCtx.firewall_eq_false,not_or,← AList.lookup_isSome,Bool.not_eq_true,Option.isSome_eq_false_iff] at rejected
      exact Option.isNone_iff_eq_none.mp rejected.2
  · intro same
    refine (listing.admitsByValue_iff (fun key => ?_) fun key ip found => ?_).mpr listed
    · obtain ⟨e,member⟩ := List.exists_mem_of_ne_nil _ nonempty
      obtain ⟨listedKey,-,lower⟩ := listing.keys e member
      have full : ctx.config.peers ≠ ∅ := by
        intro empty
        have here := (same listedKey).trans (lower ▸ listed e member)
        rw [empty] at here
        contradiction
      rw [ServerCtx.firewall_eq_false,← AList.lookup_isSome,same,or_iff_right full]
    · rw [assigns,same,found,Option.getD_some]

end Listing

/-- Both servers of a file admit and assign by key value exactly when it lists every key in
lower case and the C++ loader finds the same under these. A file that reads alike starts
the C++ server too, with the same peers. -/
theorem admission_by_value_iff (read : Text → Option Text) (path : Text) (loaded : loadConfig read path = .ok js)
    (present : js.peers = some peers) (nonempty : peers.entries ≠ []) :
    (FileAdmits read path (addressTexts peers) ↔
      ListedLower (addressTexts peers) ∧ FindsKeys read path (addressTexts peers)) ∧
    ∀ raw, read path = some raw → ReadsAlike read raw →
      StartsServer read path ∧ FindsKeys read path (addressTexts peers) := by
  obtain ⟨isServer,listing⟩ := listing_of_loaded loaded present
  have several : (addressTexts peers).entries ≠ [] := by simpa [addressTexts] using nonempty
  constructor
  · constructor
    · intro admits
      have listed := (listing.js_iff (.initial (some (addressTexts peers))) rfl 0).mp (admits.js _ rfl 0)
      refine ⟨listed,fun ⟨cfg,accepted,mode⟩ raw file => ?_⟩
      rw [← loaded_peers file accepted]
      exact (listing.cpp_iff several listed (.initial cfg) 0).mp (admits.cpp cfg accepted mode _ rfl 0)
    · rintro ⟨listed,finds⟩
      refine ⟨fun s holds conn => (listing.js_iff s holds conn).mpr listed,fun cfg accepted mode ctx same duplex => ?_⟩
      refine (listing.cpp_iff several listed ctx duplex).mpr ?_
      obtain ⟨raw,file,-⟩ := (Nospoon.loadConfig_ok read path cfg).mp accepted
      rw [same,loaded_peers file accepted]
      exact finds ⟨cfg,accepted,mode⟩ raw file
  · intro raw file alike
    obtain ⟨cfg,accepted,equal⟩ := loads_alike file loaded alike
    refine ⟨⟨cfg,accepted,?_⟩,fun _ raw' file' key => ?_⟩
    · obtain ⟨s,mode,chars⟩ := isText_iff.mp equal.mode.2
      obtain ⟨s',mode',chars'⟩ := isText_iff.mp isServer
      obtain rfl := Value.str.inj (mode.symm.trans mode')
      exact List.map_injective_iff.mpr (Option.some_injective _) (chars.symm.trans chars')
    · rw [← loaded_peers file' accepted,lookup_addressTexts]
      have same := equal.peers (bytesToHex key.toList)
      rw [present,Option.getD_some] at same
      generalize peers.lookup (bytesToHex key.toList) = v at same ⊢
      generalize cfg.peers.lookup (bytesToHex key.toList) = ip at same ⊢
      cases same with
      | none => rfl
      | some text =>
        obtain ⟨s,rfl,chars⟩ := isText_iff.mp text
        exact congrArg some (shown_eq chars).symm

/-- A server file with one peer; something may stand before the peers. -/
def listingFile (before key : Text) : Text :=
  "\x7b\"mode\":\"server\",\"ip\":\"10.0.0.1/24\",".toList ++ before ++ "\"peers\":\x7b\"".toList ++ key ++
    "\":\"10.0.0.2\"\x7d\x7d".toList

/-- A key in lower case. -/
theorem admission_by_value_lower : ∃ js peers,
    loadConfig (holding (listingFile [] (List.replicate 64 'a'))) [] = .ok js ∧ js.peers = some peers ∧
    FileAdmits (holding (listingFile [] (List.replicate 64 'a'))) [] (addressTexts peers) ∧
    StartsServer (holding (listingFile [] (List.replicate 64 'a'))) [] := by
  obtain ⟨js,loaded,holds⟩ := exists_accepted (loadConfig (holding (listingFile [] (List.replicate 64 'a'))) [])
    (fun js => js.peers.any fun peers => !peers.entries.isEmpty && decide (ListedLower (addressTexts peers)))
    (by decide +kernel)
  obtain ⟨peers,present,holds⟩ := (Option.any_eq_true _ _).mp holds
  simp only [Bool.and_eq_true,Bool.not_eq_true',List.isEmpty_eq_false_iff,decide_eq_true_eq] at holds
  obtain ⟨exactly,enough⟩ := admission_by_value_iff _ [] loaded present holds.1
  obtain ⟨starts,finds⟩ := enough _ rfl (readsAlike_of_spelledOut (by decide +kernel) (by decide +kernel) (by decide +kernel))
  exact ⟨js,peers,loaded,present,exactly.mpr ⟨holds.2,finds⟩,starts⟩

/-- The one peer of such a file, as the JavaScript loader finds it. -/
theorem listingFile_loads (before key : Text)
    (found : (loadConfig (holding (listingFile before key)) []).toOption.any (fun js => js.peers.any fun peers =>
      (addressTexts peers).entries = [⟨key,"10.0.0.2".toList⟩]) = true) :
    ∃ js peers, loadConfig (holding (listingFile before key)) [] = .ok js ∧ js.peers = some peers ∧ peers.entries ≠ [] ∧
      addressTexts peers = AList.singleton key "10.0.0.2".toList := by
  obtain ⟨js,loaded,holds⟩ := exists_accepted _ _ found
  obtain ⟨peers,present,entries⟩ := (Option.any_eq_true _ _).mp holds
  have texts := of_decide_eq_true entries
  refine ⟨js,peers,loaded,present,fun empty => ?_,AList.ext texts⟩
  simp [addressTexts,empty] at texts

/-- A client listed in upper case is accepted by the loader and then locked out; where an
empty object of that name comes first, the C++ server has no peers and lets everybody in. -/
theorem admission_locked_out :
    (¬∀ (read : Text → Option Text) (path : Text) (js : LoadedConfig) (peers : Table Text Value),
      loadConfig read path = .ok js → js.peers = some peers → peers.entries ≠ [] →
      ∀ s : Server, s.allowedPeers = some (addressTexts peers) →
        ∀ conn, AdmitsByValue (addressTexts peers) s.firewall (s.assigns conn)) ∧
    ¬∀ (read : Text → Option Text) (path : Text) (js : LoadedConfig) (peers : Table Text Value) (cfg : Config),
      loadConfig read path = .ok js → js.peers = some peers → peers.entries ≠ [] →
      Nospoon.loadConfig read path = .ok cfg → cfg.mode = "server".toList → ∀ ctx : ServerCtx, ctx.config = cfg →
        ∀ duplex, AdmitsByValue (addressTexts peers) ctx.firewall (streamAssigns ctx duplex) := by
  constructor
  · intro claim
    obtain ⟨js,peers,loaded,present,nonempty,texts⟩ := listingFile_loads [] (List.replicate 64 'A') (by decide +kernel)
    have byValue := claim _ _ js peers loaded present nonempty (.initial (some (addressTexts peers))) rfl 0
    rw [texts] at byValue
    have admitted := (byValue (Vector.replicate 32 0xaa)).1.mpr ⟨_,List.mem_singleton_self _,by decide +kernel⟩
    exact absurd admitted (by decide +kernel)
  · intro claim
    obtain ⟨js,peers,loaded,present,nonempty,texts⟩ :=
      listingFile_loads "\"note\":\x7b\"peers\":\x7b\x7d\x7d,".toList (List.replicate 64 'a') (by decide +kernel)
    obtain ⟨cfg,accepted,holds⟩ := exists_accepted
      (Nospoon.loadConfig (holding (listingFile "\"note\":\x7b\"peers\":\x7b\x7d\x7d,".toList (List.replicate 64 'a'))) [])
      (fun cfg => decide (cfg.mode = "server".toList) && cfg.peers.entries.isEmpty) (by decide +kernel)
    obtain ⟨mode,empty⟩ := (Bool.and_eq_true _ _).mp holds
    have byValue := claim _ _ js peers cfg loaded present nonempty accepted (of_decide_eq_true mode) (.initial cfg) rfl 0
    have admitted : (ServerCtx.initial cfg).firewall (Vector.replicate 32 0xbb) = false := if_pos empty
    obtain ⟨e,member,named⟩ := (byValue _).1.mp admitted
    rw [texts] at member
    obtain rfl := List.mem_singleton.mp member
    exact absurd named (by decide +kernel)

end Nospoon.Js
