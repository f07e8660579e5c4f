import Nospoon.Js.Fields

/-! One config file for both implementations. -/
namespace Nospoon.Js

open Library Library.Json

/-! ### The property -/

/-- Both configs say the same. -/
structure Same (js : LoadedConfig) (cfg : Config) : Prop where
  mode : Shows (some js.mode) cfg.mode
  ip : Shows (some js.ip) cfg.ip
  ipv6 : Shows js.ipv6 cfg.ipv6
  seed : Shows js.seed cfg.seed
  server : Shows js.server cfg.serverKey
  mtu : js.mtu = cfg.mtu
  fullTunnel : js.fullTunnel = cfg.fullTunnel
  peers : SamePeers (js.peers.getD ∅) cfg.peers
  outInterface : js.isServer = true → Shows js.outInterface cfg.outIface

/-- What the JavaScript loader accepts, the C++ loader reads as the same config. -/
def Compatible (read : Text → Option Text) (path : Text) : Prop :=
  ∀ js, loadConfig read path = .ok js → ∃ cfg, Nospoon.loadConfig read path = .ok cfg ∧ Same js cfg

/-! ### One file, two loaders -/

/-- How every field of the file has to be spelled for the scanner to read what the parser
read. -/
structure Readable (read : Text → Option Text) (json : Text) (ms : List Member) : Prop where
  mode : SpelledAs (given (propertiesOf ms) "mode".toList) (lastMember ms "mode".toList)
  ip : SpelledAs (some (wantedIp (propertiesOf ms))) (lastMember ms "ip".toList)
  ipv6 : SpelledAs (given (propertiesOf ms) "ipv6".toList) (lastMember ms "ipv6".toList)
  ipv6Text : ∀ s, given (propertiesOf ms) "ipv6".toList = some (.str s) → ScannableV6 (shown s)
  seed : SeedSpelled read (wantedSeed read (propertiesOf ms)) (lastMember ms "seed".toList) (lastMember ms "seedFile".toList)
  server : SpelledAs (wantedServer (propertiesOf ms)) (lastMember ms "server".toList)
  mtu : MtuSpelled (lastMember ms "mtu".toList)
  fullTunnel : FlagSpelled (lastMember ms "fullTunnel".toList)
  peers : PeersSpelled json (wantsPeers (propertiesOf ms)) (lastMember ms "peers".toList)
  outInterface : wantsServer (propertiesOf ms) = true →
    SpelledAs (given (propertiesOf ms) "outInterface".toList) (lastMember ms "outInterface".toList)

section Loads

variable {read : Text → Option Text} {js : LoadedConfig} {ms : List Member}
  (loads : Loads read (propertiesOf ms) js)

include loads

theorem Loads.ipv6_accepted (shows : Shows js.ipv6 t) (nonempty : t ≠ []) :
    Nospoon.validateCidrV6 t "ipv6".toList = .ok () ↔ ∀ s, js.ipv6 = some (.str s) → ScannableV6 (shown s) := by
  cases present : js.ipv6 with
  | none =>
    rw [present] at shows
    exact absurd shows nonempty
  | some v =>
    rw [present] at shows
    obtain ⟨s,rfl,field,valid⟩ := loads.ipv6_valid present
    obtain ⟨_,same,chars⟩ := isText_iff.mp shows.2
    obtain rfl := Value.str.inj same
    rw [shown_eq chars] at valid
    rw [validateCidrV6_iff valid]
    constructor
    · intro scannable s' again
      obtain rfl := Value.str.inj (Option.some.inj again)
      rw [shown_eq chars]
      exact scannable
    · intro all
      rw [← shown_eq chars]
      exact all s rfl

theorem Loads.mtu_bounds : 576 ≤ js.mtu ∧ js.mtu ≤ 65535 := by
  have mtu := loads.mtu
  unfold loadMtu at mtu
  split at mtu
  · rw [← Except.ok.inj mtu]
    decide
  · exact (requireMtu_ok mtu).2

/-- A readable file passes the checks of `load_config` with the same fields. -/
theorem Loads.same_of_readable (aligned : Aligned json ms) (readable : Readable read json ms) :
    (extract json).Accepted read ∧ ∃ cfg, resolveSeed read (extract json) = .ok cfg ∧ Same js cfg := by
  have mode : Shows (some js.mode) (extract json).mode :=
    loads.mode_eq ▸ shows_of_spelled aligned (by simp [fieldNames]) readable.mode
  have ip : Shows (some js.ip) (extract json).ip :=
    loads.ip_eq ▸ shows_of_spelled aligned (by simp [fieldNames]) readable.ip
  have ipv6 : Shows js.ipv6 (extract json).ipv6 :=
    loads.ipv6_eq ▸ shows_of_spelled aligned (by simp [fieldNames]) readable.ipv6
  have server : Shows js.server (extract json).serverKey :=
    loads.server_eq ▸ shows_of_spelled aligned (by simp [fieldNames]) readable.server
  have mtu : js.mtu = (extract json).mtu := (loads.jsonInt_mtu aligned).mpr readable.mtu
  obtain ⟨cfg,resolved,seed⟩ := loads.resolved_of_spelled aligned (loads.seed_eq ▸ readable.seed)
  have carried := resolveSeed_fields resolved
  have inline (nonempty : (extract json).seed ≠ []) : Shows js.seed (extract json).seed := by
    rcases (resolveSeed_ok read _ _).mp resolved with ⟨empty,-⟩ | ⟨-,rfl⟩
    · exact absurd empty nonempty
    · exact seed
  refine ⟨⟨mode.1,loads.ip_valid ip.2 _,fun nonempty => (loads.ipv6_accepted ipv6 nonempty).mpr (loads.ipv6_eq ▸ readable.ipv6Text),
    fun nonempty => ?_,fun nonempty => loads.server_valid server nonempty _,?_,fun empty named => ?_⟩,cfg,resolved,?_⟩
  · have shows := inline nonempty
    cases present : js.seed with
    | none =>
      rw [present] at shows
      exact absurd shows nonempty
    | some v =>
      rw [present] at shows
      exact (loads.seed_cases present).2 _ shows.2 _
  · rw [← mtu]
    exact validateMtu_ok.mpr loads.mtu_bounds
  · rcases (resolveSeed_ok read _ _).mp resolved with ⟨-,-,content,found,valid,-⟩ | ⟨exempt,-⟩
    · exact ⟨content,found,valid⟩
    · exact absurd (exempt empty) named
  · rw [carried]
    refine ⟨mode,ip,ipv6,seed,server,mtu,?_,?_,fun isServer => ?_⟩
    · exact (loads.jsonBool_fullTunnel aligned).mpr readable.fullTunnel
    · exact loads.peers_of_spelled aligned (loads.peers_isSome ▸ readable.peers)
    · rw [loads.outInterface isServer]
      rw [loads.isServer_eq] at isServer
      exact shows_of_spelled aligned (by simp [fieldNames]) (readable.outInterface isServer)

/-- Members whose values the scanner has no second way to come to: no `\u` in the path of a
seed file, no name twice among the peers. -/
structure Unambiguous (ms : List Member) : Prop where
  path : ∀ m s, lastMember ms "seedFile".toList = some m → m.value = .str s → NoUnits s
  peers : ∀ m es, lastMember ms "peers".toList = some m → m.value = .obj es →
    (es.map fun e => characters e.1).Nodup

theorem Loads.readable_of_same (aligned : Aligned json ms) (unambiguous : Unambiguous ms)
    (accepted : (extract json).Accepted read) (resolved : resolveSeed read (extract json) = .ok cfg)
    (same : Same js cfg) : Readable read json ms := by
  have seed := same.seed
  rw [resolveSeed_fields resolved] at same
  refine ⟨?_,?_,?_,fun s present => ?_,?_,?_,?_,?_,?_,fun isServer => ?_⟩
  · exact spelled_of_shows aligned (by simp [fieldNames]) (fun _ _ => given_carried) (loads.mode_eq ▸ same.mode)
  · exact spelled_of_shows aligned (by simp [fieldNames]) (fun _ _ => wantedIp_carried) (loads.ip_eq ▸ same.ip)
  · exact spelled_of_shows aligned (by simp [fieldNames]) (fun _ _ => given_carried) (loads.ipv6_eq ▸ same.ipv6)
  · have shows := same.ipv6
    rw [← loads.ipv6_eq] at present
    have nonempty : (extract json).ipv6 ≠ [] := by
      rw [present] at shows
      exact shows.1
    exact (loads.ipv6_accepted shows nonempty).mp (accepted.ipv6 nonempty) s present
  · exact loads.seed_eq ▸ loads.spelled_of_resolved aligned unambiguous.path resolved seed
  · exact spelled_of_shows aligned (by simp [fieldNames]) (fun _ _ => wantedServer_carried)
      (loads.server_eq ▸ same.server)
  · exact (loads.jsonInt_mtu aligned).mp same.mtu
  · exact (loads.jsonBool_fullTunnel aligned).mp same.fullTunnel
  · exact loads.peers_isSome ▸ loads.spelled_of_peers aligned unambiguous.peers same.peers
  · rw [← loads.isServer_eq] at isServer
    have shows := same.outInterface isServer
    rw [loads.outInterface isServer] at shows
    exact spelled_of_shows aligned (by simp [fieldNames]) (fun _ _ => given_carried) shows

end Loads

/-- Without its comments the text is the same document for both, and the scanner stops at
the members that count. -/
structure SameText (raw : Text) (ms : List Member) : Prop where
  document : parse (Nospoon.stripComments raw) = parse (stripComments raw)
  aligned : Aligned (Nospoon.stripComments raw) ms

/-- The C++ loader finds every member of the file and can read how it is spelled. -/
def ReadsAlike (read : Text → Option Text) (raw : Text) : Prop :=
  ∃ ms, SameText raw ms ∧ Readable read (Nospoon.stripComments raw) ms

/-- The C++ loader finds every member of the file. -/
def FindsAlike (raw : Text) : Prop := ∃ ms, SameText raw ms ∧ Unambiguous ms

/-- An accepted file is an object, and its members give the config. -/
theorem loads_of_loadConfig {read : Text → Option Text} (file : read path = some raw) (loaded : loadConfig read path = .ok js)
    (same : SameText raw ms) : Loads read (propertiesOf ms) js := by
  unfold loadConfig at loaded
  rw [file] at loaded
  dsimp only at loaded
  rw [← same.document] at loaded
  have parsed := parse_obj.mpr ⟨ms,same.aligned.members,rfl⟩
  rw [parsed] at loaded
  exact loads_of_ok loaded

theorem loads_alike {read : Text → Option Text} (file : read path = some raw) (loaded : loadConfig read path = .ok js)
    (alike : ReadsAlike read raw) : ∃ cfg, Nospoon.loadConfig read path = .ok cfg ∧ Same js cfg := by
  obtain ⟨ms,same,readable⟩ := alike
  have loads := loads_of_loadConfig file loaded same
  obtain ⟨accepted,cfg,resolved,equal⟩ := loads.same_of_readable same.aligned readable
  exact ⟨cfg,(Nospoon.loadConfig_ok read path cfg).mpr ⟨raw,file,accepted,resolved⟩,equal⟩

/-! ### Fields spelled out -/

/-- A character that stands for itself and ends neither a string nor a block. -/
def isPlain : Part → Bool
  | .char c => c ≠ '"' && c ≠ '\x7d'
  | _ => false

def isPlainText : Value → Bool
  | .str s => s.all isPlain
  | _ => false

theorem isPlain_iff : isPlain p = true ↔ ∃ c, p = .char c ∧ c ≠ '"' ∧ c ≠ '\x7d' := by
  cases p <;> simp [isPlain]

theorem literal_of_plain (plain : s.all isPlain = true) : Literal s := by
  intro p member
  obtain ⟨c,char,-⟩ := isPlain_iff.mp (List.all_eq_true.mp plain p member)
  exact ⟨c,char⟩

theorem quiet_of_plain (plain : s.all isPlain = true) : Quiet s := by
  have apart (d : Char) (inside : d ∈ spelled s) : d ≠ '"' ∧ d ≠ '\x7d' := by
    obtain ⟨p,member,here⟩ := List.mem_flatMap.mp inside
    obtain ⟨c,rfl,noQuote,noBrace⟩ := isPlain_iff.mp (List.all_eq_true.mp plain p member)
    obtain rfl := List.mem_singleton.mp here
    exact ⟨noQuote,noBrace⟩
  exact ⟨fun quote => (apart _ quote).1 rfl,fun brace => (apart _ brace).2 rfl⟩

theorem noUnits_of_literal (literal : Literal s) : NoUnits s := by
  intro digits member
  obtain ⟨c,same⟩ := literal _ member
  contradiction

/-- An object of such strings under such names. -/
def plainPeers : Value → Bool
  | .obj es => es.all fun e => e.1.all isPlain && isPlainText e.2
  | _ => false

theorem literalPeers_of_plain (plain : plainPeers (.obj es) = true) : LiteralPeers es := by
  have entry (e : Parts × Value) (member : e ∈ es) : e.1.all isPlain = true ∧ ∃ s, e.2 = .str s ∧ s.all isPlain = true := by
    have both := List.all_eq_true.mp plain e member
    rw [Bool.and_eq_true] at both
    obtain ⟨name,value⟩ := both
    refine ⟨name,?_⟩
    cases shape : e.2 with
    | str s =>
      rw [shape] at value
      exact ⟨s,rfl,value⟩
    | _ =>
      rw [shape] at value
      contradiction
  refine ⟨fun e member => literal_of_plain (entry e member).1,fun e member => ?_,fun name s found => ?_⟩
  · obtain ⟨s,value,plain⟩ := (entry e member).2
    exact ⟨s,value,quiet_of_plain plain⟩
  · obtain ⟨e,member,same⟩ := List.mem_map.mp (mem_of_lookup_insertAll found)
    have value : e.2 = .str s := congrArg Prod.snd same
    obtain ⟨_,again,plain⟩ := (entry e member).2
    obtain rfl := Value.str.inj (value.symm.trans again)
    exact literal_of_plain plain

/-- A field that is absent or spelled out is read as the file asks. -/
theorem spelled_given (all : (lastMember ms key).all (fun m => isPlainText m.value) = true) :
    SpelledAs (given (propertiesOf ms) key) (lastMember ms key) := by
  rw [given,propertiesOf,property_entries]
  cases found : lastMember ms key with
  | none => exact rfl
  | some m =>
    rw [found] at all
    obtain ⟨name,behind,value⟩ := m
    cases value with
    | str s =>
      refine ⟨noUnits_of_literal (literal_of_plain all),?_⟩
      by_cases empty : s = []
      · rw [empty]
        rfl
      · simp [isTruthy,empty]
    | _ => contradiction

/-- A server file with an address and peers and nothing optional but an interface, all of
it spelled out. -/
def spelledOut (ms : List Member) : Bool :=
  ["ipv6","seed","seedFile","server","mtu","fullTunnel"].all (fun key => (lastMember ms key.toList).isNone) &&
  ["mode","ip","outInterface"].all (fun key => (lastMember ms key.toList).all fun m => isPlainText m.value) &&
  (lastMember ms "peers".toList).all (fun m => plainPeers m.value) &&
  (given (propertiesOf ms) "ip".toList).isSome && wantsPeers (propertiesOf ms)

theorem readable_of_spelledOut {read : Text → Option Text} (out : spelledOut ms = true) : Readable read json ms := by
  simp only [spelledOut,Bool.and_eq_true,List.all_cons,List.all_nil,and_true,Option.isNone_iff_eq_none] at out
  obtain ⟨⟨⟨⟨⟨ipv6,seed,seedFile,server,mtu,fullTunnel⟩,mode,ip,outInterface⟩,peers⟩,present⟩,wanted⟩ := out
  have absent (key : Text) (nothing : lastMember ms key = none) : given (propertiesOf ms) key = none := by
    rw [given,propertiesOf,property_entries,nothing]
    rfl
  have isServer : wantsServer (propertiesOf ms) = true := (Bool.and_eq_true _ _ ▸ wanted).1
  have wantedIp_eq : some (wantedIp (propertiesOf ms)) = given (propertiesOf ms) "ip".toList := by
    obtain ⟨v,found⟩ := Option.isSome_iff_exists.mp present
    rw [wantedIp,found]
    rfl
  refine ⟨spelled_given mode,?_,?_,fun s found => ?_,?_,?_,?_,?_,?_,fun _ => spelled_given outInterface⟩
  · rw [wantedIp_eq]
    exact spelled_given ip
  · rw [absent _ ipv6,ipv6]
    exact rfl
  · rw [absent _ ipv6] at found
    contradiction
  · rw [wantedSeed,absent _ seed,absent _ seedFile,seed,seedFile]
    exact ⟨rfl,rfl⟩
  · rw [wantedServer,if_pos isServer,server]
    exact rfl
  · rw [mtu]
    trivial
  · rw [fullTunnel]
    intro m none
    contradiction
  · rw [PeersSpelled,if_pos wanted]
    intro m es member value
    rw [member,Option.all_some,value] at peers
    exact literalPeers_of_plain peers

/-- Such a file without comments, whose members are where the scanner finds them. -/
theorem readsAlike_of_spelledOut {read : Text → Option Text} (cpp : Nospoon.stripComments raw = raw)
    (js : stripComments raw = raw) (found : ((topLevel raw).any fun ms => spelledOut ms && fieldNames.all fun key =>
      findKey key raw = (lastMember ms key).map Member.behind) = true) : ReadsAlike read raw := by
  obtain ⟨ms,members,holds⟩ := (Option.any_eq_true _ _).mp found
  simp only [Bool.and_eq_true,List.all_eq_true,decide_eq_true_eq] at holds
  refine ⟨ms,⟨?_,?_,?_⟩,readable_of_spelledOut holds.1⟩
  · rw [cpp,js]
  · rw [cpp]
    exact members
  · rw [cpp]
    exact holds.2

/-! ### The comparison -/

/-- A file that the JavaScript loader accepts and that reads alike is one config for both
loaders; and where the C++ loader finds the members at all, only such a file is. -/
theorem loadConfigs_compatible_iff (read : Text → Option Text) (path : Text) :
    ((∀ raw js, read path = some raw → loadConfig read path = .ok js → ReadsAlike read raw) → Compatible read path) ∧
      ((∀ raw, read path = some raw → FindsAlike raw) → Compatible read path →
        ∀ raw js, read path = some raw → loadConfig read path = .ok js → ReadsAlike read raw) := by
  have accepts {js : LoadedConfig} (loaded : loadConfig read path = .ok js) : ∃ raw, read path = some raw := by
    cases file : read path with
    | none =>
      unfold loadConfig at loaded
      rw [file] at loaded
      contradiction
    | some raw => exact ⟨raw,rfl⟩
  constructor
  · intro alike js loaded
    obtain ⟨raw,file⟩ := accepts loaded
    exact loads_alike file loaded (alike raw js file loaded)
  · intro finds compatible raw js file loaded
    obtain ⟨ms,same,unambiguous⟩ := finds raw file
    have loads := loads_of_loadConfig file loaded same
    obtain ⟨cfg,loadedCpp,equal⟩ := compatible js loaded
    obtain ⟨raw',file',accepted,resolved⟩ := (Nospoon.loadConfig_ok read path cfg).mp loadedCpp
    obtain rfl := Option.some.inj (file.symm.trans file')
    exact ⟨ms,same,loads.readable_of_same same.aligned unambiguous accepted resolved equal⟩

/-- A config with one peer is the same for both loaders. -/
theorem loadConfigs_compatible_onePeer :
    Compatible (holding (serverWith ('\x7b' :: onePeerText ++ "\x7d\x7d".toList))) [] ∧
    ∃ js, loadConfig (holding (serverWith ('\x7b' :: onePeerText ++ "\x7d\x7d".toList))) [] = .ok js := by
  obtain ⟨js,loaded,-⟩ := exists_accepted (loadConfig (holding (serverWith ('\x7b' :: onePeerText ++ "\x7d\x7d".toList))) [])
    (fun _ => true) (by decide +kernel)
  refine ⟨?_,js,loaded⟩
  clear loaded js
  refine (loadConfigs_compatible_iff (holding _) []).1 fun raw js file _ => ?_
  obtain rfl := Option.some.inj file
  exact readsAlike_of_spelledOut (by decide +kernel) (by decide +kernel) (by decide +kernel)

/-- A server file with these fields behind its mode. -/
def serverText (fields : String) : Text := "\x7b\"mode\":\"server\"".toList ++ fields.toList ++ "\x7d".toList

/-- The C++ loader refuses a file without an address, stops in front of an exponent, and
takes the first member of a name at any depth. -/
theorem loadConfigs_differ :
    ¬Compatible (holding (serverText "")) [] ∧
    ¬Compatible (holding (serverText ",\"ip\":\"10.0.0.1/24\",\"mtu\":1.4e3")) [] ∧
    ¬Compatible (holding (serverText ",\"ip\":\"10.0.0.1/24\",\"note\":\x7b\"mtu\":9000\x7d")) [] := by
  refine ⟨fun claim => ?_,fun claim => ?_,fun claim => ?_⟩
  · obtain ⟨js,loaded,-⟩ := exists_accepted (loadConfig (holding (serverText "")) []) (fun _ => true) (by decide +kernel)
    obtain ⟨cfg,accepted,-⟩ := claim js loaded
    exact refuses (Nospoon.loadConfig (holding (serverText "")) []) (by decide +kernel) cfg accepted
  · obtain ⟨js,loaded,-⟩ := exists_accepted
      (loadConfig (holding (serverText ",\"ip\":\"10.0.0.1/24\",\"mtu\":1.4e3")) []) (fun js => js.mtu = 1400)
      (by decide +kernel)
    obtain ⟨cfg,accepted,-⟩ := claim js loaded
    exact refuses (Nospoon.loadConfig (holding (serverText ",\"ip\":\"10.0.0.1/24\",\"mtu\":1.4e3")) [])
      (by decide +kernel) cfg accepted
  · obtain ⟨js,loaded,mtu⟩ := exists_accepted
      (loadConfig (holding (serverText ",\"ip\":\"10.0.0.1/24\",\"note\":\x7b\"mtu\":9000\x7d")) [])
      (fun js => js.mtu = 1400) (by decide +kernel)
    obtain ⟨cfg,accepted,same⟩ := claim js loaded
    obtain ⟨cfg',found,other⟩ := exists_accepted
      (Nospoon.loadConfig (holding (serverText ",\"ip\":\"10.0.0.1/24\",\"note\":\x7b\"mtu\":9000\x7d")) [])
      (fun cfg => cfg.mtu = 9000) (by decide +kernel)
    rw [Except.ok.inj (found.symm.trans accepted)] at other
    have equal : (1400 : Int) = 9000 := (of_decide_eq_true mtu).symm.trans (same.mtu.trans (of_decide_eq_true other))
    exact absurd equal (by decide)

end Nospoon.Js
