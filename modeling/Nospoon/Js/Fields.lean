import Nospoon.Js.Checks

/-! The fields of one text, as both loaders read them. The JavaScript loader takes them
from the parsed members, the C++ loader searches the text for each by itself: it finds the
first place where the name stands in front of a colon, and reads what looks like a value
from there. -/
namespace Nospoon.Js

open Library Library.Json

def LoadedConfig.isServer (js : LoadedConfig) : Bool := isText "server".toList js.mode

/-- A field of the C++ config has the value of the JavaScript one; an absent one is empty. -/
def Shows : Option Value → Text → Prop
  | none, t => t = []
  | some v, t => t ≠ [] ∧ isText t v = true

/-- A table of texts holds the strings of a table of values, key for key. -/
def SamePeers (peers : Table Text Value) (texts : PeersMap) : Prop :=
  ∀ key, Option.Rel (fun v t => isText t v = true) (peers.lookup key) (texts.lookup key)

theorem SamePeers.text {texts : PeersMap} (same : SamePeers peers texts) (found : peers.lookup key = some v) :
    ∃ t, texts.lookup key = some t ∧ isText t v = true := by
  have here := same key
  rw [found] at here
  generalize texts.lookup key = there at here ⊢
  cases here with
  | some text => exact ⟨_,rfl,text⟩

theorem SamePeers.value {texts : PeersMap} (same : SamePeers peers texts) (found : texts.lookup key = some t) :
    ∃ v, peers.lookup key = some v ∧ isText t v = true := by
  have here := same key
  rw [found] at here
  generalize peers.lookup key = there at here ⊢
  cases here with
  | some text => exact ⟨_,rfl,text⟩

/-! ### The same places -/

/-- The member whose value counts for a name: the last. -/
def lastMember (ms : List Member) (key : Text) : Option Member :=
  ms.reverse.find? fun m => characters m.name = ofText key

theorem property_entries (ms : List Member) (key : Text) :
    property (ms.map Member.entry) key = (lastMember ms key).map Member.value := by
  rw [property,lastMember,← List.map_reverse,List.find?_map,Option.map_map]
  rfl

/-- For every field the scanner stops at the member that counts, or at none if there is none. -/
structure Aligned (json : Text) (ms : List Member) : Prop where
  members : topLevel json = some ms
  places : ∀ key ∈ fieldNames, findKey key json = (lastMember ms key).map Member.behind

theorem Aligned.inPlace (aligned : Aligned json ms) (found : lastMember ms key = some m) : m.InPlace :=
  topLevel_inPlace aligned.members m (List.mem_reverse.mp (List.mem_of_find?_eq_some found))

/-! ### Strings -/

/-- How the scanner comes to a wanted text: the member is a string without `\u` escapes,
or there is none; or the next string behind another value happens to be the text. -/
def SpelledAs (want : Option Value) : Option Member → Prop
  | none => want = none
  | some ⟨_,behind,value⟩ =>
    match value with
    | .str s => NoUnits s ∧ want = if s = [] then none else some (.str s)
    | _ => Shows want ((nextString behind).getD [])

theorem shows_nil : Shows want [] ↔ want = none := by
  cases want <;> simp [Shows]

theorem scanned_ne_nil {s : Parts} (valid : ∀ p ∈ s, Part.Valid p) (nonempty : s ≠ []) : s.flatMap scanned ≠ [] := by
  intro empty
  have sized := scanned_length valid
  rw [empty] at sized
  exact nonempty (List.eq_nil_of_length_eq_zero (Nat.le_zero.mp sized))

/-- `json_string` at the right place. -/
theorem shows_of_spelled (aligned : Aligned json ms) (field : key ∈ fieldNames)
    (spelled : SpelledAs want (lastMember ms key)) : Shows want (jsonString json key) := by
  rw [jsonString,aligned.places key field]
  cases found : lastMember ms key with
  | none =>
    rw [found] at spelled
    exact shows_nil.mpr spelled
  | some m =>
    rw [found] at spelled
    obtain ⟨name,behind,value⟩ := m
    cases value with
    | str s =>
      obtain ⟨next,valid⟩ := nextString_inPlace (aligned.inPlace found) rfl
      obtain ⟨noUnits,rfl⟩ := spelled
      rw [Option.map_some,Option.bind_some,next,Option.getD_some]
      by_cases empty : s = []
      · rw [if_pos empty,empty]
        exact rfl
      · rw [if_neg empty]
        exact ⟨scanned_ne_nil valid empty,isText_iff.mpr ⟨s,rfl,(scanned_iff valid).mpr noUnits⟩⟩
    | _ => exact spelled

/-- A string value reaches the config as it is, or not at all, and the scanner cannot
come to its text in another way. -/
theorem spelled_of_shows (aligned : Aligned json ms) (field : key ∈ fieldNames)
    (carried : ∀ m s, lastMember ms key = some m → m.value = .str s → s ≠ [] → want = none ∨ want = some (.str s))
    (shows : Shows want (jsonString json key)) : SpelledAs want (lastMember ms key) := by
  rw [jsonString,aligned.places key field] at shows
  cases found : lastMember ms key with
  | none =>
    rw [found] at shows
    exact shows_nil.mp shows
  | some m =>
    rw [found] at shows
    obtain ⟨name,behind,value⟩ := m
    cases value with
    | str s =>
      obtain ⟨next,valid⟩ := nextString_inPlace (aligned.inPlace found) rfl
      rw [Option.map_some,Option.bind_some,next,Option.getD_some] at shows
      by_cases empty : s = []
      · rw [empty] at shows
        refine ⟨by simp [NoUnits,empty],?_⟩
        rw [if_pos empty]
        exact shows_nil.mp shows
      · rcases carried _ s found rfl empty with rfl | rfl
        · exact absurd shows (scanned_ne_nil valid empty)
        · obtain ⟨_,same,text⟩ := isText_iff.mp shows.2
          obtain rfl := Value.str.inj same
          exact ⟨(scanned_iff valid).mp text,(if_neg empty).symm⟩
    | _ => exact shows

/-! ### What the loader takes over -/

/-- The steps of the loader, each for itself. -/
structure Loads (read : Text → Option Text) (get : Text → Option Value) (js : LoadedConfig) : Prop where
  mode : loadMode get = .ok js.mode
  ip : loadIp get js.isServer = .ok js.ip
  ipv6 : loadOptional get "ipv6".toList requireCidrV6 = .ok js.ipv6
  seed : loadSeed read get = .ok js.seed
  mtu : loadMtu get = .ok js.mtu
  fullTunnel : js.fullTunnel = true ↔ get "fullTunnel".toList = some (.bool true)
  outInterface : js.isServer = true → js.outInterface = given get "outInterface".toList
  peers : (if js.isServer then loadPeers get js.ip else .ok none) = .ok js.peers
  server : (if js.isServer then .ok none else loadServer get) = .ok js.server

theorem loads_of_ok {read : Text → Option Text} {get : Text → Option Value}
    (h : loadProperties read get = .ok js) : Loads read get js := by
  unfold loadProperties at h
  simp only [bind_ok] at h
  obtain ⟨mode,hmode,ip,hip,ipv6,hipv6,seed,hseed,mtu,hmtu,peers,hpeers,server,hserver,same⟩ := h
  obtain rfl := Except.ok.inj same
  refine ⟨hmode,hip,hipv6,hseed,hmtu,?_,fun isServer => if_pos isServer,hpeers,hserver⟩
  dsimp only
  split
  · rename_i b found
    rw [found]
    simp
  · rename_i other
    exact iff_of_false nofun (other true)

theorem loadParsed_ok {read : Text → Option Text} (h : loadParsed read v = .ok js) : ∃ ms, v = .obj ms ∧ loadProperties read (property ms) = .ok js := by
  cases v with
  | obj ms => exact ⟨ms,rfl,h⟩
  | null | bool | num | str | arr => contradiction

theorem loadConfig_ok {read : Text → Option Text} : loadConfig read path = .ok js ↔
    ∃ raw v, read path = some raw ∧ parse (stripComments raw) = some v ∧ loadParsed read v = .ok js := by
  unfold loadConfig
  cases read path with
  | none => simp
  | some raw =>
    cases parsed : parse (stripComments raw) with
    | none => simp [parsed]
    | some v => simp [parsed]

/-- Peers are checked against the address. -/
theorem Loads.peers_some {read : Text → Option Text} {get : Text → Option Value} (loads : Loads read get js)
    (present : js.peers = some allowed) : js.isServer = true ∧ ∃ v, given get "peers".toList = some v ∧
      validatePeersValue v ((testedText js.ip).getD []) = .ok allowed := by
  have loaded := loads.peers
  rw [present] at loaded
  split at loaded
  · rename_i isServer
    refine ⟨isServer,?_⟩
    unfold loadPeers at loaded
    split at loaded
    · simp at loaded
    · rename_i v found
      obtain ⟨_,checked,same⟩ := map_ok.mp loaded
      obtain rfl := Option.some.inj same
      exact ⟨v,(Option.filter_eq_some_iff.mp found).1,checked⟩
  · simp at loaded

/-- The properties of the object these members make. -/
abbrev propertiesOf (ms : List Member) : Text → Option Value := property (ms.map Member.entry)

theorem given_some (h : given (propertiesOf ms) key = some v) :
    isTruthy v = true ∧ ∃ m, lastMember ms key = some m ∧ m.value = v := by
  obtain ⟨found,truthy⟩ := Option.filter_eq_some_iff.mp h
  rw [propertiesOf,property_entries] at found
  exact ⟨truthy,Option.map_eq_some_iff.mp found⟩

theorem given_str (found : lastMember ms key = some m) (value : m.value = .str s) (nonempty : s ≠ []) :
    given (propertiesOf ms) key = some (.str s) := by
  rw [given,propertiesOf,property_entries,found,Option.map_some,value]
  simp [isTruthy,nonempty]

/-! ### What the file asks for -/

def wantsServer (get : Text → Option Value) : Bool := (given get "mode".toList).any (isText "server".toList)

def wantedIp (get : Text → Option Value) : Value :=
  (given get "ip".toList).getD (textValue (if wantsServer get then "10.0.0.1/24".toList else "10.0.0.2/24".toList))

def wantedSeed (read : Text → Option Text) (get : Text → Option Value) : Option Value :=
  match given get "seed".toList, given get "seedFile".toList with
  | some seed, _ => some seed
  | none, some (.str path) => (read (shown path)).map fun content => textValue (trim content)
  | none, _ => none

def wantsPeers (get : Text → Option Value) : Bool :=
  wantsServer get && ((given get "peers".toList).filter hasKeys).isSome

def wantedServer (get : Text → Option Value) : Option Value :=
  if wantsServer get then none else given get "server".toList

theorem given_carried (found : lastMember ms key = some m) (value : m.value = .str s) (nonempty : s ≠ []) :
    given (propertiesOf ms) key = none ∨ given (propertiesOf ms) key = some (.str s) :=
  .inr (given_str found value nonempty)

theorem wantedIp_carried (found : lastMember ms "ip".toList = some m) (value : m.value = .str s) (nonempty : s ≠ []) :
    some (wantedIp (propertiesOf ms)) = none ∨ some (wantedIp (propertiesOf ms)) = some (.str s) := by
  rw [wantedIp,given_str found value nonempty]
  exact .inr rfl

theorem wantedServer_carried (found : lastMember ms "server".toList = some m) (value : m.value = .str s)
    (nonempty : s ≠ []) :
    wantedServer (propertiesOf ms) = none ∨ wantedServer (propertiesOf ms) = some (.str s) := by
  rw [wantedServer,given_str found value nonempty]
  split
  · exact .inl rfl
  · exact .inr rfl

theorem wantedSeed_carried {read : Text → Option Text} (found : lastMember ms "seed".toList = some m) (value : m.value = .str s)
    (nonempty : s ≠ []) :
    wantedSeed read (propertiesOf ms) = none ∨ wantedSeed read (propertiesOf ms) = some (.str s) := by
  rw [wantedSeed,given_str found value nonempty]
  exact .inr rfl

section Fields

variable {ms : List Member} {read : Text → Option Text} {js : LoadedConfig} (loads : Loads read (propertiesOf ms) js)

include loads

theorem Loads.mode_eq : given (propertiesOf ms) "mode".toList = some js.mode := by
  have mode := loads.mode
  unfold loadMode at mode
  split at mode
  · contradiction
  · rename_i value found
    split_ifs at mode
    rw [← Except.ok.inj mode]
    exact found

theorem Loads.isServer_eq : js.isServer = wantsServer (propertiesOf ms) := by
  rw [wantsServer,loads.mode_eq]
  rfl

theorem Loads.ip_eq : js.ip = wantedIp (propertiesOf ms) := by
  have ip := loads.ip
  unfold loadIp at ip
  rw [wantedIp]
  split at ip
  · rename_i value found
    rw [found]
    exact (requireCidr_ok ip).1
  · rename_i found
    rw [found,← loads.isServer_eq]
    exact (Except.ok.inj ip).symm

theorem Loads.ipv6_eq : js.ipv6 = given (propertiesOf ms) "ipv6".toList := by
  have ipv6 := loads.ipv6
  unfold loadOptional at ipv6
  split at ipv6
  · rename_i found
    rw [found]
    exact (Except.ok.inj ipv6).symm
  · rename_i value found
    obtain ⟨v,checked,same⟩ := map_ok.mp ipv6
    rw [found,← same,(requireCidrV6_ok checked).1]

theorem Loads.server_eq : js.server = wantedServer (propertiesOf ms) := by
  have server := loads.server
  rw [wantedServer,← loads.isServer_eq]
  split at server
  · rename_i isServer
    rw [if_pos isServer]
    exact (Except.ok.inj server).symm
  · rename_i client
    rw [if_neg client]
    unfold loadServer at server
    split at server
    · contradiction
    · rename_i value found
      obtain ⟨v,checked,same⟩ := map_ok.mp server
      rw [found,← same,(requireHex64_ok checked).1]

theorem Loads.seed_eq : js.seed = wantedSeed read (propertiesOf ms) := by
  have seed := loads.seed
  unfold loadSeed at seed
  unfold wantedSeed
  split at seed
  · contradiction
  · rename_i value inline _
    obtain ⟨v,checked,same⟩ := map_ok.mp seed
    rw [inline,← same,(requireHex64_ok checked).1]
  · rename_i path none file
    obtain ⟨v,checked,same⟩ := map_ok.mp seed
    rw [none,file,← same]
    unfold readSeedFile at checked
    dsimp only at checked
    split at checked
    · contradiction
    · rename_i content found
      rw [(requireHex64_ok checked).1]
      split at found
      · dsimp only
        rw [found]
        rfl
      · contradiction
  · rename_i none noFile
    rw [none,noFile]
    exact (Except.ok.inj seed).symm

theorem Loads.peers_isSome : js.peers.isSome = wantsPeers (propertiesOf ms) := by
  have peers := loads.peers
  rw [wantsPeers,← loads.isServer_eq]
  split at peers
  · rename_i isServer
    rw [isServer,Bool.true_and]
    unfold loadPeers at peers
    split at peers
    · rename_i found
      rw [found,← Except.ok.inj peers]
      rfl
    · rename_i value found
      obtain ⟨v,-,same⟩ := map_ok.mp peers
      rw [found,← same]
      rfl
  · rename_i client
    rw [← Except.ok.inj peers,Bool.eq_false_iff.mpr client]
    rfl

theorem Loads.ip_valid {t : Text} (text : isText t js.ip = true) (label : Text) :
    Nospoon.validateCidr t label = .ok () := by
  have ip := loads.ip
  unfold loadIp at ip
  split at ip
  · obtain ⟨rfl,-,valid⟩ := requireCidr_ok ip
    exact valid t text label
  · rw [← Except.ok.inj ip] at text
    rw [← isText_textValue.mp text]
    have plain (t : Text) (valid : Nospoon.validateCidr t [] = .ok ()) : Nospoon.validateCidr t label = .ok () :=
      validateCidr_ok.mpr (validateCidr_ok.mp valid)
    split
    · exact plain _ (by decide)
    · exact plain _ (by decide)

theorem Loads.ipv6_valid (present : js.ipv6 = some v) : ∃ s, v = .str s ∧ ∃ field, validateCidrV6 (shown s) field = .ok () := by
  have ipv6 := loads.ipv6
  unfold loadOptional at ipv6
  split at ipv6
  · rw [← Except.ok.inj ipv6] at present
    contradiction
  · obtain ⟨v',checked,same⟩ := map_ok.mp ipv6
    obtain ⟨rfl,s,rfl,valid⟩ := requireCidrV6_ok checked
    obtain rfl := Option.some.inj (same.trans present)
    exact ⟨s,rfl,_,valid⟩

theorem Loads.server_valid (shows : Shows js.server t) (present : t ≠ []) (label : Text) :
    Nospoon.validateHex64 t label = .ok () := by
  have server := loads.server
  split at server
  · rw [← Except.ok.inj server] at shows
    exact absurd shows present
  · unfold loadServer at server
    split at server
    · contradiction
    · obtain ⟨v,checked,same⟩ := map_ok.mp server
      rw [← same] at shows
      obtain ⟨rfl,valid⟩ := requireHex64_ok checked
      exact valid t shows.2 label

/-! ### The MTU and the flag -/

/-- There is no MTU, or it is a number, and the digits in front of point and exponent,
read as an `int`, are already all of it. -/
def MtuSpelled : Option Member → Prop
  | none => True
  | some m => ∃ n, m.value = .num n ∧ parseIntNumber n = some (atoi n.whole)

theorem Loads.jsonInt_mtu (aligned : Aligned json ms) :
    js.mtu = jsonInt json "mtu".toList 1400 ↔ MtuSpelled (lastMember ms "mtu".toList) := by
  have mtu := loads.mtu
  rw [loadMtu,propertiesOf,property_entries] at mtu
  rw [jsonInt,aligned.places "mtu".toList (by simp [fieldNames])]
  cases found : lastMember ms "mtu".toList with
  | none =>
    rw [found] at mtu
    exact iff_of_true (Except.ok.inj mtu).symm trivial
  | some m =>
    rw [found] at mtu
    obtain ⟨parsed,low,-⟩ := requireMtu_ok mtu
    obtain ⟨fuel,r,shape⟩ := aligned.inPlace found
    rw [Option.map_some]
    dsimp only [MtuSpelled]
    rw [atoi_behind]
    by_cases number : ∃ n, m.value = .num n
    · obtain ⟨n,value⟩ := number
      rw [value] at shape parsed
      have positive : n.negative = false := by
        rw [parseIntValue,parseIntNumber] at parsed
        cases negative : n.negative with
        | false => rfl
        | true => simp [negative] at parsed
      rw [atoi_number shape positive]
      constructor
      · intro same
        exact ⟨n,value,parsed.trans (congrArg some same)⟩
      · rintro ⟨_,again,same⟩
        obtain rfl := Value.num.inj (value.symm.trans again)
        exact Option.some.inj (parsed.symm.trans same)
    · have zero := atoi_noNumber shape (not_exists.mp number)
      rw [zero]
      refine iff_of_false (by omega) ?_
      rintro ⟨n,value,-⟩
      exact number ⟨n,value⟩

/-- Where the flag is set, no line break stands between the colon and `true`. -/
def FlagSpelled (member : Option Member) : Prop :=
  ∀ m, member = some m → m.value = .bool true → "true".toList <+: skipSpaces m.behind

theorem Loads.jsonBool_fullTunnel (aligned : Aligned json ms) :
    js.fullTunnel = jsonBool json "fullTunnel".toList false ↔
      FlagSpelled (lastMember ms "fullTunnel".toList) := by
  have flag := loads.fullTunnel
  rw [propertiesOf,property_entries] at flag
  rw [jsonBool,aligned.places "fullTunnel".toList (by simp [fieldNames])]
  cases found : lastMember ms "fullTunnel".toList with
  | none =>
    rw [found] at flag
    have unset : js.fullTunnel = false := by
      by_contra set
      have nothing := flag.mp (by simpa using set)
      contradiction
    exact iff_of_true unset fun m none => by simp at none
  | some m =>
    rw [found] at flag
    have read : (if "true".toList <+: skipSpaces m.behind then true
        else if "false".toList <+: skipSpaces m.behind then false else false) =
        decide ("true".toList <+: skipSpaces m.behind) := by
      split_ifs with set unset
      · exact (decide_eq_true set).symm
      · exact (decide_eq_false set).symm
      · exact (decide_eq_false set).symm
    have set : "true".toList <+: skipSpaces m.behind → js.fullTunnel = true := by
      intro front
      obtain ⟨fuel,r,shape⟩ := aligned.inPlace found
      obtain ⟨rest,word⟩ := front
      have stands : skip m.behind = "true".toList ++ rest := by
        rw [← skip_skipSpaces,← word]
        rfl
      exact flag.mpr (congrArg some (shape_true shape ⟨rest,stands.symm⟩))
    rw [Option.map_some]
    dsimp only
    rw [read]
    constructor
    · intro same m' again value
      obtain rfl := Option.some.inj again
      have on := flag.mpr (congrArg some value)
      rw [same] at on
      exact of_decide_eq_true on
    · intro spelled
      cases value : js.fullTunnel with
      | true =>
        have on : m.value = .bool true := Option.some.inj (flag.mp value)
        exact (decide_eq_true (spelled m rfl on)).symm
      | false =>
        symm
        apply decide_eq_false
        intro front
        rw [set front] at value
        contradiction

/-! ### Seeds -/

/-- A seed file whose path has no `\u` escapes and whose text is the seed up to blanks and
line breaks behind it. -/
def FileSpelled (read : Text → Option Text) (seed : Value) (file : Option Member) : Prop :=
  ∃ s content, SpelledAs (some (.str s)) file ∧ read (shown s) = some content ∧
    isText (content.rdropWhile isBlank) seed = true

/-- The scanner comes to the seed in the config itself, or finds none there and comes to
its file, or finds neither. -/
def SeedSpelled (read : Text → Option Text) (seed : Option Value) (inline file : Option Member) : Prop :=
  match seed with
  | none => SpelledAs none inline ∧ SpelledAs none file
  | some seed => SpelledAs (some seed) inline ∨ (SpelledAs none inline ∧ FileSpelled read seed file)

/-- The seed is the inline value, or what the file holds. -/
theorem Loads.seed_cases (present : js.seed = some v) :
    (given (propertiesOf ms) "seed".toList = some v ∨
      (given (propertiesOf ms) "seed".toList = none ∧ ∃ s content, given (propertiesOf ms) "seedFile".toList = some (.str s) ∧
        read (shown s) = some content ∧ v = textValue (trim content))) ∧
    ∀ t, isText t v = true → ∀ label, Nospoon.validateHex64 t label = .ok () := by
  have seed := loads.seed
  unfold loadSeed at seed
  split at seed
  · contradiction
  · rename_i given _
    obtain ⟨v',checked,same⟩ := map_ok.mp seed
    obtain ⟨rfl,valid⟩ := requireHex64_ok checked
    obtain rfl := Option.some.inj (same.trans present)
    exact ⟨.inl given,valid⟩
  · rename_i none path
    obtain ⟨v',checked,same⟩ := map_ok.mp seed
    obtain rfl := Option.some.inj (same.trans present)
    unfold readSeedFile at checked
    dsimp only at checked
    split at checked
    · contradiction
    · rename_i content found
      obtain ⟨rfl,valid⟩ := requireHex64_ok checked
      refine ⟨.inr ⟨none,?_⟩,valid⟩
      split at found
      · exact ⟨_,content,path,found,rfl⟩
      · contradiction
  · rw [← Except.ok.inj seed] at present
    contradiction

theorem Loads.resolved_of_spelled (aligned : Aligned json ms)
    (spelled : SeedSpelled read js.seed (lastMember ms "seed".toList) (lastMember ms "seedFile".toList)) :
    ∃ cfg, resolveSeed read (extract json) = .ok cfg ∧ Shows js.seed cfg.seed := by
  have inline : "seed".toList ∈ fieldNames := by simp [fieldNames]
  have file : "seedFile".toList ∈ fieldNames := by simp [fieldNames]
  have inPlace {cfg : Config} (exempt : cfg.seed = [] → cfg.seedFile = []) : resolveSeed read cfg = .ok cfg :=
    (resolveSeed_ok read cfg cfg).mpr (.inr ⟨exempt,rfl⟩)
  cases present : js.seed with
  | none =>
    rw [present] at spelled
    have seed := shows_of_spelled aligned inline spelled.1
    have seedFile := shows_of_spelled aligned file spelled.2
    exact ⟨_,inPlace fun _ => seedFile,seed⟩
  | some v =>
    rw [present] at spelled
    rcases spelled with here | ⟨none,s,content,path,found,text⟩
    · have seed := shows_of_spelled aligned inline here
      exact ⟨_,inPlace fun empty => absurd empty seed.1,seed⟩
    · have seed := shows_of_spelled aligned inline none
      obtain ⟨nonempty,same⟩ := shows_of_spelled aligned file path
      obtain ⟨_,again,chars⟩ := isText_iff.mp same
      obtain rfl := Value.str.inj again
      have valid := (loads.seed_cases present).2 _ text "seedFile contents".toList
      have full : content.rdropWhile isBlank ≠ [] := by
        rintro empty
        rw [empty] at valid
        exact absurd valid (by decide)
      rw [shown_eq chars] at found
      exact ⟨_,(resolveSeed_ok read _ _).mpr (.inl ⟨seed,nonempty,content,found,valid,rfl⟩),full,text⟩

theorem Loads.spelled_of_resolved (aligned : Aligned json ms)
    (path : ∀ m s, lastMember ms "seedFile".toList = some m → m.value = .str s → NoUnits s)
    (resolved : resolveSeed read (extract json) = .ok cfg) (shows : Shows js.seed cfg.seed) :
    SeedSpelled read js.seed (lastMember ms "seed".toList) (lastMember ms "seedFile".toList) := by
  have inline : "seed".toList ∈ fieldNames := by simp [fieldNames]
  have file : "seedFile".toList ∈ fieldNames := by simp [fieldNames]
  have absent (empty : (extract json).seed = []) : SpelledAs none (lastMember ms "seed".toList) :=
    spelled_of_shows aligned inline (fun _ _ _ _ _ => .inl rfl) empty
  rcases (resolveSeed_ok read _ _).mp resolved with ⟨empty,named,content,found,valid,rfl⟩ | ⟨exempt,rfl⟩
  · cases present : js.seed with
    | none =>
      rw [present] at shows
      have empty : content.rdropWhile isBlank = [] := shows
      rw [empty] at valid
      exact absurd valid (by decide)
    | some v =>
      rw [present] at shows
      refine .inr ⟨absent empty,?_⟩
      rcases (loads.seed_cases present).1 with here | ⟨-,s,content',here,found',-⟩
      · -- an inline string would have been found
        obtain ⟨s,rfl,-⟩ := isText_iff.mp shows.2
        obtain ⟨truthy,⟨_,_,_⟩,member,rfl⟩ := given_some here
        have nothing := absent empty
        rw [member] at nothing
        simp only [isTruthy,decide_eq_true_eq] at truthy
        obtain ⟨-,wrong⟩ := nothing
        rw [if_neg truthy] at wrong
        contradiction
      · obtain ⟨truthy,⟨name,behind,_⟩,member,rfl⟩ := given_some here
        simp only [isTruthy,decide_eq_true_eq] at truthy
        have noUnits := path _ s member rfl
        have spelled : SpelledAs (some (.str s)) (lastMember ms "seedFile".toList) := by
          rw [member]
          exact ⟨noUnits,(if_neg truthy).symm⟩
        obtain ⟨-,same⟩ := shows_of_spelled aligned file spelled
        obtain ⟨_,again,chars⟩ := isText_iff.mp same
        obtain rfl := Value.str.inj again
        refine ⟨s,content,spelled,?_,shows.2⟩
        rw [shown_eq chars]
        exact found
  · cases present : js.seed with
    | none =>
      rw [present] at shows
      exact ⟨absent shows,spelled_of_shows aligned file (fun _ _ _ _ _ => .inl rfl) (exempt shows)⟩
    | some v =>
      rw [← present]
      have spelled := spelled_of_shows aligned inline (fun _ _ found value nonempty => loads.seed_eq ▸ wantedSeed_carried found value nonempty) shows
      rw [present] at spelled ⊢
      exact .inl spelled

/-! ### Peers -/

/-- Names and addresses without a backslash. A value that a later member of the same name
replaces only has to be a string that ends no block. -/
structure LiteralPeers (es : List (Parts × Value)) : Prop where
  names : ∀ e ∈ es, Literal e.1
  values : ∀ e ∈ es, ∃ s, e.2 = .str s ∧ Quiet s
  standing : ∀ name s, (ownEntries es).lookup name = some (.str s) → Literal s

/-- Peers are spelled out; and where there are none, the scanner finds no block either. -/
def PeersSpelled (json : Text) (wanted : Bool) (member : Option Member) : Prop :=
  if wanted then ∀ m es, member = some m → m.value = .obj es → LiteralPeers es else ¬PeersReadable json

theorem Loads.peers_given {allowed : Table Text Value} (present : js.peers = some allowed) : ∃ m es cidr,
    lastMember ms "peers".toList = some m ∧ m.value = .obj es ∧ validatePeersValue m.value cidr = .ok allowed := by
  obtain ⟨-,v,given,checked⟩ := loads.peers_some present
  obtain ⟨-,m,member,rfl⟩ := given_some given
  obtain ⟨es,value,-⟩ := validatePeersValue_ok checked
  exact ⟨m,es,_,member,value,checked⟩

theorem Loads.peers_of_spelled (aligned : Aligned json ms)
    (spelled : PeersSpelled json js.peers.isSome (lastMember ms "peers".toList)) :
    SamePeers (js.peers.getD ∅) (jsonPeers json) := by
  intro key
  cases present : js.peers with
  | none =>
    rw [present] at spelled
    have empty : jsonPeers json = ∅ := by
      by_contra nonempty
      exact spelled ((jsonPeers_ne_empty json).mp nonempty)
    rw [empty]
    exact .none
  | some peers =>
    rw [present] at spelled
    obtain ⟨m,es,cidr,member,value,checked⟩ := loads.peers_given present
    obtain ⟨_,again,found,passes⟩ := validatePeersValue_ok checked
    obtain rfl := Value.obj.inj (value.symm.trans again)
    have literal := spelled m es member value
    have place := aligned.inPlace member
    have quiet : ∀ e ∈ es, QuietEntry e := by
      intro e inside
      have listed : characters e.1 ∈ (es.map fun e => (characters e.1,e.2)).map Prod.fst := by
        rw [List.map_map]
        exact List.mem_map_of_mem inside
      obtain ⟨v,-,stands⟩ := lookup_insertAll_key ∅ listed
      obtain ⟨pair,passed⟩ := passes _ v stands
      exact ⟨quiet_of_words (valid_inPlace place value e inside).1 passed.name passed.key,literal.values e inside⟩
    have here := aligned.places "peers".toList (by simp [fieldNames])
    rw [member] at here
    rw [peersBlock_inPlace here place value quiet,scanned_lookup literal.names,Option.getD_some,found]
    cases stands : (ownEntries es).lookup (ofText key) with
    | none => exact .none
    | some v =>
      obtain ⟨e,inside,same⟩ := List.mem_map.mp (mem_of_lookup_insertAll stands)
      obtain ⟨s,text,-⟩ := literal.values e inside
      obtain rfl : v = .str s := (congrArg Prod.snd same).symm.trans text
      exact .some (isText_iff.mpr ⟨s,rfl,characters_literal (literal.standing _ s stands)⟩)

theorem Loads.spelled_of_peers (aligned : Aligned json ms)
    (distinct : ∀ m es, lastMember ms "peers".toList = some m → m.value = .obj es →
      (es.map fun e => characters e.1).Nodup)
    (same : SamePeers (js.peers.getD ∅) (jsonPeers json)) : PeersSpelled json js.peers.isSome (lastMember ms "peers".toList) := by
  cases present : js.peers with
  | none =>
    intro readable
    have nonempty := (jsonPeers_ne_empty json).mpr readable
    rw [present] at same
    refine nonempty (eq_empty_of_lookup fun key => Option.eq_none_iff_forall_ne_some.mpr fun t found => ?_)
    obtain ⟨v,nothing,-⟩ := same.value found
    contradiction
  | some peers =>
    rw [present] at same
    intro m' es' member' value'
    obtain ⟨m,es,cidr,member,value,checked⟩ := loads.peers_given present
    obtain rfl := Option.some.inj (member.symm.trans member')
    obtain rfl := Value.obj.inj (value.symm.trans value')
    obtain ⟨_,again,found,passes⟩ := validatePeersValue_ok checked
    obtain rfl := Value.obj.inj (value.symm.trans again)
    have place := aligned.inPlace member
    have valid := valid_inPlace place value
    have keys : ((es.map fun e => (characters e.1,e.2)).map Prod.fst).Nodup := by
      rw [List.map_map]
      exact distinct m es member value
    -- an address that the C++ config has is a string
    have strings (name : List (Option Char)) (v : Value) (stands : (ownEntries es).lookup name = some v) :
        ∃ s, v = .str s := by
      obtain ⟨pair,passed⟩ := passes name v stands
      have given := stands
      rw [show name = ofText pair.1 from passed.name] at given
      obtain ⟨t,-,text⟩ := same.text ((found pair.1).trans given)
      obtain ⟨s,string,-⟩ := isText_iff.mp text
      exact ⟨s,string⟩
    have quiet : ∀ e ∈ es, QuietEntry e := by
      intro e inside
      have stands := lookup_insertAll_member ∅ keys (List.mem_map_of_mem inside)
      obtain ⟨pair,passed⟩ := passes _ _ stands
      obtain ⟨s,value⟩ := strings _ _ stands
      rw [value] at passed
      exact ⟨quiet_of_words (valid e inside).1 passed.name passed.key,s,value,
        quiet_of_words ((valid e inside).2 s value) passed.chars passed.ip⟩
    have here := aligned.places "peers".toList (by simp [fieldNames])
    rw [member] at here
    have table := peersBlock_inPlace here place value quiet
    have names : ∀ e ∈ es, Literal e.1 := by
      intro e inside
      have listed : spelled e.1 ∈ (es.map scannedPair).map Prod.fst := by
        rw [List.map_map]
        exact List.mem_map_of_mem inside
      obtain ⟨v,-,scans⟩ := lookup_insertAll_key ∅ listed
      obtain ⟨own,stands,-⟩ := same.value ((congrArg (AList.lookup _) table).trans scans)
      obtain ⟨pair,passed⟩ := passes _ _ ((found _).symm.trans stands)
      obtain same : spelled e.1 = pair.1 := List.map_injective_iff.mpr (Option.some_injective _) passed.name
      refine literal_of_noEscape fun slash => ?_
      rw [same] at slash
      exact absurd rfl (word_char (passed.key _ slash)).2.1
    refine ⟨names,fun e inside => (quiet e inside).2,fun name s own => ?_⟩
    obtain ⟨pair,passed⟩ := passes _ _ own
    have given := own
    rw [show name = ofText pair.1 from passed.name] at given
    obtain ⟨t,scans,text⟩ := same.text ((found pair.1).trans given)
    rw [table,scanned_lookup names,← passed.name,own] at scans
    obtain rfl := Option.some.inj scans
    obtain ⟨_,again,chars⟩ := isText_iff.mp text
    obtain rfl := Value.str.inj again
    refine (literal_iff passed.chars passed.ip).mpr ?_
    exact List.map_injective_iff.mpr (Option.some_injective _) (chars.symm.trans passed.chars)

end Fields

end Nospoon.Js
