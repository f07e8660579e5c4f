import Mathlib.Data.List.DropRight
import Nospoon.Library.Streaming
import Nospoon.Library.Table
import Nospoon.Validation

/-! The JSONC config reader of `config.hpp`. The source walks its text by offsets that
only ever move forward, so an offset is modelled by the text that starts there. -/
namespace Nospoon

open Library

/-- `std::map<std::string, std::string>`: public key in hex to address. -/
abbrev PeersMap := AList (fun _ : Text => Text)

structure Config where
  mode : Text := []
  ip : Text := []
  ipv6 : Text := []
  seed : Text := []
  seedFile : Text := []
  serverKey : Text := []
  mtu : Int := 1400
  peers : PeersMap := ∅
  fullTunnel : Bool := false
  outIface : Text := []

/-- The address without its prefix. -/
def Config.ipAddress (cfg : Config) : Text :=
  match splitFirst '/' cfg.ip with
  | none => cfg.ip
  | some (addr,_) => addr

/-! ### Comments -/

/-- Where the loop of `strip_comments` stands. Inside a string it looks back at the
previous character, here carried along. -/
inductive StripMode where
  | code
  | string (prev : Char)
  | line
  | block
  deriving DecidableEq, Repr

/-- A line comment is consumed with its newline, a block comment up to its `*/`; both
end with the text. -/
def stripFrom : StripMode → Text → Text
  | _, [] => []
  | .string prev, c :: rest =>
    c :: stripFrom (if c = '"' ∧ prev ≠ '\\' then .code else .string c) rest
  | .line, c :: rest => stripFrom (if c = '\n' then .code else .line) rest
  | .block, '*' :: '/' :: rest => stripFrom .code rest
  | .block, _ :: rest => stripFrom .block rest
  | .code, '"' :: rest => '"' :: stripFrom (.string '"') rest
  | .code, '/' :: '/' :: rest => stripFrom .line rest
  | .code, '/' :: '*' :: rest => stripFrom .block rest
  | .code, c :: rest => c :: stripFrom .code rest

def stripComments (input : Text) : Text := stripFrom .code input

/-! ### Extractors -/

def isBlank (c : Char) : Bool := c = ' ' || c = '\t' || c = '\n' || c = '\r'

def quoted (key : Text) : Text := '"' :: key ++ ['"']

/-- `"key"`, blanks and a colon at the front of the text: what follows the colon. -/
def keyAt (key json : Text) : Option Text :=
  (afterPrefix (quoted key) json).bind fun rest =>
    match rest.dropWhile isBlank with
    | ':' :: value => some value
    | _ => none

/-- The first place where `key` stands as a key: each failing match of the pattern
moves the search on by one character. -/
def findKey (key : Text) : Text → Option Text
  | [] => none
  | c :: rest =>
    match keyAt key (c :: rest) with
    | some value => some value
    | none => findKey key rest

/-- The text up to the matching close quote; `\X` pairs are stepped over. -/
def stringBody : Text → Option Text
  | [] => none
  | '\\' :: e :: rest => (stringBody rest).map fun body => '\\' :: e :: body
  | '"' :: _ => some []
  | c :: rest => (stringBody rest).map (c :: ·)

theorem stringBody_cons (noEscape : c ≠ '\\') (noQuote : c ≠ '"') (rest : Text) :
    stringBody (c :: rest) = (stringBody rest).map (c :: ·) := by
  rw [stringBody]
  · intro e r same; exact absurd same noEscape
  · exact noQuote

def escapeChar : Char → Char
  | 'b' => '\x08'
  | 'f' => '\x0c'
  | 'n' => '\n'
  | 'r' => '\r'
  | 't' => '\t'
  | e => e

def unescape : Text → Text
  | [] => []
  | '\\' :: e :: rest => escapeChar e :: unescape rest
  | c :: rest => c :: unescape rest

/-- The next string literal of the text, whatever stands in front of it. -/
def nextString (text : Text) : Option Text := do
  let (_,rest) ← splitFirst '"' text
  let body ← stringBody rest
  return unescape body

def jsonString (json key : Text) : Text :=
  ((findKey key json).bind nextString).getD []

def skipSpaces (text : Text) : Text := text.dropWhile fun c => c = ' ' || c = '\t'

def jsonInt (json key : Text) (fallback : Int) : Int :=
  match findKey key json with
  | none => fallback
  | some rest => atoi (skipSpaces rest)

def jsonBool (json key : Text) (fallback : Bool) : Bool :=
  match findKey key json with
  | none => fallback
  | some rest =>
    if "true".toList <+: skipSpaces rest then true
    else if "false".toList <+: skipSpaces rest then false
    else fallback

/-- One round of the loop of `json_peers`: four quotes delimit a key and a value. -/
def nextPeer (block : Text) : Option ((Text × Text) × Text) := do
  let (_,rest) ← splitFirst '"' block
  let (key,rest) ← splitFirst '"' rest
  let (_,rest) ← splitFirst '"' rest
  let (val,rest) ← splitFirst '"' rest
  return ((key,val),rest)

theorem nextPeer_eq_some : nextPeer block = some ((key,val),rest) ↔
    ∃ gap mid, block = gap ++ '"' :: key ++ '"' :: mid ++ '"' :: val ++ '"' :: rest ∧
      '"' ∉ gap ∧ '"' ∉ key ∧ '"' ∉ mid ∧ '"' ∉ val := by
  simp only [nextPeer,bind,Option.bind_eq_some_iff,splitFirst_eq_some,Prod.exists,pure,
    Option.some.injEq,Prod.mk.injEq]
  constructor
  · rintro ⟨gap,_,⟨rfl,hg⟩,k,_,⟨rfl,hk⟩,mid,_,⟨rfl,hm⟩,v,_,⟨rfl,hv⟩,⟨rfl,rfl⟩,rfl⟩
    exact ⟨gap,mid,by simp,hg,hk,hm,hv⟩
  · rintro ⟨gap,mid,rfl,hg,hk,hm,hv⟩
    exact ⟨gap,_,⟨by simp,hg⟩,key,_,⟨rfl,hk⟩,mid,_,⟨rfl,hm⟩,val,rest,⟨rfl,hv⟩,⟨rfl,rfl⟩,rfl⟩

theorem nextPeer_progress (found : nextPeer block = some (pair,rest)) : rest.length < block.length := by
  obtain ⟨gap,mid,rfl,-⟩ := nextPeer_eq_some.mp found
  simp only [List.length_append,List.length_cons]
  omega

def peerReader : Reader Char (Text × Text) where
  next block := (nextPeer block).map fun r => (some r.1,r.2)
  progress h := by
    obtain ⟨found,next,same⟩ := Option.map_eq_some_iff.mp h
    rw [← (Prod.mk.inj same).2]
    exact nextPeer_progress next

def blockPairs (block : Text) : List (Text × Text) := (peerReader.drain block).1

@[simp] theorem blockPairs_nil : blockPairs [] = [] := rfl

/-- `result[key] = val` for each pair in turn: the last one wins. -/
def insertPairs (m : PeersMap) (pairs : List (Text × Text)) : PeersMap :=
  pairs.foldl (fun m p => m.insert p.1 p.2) m

theorem insertPairs_cons (m : PeersMap) (p : Text × Text) (pairs : List (Text × Text)) :
    insertPairs m (p :: pairs) = insertPairs (m.insert p.1 p.2) pairs := rfl

theorem insertPairs_append (m : PeersMap) (first second : List (Text × Text)) :
    insertPairs m (first ++ second) = insertPairs (insertPairs m first) second := insertAll_append m first second

/-- From the first `{` after the key to the first `}` after that. -/
def peersBlock (json : Text) : Option Text := do
  let rest ← findKey "peers".toList json
  let (_,inner) ← splitFirst '{' rest
  let (block,_) ← splitFirst '}' inner
  return block

theorem peersBlock_eq_some : peersBlock json = some body ↔
    ∃ gap tail, findKey "peers".toList json = some (gap ++ '{' :: body ++ '}' :: tail) ∧
      '{' ∉ gap ∧ '}' ∉ body := by
  simp only [peersBlock,bind,Option.bind_eq_some_iff,splitFirst_eq_some,Prod.exists,pure,
    Option.some.injEq]
  constructor
  · rintro ⟨_,found,gap,_,⟨rfl,hg⟩,block,tail,⟨rfl,hb⟩,rfl⟩
    exact ⟨gap,tail,by simpa using found,hg,hb⟩
  · rintro ⟨gap,tail,found,hg,hb⟩
    exact ⟨_,found,gap,_,⟨by simp,hg⟩,body,tail,⟨rfl,hb⟩,rfl⟩

def jsonPeers (json : Text) : PeersMap :=
  match peersBlock json with
  | none => ∅
  | some block => insertPairs ∅ (blockPairs block)

/-! ### Loading -/

/-- Every field as it stands in the comment-free text. -/
def extract (json : Text) : Config where
  mode := jsonString json "mode".toList
  ip := jsonString json "ip".toList
  ipv6 := jsonString json "ipv6".toList
  seed := jsonString json "seed".toList
  seedFile := jsonString json "seedFile".toList
  serverKey := jsonString json "server".toList
  mtu := jsonInt json "mtu".toList 1400
  peers := jsonPeers json
  fullTunnel := jsonBool json "fullTunnel".toList false
  outIface := jsonString json "outInterface".toList

/-- `require_ok` on an optional field. -/
def requireOptional (value : Text) (check : Text → Except Text Unit) : Except Text Unit :=
  if value = [] then .ok () else check value

/-- The checks of `load_config`, in its order; an error is the message it exits with. -/
def checkFields (cfg : Config) : Except Text Unit :=
  if cfg.mode = [] then .error "config must have \"mode\": \"server\" or \"client\"".toList
  else if cfg.ip = [] then .error "config must have \"ip\": \"x.x.x.x/y\"".toList
  else do
    validateCidr cfg.ip "ip".toList
    requireOptional cfg.ipv6 (validateCidrV6 · "ipv6".toList)
    requireOptional cfg.seed (validateHex64 · "seed".toList)
    requireOptional cfg.serverKey (validateHex64 · "server".toList)
    validateMtu cfg.mtu

/-- An inline seed wins; otherwise the seed file is read and its trailing blanks dropped. -/
def resolveSeed (read : Text → Option Text) (cfg : Config) : Except Text Config :=
  if cfg.seed = [] ∧ cfg.seedFile ≠ [] then
    match read cfg.seedFile with
    | none => .error ("cannot open seedFile ".toList ++ cfg.seedFile)
    | some content => do
      validateHex64 (content.rdropWhile isBlank) "seedFile contents".toList
      .ok { cfg with seed := content.rdropWhile isBlank }
  else .ok cfg

/-- `load_config`; `read` opens a file. -/
def loadConfig (read : Text → Option Text) (path : Text) : Except Text Config :=
  match read path with
  | none => .error ("cannot open ".toList ++ path)
  | some raw => do
    let cfg := extract (stripComments raw)
    checkFields cfg
    resolveSeed read cfg

/-! ### What loading accepts -/

/-- The fields as `load_config` demands them; `read` opens a file. -/
structure Config.Accepted (read : Text → Option Text) (cfg : Config) : Prop where
  mode : cfg.mode ≠ []
  ip : validateCidr cfg.ip "ip".toList = .ok ()
  ipv6 : cfg.ipv6 ≠ [] → validateCidrV6 cfg.ipv6 "ipv6".toList = .ok ()
  seed : cfg.seed ≠ [] → validateHex64 cfg.seed "seed".toList = .ok ()
  serverKey : cfg.serverKey ≠ [] → validateHex64 cfg.serverKey "server".toList = .ok ()
  mtu : validateMtu cfg.mtu = .ok ()
  seedFile : cfg.seed = [] → cfg.seedFile ≠ [] → ∃ content, read cfg.seedFile = some content ∧
    validateHex64 (content.rdropWhile isBlank) "seedFile contents".toList = .ok ()

theorem bind_ok {x : Except Text α} {f : α → Except Text β} :
    (do let a ← x; f a) = .ok b ↔ ∃ a, x = .ok a ∧ f a = .ok b := by
  cases x <;> simp [bind,Except.bind]

theorem seq_ok {x : Except Text Unit} {y : Except Text β} :
    (do x; y) = .ok b ↔ x = .ok () ∧ y = .ok b := by
  cases x <;> simp [bind,Except.bind]

theorem exists_accepted (x : Except Text α) (p : α → Bool) (holds : x.toOption.any p = true) :
    ∃ a, x = .ok a ∧ p a = true := by
  cases x with
  | error e => contradiction
  | ok a => exact ⟨a,rfl,holds⟩

theorem refuses (x : Except Text α) (nothing : x.toOption.isNone = true) (a : α) : x ≠ .ok a := by
  rintro rfl
  contradiction

theorem requireOptional_ok {check : Text → Except Text Unit} :
    requireOptional value check = .ok () ↔ (value ≠ [] → check value = .ok ()) := by
  unfold requireOptional
  split_ifs with h <;> simp [h]

theorem checkFields_ok (cfg : Config) : checkFields cfg = .ok () ↔
    cfg.mode ≠ [] ∧ cfg.ip ≠ [] ∧ validateCidr cfg.ip "ip".toList = .ok () ∧
      (cfg.ipv6 ≠ [] → validateCidrV6 cfg.ipv6 "ipv6".toList = .ok ()) ∧
      (cfg.seed ≠ [] → validateHex64 cfg.seed "seed".toList = .ok ()) ∧
      (cfg.serverKey ≠ [] → validateHex64 cfg.serverKey "server".toList = .ok ()) ∧
      validateMtu cfg.mtu = .ok () := by
  unfold checkFields
  split_ifs with mode ip
  · simp [mode]
  · simp [mode,ip]
  · simp only [seq_ok,requireOptional_ok,mode,ip,ne_eq,not_false_eq_true,true_and]

theorem resolveSeed_ok (read : Text → Option Text) (cfg cfg' : Config) :
    resolveSeed read cfg = .ok cfg' ↔
      (cfg.seed = [] ∧ cfg.seedFile ≠ [] ∧ ∃ content, read cfg.seedFile = some content ∧
        validateHex64 (content.rdropWhile isBlank) "seedFile contents".toList = .ok () ∧
        cfg' = { cfg with seed := content.rdropWhile isBlank }) ∨
      ((cfg.seed = [] → cfg.seedFile = []) ∧ cfg' = cfg) := by
  unfold resolveSeed
  split_ifs with h
  · cases read cfg.seedFile with
    | none => simp [h]
    | some content =>
      dsimp only
      rw [seq_ok,Except.ok.injEq,eq_comm (a := Config.mk ..)]
      constructor
      · rintro ⟨valid,same⟩
        exact .inl ⟨h.1,h.2,content,rfl,valid,same⟩
      · rintro (⟨-,-,found,same,valid,eq⟩ | ⟨none,-⟩)
        · obtain rfl := Option.some.inj same
          exact ⟨valid,eq⟩
        · exact absurd (none h.1) h.2
  · have exempt : cfg.seed = [] → cfg.seedFile = [] := by
      intro inline
      by_contra external
      exact h ⟨inline,external⟩
    rw [Except.ok.injEq]
    constructor
    · exact fun same => .inr ⟨exempt,same.symm⟩
    · rintro (⟨inline,external,-⟩ | ⟨-,same⟩)
      · exact absurd (exempt inline) external
      · exact same.symm

theorem loadConfig_ok (read : Text → Option Text) (path : Text) (cfg : Config) :
    loadConfig read path = .ok cfg ↔ ∃ raw, read path = some raw ∧
      (extract (stripComments raw)).Accepted read ∧
      resolveSeed read (extract (stripComments raw)) = .ok cfg := by
  unfold loadConfig
  cases read path with
  | none => simp
  | some raw =>
    simp only [seq_ok,checkFields_ok,Option.some.injEq,exists_eq_left']
    generalize extract (stripComments raw) = fields
    constructor
    · rintro ⟨⟨mode,-,ip,ipv6,seed,serverKey,mtu⟩,resolved⟩
      refine ⟨⟨mode,ip,ipv6,seed,serverKey,mtu,fun inline external => ?_⟩,resolved⟩
      rcases (resolveSeed_ok read fields cfg).mp resolved with ⟨-,-,content,found,valid,-⟩ | ⟨none,-⟩
      · exact ⟨content,found,valid⟩
      · exact absurd (none inline) external
    · rintro ⟨h,resolved⟩
      refine ⟨⟨h.mode,fun empty => ?_,h.ip,h.ipv6,h.seed,h.serverKey,h.mtu⟩,resolved⟩
      have ip := h.ip
      rw [empty] at ip
      exact absurd ip (by decide)

/-- Only a seed is filled in after the extraction. -/
theorem resolveSeed_fields {read : Text → Option Text} {fields cfg : Config} (h : resolveSeed read fields = .ok cfg) :
    cfg = { fields with seed := cfg.seed } := by
  rcases (resolveSeed_ok read fields cfg).mp h with ⟨-,-,_,-,-,rfl⟩ | ⟨-,rfl⟩ <;> rfl

/-- Accepted fields always resolve. -/
theorem resolveSeed_total {read : Text → Option Text} {fields : Config} (h : fields.Accepted read) :
    ∃ cfg, resolveSeed read fields = .ok cfg := by
  by_cases external : fields.seed = [] ∧ fields.seedFile ≠ []
  · obtain ⟨content,found,valid⟩ := h.seedFile external.1 external.2
    exact ⟨_,(resolveSeed_ok read fields _).mpr (.inl ⟨external.1,external.2,content,found,valid,rfl⟩)⟩
  · refine ⟨fields,(resolveSeed_ok read fields _).mpr (.inr ⟨fun inline => ?_,rfl⟩)⟩
    by_contra named
    exact external ⟨inline,named⟩

theorem exists_loaded (read : Text → Option Text) (path : Text) (p : Config → Bool)
    (h : (loadConfig read path).toOption.any p = true) :
    ∃ cfg, loadConfig read path = .ok cfg ∧ p cfg = true :=
  exists_accepted (loadConfig read path) p h

theorem peers_ne_empty {peers : PeersMap} (h : peers.entries.isEmpty = false) : peers ≠ ∅ := by
  rintro rfl
  contradiction

theorem peers_empty {peers : PeersMap} (h : peers.entries.isEmpty = true) : peers = ∅ :=
  AList.ext (List.isEmpty_iff.mp h)

end Nospoon
