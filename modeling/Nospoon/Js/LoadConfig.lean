import Nospoon.Js.Peers
import Nospoon.Library.Json
import Nospoon.Library.Table

/-! The JavaScript loader (`config.js` with `validation.js`). Values are those of
`JSON.parse`; what a regular expression makes of a value is its text with halves of
surrogate pairs replaced, which no expression here can tell apart. -/
namespace Nospoon.Js

open Library Library.Json

/-! ### Comments -/

/-- The loop over one line: up to a `//` outside a string. -/
def cutLine (inString : Bool) (prev : Option Char) : Text → Text
  | [] => []
  | c :: rest =>
    let inString := if c = '"' ∧ prev ≠ some '\\' then !inString else inString
    if !inString ∧ c = '/' ∧ rest.head? = some '/' then [] else c :: cutLine inString (some c) rest

def stripComments (text : Text) : Text :=
  ['\n'].intercalate ((text.splitOn '\n').map (cutLine false none))

/-! ### Values -/

/-- A text as a string of JavaScript. -/
def ofText (t : Text) : List (Option Char) := t.map some

def shown (s : Parts) : Text := (characters s).map (·.getD '\ufffd')

/-- A string value with this text. -/
def textValue (t : Text) : Value := .str (t.map .char)

/-- `value === text`. -/
def isText (t : Text) : Value → Bool
  | .str s => characters s = ofText t
  | _ => false

/-- The value of a number without its sign, as a fraction. -/
def ratio (n : Number) : Nat × Nat :=
  let digits := natOf (n.whole ++ n.fraction)
  let scale := n.exponent - n.fraction.length
  if 0 ≤ scale then (digits * 10 ^ scale.toNat,1) else (digits,10 ^ (-scale).toNat)

/-- Whether a number is read as zero: nothing, or too little for a double. -/
def isZero (n : Number) : Bool := (ratio n).1 * 2 ^ 1075 ≤ (ratio n).2

def isTruthy : Value → Bool
  | .null => false
  | .bool b => b
  | .num n => !isZero n
  | .str s => s ≠ []
  | .arr _ => true
  | .obj _ => true

/-- A property of a parsed object: the last member of that name. -/
def property (members : List (Parts × Value)) (key : Text) : Option Value :=
  (members.reverse.find? fun m => characters m.1 = ofText key).map Prod.snd

/-- The text a regular expression is tested on: an array of one item prints as the item.
Other values never match one of those here: they print as a number or a word, or with a
comma or brackets. -/
def testedText : Value → Option Text
  | .str s => some (shown s)
  | .arr [v] => testedText v
  | _ => none

/-! ### Numbers -/

/-- Division, to the nearest and from the middle to the even one. -/
def roundHalfEven (a b : Nat) : Nat :=
  if 2 * (a % b) < b ∨ (2 * (a % b) = b ∧ a / b % 2 = 0) then a / b else a / b + 1

/-- The integer part of the double nearest to a fraction of at least one. -/
def truncDouble (a b : Nat) : Nat :=
  let exponent := Nat.log2 (a / b)
  if exponent ≤ 52 then roundHalfEven (a * 2 ^ (52 - exponent)) b / 2 ^ (52 - exponent)
  else roundHalfEven a (b * 2 ^ (exponent - 52)) * 2 ^ (exponent - 52)

/-- `parseInt(number, 10)` where the number prints as plain digits. Elsewhere `none`: a
negative number, or a single digit, or `NaN`, none of them an MTU. -/
def parseIntNumber (n : Number) : Option Int :=
  let (a,b) := ratio n
  if n.negative ∨ a < b then none
  else if truncDouble a b < 10 ^ 21 then some (truncDouble a b)
  else none

/-- White space and line terminators. -/
def isJsSpace (c : Char) : Bool :=
  isSpace c || c = '\u00a0' || c = '\u1680' || ('\u2000' ≤ c && c ≤ '\u200a') || c = '\u2028' || c = '\u2029' ||
    c = '\u202f' || c = '\u205f' || c = '\u3000' || c = '\ufeff'

def signedDigits (sign : Int) (t : Text) : Option Int :=
  if t.takeWhile Char.isDigit = [] then none else some (sign * natOf (t.takeWhile Char.isDigit))

/-- `parseInt(text, 10)`. -/
def parseIntText (t : Text) : Option Int :=
  match t.dropWhile isJsSpace with
  | '-' :: rest => signedDigits (-1) rest
  | '+' :: rest => signedDigits 1 rest
  | rest => signedDigits 1 rest

/-- `parseInt(value, 10)`: an array prints its items in turn, and a number ends before
the comma behind the first. -/
def parseIntValue : Value → Option Int
  | .num n => parseIntNumber n
  | .str s => parseIntText (shown s)
  | .arr (v :: _) => parseIntValue v
  | _ => none

/-- `trim()`. -/
def trim (t : Text) : Text := (t.dropWhile isJsSpace).rdropWhile isJsSpace

/-! ### Validation -/

/-- `net.isIPv6`, where a zone may follow the address. -/
def netIsIPv6 (t : Text) : Bool :=
  match splitFirst '%' t with
  | none => isIPv6 t
  | some (addr,zone) => isIPv6 addr && zone ≠ [] && zone.all fun c => c.isAlphanum || c = '-' || c = '.' || c = ':'

def requireHex64 (value : Value) (field : Text) : Except Text Value :=
  if (testedText value).any hexRe then .ok value else .error (field ++ " must be exactly 64 hex characters".toList)

/-- `validateCidr` behind its expression: only strings can be split. -/
def requireCidr (value : Value) (field : Text) : Except Text Value :=
  match (testedText value).bind matchCidr, value with
  | none, _ => .error (field ++ " must be in CIDR format (e.g. 10.0.0.1/24)".toList)
  | some (octets,length), .str _ =>
    if octets.any (255 < natOf ·) ∨ 32 < natOf length then
      .error (field ++ " has invalid IP octets or prefix length".toList)
    else .ok value
  | some _, _ => .error "value.split is not a function".toList

def validateCidrV6 (value field : Text) : Except Text Unit :=
  match value.splitOn '/' with
  | [addr,length] =>
    if netIsIPv6 addr ∧ (parseIntText length).any fun n => 1 ≤ n ∧ n ≤ 128 then .ok ()
    else .error (field ++ " must be a valid IPv6 CIDR (e.g. fd00::1/64)".toList)
  | _ => .error (field ++ " must be in CIDR format (e.g. fd00::1/64)".toList)

def requireCidrV6 (value : Value) (field : Text) : Except Text Value :=
  match value with
  | .str s => do
    validateCidrV6 (shown s) field
    return value
  | _ => .error "value.split is not a function".toList

def requireMtu (value : Value) : Except Text Int :=
  match parseIntValue value with
  | none => .error "MTU must be between 576 and 65535".toList
  | some mtu => if mtu < 576 ∨ 65535 < mtu then .error "MTU must be between 576 and 65535".toList else .ok mtu

/-- `Object.entries`: a name that comes again replaces the value of the first. -/
def ownEntries (members : List (Parts × Value)) : Table (List (Option Char)) Value :=
  insertAll ∅ (members.map fun e => (characters e.1,e.2))

/-- The text that `net.isIPv4` and `net.isIPv6` test. -/
def peerText (value : Value) : Text := (testedText value).getD []

def stringOf : Value → Option Text
  | .str s => some (shown s)
  | _ => none

/-- The checks on an IPv4 value: only strings can be split. -/
def checkIpv4Value (subnet : Option Subnet) (label : Text) (value : Value) : Except Text Unit :=
  match stringOf value with
  | some ip => checkIpv4 subnet label ip
  | none => .error "ip.split is not a function".toList

/-- `seen.has(ip)`: equal strings are one value, two arrays never are. -/
def checkSeenValue (seen : List Text) (value : Value) : Except Text Unit :=
  match stringOf value with
  | some ip => checkSeen seen ip
  | none => .ok ()

/-- One round over the entries of a peers object; `seen` holds the strings of the rounds
before. The first message shows an address that is no text in another way. -/
def checkEntry (subnet : Option Subnet) (seen : List Text) (name : List (Option Char)) (value : Value) :
    Except Text (Text × Value) := do
  let key ← require64 (name.map (·.getD '\ufffd')) "peer key".toList
  let label := key.take 8 ++ "...".toList
  let ip := peerText value
  if !isIPv4 ip && !netIsIPv6 ip then
    .error ("Invalid IP for peer ".toList ++ label ++ ": ".toList ++ ip)
  else do
    (if isIPv4 ip then checkIpv4Value subnet label value else .ok ())
    checkSeenValue seen value
    return (key,value)

def checkEntries (subnet : Option Subnet) : List Text → List (List (Option Char) × Value) →
    Except Text (List (Text × Value))
  | _, [] => .ok []
  | seen, (name,value) :: rest => do
    let pair ← checkEntry subnet seen name value
    let pairs ← checkEntries subnet ((stringOf value).toList ++ seen) rest
    return pair :: pairs

/-- `validatePeers` on a parsed value. The addresses stay the values they are. -/
def validatePeersValue (peers : Value) (serverCidr : Text) : Except Text (Table Text Value) :=
  match peers with
  | .obj members => do
    let entries := (ownEntries members).entries.map fun e => (e.1,e.2)
    let pairs ← checkEntries (some (parseSubnet serverCidr)) [] entries
    return insertAll ∅ pairs
  | _ => .error "\"peers\" must be an object mapping public keys to IPs".toList

/-! ### The loader -/

structure LoadedConfig where
  mode : Value
  ip : Value
  ipv6 : Option Value
  seed : Option Value
  mtu : Int
  fullTunnel : Bool
  outInterface : Option Value
  peers : Option (Table Text Value)
  server : Option Value

/-- `parsed.key`, if it is truthy. -/
def given (get : Text → Option Value) (key : Text) : Option Value := (get key).filter isTruthy

/-- `Object.keys(value).length > 0`. -/
def hasKeys : Value → Bool
  | .str s => s ≠ []
  | .arr items => !items.isEmpty
  | .obj members => !members.isEmpty
  | _ => false

def loadMode (get : Text → Option Value) : Except Text Value :=
  match given get "mode".toList with
  | none => .error "\"mode\" must be \"server\" or \"client\"".toList
  | some mode =>
    if isText "server".toList mode ∨ isText "client".toList mode then .ok mode
    else .error "\"mode\" must be \"server\" or \"client\"".toList

def loadIp (get : Text → Option Value) (isServer : Bool) : Except Text Value :=
  match given get "ip".toList with
  | some ip => requireCidr ip "ip".toList
  | none => .ok (textValue (if isServer then "10.0.0.1/24".toList else "10.0.0.2/24".toList))

/-- An optional field with its check. -/
def loadOptional (get : Text → Option Value) (key : Text) (check : Value → Text → Except Text Value) :
    Except Text (Option Value) :=
  match given get key with
  | none => .ok none
  | some value => (check value key).map some

/-- The path of a seed file is a string; there is no file for another value. -/
def readSeedFile (read : Text → Option Text) (path : Value) : Except Text Value :=
  let content := match path with
    | .str s => read (shown s)
    | _ => none
  match content with
  | none => .error "Cannot read seed file".toList
  | some content => requireHex64 (textValue (trim content)) "seedFile content".toList

def loadSeed (read : Text → Option Text) (get : Text → Option Value) : Except Text (Option Value) :=
  match given get "seed".toList, given get "seedFile".toList with
  | some _, some _ => .error "\"seed\" and \"seedFile\" are mutually exclusive".toList
  | some seed, none => (requireHex64 seed "seed".toList).map some
  | none, some path => (readSeedFile read path).map some
  | none, none => .ok none

def loadMtu (get : Text → Option Value) : Except Text Int :=
  match get "mtu".toList with
  | none => .ok 1400
  | some mtu => requireMtu mtu

def loadPeers (get : Text → Option Value) (ip : Value) : Except Text (Option (Table Text Value)) :=
  match (given get "peers".toList).filter hasKeys with
  | none => .ok none
  | some peers => (validatePeersValue peers ((testedText ip).getD [])).map some

def loadServer (get : Text → Option Value) : Except Text (Option Value) :=
  match given get "server".toList with
  | none => .error "\"server\" (64-char hex public key) is required in client mode".toList
  | some server => (requireHex64 server "server".toList).map some

/-- `loadConfig` behind `JSON.parse`. -/
def loadProperties (read : Text → Option Text) (get : Text → Option Value) : Except Text LoadedConfig := do
  let mode ← loadMode get
  let isServer := isText "server".toList mode
  let ip ← loadIp get isServer
  let ipv6 ← loadOptional get "ipv6".toList requireCidrV6
  let seed ← loadSeed read get
  let mtu ← loadMtu get
  let fullTunnel := match get "fullTunnel".toList with
    | some (.bool b) => b
    | _ => false
  let outInterface := if isServer then given get "outInterface".toList else none
  let peers ← (if isServer then loadPeers get ip else .ok none)
  let server ← (if isServer then .ok none else loadServer get)
  return { mode, ip, ipv6, seed, mtu, fullTunnel, outInterface, peers, server }

/-- What is no object has none of the properties. -/
def loadParsed (read : Text → Option Text) : Value → Except Text LoadedConfig
  | .obj members => loadProperties read (property members)
  | .null => .error "Cannot read properties of null (reading 'mode')".toList
  | _ => loadProperties read fun _ => none

def loadConfig (read : Text → Option Text) (configPath : Text) : Except Text LoadedConfig :=
  match read configPath with
  | none => .error ("Cannot read config file ".toList ++ configPath)
  | some raw =>
    match parse (stripComments raw) with
    | none => .error "Invalid JSON in config file".toList
    | some parsed => loadParsed read parsed

end Nospoon.Js
