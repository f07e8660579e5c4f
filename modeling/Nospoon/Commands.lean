import Nospoon.Disk

/-! The provisioning commands `init` and `addclient` (`commands.cpp`). A command takes
what follows its verb on the command line; `.ok` is exit code 0 with the clients it
printed, an error is a nonzero exit code with what went to stderr. -/
namespace Nospoon

open Library

/-- `strtol` in base 10: the value as a `long`, and the text it stopped at. Without digits
that is all of the text. -/
def strtol (s : Text) : Int × Text :=
  let number (sign : Int) (digits : Text) : Int × Text :=
    if digits.takeWhile Char.isDigit = [] then (0,s)
    else (toLong (sign * natOf (digits.takeWhile Char.isDigit)),digits.dropWhile Char.isDigit)
  match s.dropWhile isSpace with
  | '-' :: rest => number (-1) rest
  | '+' :: rest => number 1 rest
  | rest => number 1 rest

/-- `"-n N"` anywhere in the arguments; every occurrence is checked, the last one counts. -/
def parseCount : List Text → Nat → Except Text Nat
  | arg :: value :: rest, n =>
    if arg = "-n".toList then
      let (v,stop) := strtol value
      if stop ≠ [] ∨ v < 1 ∨ 253 < v then .error "-n must be 1..253".toList
      else parseCount (value :: rest) v.toNat
    else parseCount (value :: rest) n
  | _, n => .ok n

/-- What follows the last `name` that is not the last argument. -/
def lastOption (name : Text) : List Text → Option Text
  | arg :: value :: rest =>
    (lastOption name (value :: rest)).or (if arg = name then some value else none)
  | _ => none

/-! ### Host allocation -/

structure Subnet where
  base : Text
  prefixLen : Int := 24
  /-- Host octets already taken. -/
  used : List Int := []

def parseSubnet (cidr : Text) : Except Text Subnet :=
  let (addr,prefixLen) : Text × Int := match splitFirst '/' cidr with
    | none => (cidr,24)
    | some (addr,length) => (addr,atoi length)
  match splitLast '.' addr with
  | none => .error ("cannot parse address ".toList ++ cidr)
  | some (base,host) => .ok { base,prefixLen,used := [atoi host] }

/-- The next free host octet from 2 up; none when the /24 is exhausted. -/
def nextHost (net : Subnet) : Option (Nat × Subnet) :=
  ((List.range' 2 253).find? fun h : Nat => (h : Int) ∉ net.used).map fun h =>
    (h,{ net with used := (h : Int) :: net.used })

/-- The octets the first loop of `make_clients` reserves before it gives up. -/
def reserveHosts : Nat → Subnet → List Nat
  | 0, _ => []
  | n + 1, net =>
    match nextHost net with
    | none => []
    | some (h,net) => h :: reserveHosts n net

/-! ### Client files -/

def clientConfig (serverPk ip : Text) (prefixLen : Int) (seed : Text) (mtu : Int) : Text :=
  "\x7b\n".toList ++
    "  \"mode\": \"client\",\n".toList ++
    "  \"server\": \"".toList ++ serverPk ++ "\",\n".toList ++
    "  \"ip\": \"".toList ++ ip ++ '/' :: decimalInt prefixLen ++ "\",\n".toList ++
    "  \"seed\": \"".toList ++ seed ++ "\",\n".toList ++
    "  \"mtu\": ".toList ++ decimalInt mtu ++ "\n".toList ++
    "\x7d\n".toList

/-- `client-007`. -/
def clientName (index : Nat) : Text :=
  let s := decimal index
  "client-".toList ++ List.replicate (3 - s.length) '0' ++ s

def clientPath (dir : Text) (index : Nat) : Text :=
  dir ++ '/' :: clientName index ++ ".jsonc".toList

/-- The first index from `index` on whose file does not exist yet. Among one index more
than there are files, one is free. -/
def freeIndex (files : Files) (dir : Text) : Nat → Nat → Nat
  | 0, index => index
  | fuel + 1, index =>
    if (files.lookup (clientPath dir index)).isSome then freeIndex files dir fuel (index + 1)
    else index

/-- A client as the command prints it. -/
structure Created where
  name : Text
  ip : Text
  pubkey : Text
  deriving DecidableEq

def pubkeyOf (env : Env) (seedHex : Text) : Text :=
  match hexToBytes seedHex with
  | none => []
  | some seed => bytesToHex (env.pubkey seed).toList

def newSeedHex (env : Env) (w : World) : World × Text :=
  ({ w with drawn := w.drawn + 1 },bytesToHex (env.seeds w.drawn).toList)

/-- The second loop of `make_clients`, over the reserved octets. -/
def writeClients (env : Env) (w : World) (dir serverPk : Text) (net : Subnet) (mtu : Int)
    (firstIndex : Nat) : List Nat → World × Except Text (List Created)
  | [] => (w,.ok [])
  | host :: hosts =>
    let (w,seed) := newSeedHex env w
    let pk := pubkeyOf env seed
    let ip := net.base ++ '.' :: decimal host
    let index := freeIndex w.files dir w.files.entries.length firstIndex
    let name := clientPath dir index
    match writeSecret env w name (clientConfig serverPk ip net.prefixLen seed mtu) with
    | (w,.error refusal) => (w,.error refusal)
    | (w,.ok ()) =>
      match writeClients env w dir serverPk net mtu (index + 1) hosts with
      | (w,.error refusal) => (w,.error refusal)
      | (w,.ok clients) => (w,.ok (⟨name,ip,pk⟩ :: clients))

def makeClients (env : Env) (w : World) (n : Nat) (dir serverPk : Text) (net : Subnet) (mtu : Int)
    (firstIndex : Nat) : World × Except Text (List Created) :=
  let hosts := reserveHosts n net
  if hosts.length < n then
    (w,.error ("subnet ".toList ++ net.base ++ ".0/".toList ++ decimalInt net.prefixLen ++
      " has room for ".toList ++ decimal hosts.length ++ " more client(s), not ".toList ++ decimal n))
  else writeClients env w dir serverPk net mtu firstIndex hosts

/-! ### init -/

/-- What `init` settles before it touches the disk. -/
structure InitPlan where
  n : Nat
  mtu : Int
  net : Subnet

def initPlan (opts : List Text) : Except Text InitPlan := do
  let n ← parseCount opts 1
  let mtu := ((lastOption "--mtu".toList opts).map atoi).getD 1400
  validateMtu mtu
  let net ← parseSubnet ((lastOption "--subnet".toList opts).getD "10.0.0.0/24".toList)
  .ok { n,mtu,net := { net with used := [0,1] } }

def serverIp (net : Subnet) : Text := net.base ++ ".1".toList

/-- The comment above the peers block. -/
def headComment : Text :=
  "  // Allowlist: only these public keys may connect. Remove the block\n".toList ++
    "  // to accept any key (open mode). `nospoon addclient` appends here.\n".toList

/-- The server config up to its peers block. -/
def serverHead (ip : Text) (prefixLen : Int) (seed : Text) (mtu : Int) : Text :=
  "\x7b\n".toList ++
    "  \"mode\": \"server\",\n".toList ++
    "  \"ip\": \"".toList ++ ip ++ '/' :: decimalInt prefixLen ++ "\",\n".toList ++
    "  \"seed\": \"".toList ++ seed ++ "\",\n".toList ++
    "  \"mtu\": ".toList ++ decimalInt mtu ++ ",\n".toList ++ headComment

/-- `"pubkey": "ip"`, as both commands write an entry. -/
def entryText (client : Created) : Text :=
  '"' :: client.pubkey ++ "\": \"".toList ++ client.ip ++ ['"']

/-- The entries of a fresh server config; only the last one has no comma. -/
def initEntries : List Created → Text
  | [] => []
  | [client] => "    ".toList ++ entryText client ++ "\n".toList
  | client :: clients => "    ".toList ++ entryText client ++ ",\n".toList ++ initEntries clients

def serverConfig (head : Text) (clients : List Created) : Text :=
  head ++ "  \"peers\": \x7b\n".toList ++ initEntries clients ++ "  \x7d\n\x7d\n".toList

def serverPath (dir : Text) : Text := dir ++ "/server.jsonc".toList

def cmdInit (env : Env) (w : World) : List Text → World × Except Text (List Created)
  | [] => (w,.error "Usage: nospoon init <dir> [-n N] [--subnet 10.0.0.0/24] [--mtu 1400]\n".toList)
  | dir :: opts =>
    match initPlan opts with
    | .error refusal => (w,.error refusal)
    | .ok plan =>
      -- creating the directory and tightening its mode can each be refused
      match w.attempt env w.files ("cannot create ".toList ++ dir) with
      | (w,.error refusal) => (w,.error refusal)
      | (w,.ok ()) =>
        match w.attempt env w.files ("cannot chmod 700 ".toList ++ dir ++
            " — refusing to write seeds into a directory others can read".toList) with
        | (w,.error refusal) => (w,.error refusal)
        | (w,.ok ()) =>
          let (w,serverSeed) := newSeedHex env w
          match makeClients env w plan.n dir (pubkeyOf env serverSeed) plan.net plan.mtu 1 with
          | (w,.error refusal) => (w,.error refusal)
          | (w,.ok clients) =>
            let head := serverHead (serverIp plan.net) plan.net.prefixLen serverSeed plan.mtu
            match writeSecret env w (serverPath dir) (serverConfig head clients) with
            | (w,.error refusal) => (w,.error refusal)
            | (w,.ok ()) => (w,.ok clients)

/-! ### addclient -/

/-- What `addclient` settles before it touches the disk. The text is cut behind the
brace where the new entries go. -/
structure AddPlan where
  n : Nat
  cfg : Config
  raw : Text
  front : Text
  back : Text
  net : Subnet

/-- The raw text cut behind the first `{` from the first `"peers"` on. -/
def insertionPoint (raw : Text) : Option (Text × Text) := do
  let (front,rest) ← splitSub (quoted "peers".toList) raw
  let (gap,back) ← splitFirst '{' rest
  return (front ++ gap ++ ['{'],back)

/-- The octet behind the last dot of an address, if it has one. -/
def hostOctet (ip : Text) : Option Int := (splitLast '.' ip).map fun r => atoi r.2

def addPlan (read : Text → Option Text) (path : Text) (opts : List Text) : Except Text AddPlan := do
  let n ← parseCount opts 1
  let cfg ← loadConfig read path
  if cfg.mode ≠ "server".toList then
    .error (path ++ " is a \"".toList ++ cfg.mode ++ "\" config, not a server config".toList)
  else if cfg.seed = [] then
    .error (path ++ " has no seed, so its public key is not fixed and clients cannot be pointed at it".toList)
  else match read path with
    | none => .error ("cannot read ".toList ++ path)
    | some raw =>
      if findKey "peers".toList (stripComments raw) = none then
        .error (path ++ " has no \"peers\" block (open mode — any key may connect). Adding one would lock out existing clients. Add an empty \"peers\": \x7b\x7d block first if that is what you want.".toList)
      else match insertionPoint raw with
        | none => .error ("malformed \"peers\" block in ".toList ++ path)
        | some (front,back) => do
          let net ← parseSubnet cfg.ip
          let used := cfg.peers.entries.filterMap fun e => hostOctet e.2
          .ok { n,cfg,raw,front,back,net := { net with used := used ++ net.used } }

/-- The entries `addclient` inserts, each with its comma. -/
def addEntries (clients : List Created) : Text :=
  clients.flatMap fun client => "\n    ".toList ++ entryText client ++ [',']

/-- The directory a path is in. -/
def dirOf (path : Text) : Text := ((splitLast '/' path).map Prod.fst).getD ".".toList

def bakOf (path : Text) : Text := path ++ ".bak".toList
def tmpOf (path : Text) : Text := path ++ ".tmp".toList

/-- Back up, then replace through a temporary file. -/
def replaceServer (env : Env) (w : World) (path raw updated : Text) : World × Except Text Unit :=
  match writeSecret env w (bakOf path) raw with
  | (w,.error refusal) => (w,.error refusal)
  | (w,.ok ()) =>
    match writeSecret env w (tmpOf path) updated with
    | (w,.error refusal) => (w,.error refusal)
    | (w,.ok ()) =>
      match w.rename env (tmpOf path) path ("cannot replace ".toList ++ path) with
      | (w,.error refusal) => (w.remove env (tmpOf path),.error refusal)
      | (w,.ok ()) => (w,.ok ())

def cmdAddclient (env : Env) (w : World) : List Text → World × Except Text (List Created)
  | [] => (w,.error "Usage: nospoon addclient <server-config> [-n N]\n".toList)
  | path :: opts =>
    match addPlan w.read path opts with
    | .error refusal => (w,.error refusal)
    | .ok plan =>
      match makeClients env w plan.n (dirOf path) (pubkeyOf env plan.cfg.seed) plan.net plan.cfg.mtu
          (plan.cfg.peers.entries.length + 1) with
      | (w,.error refusal) => (w,.error refusal)
      | (w,.ok clients) =>
        match replaceServer env w path plan.raw (plan.front ++ addEntries clients ++ plan.back) with
        | (w,.error refusal) => (w,.error refusal)
        | (w,.ok ()) => (w,.ok clients)

end Nospoon
