import Nospoon.Config
import Nospoon.Allocation
import Nospoon.Library.Shell

/-! The command lines that a root process builds from a config and hands to the shell:
`Tun::open` (`tun_linux.hpp`) and the server's forwarding rules (`full_tunnel_linux.cpp`). -/
namespace Nospoon

open Library Library.Shell

/-! ### Lines -/

/-- The characters of a string up to its null byte. -/
def cStr (s : Text) : Text := s.takeWhile (· ≠ '\x00')

/-- What fits into a buffer of `size` characters with the null byte. -/
def snprintf (size : Nat) (s : Text) : Text := s.take (size - 1)

/-- A line for the shell, with the words its template is meant to give and what the
template itself redirects. -/
structure Command where
  line : Text
  words : List Text
  redirects : List Token := []

/-- The line is one simple command of exactly these words. -/
def Command.Safe (c : Command) : Prop := lex c.line = some (c.words.map .word ++ c.redirects)

/-- The name of a network device, as the kernel gives it. -/
structure Interface where
  name : Text
  plain : PlainWord name
  short : name.length ≤ 15
  noNull : '\x00' ∉ name

/-! ### Tun::open -/

def addAddress (ip name : Text) : Command where
  line := snprintf 256 ("ip addr add ".toList ++ cStr ip ++ " dev ".toList ++ name)
  words := ["ip".toList,"addr".toList,"add".toList,ip,"dev".toList,name]

def addAddress6 (ipv6 name : Text) : Command where
  line := snprintf 256 ("ip -6 addr add ".toList ++ cStr ipv6 ++ " dev ".toList ++ name)
  words := ["ip".toList,"-6".toList,"addr".toList,"add".toList,ipv6,"dev".toList,name]

def setLink (name : Text) (mtu : Int) : Command where
  line := snprintf 256 ("ip link set ".toList ++ name ++ " mtu ".toList ++ decimalInt mtu ++ " up".toList)
  words := ["ip".toList,"link".toList,"set".toList,name,"mtu".toList,decimalInt mtu,"up".toList]

/-- `Tun::open`, on a device that could be opened; `ok n` is whether the `n`th command
succeeds. A refused IPv6 address is passed over. -/
def tunOpen (ok : Nat → Bool) (name ip : Text) (mtu : Int) (ipv6 : Text) : List Command × Bool :=
  let first := addAddress ip name
  if ok 0 = false then ([first],false)
  else if ipv6 = [] then ([first,setLink name mtu],ok 1)
  else ([first,addAddress6 ipv6 name,setLink name mtu],ok 2)

/-! ### Forwarding -/

/-- `>/dev/null 2>&1`. -/
def quietly : List Token :=
  [.op ">".toList,.word "/dev/null".toList,.io "2".toList,.op ">&".toList,.word "1".toList]

/-- `run`: without output. -/
def silent (cmd : Text) (words : List Text) : Command where
  line := cStr (cmd ++ " >/dev/null 2>&1".toList)
  words
  redirects := quietly

/-- `popen_capture("ip route show default")`. -/
def showDefault : Command where
  line := cStr ("ip route show default".toList ++ " 2>/dev/null".toList)
  words := ["ip".toList,"route".toList,"show".toList,"default".toList]
  redirects := [.io "2".toList,.op ">".toList,.word "/dev/null".toList]

def enableForwarding : Command :=
  silent "sysctl -w net.ipv4.ip_forward=1".toList ["sysctl".toList,"-w".toList,"net.ipv4.ip_forward=1".toList]

/-- The NAT rule; `action` is `-A` or `-D`. -/
def masquerade (action source iface : Text) : Command :=
  silent ("iptables -t nat ".toList ++ action ++ " POSTROUTING -s ".toList ++ source ++ " -o ".toList ++ iface ++
      " -j MASQUERADE".toList)
    ["iptables".toList,"-t".toList,"nat".toList,action,"POSTROUTING".toList,"-s".toList,source,"-o".toList,iface,
      "-j".toList,"MASQUERADE".toList]

def forwardOut (action tunName iface : Text) : Command :=
  silent ("iptables ".toList ++ action ++ " FORWARD -i ".toList ++ tunName ++ " -o ".toList ++ iface ++
      " -j ACCEPT".toList)
    ["iptables".toList,action,"FORWARD".toList,"-i".toList,tunName,"-o".toList,iface,"-j".toList,"ACCEPT".toList]

def forwardIn (action tunName iface : Text) : Command :=
  silent ("iptables ".toList ++ action ++ " FORWARD -i ".toList ++ iface ++ " -o ".toList ++ tunName ++
      " -m state --state RELATED,ESTABLISHED -j ACCEPT".toList)
    ["iptables".toList,action,"FORWARD".toList,"-i".toList,iface,"-o".toList,tunName,"-m".toList,"state".toList,
      "--state".toList,"RELATED,ESTABLISHED".toList,"-j".toList,"ACCEPT".toList]

structure ForwardingState where
  iface : Text
  source : Text
  tunName : Text

/-- `run_strict` on one command after the other: the first that fails ends it. -/
def runStrict (ok : Nat → Bool) : Nat → List Command → List Command × Bool
  | _, [] => ([],true)
  | n, c :: cs =>
    if ok n = false then ([c],false)
    else
      let (issued,done) := runStrict ok (n + 1) cs
      (c :: issued,done)

/-- `enable_server_forwarding`, from the `n`th command on. Without a configured interface
it asks for the device of the default route. -/
def enableServerForwarding (ok : Nat → Bool) (n : Nat) (device : Text) (tunNameArg subnetArg outIfaceArg : Text) :
    List Command × Option ForwardingState :=
  let detecting := if outIfaceArg = [] then [showDefault] else []
  let iface := if outIfaceArg = [] then device else outIfaceArg
  if iface = [] then (detecting,none)
  else
    let tunName := if tunNameArg = [] then "tun0".toList else tunNameArg
    let source := if subnetArg = [] then "10.0.0.0/24".toList else subnetArg
    let (issued,done) := runStrict ok n
      [enableForwarding,masquerade "-A".toList source iface,forwardOut "-A".toList tunName iface,
        forwardIn "-A".toList tunName iface]
    (detecting ++ issued,if done then some ⟨iface,source,tunName⟩ else none)

def disableServerForwarding (state : ForwardingState) : List Command :=
  [masquerade "-D".toList state.source state.iface,forwardOut "-D".toList state.tunName state.iface,
    forwardIn "-D".toList state.tunName state.iface]

/-! ### A run -/

/-- What the host decides: the TUN device, if it opens, the device of the default route,
and which commands succeed. -/
structure System where
  tun : Interface
  device : Option Interface
  opens : Bool
  ok : Nat → Bool

/-- The network that `run_server` masquerades. -/
def serverSubnet (ip : Text) : Text :=
  match splitFirst '/' ip with
  | none => ip
  | some (addr,length) =>
    match splitLast '.' addr with
    | none => ip
    | some (base,_) => base ++ ".0".toList ++ '/' :: length

def openLines (sys : System) (cfg : Config) : List Command × Bool :=
  if sys.opens then tunOpen sys.ok sys.tun.name cfg.ip cfg.mtu cfg.ipv6 else ([],false)

/-- `run_server` from the device to the end; the rules are taken back at shutdown. -/
def serverLines (sys : System) (cfg : Config) : List Command :=
  let (opening,up) := openLines sys cfg
  if up ∧ cfg.fullTunnel then
    let (enabling,active) := enableServerForwarding sys.ok opening.length ((sys.device.map Interface.name).getD [])
      sys.tun.name (serverSubnet cfg.ip) cfg.outIface
    opening ++ enabling ++ (active.map disableServerForwarding).getD []
  else opening

/-- The lines of a run that are built from the config. -/
def shellLines (sys : System) (cfg : Config) : List Command :=
  if cfg.mode = "server".toList then serverLines sys cfg
  else if cfg.mode = "client".toList ∧ cfg.serverKey ≠ [] then (openLines sys cfg).1
  else []

/-! ### The property -/

/-- Whatever succeeds or fails, every line is the simple command it is meant to be. -/
def ShellSafe (tun : Interface) (device : Option Interface) (cfg : Config) : Prop :=
  ∀ opens ok, ∀ c ∈ shellLines ⟨tun,device,opens,ok⟩ cfg, c.Safe

/-- A value the shell takes as one word, itself. -/
def PlainValue (value : Text) : Prop := PlainWord value ∧ '\x00' ∉ value

/-- The values that no check has looked at closely are plain, and the IPv6 address leaves
room for its command in the buffer. -/
structure PlainValues (tun : Interface) (cfg : Config) : Prop where
  ipv6 : cfg.mode = "server".toList ∨ (cfg.mode = "client".toList ∧ cfg.serverKey ≠ []) → cfg.ipv6 ≠ [] →
    PlainValue cfg.ipv6 ∧ cfg.ipv6.length + tun.name.length + 20 ≤ 255
  iface : cfg.mode = "server".toList → cfg.fullTunnel = true → cfg.outIface ≠ [] → PlainValue cfg.outIface

/-! ### PlainWord values -/

/-- The characters of an address in CIDR form. -/
def CidrChar (c : Char) : Prop := c.isDigit = true ∨ c = '.' ∨ c = '/'

theorem cidrChar_ordinary (h : CidrChar c) : Ordinary c ∧ c ≠ '#' ∧ c ≠ '~' ∧ c ≠ '\x00' := by
  rcases h with digit | rfl | rfl
  · have char : c = Char.ofNat c.toNat := (Char.ofNat_toNat c).symm
    have range : 48 ≤ c.toNat ∧ c.toNat ≤ 57 := by
      simp only [Char.isDigit,Bool.and_eq_true,decide_eq_true_eq] at digit
      exact digit
    rw [char]
    generalize c.toNat = n at range
    obtain ⟨low,high⟩ := range
    interval_cases n <;> decide
  · decide
  · decide

theorem plainValue_cidr {value : Text} (nonempty : value ≠ []) (chars : ∀ c ∈ value, CidrChar c) : PlainValue value := by
  have head (c : Char) (first : value.head? = some c) : CidrChar c := chars c (List.mem_of_head? first)
  refine ⟨⟨nonempty,fun c member => (cidrChar_ordinary (chars c member)).1,fun first => ?_,fun first => ?_⟩,fun null => ?_⟩
  · exact (cidrChar_ordinary (head _ first)).2.1 rfl
  · exact (cidrChar_ordinary (head _ first)).2.2.1 rfl
  · exact (cidrChar_ordinary (chars _ null)).2.2.2 rfl

theorem cidr_chars (valid : validateCidr value label = .ok ()) :
    value ≠ [] ∧ value.length ≤ 18 ∧ (∀ c ∈ value, CidrChar c) ∧ serverSubnet value ≠ [] ∧
      ∀ c ∈ serverSubnet value, CidrChar c := by
  obtain ⟨octets,length,found,-⟩ := validateCidr_ok.mp valid
  obtain ⟨a,b,c,d,rfl,rfl,shape,digits,long⟩ := matchCidr_eq_some found
  simp only [List.forall_mem_cons,List.not_mem_nil,false_implies,implies_true,and_true] at shape
  obtain ⟨sa,sb,sc,sd⟩ := shape
  have noChar (s : Text) (numeral : ∀ x ∈ s, x.isDigit = true) (c : Char) (other : c.isDigit = false) : c ∉ s :=
    fun member => absurd ((numeral c member).symm.trans other) (by decide)
  have noSlash : '/' ∉ a ++ '.' :: b ++ '.' :: c ++ '.' :: d := by
    simp [noChar _ sa.1 '/' rfl,noChar _ sb.1 '/' rfl,noChar _ sc.1 '/' rfl,noChar _ sd.1 '/' rfl]
  have address : splitFirst '/' (a ++ '.' :: b ++ '.' :: c ++ '.' :: d ++ '/' :: length) =
      some (a ++ '.' :: b ++ '.' :: c ++ '.' :: d,length) := splitFirst_append noSlash
  have network : splitLast '.' (a ++ '.' :: b ++ '.' :: c ++ '.' :: d) = some (a ++ '.' :: b ++ '.' :: c,d) :=
    splitLast_eq_some.mpr ⟨by simp,noChar _ sd.1 '.' rfl⟩
  have subnet : serverSubnet (a ++ '.' :: b ++ '.' :: c ++ '.' :: d ++ '/' :: length) =
      a ++ '.' :: b ++ '.' :: c ++ ".0".toList ++ '/' :: length := by
    rw [serverSubnet,address]
    dsimp only
    rw [network]
  rw [subnet]
  have plain {s : Text} (numeral : ∀ x ∈ s, x.isDigit = true) : ∀ x ∈ s, CidrChar x := fun x member => .inl (numeral x member)
  have dot : CidrChar '.' := .inr (.inl rfl)
  have slash : CidrChar '/' := .inr (.inr rfl)
  have zero : ∀ x ∈ ".0".toList, CidrChar x := by
    show ∀ x ∈ ['.','0'],CidrChar x
    exact List.forall_mem_cons.mpr ⟨dot,List.forall_mem_singleton.mpr (.inl rfl)⟩
  refine ⟨by simp,?_,?_,by simp,?_⟩
  · simp only [List.length_append,List.length_cons]
    omega
  · simp only [List.forall_mem_append,List.forall_mem_cons]
    exact ⟨⟨⟨⟨plain sa.1,dot,plain sb.1⟩,dot,plain sc.1⟩,dot,plain sd.1⟩,slash,plain digits⟩
  · simp only [List.forall_mem_append,List.forall_mem_cons]
    exact ⟨⟨⟨⟨plain sa.1,dot,plain sb.1⟩,dot,plain sc.1⟩,zero⟩,slash,plain digits⟩

theorem decimalInt_plain {mtu : Int} (low : 0 ≤ mtu) (high : mtu ≤ 65535) :
    PlainValue (decimalInt mtu) ∧ (decimalInt mtu).length ≤ 5 := by
  obtain ⟨n,rfl⟩ := Int.eq_ofNat_of_zero_le low
  refine ⟨plainValue_cidr (decimal_ne_nil n) fun c member => .inl (decimal_isDigit n c member),?_⟩
  exact (Nat.length_toDigits_le_iff (by decide) (by decide)).mpr (by omega)

/-! ### Lines of plain values -/

theorem cStr_eq {s : Text} (noNull : '\x00' ∉ s) : cStr s = s := by
  apply List.takeWhile_eq_self_iff.mpr
  intro c member
  simp only [decide_eq_true_eq]
  rintro rfl
  exact noNull member

theorem snprintf_eq {s : Text} (fits : s.length ≤ size - 1) : snprintf size s = s := List.take_of_length_le fits

theorem Command.safe_of {c : Command} (more : Text) (line : c.line = spaced c.words ++ more) (nonempty : c.words ≠ [])
    (plain : ∀ word ∈ c.words, PlainWord word) (follows : Follows more c.redirects) : c.Safe := by
  rw [Command.Safe,line]
  exact lex_spaced nonempty plain follows

theorem follows_quiet : Follows " >/dev/null 2>&1".toList quietly := by
  intro done text bare
  have ran : run ⟨done,.word text bare⟩ " >/dev/null 2>&1".toList =
      some ⟨done ++ [.word text] ++ [.op ">".toList] ++ [.word "/dev/null".toList] ++ [.io "2".toList] ++ [.op ">&".toList],
        .word "1".toList true⟩ := rfl
  rw [ran]
  simp [State.finish,quietly]

theorem addAddress_safe (ip : PlainValue value) (short : value.length ≤ 18) (tun : Interface) :
    (addAddress value tun.name).Safe := by
  have fits := tun.short
  apply Command.safe_of []
  · rw [addAddress]
    dsimp only
    rw [cStr_eq ip.2,snprintf_eq]
    · simp [spaced_cons]
    · simp
      omega
  · simp [addAddress]
  · intro word member
    simp only [addAddress,List.mem_cons,List.not_mem_nil,or_false] at member
    rcases member with rfl | rfl | rfl | rfl | rfl | rfl
    all_goals first | exact ip.1 | exact tun.plain | decide
  · exact follows_nil

theorem addAddress6_safe (ipv6 : PlainValue value) (tun : Interface) (fits : value.length + tun.name.length + 20 ≤ 255) :
    (addAddress6 value tun.name).Safe := by
  apply Command.safe_of []
  · rw [addAddress6]
    dsimp only
    rw [cStr_eq ipv6.2,snprintf_eq]
    · simp [spaced_cons]
    · simp
      omega
  · simp [addAddress6]
  · intro word member
    simp only [addAddress6,List.mem_cons,List.not_mem_nil,or_false] at member
    rcases member with rfl | rfl | rfl | rfl | rfl | rfl | rfl
    all_goals first | exact ipv6.1 | exact tun.plain | decide
  · exact follows_nil

theorem setLink_safe {mtu : Int} (low : 0 ≤ mtu) (high : mtu ≤ 65535) (tun : Interface) : (setLink tun.name mtu).Safe := by
  have fits := tun.short
  obtain ⟨plain,short⟩ := decimalInt_plain low high
  apply Command.safe_of []
  · rw [setLink]
    dsimp only
    rw [snprintf_eq]
    · simp [spaced_cons]
    · simp
      omega
  · simp [setLink]
  · intro word member
    simp only [setLink,List.mem_cons,List.not_mem_nil,or_false] at member
    rcases member with rfl | rfl | rfl | rfl | rfl | rfl | rfl
    all_goals first | exact plain.1 | exact tun.plain | decide
  · exact follows_nil

theorem spaced_noNull {words : List Text} (plain : ∀ word ∈ words, PlainValue word) : '\x00' ∉ spaced words := by
  cases words with
  | nil => simp [spaced]
  | cons word words =>
    obtain ⟨here,later⟩ := List.forall_mem_cons.mp plain
    rw [spaced_cons,List.mem_append,List.mem_flatMap]
    rintro (null | ⟨next,member,null⟩)
    · exact here.2 null
    · rcases List.mem_cons.mp null with blank | null
      · exact absurd blank (by decide)
      · exact (later next member).2 null

theorem silent_safe {cmd : Text} {words : List Text} (same : cmd = spaced words) (nonempty : words ≠ [])
    (plain : ∀ word ∈ words, PlainValue word) : (silent cmd words).Safe := by
  apply Command.safe_of " >/dev/null 2>&1".toList
  · rw [silent]
    dsimp only
    rw [cStr_eq,same]
    intro null
    rcases List.mem_append.mp null with inside | outside
    · exact spaced_noNull plain (same ▸ inside)
    · exact absurd outside (by decide)
  · exact nonempty
  · exact fun word member => (plain word member).1
  · exact follows_quiet

instance (value : Text) : Decidable (PlainValue value) := inferInstanceAs (Decidable (_ ∧ _))

theorem masquerade_safe (action : PlainValue a) (source : PlainValue s) (iface : PlainValue i) : (masquerade a s i).Safe := by
  apply silent_safe
  · simp [spaced_cons]
  · simp
  · intro word member
    simp only [List.mem_cons,List.not_mem_nil,or_false] at member
    rcases member with rfl | rfl | rfl | rfl | rfl | rfl | rfl | rfl | rfl | rfl | rfl
    all_goals first | assumption | decide

theorem forwardOut_safe (action : PlainValue a) (tun : PlainValue t) (iface : PlainValue i) : (forwardOut a t i).Safe := by
  apply silent_safe
  · simp [spaced_cons]
  · simp
  · intro word member
    simp only [List.mem_cons,List.not_mem_nil,or_false] at member
    rcases member with rfl | rfl | rfl | rfl | rfl | rfl | rfl | rfl | rfl
    all_goals first | assumption | decide

theorem forwardIn_safe (action : PlainValue a) (tun : PlainValue t) (iface : PlainValue i) : (forwardIn a t i).Safe := by
  apply silent_safe
  · simp [spaced_cons]
  · simp
  · intro word member
    simp only [List.mem_cons,List.not_mem_nil,or_false] at member
    rcases member with rfl | rfl | rfl | rfl | rfl | rfl | rfl | rfl | rfl | rfl | rfl | rfl | rfl
    all_goals first | assumption | decide

theorem enableForwarding_safe : enableForwarding.Safe := by
  apply silent_safe
  · rfl
  · simp
  · decide

theorem showDefault_safe : showDefault.Safe := by
  unfold Command.Safe
  decide

/-! ### PlainWord values of safe lines -/

theorem cStr_short {s : Text} (whole : s.length ≤ (cStr s).length) : '\x00' ∉ s := by
  have same : cStr s = s := (List.takeWhile_prefix _).eq_of_length_le whole
  intro null
  rw [← same] at null
  have stops := List.mem_takeWhile_imp null
  simp at stops

theorem cStr_cut {s : Text} (null : '\x00' ∈ s) (rest : Text) : (cStr (s ++ rest)).length ≤ s.length := by
  have short := mt cStr_short (not_not.mpr null)
  rw [cStr] at short
  rw [cStr,List.takeWhile_append,if_neg (by omega)]
  omega

/-- A safe line is long enough for its words. -/
theorem Command.Safe.length {c : Command} (safe : c.Safe) :
    weigh 1 (c.words.map .word) ≤ c.line.length + 1 := by
  have weight := lex_weight safe
  rw [weigh_append] at weight
  omega

theorem plain_addAddress6 {value : Text} (tun : Interface) (nonempty : value ≠ []) (safe : (addAddress6 value tun.name).Safe) :
    PlainValue value ∧ value.length + tun.name.length + 20 ≤ 255 := by
  have long := safe.length
  have size : (addAddress6 value tun.name).line.length ≤ 255 ∧
      (addAddress6 value tun.name).line.length ≤ (cStr value).length + tun.name.length + 20 := by
    rw [addAddress6]
    dsimp only
    rw [snprintf,List.length_take]
    refine ⟨by omega,?_⟩
    simp
    omega
  generalize (addAddress6 value tun.name).line.length = length at long size
  simp only [addAddress6,List.map_cons,List.map_nil,weigh,Token.weight] at long
  have literal : ("ip".toList.length = 2 ∧ "-6".toList.length = 2) ∧ "addr".toList.length = 4 ∧ "add".toList.length = 3 ∧
      "dev".toList.length = 3 := by decide
  have cut : (cStr value).length ≤ value.length := (List.takeWhile_prefix _).length_le
  have noNull : '\x00' ∉ value := cStr_short (by omega)
  have fits : value.length + tun.name.length + 20 ≤ 255 := by omega
  have line : (addAddress6 value tun.name).line =
      "ip -6 addr add ".toList ++ value ++ ' ' :: ("dev".toList ++ ' ' :: tun.name) := by
    rw [addAddress6]
    dsimp only
    rw [cStr_eq noNull,snprintf_eq]
    · simp
    · simp
      omega
  have name : Follows (' ' :: tun.name) [.word tun.name] := by
    have one := follows_words [tun.name] (by simpa using tun.plain) follows_nil
    simpa using one
  have calm : Calm ("dev".toList ++ ' ' :: tun.name) :=
    Calm.append (by decide) (Calm.append (by decide : Calm [' ']) tun.plain.calm)
  rw [Command.Safe,line] at safe
  have front : run ⟨[],.between⟩ "ip -6 addr add ".toList =
      some ⟨["ip".toList,"-6".toList,"addr".toList,"add".toList].map .word,.between⟩ := rfl
  exact ⟨⟨plain_of_lex front (by decide) calm name nonempty safe,noNull⟩,fits⟩

theorem plain_masquerade {source iface : Text} (plain : PlainValue source) (nonempty : iface ≠ [])
    (safe : (masquerade "-A".toList source iface).Safe) : PlainValue iface := by
  have long := safe.length
  have noNull : '\x00' ∉ iface := by
    intro null
    -- a line that ends inside the value is too short for the words
    have ends : (cStr ("iptables -t nat ".toList ++ "-A".toList ++ " POSTROUTING -s ".toList ++ source ++ " -o ".toList ++
        iface ++ " -j MASQUERADE".toList ++ " >/dev/null 2>&1".toList)).length ≤ 38 + source.length + iface.length := by
      rw [List.append_assoc _ " -j MASQUERADE".toList]
      refine (cStr_cut (by simp [null]) _).trans ?_
      simp
      omega
    have size : (masquerade "-A".toList source iface).line.length ≤ 38 + source.length + iface.length := ends
    generalize (masquerade "-A".toList source iface).line.length = length at long size
    simp only [masquerade,silent,List.map_cons,List.map_nil,weigh,Token.weight] at long
    have literal : "iptables".toList.length = 8 ∧ "-t".toList.length = 2 ∧ "nat".toList.length = 3 ∧ "-A".toList.length = 2 ∧
        "POSTROUTING".toList.length = 11 ∧ "-s".toList.length = 2 ∧ "-o".toList.length = 2 := by decide
    omega
  have line : (masquerade "-A".toList source iface).line = (spaced ["iptables".toList,"-t".toList,"nat".toList,"-A".toList,
      "POSTROUTING".toList,"-s".toList,source,"-o".toList] ++ [' ']) ++ iface ++
        ' ' :: ("-j".toList ++ " MASQUERADE >/dev/null 2>&1".toList) := by
    rw [masquerade,silent]
    dsimp only
    rw [cStr_eq]
    · simp [spaced_cons]
    · simp only [List.mem_append,not_or]
      exact ⟨⟨⟨⟨⟨⟨⟨by decide,by decide⟩,by decide⟩,plain.2⟩,by decide⟩,noNull⟩,by decide⟩,by decide⟩
  have starts := run_spaced ["iptables".toList,"-t".toList,"nat".toList,"-A".toList,"POSTROUTING".toList,
    "-s".toList,source,"-o".toList] (by simp) (by
      intro word member
      simp only [List.mem_cons,List.not_mem_nil,or_false] at member
      rcases member with rfl | rfl | rfl | rfl | rfl | rfl | rfl | rfl
      all_goals first | exact plain.1 | decide)
  have follows : Follows " MASQUERADE >/dev/null 2>&1".toList (.word "MASQUERADE".toList :: quietly) := by
    have one := follows_words ["MASQUERADE".toList] (by decide) follows_quiet
    simpa using one
  rw [Command.Safe,line] at safe
  exact ⟨plain_of_lex starts (by decide) (by decide) follows nonempty safe,noNull⟩

/-! ### Every line of a run -/

theorem runStrict_mem (member : c ∈ (runStrict ok n cs).1) : c ∈ cs := by
  induction cs generalizing n with
  | nil => exact member
  | cons first cs ih =>
    rw [runStrict] at member
    split_ifs at member
    · rw [List.mem_singleton.mp member]
      exact List.mem_cons_self
    · rcases List.mem_cons.mp member with rfl | later
      · exact List.mem_cons_self
      · exact List.mem_cons_of_mem _ (ih later)

theorem tunOpen_safe {cfg : Config} {tun : Interface} (ip : PlainValue cfg.ip) (short : cfg.ip.length ≤ 18)
    (mtu : 576 ≤ cfg.mtu ∧ cfg.mtu ≤ 65535)
    (ipv6 : cfg.ipv6 ≠ [] → PlainValue cfg.ipv6 ∧ cfg.ipv6.length + tun.name.length + 20 ≤ 255)
    (member : c ∈ (tunOpen ok tun.name cfg.ip cfg.mtu cfg.ipv6).1) : c.Safe := by
  have first := addAddress_safe ip short tun
  have last := setLink_safe (show 0 ≤ cfg.mtu by omega) mtu.2 tun
  rw [tunOpen] at member
  split_ifs at member with refused absent
  · rw [List.mem_singleton.mp member]
    exact first
  · rcases List.mem_pair.mp member with rfl | rfl
    · exact first
    · exact last
  · obtain ⟨plain,fits⟩ := ipv6 absent
    have second := addAddress6_safe plain tun fits
    simp only [List.mem_cons,List.not_mem_nil,or_false] at member
    rcases member with rfl | rfl | rfl
    · exact first
    · exact second
    · exact last

theorem forwarding_safe {source tunName iface : Text} (plainSource : PlainValue source) (plainTun : PlainValue tunName)
    (plainIface : PlainValue iface) :
    (∀ c ∈ [enableForwarding,masquerade "-A".toList source iface,forwardOut "-A".toList tunName iface,
      forwardIn "-A".toList tunName iface],c.Safe) ∧
    ∀ c ∈ disableServerForwarding ⟨iface,source,tunName⟩,c.Safe := by
  have add : PlainValue "-A".toList := by decide
  have delete : PlainValue "-D".toList := by decide
  constructor
  · simp only [List.forall_mem_cons]
    exact ⟨enableForwarding_safe,masquerade_safe add plainSource plainIface,forwardOut_safe add plainTun plainIface,
      forwardIn_safe add plainTun plainIface,nofun⟩
  · simp only [disableServerForwarding,List.forall_mem_cons]
    exact ⟨masquerade_safe delete plainSource plainIface,forwardOut_safe delete plainTun plainIface,
      forwardIn_safe delete plainTun plainIface,nofun⟩

theorem Interface.plainValue (interface : Interface) : PlainValue interface.name := ⟨interface.plain,interface.noNull⟩

theorem serverForwarding_safe {cfg : Config} {tun : Interface} {device : Option Interface}
    (subnet : PlainValue (serverSubnet cfg.ip)) (iface : cfg.outIface ≠ [] → PlainValue cfg.outIface)
    (result : enableServerForwarding ok n ((device.map Interface.name).getD []) tun.name (serverSubnet cfg.ip)
      cfg.outIface = (issued,active)) :
    ∀ c ∈ issued ++ (active.map disableServerForwarding).getD [],c.Safe := by
  have detecting : ∀ c ∈ (if cfg.outIface = [] then [showDefault] else []),c.Safe := by
    split_ifs
    · exact List.forall_mem_singleton.mpr showDefault_safe
    · simp
  have named : (if cfg.outIface = [] then (device.map Interface.name).getD [] else cfg.outIface) ≠ [] →
      PlainValue (if cfg.outIface = [] then (device.map Interface.name).getD [] else cfg.outIface) := by
    split_ifs with absent
    · cases device with
      | none => exact fun some => absurd rfl some
      | some device => exact fun _ => device.plainValue
    · exact iface
  rw [enableServerForwarding] at result
  dsimp only at result
  generalize (if cfg.outIface = [] then (device.map Interface.name).getD [] else cfg.outIface) = out at named result
  generalize (if cfg.outIface = [] then [showDefault] else []) = detect at detecting result
  rw [if_neg tun.plain.nonempty,if_neg subnet.1.nonempty] at result
  by_cases unknown : out = []
  · rw [if_pos unknown] at result
    obtain ⟨rfl,rfl⟩ := Prod.mk.inj result
    simpa using detecting
  · rw [if_neg unknown] at result
    obtain ⟨rules,undoing⟩ := forwarding_safe subnet tun.plainValue (named unknown)
    have issuing (c : Command) (member : c ∈ (runStrict ok n [enableForwarding,masquerade "-A".toList (serverSubnet cfg.ip) out,
        forwardOut "-A".toList tun.name out,forwardIn "-A".toList tun.name out]).1) : c.Safe := rules c (runStrict_mem member)
    generalize runStrict ok n _ = r at issuing result
    obtain ⟨commands,done⟩ := r
    obtain ⟨rfl,rfl⟩ := Prod.mk.inj result
    refine List.forall_mem_append.mpr ⟨List.forall_mem_append.mpr ⟨detecting,issuing⟩,?_⟩
    cases done with
    | false => simp
    | true => exact undoing

theorem shellSafe_of_plain {cfg : Config} {tun : Interface} {device : Option Interface}
    (ip : validateCidr cfg.ip "ip".toList = .ok ()) (mtu : 576 ≤ cfg.mtu ∧ cfg.mtu ≤ 65535) (plain : PlainValues tun cfg) :
    ShellSafe tun device cfg := by
  obtain ⟨nonempty,short,chars,nonemptySubnet,charsSubnet⟩ := cidr_chars ip
  have opening (opens : Bool) (ok : Nat → Bool) (runs : cfg.mode = "server".toList ∨ (cfg.mode = "client".toList ∧ cfg.serverKey ≠ [])) :
      ∀ c ∈ (openLines ⟨tun,device,opens,ok⟩ cfg).1,c.Safe := by
    intro c member
    cases opens with
    | false => contradiction
    | true => exact tunOpen_safe (plainValue_cidr nonempty chars) short mtu (plain.ipv6 runs) member
  intro opens ok c member
  unfold shellLines at member
  split_ifs at member with server client
  · have opened := opening opens ok (.inl server)
    unfold serverLines at member
    generalize openLines ⟨tun,device,opens,ok⟩ cfg = r at member opened
    obtain ⟨lines,up⟩ := r
    dsimp only at member opened
    split_ifs at member with full
    · generalize result : enableServerForwarding ok lines.length ((device.map Interface.name).getD []) tun.name
        (serverSubnet cfg.ip) cfg.outIface = r at member
      obtain ⟨issued,active⟩ := r
      have forwarded := serverForwarding_safe (plainValue_cidr nonemptySubnet charsSubnet) (plain.iface server full.2) result
      dsimp only at member
      rw [List.append_assoc] at member
      exact (List.mem_append.mp member).elim (opened c) (forwarded c)
    · exact opened c member
  · exact opening opens ok (.inr client) c member
  · contradiction

theorem plain_of_shellSafe {cfg : Config} {tun : Interface} {device : Option Interface}
    (ip : validateCidr cfg.ip "ip".toList = .ok ()) (safe : ShellSafe tun device cfg) : PlainValues tun cfg := by
  obtain ⟨-,-,-,nonemptySubnet,charsSubnet⟩ := cidr_chars ip
  -- the run in which the device opens and every command succeeds issues every line
  have all := safe true fun _ => true
  have opened : openLines ⟨tun,device,true,fun _ => true⟩ cfg = (tunOpen (fun _ => true) tun.name cfg.ip cfg.mtu cfg.ipv6) := rfl
  have succeeds : (tunOpen (fun _ => true) tun.name cfg.ip cfg.mtu cfg.ipv6).2 = true := by
    rw [tunOpen,if_neg (by decide)]
    split_ifs
    · rfl
    · rfl
  constructor
  · intro runs given
    have issued : addAddress6 cfg.ipv6 tun.name ∈ (openLines ⟨tun,device,true,fun _ => true⟩ cfg).1 := by
      rw [opened,tunOpen,if_neg (by decide),if_neg given]
      simp
    apply plain_addAddress6 tun given
    apply all
    unfold shellLines
    rcases runs with server | client
    · rw [if_pos server,serverLines]
      generalize openLines ⟨tun,device,true,fun _ => true⟩ cfg = r at issued
      dsimp only
      split_ifs
      · exact List.mem_append_left _ (List.mem_append_left _ issued)
      · exact issued
    · have noServer : cfg.mode ≠ "server".toList := by
        rw [client.1]
        decide
      rw [if_neg noServer,if_pos client]
      exact issued
  · intro server full given
    have issued (n : Nat) : masquerade "-A".toList (serverSubnet cfg.ip) cfg.outIface ∈
        (enableServerForwarding (fun _ => true) n ((device.map Interface.name).getD []) tun.name (serverSubnet cfg.ip)
          cfg.outIface).1 := by
      rw [enableServerForwarding]
      dsimp only
      rw [if_neg given,if_neg given,if_neg given,if_neg tun.plain.nonempty,if_neg nonemptySubnet]
      simp [runStrict]
    apply plain_masquerade (plainValue_cidr nonemptySubnet charsSubnet) given
    apply all
    rw [shellLines,if_pos server,serverLines,opened]
    dsimp only
    rw [if_pos ⟨succeeds,full⟩]
    exact List.mem_append_left _ (List.mem_append_right _ (issued _))

/-- An accepted config gives safe command lines exactly where the values nobody checks are plain. -/
theorem shellSafe_iff (read : Text → Option Text) (path : Text) (cfg : Config) (tun : Interface) (device : Option Interface)
    (loaded : loadConfig read path = .ok cfg) : ShellSafe tun device cfg ↔ PlainValues tun cfg := by
  obtain ⟨raw,-,accepted,resolved⟩ := (loadConfig_ok read path cfg).mp loaded
  have fields := resolveSeed_fields resolved
  have ip : validateCidr cfg.ip "ip".toList = .ok () := by
    rw [fields]
    exact accepted.ip
  have mtu : 576 ≤ cfg.mtu ∧ cfg.mtu ≤ 65535 := by
    rw [fields]
    exact validateMtu_ok.mp accepted.mtu
  exact ⟨plain_of_shellSafe ip,shellSafe_of_plain ip mtu⟩

/-- The first TUN device of a host. -/
def tun0 : Interface := ⟨"tun0".toList,by decide,by decide,by decide⟩

/-- A server config with this IPv6 address and this outgoing interface. -/
def tunnelText (ipv6 iface : Text) : Text :=
  "\x7b\"mode\":\"server\",\"ip\":\"10.0.0.1/24\",\"ipv6\":\"".toList ++ ipv6 ++
    "\",\"fullTunnel\":true,\"outInterface\":\"".toList ++ iface ++ "\"\x7d".toList

theorem tunnelText_loads (ipv6 iface : Text)
    (reads : (loadConfig (fun _ => some (tunnelText ipv6 iface)) []).toOption.any fun cfg => cfg.mode = "server".toList &&
      cfg.ip = "10.0.0.1/24".toList && cfg.ipv6 = ipv6 && cfg.fullTunnel && cfg.outIface = iface) :
    ∃ cfg, loadConfig (fun _ => some (tunnelText ipv6 iface)) [] = .ok cfg ∧ cfg.mode = "server".toList ∧
      cfg.ip = "10.0.0.1/24".toList ∧ cfg.ipv6 = ipv6 ∧ cfg.fullTunnel = true ∧ cfg.outIface = iface := by
  obtain ⟨cfg,loaded,fields⟩ := exists_loaded _ _ _ reads
  simp only [Bool.and_eq_true,decide_eq_true_eq] at fields
  obtain ⟨⟨⟨⟨server,ip⟩,six⟩,full⟩,out⟩ := fields
  exact ⟨cfg,loaded,server,ip,six,full,out⟩

theorem shellSafe_plain : ∃ cfg, ShellSafe tun0 none cfg ∧ cfg.ipv6 = "fd00::1/64".toList ∧ cfg.outIface = "eth0".toList := by
  obtain ⟨cfg,loaded,-,-,ipv6,-,iface⟩ := tunnelText_loads "fd00::1/64".toList "eth0".toList (by decide +kernel)
  refine ⟨cfg,(shellSafe_iff _ _ cfg tun0 none loaded).mpr ⟨fun _ _ => ?_,fun _ _ _ => ?_⟩,ipv6,iface⟩
  · rw [ipv6]
    decide
  · rw [iface]
    decide

/-- A command behind the prefix length, or in the name of the interface, is a command of its own. -/
theorem shell_injection :
    (∃ cfg, loadConfig (fun _ => some (tunnelText "fd00::1/64;reboot".toList [])) [] = .ok cfg ∧ ¬ShellSafe tun0 none cfg) ∧
    ∃ cfg, loadConfig (fun _ => some (tunnelText [] "$(reboot)".toList)) [] = .ok cfg ∧ ¬ShellSafe tun0 none cfg := by
  constructor
  · obtain ⟨cfg,loaded,server,ip,ipv6,-⟩ := tunnelText_loads "fd00::1/64;reboot".toList [] (by decide +kernel)
    refine ⟨cfg,loaded,fun claim => ?_⟩
    have plain := (plain_of_shellSafe (ip ▸ by decide) claim).ipv6 (.inl server) (ipv6 ▸ by decide)
    rw [ipv6] at plain
    exact absurd plain.1 (by decide)
  · obtain ⟨cfg,loaded,server,ip,-,full,iface⟩ := tunnelText_loads [] "$(reboot)".toList (by decide +kernel)
    refine ⟨cfg,loaded,fun claim => ?_⟩
    have plain := (plain_of_shellSafe (ip ▸ by decide) claim).iface server full (iface ▸ by decide)
    rw [iface] at plain
    exact absurd plain (by decide)

end Nospoon
