import Nospoon.CommandSteps
import Nospoon.ProvisionText

/-! A directory as `init` creates it and `addclient` extends it, run after run. -/
namespace Nospoon

open Library

/-! ### Runs -/

/-- What `init` takes for its subnet when it is named: an address with the prefix 24. -/
def Is24 (cidr : Text) : Prop :=
  validateCidr cidr "subnet".toList = .ok () ∧ ∃ net, parseSubnet cidr = .ok net ∧ net.prefixLen = 24

/-- The world after a successful `init` of `dir` and any number of successful `addclient`
runs on the server file it wrote, with the clients they reported. -/
inductive Provisioning (env : Env) (dir : Text) (opts : List Text) : World → List Created → Prop
  | init (ok : cmdInit env w (dir :: opts) = (w',.ok clients)) : Provisioning env dir opts w' clients
  | addclient (earlier : Provisioning env dir opts w clients)
    (ok : cmdAddclient env w (serverPath dir :: more) = (w',.ok added)) :
    Provisioning env dir opts w' (added ++ clients)

/-- The public keys of all seeds drawn so far are distinct. -/
def FreshKeys (env : Env) (drawn : Nat) : Prop :=
  ∀ i < drawn, ∀ j < drawn, env.pubkey (env.seeds i) = env.pubkey (env.seeds j) → i = j

variable {env : Env} {w w' : World}

theorem Is24.base (h : Is24 cidr) : ∃ base used, Base base ∧ parseSubnet cidr = .ok ⟨base,24,used⟩ := by
  obtain ⟨valid,net,parsed,length⟩ := h
  exact ⟨net.base,net.used,parseSubnet_base valid parsed,by rw [← length]; exact parsed⟩

/-! ### The invariant -/

/-- The client files of a directory, each with its own seed and host; `server` is the draw
of the server's seed. -/
structure Clients (env : Env) (dir base : Text) (mtu server : Nat) (issues : List Issue) (w : World) : Prop where
  wrote : ∀ issue ∈ issues, w.read issue.name =
    some (clientConfig (keyHex env server) (hostIp base issue.host) 24 (seedHex env issue.draw) mtu)
  named : ∀ issue ∈ issues, ∃ k, issue.name = clientPath dir k
  names : (issues.map Issue.name).Nodup
  hosts : (issues.map Issue.host).Nodup
  range : ∀ issue ∈ issues, 2 ≤ issue.host ∧ issue.host ≤ 254
  draws : (issues.map Issue.draw).Nodup
  drawn : server < w.drawn ∧ ∀ issue ∈ issues, issue.draw < w.drawn

/-- The same with the server file, whose peers block lists the clients in the order of
`issues`. -/
structure Provisioned (env : Env) (dir base : Text) (mtu server : Nat) (issues : List Issue) (w : World) : Prop
    extends Clients env dir base mtu server issues w where
  text : ∃ block, EntryText (pairsOf (issues.map (Issue.created env base))) block ∧
    w.read (serverPath dir) =
      some (serverText (hostIp base 1 ++ "/24".toList) (seedHex env server) (mtuGap mtu headNotes) block)

section
variable {dir base : Text} {mtu server : Nat} {issues : List Issue}

theorem Clients.none (drawn : server < w.drawn) : Clients env dir base mtu server [] w :=
  ⟨by simp,by simp,by simp,by simp,by simp,by simp,drawn,by simp⟩

/-- Newly issued clients on free hosts join the ones that are there. -/
theorem Clients.issue {new : List Issue} {net : Subnet} (h : Clients env dir base mtu server issues w)
    (issued : Issued env dir (keyHex env server) net mtu w new w') (same : net.base = base)
    (length : net.prefixLen = 24) (reserved : new.map Issue.host = reserveHosts n net)
    (taken : ∀ issue ∈ issues, (issue.host : Int) ∈ net.used) :
    Clients env dir base mtu server (new ++ issues) w' := by
  obtain ⟨free,distinct⟩ := reserveHosts_spec n net
  rw [← reserved] at free distinct
  have wrote := issued.wrote
  rw [same,length] at wrote
  have drawn := issued.drawn
  have recent : ∀ d ∈ new.map Issue.draw, w.drawn ≤ d ∧ d < w'.drawn := by
    intro d member
    rw [issued.draws] at member
    obtain ⟨low,high⟩ := List.mem_range'_1.mp member
    exact ⟨low,by omega⟩
  refine ⟨?_,?_,?_,?_,?_,?_,by have := h.drawn.1; omega,?_⟩
  · exact List.forall_mem_append.mpr ⟨wrote,fun issue member => issued.read_kept (h.wrote issue member)⟩
  · exact List.forall_mem_append.mpr ⟨issued.named,h.named⟩
  · rw [List.map_append]
    refine List.nodup_append.mpr ⟨issued.distinct,h.names,fun a first b second same => ?_⟩
    obtain ⟨issue,member,rfl⟩ := List.mem_map.mp first
    obtain ⟨old,there,rfl⟩ := List.mem_map.mp second
    have held := h.wrote old there
    rw [← same,World.read,issued.free issue member] at held
    contradiction
  · rw [List.map_append]
    refine List.nodup_append.mpr ⟨distinct,h.hosts,fun a first b second same => ?_⟩
    obtain ⟨old,there,rfl⟩ := List.mem_map.mp second
    exact (free a first).2.2 (same ▸ taken old there)
  · refine List.forall_mem_append.mpr ⟨fun issue member => ?_,h.range⟩
    have bounds := free issue.host (List.mem_map_of_mem member)
    exact ⟨bounds.1,bounds.2.1⟩
  · rw [List.map_append]
    refine List.nodup_append.mpr ⟨by rw [issued.draws]; exact List.nodup_range',h.draws,fun a first b second same => ?_⟩
    obtain ⟨old,there,rfl⟩ := List.mem_map.mp second
    have before := h.drawn.2 old there
    have after := (recent a first).1
    omega
  · refine List.forall_mem_append.mpr ⟨fun issue member => ?_,fun issue member => ?_⟩
    · exact (recent issue.draw (List.mem_map_of_mem member)).2
    · have := h.drawn.2 issue member
      omega

/-- The server file and its helpers are no client files. -/
theorem Clients.server_written (h : Clients env dir base mtu server issues w) (drawn : w'.drawn = w.drawn)
    (kept : ∀ other, (∀ rest, other ≠ serverPath dir ++ rest) → w'.read other = w.read other) :
    Clients env dir base mtu server issues w' := by
  refine ⟨fun issue member => ?_,h.named,h.names,h.hosts,h.range,h.draws,by rw [drawn]; exact h.drawn⟩
  obtain ⟨k,name⟩ := h.named issue member
  rw [kept _ fun rest => name ▸ clientPath_ne dir rest k]
  exact h.wrote issue member

end

/-! ### Loading what is there -/

theorem keyHex_word (env : Env) (draw : Nat) : Word (keyHex env draw) := fun c member =>
  .inl (bytesToHex_isXDigit _ c member)

theorem seedHex_bare (env : Env) (draw : Nat) : Bare (seedHex env draw) :=
  Word.bare fun c member => .inl (bytesToHex_isXDigit _ c member)

theorem hostIp_word (shape : Base base) (n : Nat) : Word (hostIp base n) := by
  obtain ⟨a,b,c,ha,hb,hc,rfl⟩ := shape
  have digit {s : Text} (digits : ∀ c ∈ s, c.isDigit = true) : Word s := fun x member =>
    .inl (digit_char (digits x member)).2.2.2.2.2.2
  have dotted {s t : Text} (first : Word s) (second : Word t) : Word (s ++ '.' :: t) := by
    intro x member
    rcases List.mem_append.mp member with here | there
    · exact first x here
    · rcases List.mem_cons.mp there with rfl | later
      · exact .inr rfl
      · exact second x later
  exact dotted (dotted (dotted (digit ha.digits) (digit hb.digits)) (digit hc.digits)) (digit (decimal_isDigit n))

theorem hostCidr_bare (shape : Base base) (n : Nat) : Bare (hostIp base n ++ "/24".toList) := by
  intro c member
  rcases List.mem_append.mp member with here | there
  · exact (hostIp_word shape n).bare c here
  · exact (show Bare "/24".toList by simp [Bare]) c there

/-- The address of a host text is the host. -/
theorem ipAddress_host (shape : Base base) (n : Nat) (cfg : Config) (ip : cfg.ip = hostIp base n ++ "/24".toList) :
    cfg.ipAddress = hostIp base n := by
  have noSlash : '/' ∉ hostIp base n := fun member => (word_char (hostIp_word shape n _ member)).2.2.1 rfl
  have split := splitFirst_append (q := "24".toList) noSlash
  rw [Config.ipAddress,ip]
  rw [show "/24".toList = '/' :: "24".toList from rfl,split]

section
variable {dir base : Text} {mtu server : Nat} {issues : List Issue}

theorem issue_words (shape : Base base) (issues : List Issue) :
    ∀ client ∈ issues.map (Issue.created env base), Word client.pubkey ∧ Word client.ip := by
  intro client member
  obtain ⟨issue,-,rfl⟩ := List.mem_map.mp member
  exact ⟨keyHex_word env issue.draw,hostIp_word shape issue.host⟩

/-- The server file loads, and with exactly the clients of the invariant. -/
theorem Provisioned.load (h : Provisioned env dir base mtu server issues w) (shape : Base base)
    (mtuValid : validateMtu mtu = .ok ()) : loadConfig w.read (serverPath dir) = .ok
      { mode := "server".toList,ip := hostIp base 1 ++ "/24".toList,seed := seedHex env server,mtu,
        peers := insertPairs ∅ (pairsOf (issues.map (Issue.created env base))) } := by
  obtain ⟨block,text,there⟩ := h.text
  have ipBare := hostCidr_bare shape 1
  have seedBare := seedHex_bare env server
  have seedValid := validateHex64_bytesToHex (env.seeds server) "seed".toList
  have small : mtu < 2 ^ 31 := by have := validateMtu_ok.mp mtuValid; omega
  have fields := extract_serverText ipBare seedBare small text
  rw [← stripComments_serverText ipBare seedBare mtu text] at fields
  refine (loadConfig_ok _ _ _).mpr ⟨_,there,?_,?_⟩
  · rw [fields]
    refine ⟨by simp,validateCidr_host shape (by omega) _,by simp,fun _ => seedValid,by simp,mtuValid,by simp⟩
  · rw [fields]
    refine (resolveSeed_ok _ _ _).mpr (.inr ⟨by simp,rfl⟩)

/-- So does every client file. -/
theorem Provisioned.load_client (h : Provisioned env dir base mtu server issues w) (shape : Base base)
    (mtuValid : validateMtu mtu = .ok ()) (member : issue ∈ issues) : loadConfig w.read issue.name = .ok
      { mode := "client".toList,ip := hostIp base issue.host ++ "/24".toList,seed := seedHex env issue.draw,
        serverKey := keyHex env server,mtu } := by
  have range := h.range issue member
  have pkBare := (keyHex_word env server).bare
  have small : mtu < 2 ^ 31 := by have := validateMtu_ok.mp mtuValid; omega
  have fields := extract_clientConfig pkBare (hostCidr_bare shape issue.host) (seedHex_bare env issue.draw) small
  have keyValid := validateHex64_bytesToHex (env.pubkey (env.seeds server)) "server".toList
  have seedValid := validateHex64_bytesToHex (env.seeds issue.draw) "seed".toList
  refine (loadConfig_ok _ _ _).mpr ⟨_,h.wrote issue member,?_,?_⟩
  · rw [fields]
    exact ⟨by simp,validateCidr_host shape (by omega) _,by simp,fun _ => seedValid,fun _ => keyValid,mtuValid,by simp⟩
  · rw [fields]
    exact (resolveSeed_ok _ _ _).mpr (.inr ⟨by simp,rfl⟩)

/-- The keys of the clients are distinct, so the map has each of them. -/
theorem Provisioned.entries (h : Provisioned env dir base mtu server issues w) (fresh : FreshKeys env w.drawn) :
    (insertPairs ∅ (pairsOf (issues.map (Issue.created env base)))).entries =
      ((pairsOf (issues.map (Issue.created env base))).map fun p => ⟨p.1,p.2⟩).reverse := by
  have distinct : ((pairsOf (issues.map (Issue.created env base))).map Prod.fst).Nodup := by
    have keys : (pairsOf (issues.map (Issue.created env base))).map Prod.fst =
        (issues.map Issue.draw).map (keyHex env) := by
      simp [pairsOf,Issue.created]
    rw [keys]
    apply h.draws.map_on
    intro i first j second same
    obtain ⟨a,inA,rfl⟩ := List.mem_map.mp first
    obtain ⟨b,inB,rfl⟩ := List.mem_map.mp second
    exact fresh _ (h.drawn.2 a inA) _ (h.drawn.2 b inB) (bytesToHex_injective _ _ same)
  have entries := insertAll_entries ∅ _ (fun _ _ => AList.notMem_empty _) distinct
  rw [AList.empty_entries,List.append_nil] at entries
  exact entries

theorem Provisioned.mem_entries (h : Provisioned env dir base mtu server issues w) (fresh : FreshKeys env w.drawn) :
    e ∈ (insertPairs ∅ (pairsOf (issues.map (Issue.created env base)))).entries ↔
      ∃ issue ∈ issues, ⟨keyHex env issue.draw,hostIp base issue.host⟩ = e := by
  rw [h.entries fresh,List.mem_reverse,pairsOf,List.map_map,List.map_map]
  exact List.mem_map

theorem serverToken_ne (env : Env) (base gap : Text) (server : Nat) :
    ∀ token ∈ fieldTokens (hostIp base 1 ++ "/24".toList) (seedHex env server) gap, token.1 ≠ "peers".toList := by
  have ip : hostIp base 1 ++ "/24".toList ≠ "peers".toList := by
    intro same
    have slash : '/' ∈ hostIp base 1 ++ "/24".toList := List.mem_append_right _ (by simp)
    rw [same] at slash
    simp at slash
  have seed : seedHex env server ≠ "peers".toList := by
    intro same
    have length := bytesToHex_length (env.seeds server).toList
    rw [seedHex] at same
    rw [same] at length
    simp at length
  simp only [fieldTokens,List.forall_mem_cons,List.not_mem_nil,false_implies,implies_true,and_true]
  exact ⟨by simp,by simp,by simp,ip,by simp,seed,by simp⟩

/-- One more run adds its clients in front of the ones that are there. -/
theorem Provisioned.addclient {added : List Created} (complete : env.Complete) (shape : Base base)
    (mtuValid : validateMtu mtu = .ok ()) (h : Provisioned env dir base mtu server issues w)
    (fresh : FreshKeys env w.drawn) (ok : cmdAddclient env w (serverPath dir :: opts) = (w',.ok added)) :
    ∃ new, Provisioned env dir base mtu server (new ++ issues) w' ∧ added = new.map (Issue.created env base) := by
  obtain ⟨plan,new,w₁,planned,issued,reserved,-,listed,drawn,replaced,-,-,kept⟩ := cmdAddclient_ok complete ok
  obtain ⟨-,loaded,-,-,there,-,cut,net,parsed,used⟩ := addPlan_ok planned
  obtain ⟨block,text,written⟩ := h.text
  have cfg := Except.ok.inj (loaded.symm.trans (h.load shape mtuValid))
  obtain raw := Option.some.inj (there.symm.trans written)
  have tidy : ∀ token ∈ serverTokens (hostIp base 1 ++ "/24".toList) (seedHex env server) (mtuGap mtu headNotes),
      Tidy token := serverTokens_tidy (hostCidr_bare shape 1) (seedHex_bare env server) mtu (by decide +kernel)
  obtain ⟨front,found,whole⟩ := insertionPoint_serverText (t := block)
    (fun token member => tidy token (List.mem_append_left _ member)) (serverToken_ne env base _ server)
  rw [raw,found] at cut
  obtain ⟨sameFront,sameBack⟩ := Prod.mk.inj (Option.some.inj cut)
  rw [cfg] at parsed used issued
  simp only [parseSubnet_host shape (show 1 ≤ 255 by decide)] at parsed
  obtain rfl := Except.ok.inj parsed
  rw [pubkeyOf_seedHex,dirOf_serverPath] at issued
  have sameBase : plan.net.base = base := by rw [used]
  have taken : ∀ issue ∈ issues, (issue.host : Int) ∈ plan.net.used := by
    intro issue member
    rw [used]
    exact List.mem_append_left _ (List.mem_filterMap.mpr
      ⟨_,(h.mem_entries fresh).mpr ⟨issue,member,rfl⟩,hostOctet_host base (by have := h.range issue member; omega)⟩)
  have clients := (h.toClients.issue issued sameBase (by rw [used]) reserved taken).server_written drawn
    fun other apart => kept other (by simpa using apart []) (apart ".bak".toList) (apart ".tmp".toList)
  rw [sameBase] at listed
  refine ⟨new,⟨clients,addEntries added ++ block,?_,?_⟩,listed⟩
  · rw [List.map_append,← listed,pairsOf,List.map_append]
    exact addEntries_text (listed ▸ issue_words shape new) text
  · rw [replaced,← sameFront,← sameBack,whole]

/-- A successful `init` provisions the directory. -/
theorem provisioned_init {added : List Created} (complete : env.Complete)
    (subnet : ∀ cidr, lastOption "--subnet".toList opts = some cidr → Is24 cidr)
    (ok : cmdInit env w (dir :: opts) = (w',.ok added)) :
    ∃ base used mtu issues, Base base ∧ validateMtu (mtu : Nat) = .ok () ∧
      parseSubnet ((lastOption "--subnet".toList opts).getD "10.0.0.0/24".toList) = .ok ⟨base,24,used⟩ ∧
      Provisioned env dir base mtu w.drawn issues w' ∧ added = issues.map (Issue.created env base) := by
  obtain ⟨plan,issues,w₀,w₁,planned,drawn₀,-,issued,reserved,-,listed,drawn,files⟩ := cmdInit_ok complete ok
  obtain ⟨net,mtuValid,parsed,used⟩ := initPlan_ok planned
  have is24 : Is24 ((lastOption "--subnet".toList opts).getD "10.0.0.0/24".toList) := by
    cases named : lastOption "--subnet".toList opts with
    | none => exact ⟨by decide +kernel,_,rfl,by decide +kernel⟩
    | some cidr => exact subnet cidr named
  obtain ⟨base,octets,shape,same⟩ := is24.base
  obtain rfl := Except.ok.inj (parsed.symm.trans same)
  obtain ⟨mtu,number⟩ := Int.eq_ofNat_of_zero_le (show 0 ≤ plan.mtu by have := validateMtu_ok.mp mtuValid; omega)
  rw [number] at issued files mtuValid
  have sameBase : plan.net.base = base := by rw [used]
  have length : plan.net.prefixLen = 24 := by rw [used]
  have none : Clients env dir base mtu w.drawn [] w₀ := .none (by omega)
  have clients := none.issue issued sameBase length reserved (by simp)
  rw [List.append_nil] at clients
  rw [sameBase] at listed
  have text := initEntries_text (listed ▸ issue_words shape issues)
  refine ⟨base,octets,mtu,issues,shape,mtuValid,same,⟨clients.server_written drawn fun other apart => ?_,
    '\n' :: initEntries added,?_,?_⟩,listed⟩
  · apply read_eq
    rw [files,if_neg (by simpa using apart [])]
  · rw [← listed]
    exact text
  · rw [World.read,files,if_pos rfl,length,serverConfig_eq]
    have ip : serverIp plan.net = hostIp base 1 := by rw [serverIp,sameBase]; rfl
    rw [ip]
    rfl

/-- Every run keeps the invariant. -/
theorem Provisioning.provisioned {created : List Created} (complete : env.Complete)
    (subnet : ∀ cidr, lastOption "--subnet".toList opts = some cidr → Is24 cidr)
    (run : Provisioning env dir opts w created) (fresh : FreshKeys env w.drawn) :
    ∃ base used mtu server issues, Base base ∧ validateMtu (mtu : Nat) = .ok () ∧
      parseSubnet ((lastOption "--subnet".toList opts).getD "10.0.0.0/24".toList) = .ok ⟨base,24,used⟩ ∧
      Provisioned env dir base mtu server issues w ∧ created = issues.map (Issue.created env base) := by
  induction run with
  | init ok =>
    obtain ⟨base,used,mtu,issues,shape,mtuValid,parsed,provisioned,listed⟩ := provisioned_init complete subnet ok
    exact ⟨base,used,mtu,_,issues,shape,mtuValid,parsed,provisioned,listed⟩
  | @addclient w clients more w' added earlier ok ih =>
    have older : w.drawn ≤ w'.drawn := by
      obtain ⟨_,new,w₁,-,issued,-,-,-,drawn,-⟩ := cmdAddclient_ok complete ok
      rw [drawn,issued.drawn]
      omega
    have fresh : FreshKeys env w.drawn := fun i low j high same =>
      fresh i (Nat.lt_of_lt_of_le low older) j (Nat.lt_of_lt_of_le high older) same
    obtain ⟨base,used,mtu,server,issues,shape,mtuValid,parsed,provisioned,rfl⟩ := ih fresh
    obtain ⟨new,extended,rfl⟩ := provisioned.addclient complete shape mtuValid fresh ok
    exact ⟨base,used,mtu,server,new ++ issues,shape,mtuValid,parsed,extended,(List.map_append ..).symm⟩

end

/-! ### Soundness -/

/-- What the files of a provisioned directory say: `cfg` is the server's config, `created`
are the clients, `base` the first three octets of the subnet. -/
structure Sound (env : Env) (dir base : Text) (w : World) (created : List Created) (cfg : Config) : Prop where
  loads : loadConfig w.read (serverPath dir) = .ok cfg
  mode : cfg.mode = "server".toList
  /-- The peers are the clients, each once. -/
  entries : (cfg.peers.entries.map fun e => (e.1,e.2)).Perm (created.map fun c => (c.pubkey,c.ip))
  addresses : (cfg.peers.entries.map Sigma.snd).Nodup
  hosts : ∀ e ∈ cfg.peers.entries, ∃ h, 2 ≤ h ∧ h ≤ 254 ∧ e.2 = base ++ '.' :: decimal h
  serverApart : ∀ e ∈ cfg.peers.entries, e.2 ≠ cfg.ipAddress
  files : (created.map Created.name).Nodup
  clients : ∀ c ∈ created, ∃ client, loadConfig w.read c.name = .ok client ∧ client.mode = "client".toList ∧
    cfg.peers.lookup (pubkeyOf env client.seed) = some client.ipAddress ∧
    client.serverKey = pubkeyOf env cfg.seed

theorem Provisioned.sound (h : Provisioned env dir base mtu server issues w) (shape : Base base)
    (mtuValid : validateMtu mtu = .ok ()) (fresh : FreshKeys env w.drawn) :
    ∃ cfg, Sound env dir base w (issues.map (Issue.created env base)) cfg := by
  have entries := h.entries fresh
  refine ⟨_,h.load shape mtuValid,rfl,?_,?_,?_,?_,?_,?_⟩
  · simp only [entries,List.map_reverse]
    refine (List.reverse_perm _).trans (.of_eq ?_)
    simp [pairsOf]
  · simp only [entries,List.map_reverse,List.nodup_reverse]
    have ips : ((pairsOf (issues.map (Issue.created env base))).map fun p => (⟨p.1,p.2⟩ : (_ : Text) × Text)).map
        Sigma.snd = (issues.map Issue.host).map (hostIp base) := by
      simp [pairsOf,Issue.created]
    rw [ips]
    exact h.hosts.map fun _ _ => hostIp_injective
  · intro e member
    obtain ⟨issue,inside,rfl⟩ := (h.mem_entries fresh).mp member
    exact ⟨issue.host,(h.range issue inside).1,(h.range issue inside).2,rfl⟩
  · intro e member
    obtain ⟨issue,inside,rfl⟩ := (h.mem_entries fresh).mp member
    rw [ipAddress_host shape 1 _ rfl]
    intro same
    have low := (h.range issue inside).1
    rw [hostIp_injective same] at low
    omega
  · have names : (issues.map (Issue.created env base)).map Created.name = issues.map Issue.name := by
      simp [Issue.created]
    rw [names]
    exact h.names
  · intro c member
    obtain ⟨issue,inside,rfl⟩ := List.mem_map.mp member
    refine ⟨_,h.load_client shape mtuValid inside,rfl,?_,(pubkeyOf_seedHex env server).symm⟩
    rw [ipAddress_host shape issue.host _ rfl,pubkeyOf_seedHex]
    exact AList.mem_lookup_iff.mpr ((h.mem_entries fresh).mpr ⟨issue,inside,rfl⟩)

/-- Whatever is run after `init`, as long as it succeeds: the files load and agree. -/
theorem provisioning_sound (env : Env) (dir : Text) (opts : List Text) (w : World) (created : List Created)
    (complete : env.Complete) (run : Provisioning env dir opts w created)
    (subnet : ∀ cidr, lastOption "--subnet".toList opts = some cidr → Is24 cidr)
    (fresh : FreshKeys env w.drawn) :
    ∃ net cfg, parseSubnet ((lastOption "--subnet".toList opts).getD "10.0.0.0/24".toList) = .ok net ∧
      Sound env dir net.base w created cfg := by
  obtain ⟨base,used,mtu,server,issues,shape,mtuValid,parsed,provisioned,rfl⟩ :=
    run.provisioned complete subnet fresh
  obtain ⟨cfg,sound⟩ := provisioned.sound shape mtuValid fresh
  exact ⟨_,cfg,parsed,sound⟩

/-- Three Ed25519 seeds with their public keys, in the order they are drawn. -/
def keyPairs : List (Seed × PublicKey) :=
  [(#v[0x9d,0x61,0xb1,0x9d,0xef,0xfd,0x5a,0x60,0xba,0x84,0x4a,0xf4,0x92,0xec,0x2c,0xc4,
      0x44,0x49,0xc5,0x69,0x7b,0x32,0x69,0x19,0x70,0x3b,0xac,0x03,0x1c,0xae,0x7f,0x60],
    #v[0xd7,0x5a,0x98,0x01,0x82,0xb1,0x0a,0xb7,0xd5,0x4b,0xfe,0xd3,0xc9,0x64,0x07,0x3a,
      0x0e,0xe1,0x72,0xf3,0xda,0xa6,0x23,0x25,0xaf,0x02,0x1a,0x68,0xf7,0x07,0x51,0x1a]),
    (#v[0x4c,0xcd,0x08,0x9b,0x28,0xff,0x96,0xda,0x9d,0xb6,0xc3,0x46,0xec,0x11,0x4e,0x0f,
      0x5b,0x8a,0x31,0x9f,0x35,0xab,0xa6,0x24,0xda,0x8c,0xf6,0xed,0x4f,0xb8,0xa6,0xfb],
    #v[0x3d,0x40,0x17,0xc3,0xe8,0x43,0x89,0x5a,0x92,0xb7,0x0a,0xa7,0x4d,0x1b,0x7e,0xbc,
      0x9c,0x98,0x2c,0xcf,0x2e,0xc4,0x96,0x8c,0xc0,0xcd,0x55,0xf1,0x2a,0xf4,0x66,0x0c]),
    (#v[0xc5,0xaa,0x8d,0xf4,0x3f,0x9f,0x83,0x7b,0xed,0xb7,0x44,0x2f,0x31,0xdc,0xb7,0xb1,
      0x66,0xd3,0x85,0x35,0x07,0x6f,0x09,0x4b,0x85,0xce,0x3a,0x2e,0x0b,0x44,0x58,0xf7],
    #v[0xfc,0x51,0xcd,0x8e,0x62,0x18,0xa1,0xa3,0x8d,0xa4,0x7e,0xd0,0x02,0x30,0xf0,0x58,
      0x08,0x16,0xed,0x13,0xba,0x33,0x03,0xac,0x5d,0xeb,0x91,0x15,0x48,0x90,0x80,0x25])]

/-- These keys on a disk without faults. -/
def threeKeys : Env where
  pubkey seed := ((keyPairs.find? fun pair => pair.1 = seed).map Prod.snd).getD (Vector.replicate 32 0)
  seeds draw := (keyPairs[draw]?.map Prod.fst).getD (Vector.replicate 32 0)
  umask := 0o022
  faults _ := .none

/-- `init` of a directory with one client, on an empty disk, and one `addclient` after it. -/
def afterInit : World × Except Text (List Created) := cmdInit threeKeys ⟨∅,0,0,[]⟩ ["vpn".toList]
def afterAddclient : World × Except Text (List Created) :=
  cmdAddclient threeKeys afterInit.1 [serverPath "vpn".toList]

theorem reported {r : World × Except Text (List Created)} {f : Created → α} (h : r.2.toOption.map (List.map f) = some l) :
    ∃ clients, r = (r.1,.ok clients) ∧ clients.map f = l := by
  obtain ⟨clients,found,same⟩ := Option.map_eq_some_iff.mp h
  obtain ⟨w,refusal | clients⟩ := r
  · contradiction
  · obtain rfl := Option.some.inj found
    exact ⟨_,rfl,same⟩

/-- Both runs succeed, and the files agree. -/
theorem provisioning_sound_two :
    ∃ created, created.map Created.ip = ["10.0.0.3".toList,"10.0.0.2".toList] ∧
      Provisioning threeKeys "vpn".toList [] afterAddclient.1 created ∧
      ∃ net cfg, parseSubnet "10.0.0.0/24".toList = .ok net ∧
        Sound threeKeys "vpn".toList net.base afterAddclient.1 created cfg := by
  obtain ⟨first,initOk,firstIps⟩ := reported
    (show afterInit.2.toOption.map (List.map Created.ip) = some ["10.0.0.2".toList] by decide +kernel)
  obtain ⟨second,addOk,secondIps⟩ := reported
    (show afterAddclient.2.toOption.map (List.map Created.ip) = some ["10.0.0.3".toList] by decide +kernel)
  have run : Provisioning threeKeys "vpn".toList [] afterAddclient.1 (second ++ first) :=
    .addclient (.init initOk) addOk
  have drawn : afterAddclient.1.drawn = 3 := by decide +kernel
  have fresh : FreshKeys threeKeys afterAddclient.1.drawn := by
    rw [drawn]
    exact (by decide +kernel : ∀ i < 3, ∀ j < 3,
      threeKeys.pubkey (threeKeys.seeds i) = threeKeys.pubkey (threeKeys.seeds j) → i = j)
  refine ⟨second ++ first,by rw [List.map_append,firstIps,secondIps]; rfl,run,?_⟩
  exact provisioning_sound threeKeys "vpn".toList [] afterAddclient.1 (second ++ first)
    (fun _ _ => by simp [threeKeys]) run (fun _ named => by cases named) fresh

end Nospoon
