import Nospoon.Provisioning

/-! Which hosts `addclient` gives to new clients: the smallest octets that neither the
server nor a peer has, and none at all where they do not suffice. -/
namespace Nospoon

open Library

/-! ### The smallest of a list -/

/-- The `n` smallest of the numbers with `p`. -/
structure Smallest (p : Nat → Prop) (n : Nat) (hosts : List Nat) : Prop where
  length : hosts.length = n
  ascending : hosts.Pairwise (· < ·)
  sound : ∀ h ∈ hosts, p h
  least : ∀ h, p h → h ∉ hosts → ∀ host ∈ hosts, host < h

/-- Fewer than `n` numbers have `p`. -/
def FewerThan (p : Nat → Prop) (n : Nat) : Prop := ∀ hosts : List Nat, hosts.Nodup → (∀ h ∈ hosts, p h) → hosts.length < n

section Smallest

variable {p : Nat → Prop} {all : List Nat}

theorem smallest_take (ascending : all.Pairwise (· < ·)) (members : ∀ h, h ∈ all ↔ p h) (room : n ≤ all.length) :
    Smallest p n (all.take n) := by
  have split : all.take n ++ all.drop n = all := List.take_append_drop n all
  obtain ⟨front,-,apart⟩ := List.pairwise_append.mp (split.symm ▸ ascending)
  refine ⟨List.length_take_of_le room,front,fun h member => (members h).mp (List.mem_of_mem_take member),?_⟩
  intro h has outside host member
  have inside : h ∈ all.take n ++ all.drop n := by
    rw [split]
    exact (members h).mpr has
  exact apart host member h ((List.mem_append.mp inside).resolve_left outside)

theorem fewerThan_of_length (members : ∀ h, h ∈ all ↔ p h) (short : all.length < n) : FewerThan p n := by
  intro hosts distinct sound
  have inside : hosts ⊆ all := fun h member => (members h).mpr (sound h member)
  exact lt_of_le_of_lt (distinct.subperm inside).length_le short

end Smallest

/-! ### Reserved hosts in order -/

/-- The octets that are left, in order. -/
def Subnet.free (net : Subnet) : List Nat := (List.range' 2 253).filter fun h : Nat => (h : Int) ∉ net.used

theorem Subnet.mem_free {net : Subnet} : h ∈ net.free ↔ 2 ≤ h ∧ h ≤ 254 ∧ (h : Int) ∉ net.used := by
  rw [Subnet.free,List.mem_filter,List.mem_range'_1,decide_eq_true_eq,and_assoc]
  exact and_congr_right fun _ => and_congr_left fun _ => by omega

theorem Subnet.free_ascending (net : Subnet) : net.free.Pairwise (· < ·) := by
  apply List.Pairwise.filter
  exact List.pairwise_lt_range'

/-- The first free octet is reserved, and the others stay free. -/
theorem nextHost_free (net : Subnet) : nextHost net = net.free.head?.map fun h =>
    (h,{ net with used := (h : Int) :: net.used }) := by
  rw [nextHost,Subnet.free,List.head?_filter]

theorem free_reserved {net : Subnet} (order : net.free = h :: rest) :
    ({ net with used := (h : Int) :: net.used } : Subnet).free = rest := by
  have distinct : net.free.Nodup := net.free_ascending.imp Nat.ne_of_lt
  have others : ({ net with used := (h : Int) :: net.used } : Subnet).free = net.free.filter fun x => x ≠ h := by
    rw [Subnet.free,Subnet.free,List.filter_filter]
    apply List.filter_congr
    intro x _
    simp [not_or]
  rw [others,order,List.filter_cons_of_neg (by simp)]
  rw [order,List.nodup_cons] at distinct
  exact List.filter_eq_self.mpr fun x member => decide_eq_true fun same => distinct.1 (same ▸ member)

theorem reserveHosts_eq (n : Nat) (net : Subnet) : reserveHosts n net = net.free.take n := by
  induction n generalizing net with
  | zero => rfl
  | succ n ih =>
    rw [reserveHosts,nextHost_free]
    cases order : net.free with
    | nil => rfl
    | cons h rest =>
      have later := ih { net with used := (h : Int) :: net.used }
      rw [free_reserved order] at later
      exact congrArg (h :: ·) later

/-! ### addclient -/

/-- An octet that a new client may get. -/
structure FreeHost (server : Nat) (peers : PeersMap) (h : Nat) : Prop where
  low : 2 ≤ h
  high : h ≤ 254
  notServer : h ≠ server
  notPeer : ∀ key ip, peers.lookup key = some ip → hostOctet ip ≠ some (h : Int)

theorem mem_used {peers : PeersMap} : octet ∈ peers.entries.filterMap (fun e => hostOctet e.2) ↔
    ∃ key ip, peers.lookup key = some ip ∧ hostOctet ip = some octet := by
  rw [List.mem_filterMap]
  constructor
  · rintro ⟨⟨key,ip⟩,member,found⟩
    exact ⟨key,ip,AList.mem_lookup_iff.mpr member,found⟩
  · rintro ⟨key,ip,stored,found⟩
    exact ⟨⟨key,ip⟩,AList.mem_lookup_iff.mp stored,found⟩

/-- The subnet of a plan: the base of the server's address, with the octets of the server
and its peers taken. -/
theorem addPlan_net {read : Text → Option Text} {plan : AddPlan} (planned : addPlan read path opts = .ok plan) :
    ∃ octet length, Base plan.net.base ∧ Octet octet ∧ plan.cfg.ip = plan.net.base ++ '.' :: octet ++ '/' :: length ∧
      ∀ h, h ∈ plan.net.free ↔ FreeHost (natOf octet) plan.cfg.peers h := by
  obtain ⟨-,loaded,-,-,-,-,-,net,parsed,taken⟩ := addPlan_ok planned
  obtain ⟨raw,-,accepted,resolved⟩ := (loadConfig_ok read path plan.cfg).mp loaded
  have same : plan.cfg.ip = (extract (stripComments raw)).ip := by rw [resolveSeed_fields resolved]
  obtain ⟨base,octet,length,shape,values,-,-,ip⟩ := validateCidr_base accepted.ip
  rw [← same] at ip
  have there := parseSubnet_octet shape values length
  rw [← ip,parsed] at there
  obtain rfl := Except.ok.inj there
  rw [taken]
  refine ⟨octet,length,shape,values,ip,fun h => ?_⟩
  rw [Subnet.mem_free,List.mem_append,mem_used,List.mem_singleton,not_or]
  constructor
  · rintro ⟨low,high,noPeer,noServer⟩
    refine ⟨low,high,fun same => noServer (congrArg _ same),fun key ip stored found => ?_⟩
    exact noPeer ⟨key,ip,stored,found⟩
  · rintro ⟨low,high,noServer,noPeer⟩
    refine ⟨low,high,?_,fun same => noServer (Int.ofNat_inj.mp same)⟩
    rintro ⟨key,ip,stored,found⟩
    exact noPeer key ip stored found

/-- Clients come with the addresses of their hosts, in the order of the hosts. -/
theorem writeClients_ips {w w' : World} {clients : List Created} (h : writeClients env w dir serverPk net mtu first hosts = (w',.ok clients)) :
    clients.map Created.ip = hosts.map (hostIp net.base) := by
  induction hosts generalizing w w' first clients with
  | nil =>
    obtain rfl := Except.ok.inj (Prod.mk.inj h).2
    rfl
  | cons host hosts ih =>
    simp only [writeClients,newSeedHex] at h
    split at h
    · cases h
    · split at h
      · cases h
      · rename_i later rest
        obtain rfl := Except.ok.inj (Prod.mk.inj h).2
        rw [List.map_cons,List.map_cons,ih rest]
        rfl

/-- The outcomes of a call for `n` clients over the subnet of a plan: it goes on to write
clients with these addresses, or it is refused before it writes anything. -/
structure Allocates (env : Env) (w : World) (plan : AddPlan) (n : Nat) (dir serverPk : Text) (first : Nat)
    (free : Nat → Prop) : Prop where
  room : ¬FewerThan free n → ∃ hosts, Smallest free n hosts ∧
    makeClients env w n dir serverPk plan.net plan.cfg.mtu first =
      writeClients env w dir serverPk plan.net plan.cfg.mtu first hosts ∧
    ∀ w' clients, makeClients env w n dir serverPk plan.net plan.cfg.mtu first = (w',.ok clients) →
      clients.map Created.ip = hosts.map (hostIp plan.net.base)
  exhausted : FewerThan free n →
    ∃ refusal, makeClients env w n dir serverPk plan.net plan.cfg.mtu first = (w,.error refusal)
  distinct : ∀ w' clients, makeClients env w n dir serverPk plan.net plan.cfg.mtu first = (w',.ok clients) →
    (clients.map Created.ip).Nodup ∧ ∀ client ∈ clients, ∀ key ip, plan.cfg.peers.lookup key = some ip → client.ip ≠ ip

theorem makeClients_allocates {plan : AddPlan} (members : ∀ h, h ∈ plan.net.free ↔ FreeHost server plan.cfg.peers h)
    (env : Env) (w : World) (n : Nat) (dir serverPk : Text) (first : Nat) :
    Allocates env w plan n dir serverPk first (FreeHost server plan.cfg.peers) := by
  have hosts : reserveHosts n plan.net = plan.net.free.take n := reserveHosts_eq n plan.net
  have distinct : plan.net.free.Nodup := plan.net.free_ascending.imp Nat.ne_of_lt
  by_cases short : plan.net.free.length < n
  · have refused : ∃ refusal, makeClients env w n dir serverPk plan.net plan.cfg.mtu first = (w,.error refusal) := by
      refine ⟨_,if_pos ?_⟩
      rw [hosts,List.length_take]
      omega
    obtain ⟨refusal,same⟩ := refused
    refine ⟨fun enough => absurd (fewerThan_of_length members short) enough,fun _ => ⟨refusal,same⟩,fun w' clients ok => ?_⟩
    rw [same] at ok
    exact absurd (Prod.mk.inj ok).2 (by simp)
  · have room : n ≤ plan.net.free.length := Nat.le_of_not_lt short
    have smallest := smallest_take plan.net.free_ascending members room
    have same : makeClients env w n dir serverPk plan.net plan.cfg.mtu first =
        writeClients env w dir serverPk plan.net plan.cfg.mtu first (plan.net.free.take n) := by
      rw [← hosts]
      apply if_neg
      rw [hosts,smallest.length]
      exact Nat.lt_irrefl n
    refine ⟨fun _ => ⟨_,smallest,same,fun w' clients ok => writeClients_ips (same ▸ ok)⟩,fun fewer => ?_,
      fun w' clients ok => ?_⟩
    · have less := fewer _ (distinct.sublist (List.take_sublist n _)) smallest.sound
      exact absurd less (by rw [smallest.length]; exact Nat.lt_irrefl n)
    · have ips := writeClients_ips (same ▸ ok)
      refine ⟨?_,fun client member key ip stored taken => ?_⟩
      · rw [ips]
        exact (distinct.sublist (List.take_sublist n _)).map fun _ _ => hostIp_injective
      · have inside : client.ip ∈ (plan.net.free.take n).map (hostIp plan.net.base) := ips ▸ List.mem_map_of_mem member
        obtain ⟨host,reserved,assigned⟩ := List.mem_map.mp inside
        have free := smallest.sound host reserved
        have peer := free.notPeer key ip stored
        have high := free.high
        rw [← taken,← assigned,hostOctet_host _ (by omega)] at peer
        exact peer rfl

/-- The clients of a command that ends well are those it made for its plan. -/
theorem cmdAddclient_made {plan : AddPlan} {clients : List Created} (planned : addPlan w.read path opts = .ok plan)
    (ok : cmdAddclient env w (path :: opts) = (w',.ok clients)) :
    ∃ w₁, makeClients env w plan.n (dirOf path) (pubkeyOf env plan.cfg.seed) plan.net plan.cfg.mtu
      (plan.cfg.peers.entries.length + 1) = (w₁,.ok clients) := by
  simp only [cmdAddclient,planned] at ok
  split at ok
  · cases (Prod.mk.inj ok).2
  · rename_i w₁ made rest
    split at ok
    · cases (Prod.mk.inj ok).2
    · obtain ⟨-,same⟩ := Prod.mk.inj ok
      exact ⟨w₁,Except.ok.inj same ▸ rest⟩

/-- Every plan of `addclient`, for every number of clients, and the command itself for its
own number. -/
theorem addclient_allocates (env : Env) (w : World) (path : Text) (opts : List Text) (plan : AddPlan)
    (planned : addPlan w.read path opts = .ok plan) :
    ∃ octet length, Base plan.net.base ∧ Octet octet ∧
      plan.cfg.ip = plan.net.base ++ '.' :: octet ++ '/' :: length ∧
      (∀ w₀ n dir serverPk first,
        Allocates env w₀ plan n dir serverPk first (FreeHost (natOf octet) plan.cfg.peers)) ∧
      (FewerThan (FreeHost (natOf octet) plan.cfg.peers) plan.n →
        ∃ refusal, cmdAddclient env w (path :: opts) = (w,.error refusal)) ∧
      ∀ w' clients, cmdAddclient env w (path :: opts) = (w',.ok clients) →
        ∃ hosts, Smallest (FreeHost (natOf octet) plan.cfg.peers) plan.n hosts ∧
          clients.map Created.ip = hosts.map (hostIp plan.net.base) := by
  obtain ⟨octet,length,shape,values,ip,members⟩ := addPlan_net planned
  have allocates (w₀ n dir serverPk first) := makeClients_allocates members env w₀ n dir serverPk first
  have own := allocates w plan.n (dirOf path) (pubkeyOf env plan.cfg.seed) (plan.cfg.peers.entries.length + 1)
  refine ⟨octet,length,shape,values,ip,allocates,fun fewer => ?_,fun w' clients ok => ?_⟩
  · obtain ⟨refusal,refused⟩ := own.exhausted fewer
    refine ⟨refusal,?_⟩
    rw [cmdAddclient,planned]
    simp only [refused]
  · obtain ⟨w₁,made⟩ := cmdAddclient_made planned ok
    have enough : ¬FewerThan (FreeHost (natOf octet) plan.cfg.peers) plan.n := by
      intro fewer
      obtain ⟨refusal,refused⟩ := own.exhausted fewer
      rw [refused] at made
      cases (Prod.mk.inj made).2
    obtain ⟨hosts,smallest,-,ips⟩ := own.room enough
    exact ⟨hosts,smallest,ips w₁ clients made⟩

/-- A server config as `init` writes it, with one client. -/
theorem addclient_allocates_init : ∃ plan, addPlan afterInit.1.read (serverPath "vpn".toList) [] = .ok plan ∧
    ∃ octet length, Base plan.net.base ∧ Octet octet ∧
      plan.cfg.ip = plan.net.base ++ '.' :: octet ++ '/' :: length ∧
      (∀ w₀ n dir serverPk first,
        Allocates threeKeys w₀ plan n dir serverPk first (FreeHost (natOf octet) plan.cfg.peers)) ∧
      (FewerThan (FreeHost (natOf octet) plan.cfg.peers) plan.n →
        ∃ refusal, cmdAddclient threeKeys afterInit.1 [serverPath "vpn".toList] = (afterInit.1,.error refusal)) ∧
      ∀ w' clients, cmdAddclient threeKeys afterInit.1 [serverPath "vpn".toList] = (w',.ok clients) →
        ∃ hosts, Smallest (FreeHost (natOf octet) plan.cfg.peers) plan.n hosts ∧
          clients.map Created.ip = hosts.map (hostIp plan.net.base) := by
  obtain ⟨plan,planned,-⟩ := exists_accepted (addPlan afterInit.1.read (serverPath "vpn".toList) []) (fun _ => true)
    (by decide +kernel)
  exact ⟨plan,planned,addclient_allocates threeKeys afterInit.1 (serverPath "vpn".toList) [] plan planned⟩

end Nospoon
