import Nospoon.Allocation

/-! What a command that succeeded has done to the disk, once for each command. -/
namespace Nospoon

open Library

variable {env : Env} {w w' : World}

/-! ### Names of client files -/

theorem natOf_zeros (n : Nat) (digits : Text) : natOf (List.replicate n '0' ++ digits) = natOf digits := by
  rw [natOf,Nat.ofDigitChars_append,Nat.ofDigitChars_replicate_zero,Nat.mul_zero]
  rfl

theorem clientName_injective (same : clientName j = clientName k) : j = k := by
  unfold clientName at same
  dsimp only at same
  rw [List.append_assoc,List.append_assoc] at same
  have values := congrArg natOf (List.append_cancel_left same)
  rwa [natOf_zeros,natOf_zeros,natOf_decimal,natOf_decimal] at values

theorem clientPath_injective (same : clientPath dir j = clientPath dir k) : j = k := by
  have front := List.append_cancel_right same
  exact clientName_injective (List.cons.inj (List.append_cancel_left front)).2

/-- No client file has the name `server.jsonc` or one that starts with it. -/
theorem clientPath_ne (dir rest : Text) (k : Nat) : clientPath dir k ≠ serverPath dir ++ rest := by
  intro same
  unfold clientPath serverPath clientName at same
  rw [List.append_assoc dir,List.append_assoc dir] at same
  have tail := List.append_cancel_left same
  simp at tail

theorem dirOf_serverPath (dir : Text) : dirOf (serverPath dir) = dir := by
  have last : splitLast '/' (serverPath dir) = some (dir,"server.jsonc".toList) :=
    splitLast_eq_some.mpr ⟨rfl,by simp⟩
  rw [dirOf,last]
  rfl

theorem freeIndex_spec (files : Files) (dir : Text) (fuel index : Nat) :
    files.lookup (clientPath dir (freeIndex files dir fuel index)) = none ∨
      freeIndex files dir fuel index = index + fuel ∧
        ∀ k, index ≤ k → k < index + fuel → (files.lookup (clientPath dir k)).isSome := by
  induction fuel generalizing index with
  | zero => exact .inr ⟨rfl,fun k low high => by omega⟩
  | succ fuel ih =>
    by_cases taken : (files.lookup (clientPath dir index)).isSome
    · rw [freeIndex,if_pos taken]
      rcases ih (index + 1) with free | ⟨last,below⟩
      · exact .inl free
      · refine .inr ⟨by omega,fun k low high => ?_⟩
        rcases Nat.eq_or_lt_of_le low with rfl | later
        · exact taken
        · exact below k later (by omega)
    · rw [freeIndex,if_neg taken]
      exact .inl (Option.not_isSome_iff_eq_none.mp taken)

/-- The index is free: there are more names to try than files. -/
theorem freeIndex_free (files : Files) (dir : Text) (index : Nat) :
    files.lookup (clientPath dir (freeIndex files dir files.entries.length index)) = none := by
  rcases freeIndex_spec files dir files.entries.length index with free | ⟨last,below⟩
  · exact free
  · by_contra taken
    have tried : (List.range' index (files.entries.length + 1)).map (clientPath dir) ⊆ files.keys := by
      intro name member
      obtain ⟨k,range,rfl⟩ := List.mem_map.mp member
      obtain ⟨low,high⟩ := List.mem_range'_1.mp range
      apply AList.lookup_isSome.mp
      rcases Nat.lt_or_ge k (index + files.entries.length) with inside | outside
      · exact below k low inside
      · have : k = freeIndex files dir files.entries.length index := by omega
        rw [this]
        exact Option.isSome_iff_ne_none.mpr taken
    have distinct : ((List.range' index (files.entries.length + 1)).map (clientPath dir)).Nodup :=
      List.Nodup.map (fun _ _ => clientPath_injective) List.nodup_range'
    have many := (distinct.subperm tried).length_le
    rw [List.length_map,List.length_range',AList.keys,List.keys,List.length_map] at many
    omega

/-! ### Clients -/

def seedHex (env : Env) (draw : Nat) : Text := bytesToHex (env.seeds draw).toList
def keyHex (env : Env) (draw : Nat) : Text := bytesToHex (env.pubkey (env.seeds draw)).toList

theorem pubkeyOf_seedHex (env : Env) (draw : Nat) : pubkeyOf env (seedHex env draw) = keyHex env draw := by
  rw [pubkeyOf,seedHex,hexToBytes_bytesToHex]
  rfl

/-- A client by its file, the number of the draw that gave its seed, and its host octet. -/
structure Issue where
  name : Text
  draw : Nat
  host : Nat

def Issue.created (env : Env) (base : Text) (issue : Issue) : Created :=
  ⟨issue.name,hostIp base issue.host,keyHex env issue.draw⟩

/-- From `w` to `w'` exactly the files of `issues` were written, none of them over another. -/
structure Issued (env : Env) (dir serverPk : Text) (net : Subnet) (mtu : Int) (w : World)
    (issues : List Issue) (w' : World) : Prop where
  draws : issues.map Issue.draw = List.range' w.drawn issues.length
  drawn : w'.drawn = w.drawn + issues.length
  named : ∀ issue ∈ issues, ∃ k, issue.name = clientPath dir k
  free : ∀ issue ∈ issues, w.files.lookup issue.name = none
  distinct : (issues.map Issue.name).Nodup
  wrote : ∀ issue ∈ issues, w'.read issue.name = some (clientConfig serverPk (hostIp net.base issue.host)
    net.prefixLen (seedHex env issue.draw) mtu)
  kept : ∀ other, other ∉ issues.map Issue.name → w'.files.lookup other = w.files.lookup other

theorem read_eq (same : w'.files.lookup path = w.files.lookup path) : w'.read path = w.read path := by
  rw [World.read,World.read,same]

/-- A file that was there is still there. -/
theorem Issued.read_kept (issued : Issued env dir serverPk net mtu w issues w') (there : w.read path = some text) :
    w'.read path = some text := by
  refine (read_eq (issued.kept path fun member => ?_)).trans there
  obtain ⟨issue,inside,rfl⟩ := List.mem_map.mp member
  rw [World.read,issued.free issue inside] at there
  contradiction

theorem writeClients_ok {clients : List Created} (complete : env.Complete)
    (h : writeClients env w dir serverPk net mtu first hosts = (w',.ok clients)) :
    ∃ issues, Issued env dir serverPk net mtu w issues w' ∧ issues.map Issue.host = hosts ∧
      clients = issues.map (Issue.created env net.base) := by
  induction hosts generalizing w first clients with
  | nil =>
    obtain ⟨rfl,same⟩ := Prod.mk.inj h
    obtain rfl := Except.ok.inj same
    exact ⟨[],⟨rfl,rfl,by simp,by simp,by simp,by simp,fun _ _ => rfl⟩,rfl,rfl⟩
  | cons host hosts ih =>
    simp only [writeClients,newSeedHex] at h
    generalize named : clientPath dir (freeIndex w.files dir w.files.entries.length first) = name at h
    have free : w.files.lookup name = none := named ▸ freeIndex_free w.files dir first
    split at h
    · cases h
    · rename_i w₁ written
      split at h
      · cases h
      · rename_i w₂ later rest
        obtain ⟨rfl,same⟩ := Prod.mk.inj h
        obtain rfl := Except.ok.inj same
        obtain ⟨drawn,files⟩ := writeSecret_ok complete written
        obtain ⟨issues,issued,reserved,rfl⟩ := ih rest
        have there : w₁.files.lookup name = some ⟨clientConfig serverPk (hostIp net.base host) net.prefixLen
            (seedHex env w.drawn) mtu,0o600⟩ := by
          rw [files,if_pos rfl]
          rfl
        have apart : ∀ issue ∈ issues, issue.name ≠ name := by
          intro issue member same
          have none := issued.free issue member
          rw [same,there] at none
          contradiction
        refine ⟨⟨name,w.drawn,host⟩ :: issues,⟨?_,?_,?_,?_,?_,?_,?_⟩,?_,?_⟩
        · rw [List.map_cons,issued.draws,drawn]
          rfl
        · rw [issued.drawn,drawn,List.length_cons]
          simp only
          omega
        · exact List.forall_mem_cons.mpr ⟨⟨_,named.symm⟩,issued.named⟩
        · refine List.forall_mem_cons.mpr ⟨free,fun issue member => ?_⟩
          have none := issued.free issue member
          rwa [files,if_neg (apart issue member)] at none
        · refine List.nodup_cons.mpr ⟨fun member => ?_,issued.distinct⟩
          obtain ⟨issue,member,same⟩ := List.mem_map.mp member
          exact apart issue member same
        · refine List.forall_mem_cons.mpr ⟨issued.read_kept ?_,issued.wrote⟩
          rw [World.read,there]
          rfl
        · intro other outside
          obtain ⟨differs,outside⟩ := not_or.mp (List.mem_cons.not.mp outside)
          rw [issued.kept other outside,files,if_neg differs]
        · rw [List.map_cons,reserved]
        · rw [List.map_cons]
          exact congrArg (· :: _) (congrArg (Created.mk name _) (pubkeyOf_seedHex env w.drawn))

theorem reserveHosts_length_le (n : Nat) (net : Subnet) : (reserveHosts n net).length ≤ n := by
  induction n generalizing net with
  | zero => simp [reserveHosts]
  | succ n ih =>
    unfold reserveHosts
    cases nextHost net with
    | none => simp
    | some r => simpa using ih r.2

theorem makeClients_ok {clients : List Created} (complete : env.Complete)
    (h : makeClients env w n dir serverPk net mtu first = (w',.ok clients)) :
    ∃ issues, Issued env dir serverPk net mtu w issues w' ∧ issues.map Issue.host = reserveHosts n net ∧
      issues.length = n ∧ clients = issues.map (Issue.created env net.base) := by
  unfold makeClients at h
  dsimp only at h
  split_ifs at h with short
  · cases h
  · obtain ⟨issues,issued,reserved,listed⟩ := writeClients_ok complete h
    have length := congrArg List.length reserved
    rw [List.length_map] at length
    have bound := reserveHosts_length_le n net
    exact ⟨issues,issued,reserved,by omega,listed⟩

/-! ### Commands -/

theorem initPlan_ok {plan : InitPlan} (h : initPlan opts = .ok plan) :
    ∃ net, validateMtu plan.mtu = .ok () ∧
      parseSubnet ((lastOption "--subnet".toList opts).getD "10.0.0.0/24".toList) = .ok net ∧
      plan.net = { net with used := [0,1] } := by
  unfold initPlan at h
  obtain ⟨n,counted,h⟩ := bind_ok.mp h
  dsimp only at h
  obtain ⟨mtuValid,h⟩ := seq_ok.mp h
  obtain ⟨net,parsed,h⟩ := bind_ok.mp h
  obtain rfl := Except.ok.inj h
  exact ⟨net,mtuValid,parsed,rfl⟩

theorem cmdInit_ok {clients : List Created} (complete : env.Complete)
    (h : cmdInit env w (dir :: opts) = (w',.ok clients)) :
    ∃ plan issues w₀ w₁, initPlan opts = .ok plan ∧ w₀.drawn = w.drawn + 1 ∧ w₀.files = w.files ∧
      Issued env dir (keyHex env w.drawn) plan.net plan.mtu w₀ issues w₁ ∧
      issues.map Issue.host = reserveHosts plan.n plan.net ∧ issues.length = plan.n ∧
      clients = issues.map (Issue.created env plan.net.base) ∧ w'.drawn = w₁.drawn ∧
      ∀ other, w'.files.lookup other = if other = serverPath dir then
        some ⟨serverConfig (serverHead (serverIp plan.net) plan.net.prefixLen (seedHex env w.drawn) plan.mtu) clients,0o600⟩
      else w₁.files.lookup other := by
  unfold cmdInit at h
  dsimp only at h
  split at h
  · cases h
  · rename_i plan planned
    split at h
    · cases h
    · rename_i v₀ created
      split at h
      · cases h
      · rename_i v₁ tightened
        obtain rfl := World.attempt_ok created
        obtain rfl := World.attempt_ok tightened
        simp only [newSeedHex] at h
        split at h
        · cases h
        · rename_i w₁ issuedClients made
          split at h
          · cases h
          · rename_i w₂ written
            obtain ⟨rfl,same⟩ := Prod.mk.inj h
            obtain rfl := Except.ok.inj same
            obtain ⟨issues,issued,reserved,length,listed⟩ := makeClients_ok complete made
            obtain ⟨drawn,files⟩ := writeSecret_ok complete written
            have pk := pubkeyOf_seedHex env w.drawn
            rw [seedHex] at pk
            simp only [World.did_drawn,pk] at issued files
            refine ⟨plan,issues,_,w₁,planned,?_,?_,issued,reserved,length,listed,drawn,files⟩
            · rfl
            · rfl

/-- Backup and replacement: the path holds the new text, the backup the old one, the
temporary file is gone and everything else is as it was. -/
theorem replaceServer_ok (complete : env.Complete) (h : replaceServer env w path raw updated = (w',.ok ())) :
    w'.drawn = w.drawn ∧ w'.read path = some updated ∧ w'.read (bakOf path) = some raw ∧
      w'.read (tmpOf path) = none ∧
      ∀ other, other ≠ path → other ≠ bakOf path → other ≠ tmpOf path → w'.read other = w.read other := by
  unfold replaceServer at h
  split at h
  · cases h
  · rename_i w₁ backed
    split at h
    · cases h
    · rename_i w₂ written
      obtain ⟨drawn₁,files₁⟩ := writeSecret_ok complete backed
      obtain ⟨drawn₂,files₂⟩ := writeSecret_ok complete written
      split at h
      · cases h
      · rename_i w₃ renamed
        obtain rfl := (Prod.mk.inj h).1
        simp only [World.rename,files₂,↓reduceIte] at renamed
        obtain rfl := World.attempt_ok renamed
        have bakApart : bakOf path ≠ path ∧ bakOf path ≠ tmpOf path := by simp [bakOf,tmpOf]
        have tmpApart : tmpOf path ≠ path := by simp [tmpOf]
        refine ⟨drawn₂.trans drawn₁,?_,?_,?_,fun other noPath noBak noTmp => ?_⟩
        · simp [World.read]
        · rw [World.read,World.did_files,AList.lookup_insert_ne bakApart.1,AList.lookup_erase_ne bakApart.2,files₂,
            if_neg bakApart.2,files₁,if_pos rfl]
          rfl
        · rw [World.read,World.did_files,AList.lookup_insert_ne tmpApart,AList.lookup_erase]
          rfl
        · apply read_eq
          rw [World.did_files,AList.lookup_insert_ne noPath,AList.lookup_erase_ne noTmp,files₂,if_neg noTmp,
            files₁,if_neg noBak]

theorem cmdAddclient_ok {clients : List Created} (complete : env.Complete)
    (h : cmdAddclient env w (path :: opts) = (w',.ok clients)) :
    ∃ plan issues w₁, addPlan w.read path opts = .ok plan ∧
      Issued env (dirOf path) (pubkeyOf env plan.cfg.seed) plan.net plan.cfg.mtu w issues w₁ ∧
      issues.map Issue.host = reserveHosts plan.n plan.net ∧ issues.length = plan.n ∧
      clients = issues.map (Issue.created env plan.net.base) ∧ w'.drawn = w₁.drawn ∧
      w'.read path = some (plan.front ++ addEntries clients ++ plan.back) ∧
      w'.read (bakOf path) = some plan.raw ∧ w'.read (tmpOf path) = none ∧
      ∀ other, other ≠ path → other ≠ bakOf path → other ≠ tmpOf path → w'.read other = w₁.read other := by
  unfold cmdAddclient at h
  dsimp only at h
  split at h
  · cases h
  · rename_i plan planned
    split at h
    · cases h
    · rename_i w₁ made issuedClients
      split at h
      · cases h
      · rename_i w₂ replaced
        obtain ⟨rfl,same⟩ := Prod.mk.inj h
        obtain rfl := Except.ok.inj same
        obtain ⟨issues,issued,reserved,length,listed⟩ := makeClients_ok complete issuedClients
        obtain ⟨drawn,there,bak,tmp,kept⟩ := replaceServer_ok complete replaced
        exact ⟨plan,issues,w₁,planned,issued,reserved,length,listed,drawn,there,bak,tmp,kept⟩

theorem parseCount_pos (h : parseCount opts n = .ok m) (positive : 1 ≤ n) : 1 ≤ m := by
  induction opts generalizing n with
  | nil => exact Except.ok.inj h ▸ positive
  | cons arg rest ih =>
    cases rest with
    | nil => exact Except.ok.inj h ▸ positive
    | cons value rest =>
      simp only [parseCount] at h
      split_ifs at h with here bad
      · exact ih h (by omega)
      · exact ih h positive

theorem addPlan_ok {read : Text → Option Text} {plan : AddPlan} (h : addPlan read path opts = .ok plan) :
    parseCount opts 1 = .ok plan.n ∧ loadConfig read path = .ok plan.cfg ∧
      plan.cfg.mode = "server".toList ∧ plan.cfg.seed ≠ [] ∧
      read path = some plan.raw ∧ findKey "peers".toList (stripComments plan.raw) ≠ none ∧
      insertionPoint plan.raw = some (plan.front,plan.back) ∧
      ∃ net, parseSubnet plan.cfg.ip = .ok net ∧ plan.net =
        { net with used := (plan.cfg.peers.entries.filterMap fun e => hostOctet e.2) ++ net.used } := by
  unfold addPlan at h
  obtain ⟨n,counted,h⟩ := bind_ok.mp h
  obtain ⟨cfg,loaded,h⟩ := bind_ok.mp h
  split_ifs at h with wrong seedless
  split at h
  · cases h
  · rename_i raw there
    split_ifs at h with peerless
    split at h
    · cases h
    · rename_i front back cut
      obtain ⟨net,parsed,h⟩ := bind_ok.mp h
      obtain rfl := Except.ok.inj h
      exact ⟨counted,loaded,not_not.mp wrong,seedless,there,peerless,cut,net,parsed,rfl⟩

end Nospoon
