import Nospoon.Insertion
import Nospoon.Provisioning

/-! What `addclient` does to the meaning of a server config, whoever wrote it. -/
namespace Nospoon

open Library

variable {env : Env} {w w' : World}

/-- The new file loads with the old fields, and the new pairs join the old peers. -/
def Preserves (read : Text → Option Text) (path : Text) (cfg : Config) (clients : List Created) : Prop :=
  ∃ cfg', loadConfig read path = .ok cfg' ∧ cfg' = { cfg with peers := cfg'.peers } ∧
    ∀ key ip, cfg'.peers.lookup key = some ip ↔
      cfg.peers.lookup key = some ip ∨ ∃ client ∈ clients, client.pubkey = key ∧ client.ip = ip

/-- Without an inline seed, the seed file is none of the files that `addclient` replaces. -/
def SeedStays (path : Text) (fields : Config) : Prop :=
  fields.seed = [] → fields.seedFile ≠ bakOf path ∧ fields.seedFile ≠ tmpOf path

instance (path : Text) (fields : Config) : Decidable (SeedStays path fields) := inferInstanceAs (Decidable (_ → _))

/-- The values read as strings, in the order of `stringFields`. -/
def Config.strings (cfg : Config) : List Text :=
  [cfg.mode,cfg.ip,cfg.ipv6,cfg.seed,cfg.seedFile,cfg.serverKey,cfg.outIface]

theorem extract_strings (json : Text) : (extract json).strings = stringFields.map (jsonString json) := rfl

/-- A new key that is no value of the config, and stands nowhere in its text, whichever
comments are taken out. -/
structure Unseen (raw : Text) (cfg : Config) (client : Created) : Prop where
  fields : client.pubkey ∉ cfg.strings
  text : ∀ rest, rest <:+ raw → ¬client.pubkey <:+: stripComments rest

/-! ### Peers -/

theorem lookup_pairsOf {clients : List Created} (distinct : (clients.map Created.pubkey).Nodup) :
    (insertPairs ∅ (pairsOf clients)).lookup k = some a ↔ ∃ client ∈ clients, client.pubkey = k ∧ client.ip = a := by
  have keys : ((pairsOf clients).map Prod.fst).Nodup := by
    rw [pairsOf,List.map_map]
    exact distinct
  have listed : (insertPairs ∅ (pairsOf clients)).lookup k = some a ↔ (k,a) ∈ pairsOf clients := lookup_insertAll_iff keys
  rw [listed]
  simp [pairsOf]

/-- Old pairs read behind the new ones change none of them, when the new keys are new. -/
theorem lookup_added {clients : List Created} (distinct : (clients.map Created.pubkey).Nodup)
    (absent : ∀ client ∈ clients, client.pubkey ∉ insertPairs ∅ pairs) :
    (insertPairs ∅ (pairsOf clients ++ pairs)).lookup k = some a ↔
      (insertPairs ∅ pairs).lookup k = some a ∨ ∃ client ∈ clients, client.pubkey = k ∧ client.ip = a := by
  have either : (insertPairs ∅ (pairsOf clients ++ pairs)).lookup k =
      ((insertPairs ∅ pairs).lookup k).or ((insertPairs ∅ (pairsOf clients)).lookup k) := by
    rw [insertPairs_append]
    exact lookup_insertAll_or _ pairs k
  rw [either,← lookup_pairsOf distinct]
  cases old : (insertPairs ∅ pairs).lookup k with
  | none => simp
  | some b =>
    have new : (insertPairs ∅ (pairsOf clients)).lookup k ≠ some a := by
      intro here
      obtain ⟨client,member,rfl,-⟩ := (lookup_pairsOf distinct).mp here
      exact absent client member (AList.lookup_isSome.mp (by rw [old]; rfl))
    simp [new]

/-! ### Seeds -/

theorem mem_rdropWhile {s : Text} {f : Char → Bool} (stays : f c = false) (member : c ∈ s) : c ∈ s.rdropWhile f := by
  rw [List.rdropWhile,List.mem_reverse]
  rw [← List.mem_reverse] at member
  have split := List.takeWhile_append_dropWhile (p := f) (l := s.reverse)
  rw [← split] at member
  rcases List.mem_append.mp member with here | there
  · have blank := List.mem_takeWhile_imp here
    rw [stays] at blank
    contradiction
  · exact there

/-- A config is no seed file. -/
theorem config_not_seed (cut : insertionPoint raw = some (front,back)) (label : Text) :
    validateHex64 (raw.rdropWhile isBlank) label ≠ .ok () := by
  intro valid
  obtain ⟨lead,gap,-,rfl,-⟩ := insertionPoint_eq_some cut
  have quote : '"' ∈ (lead ++ '"' :: gap ++ '{' :: back).rdropWhile isBlank := mem_rdropWhile rfl (by simp)
  exact absurd ((validateHex64_ok.mp valid).2 _ quote) (by decide)

/-- The same fields with other peers resolve to the same seed when the seed file reads the same. -/
theorem resolveSeed_moved {read read' : Text → Option Text} {fields cfg : Config} (peers : PeersMap)
    (accepted : fields.Accepted read) (resolved : resolveSeed read fields = .ok cfg)
    (same : fields.seed = [] → fields.seedFile ≠ [] → read' fields.seedFile = read fields.seedFile) :
    ({ fields with peers } : Config).Accepted read' ∧
      resolveSeed read' { fields with peers } = .ok { cfg with peers } := by
  constructor
  · refine ⟨accepted.mode,accepted.ip,accepted.ipv6,accepted.seed,accepted.serverKey,accepted.mtu,?_⟩
    intro inline external
    obtain ⟨content,found,valid⟩ := accepted.seedFile inline external
    exact ⟨content,(same inline external).trans found,valid⟩
  · rcases (resolveSeed_ok read fields cfg).mp resolved with ⟨inline,external,content,found,valid,rfl⟩ | ⟨settled,rfl⟩
    · exact (resolveSeed_ok read' _ _).mpr
        (.inl ⟨inline,external,content,(same inline external).trans found,valid,rfl⟩)
    · exact (resolveSeed_ok read' _ _).mpr (.inr ⟨settled,rfl⟩)

/-- An inline seed is taken as it is. -/
theorem resolveSeed_inline {read : Text → Option Text} (resolved : resolveSeed read fields = .ok cfg)
    (inline : fields.seed ≠ []) : cfg = fields := by
  rcases (resolveSeed_ok read fields cfg).mp resolved with ⟨missing,-⟩ | ⟨-,same⟩
  · exact absurd missing inline
  · exact same

/-- Resolving drops no value. -/
theorem resolveSeed_strings {read : Text → Option Text} (resolved : resolveSeed read fields = .ok cfg)
    (nonempty : value ≠ []) (member : value ∈ fields.strings) : value ∈ cfg.strings := by
  rcases (resolveSeed_ok read fields cfg).mp resolved with ⟨missing,-,content,-,-,rfl⟩ | ⟨-,rfl⟩
  · simp only [Config.strings,missing,List.mem_cons,List.not_mem_nil,or_false] at member ⊢
    tauto
  · exact member

/-- A seed that read otherwise after an insertion would show in the config, or be refused. -/
theorem seed_unmoved {read : Text → Option Text} (accepted : fields.Accepted read)
    (resolved : resolveSeed read fields = .ok cfg) (nonempty : key ≠ []) (unseen : key ∉ cfg.strings)
    (reads : fields.seed = old ∨ fields.seed = key ∨ '{' ∈ fields.seed) : fields.seed = old := by
  rcases reads with same | new | brace
  · exact same
  · have inline : fields.seed ≠ [] := fun empty => nonempty (new.symm.trans empty)
    rw [resolveSeed_inline resolved inline,← new] at unseen
    exact absurd (by simp [Config.strings]) unseen
  · have hex := (validateHex64_ok.mp (accepted.seed (List.ne_nil_of_mem brace))).2 _ brace
    exact absurd hex (by decide)

/-- Resolved fields that differ in their peers only were the same strings before. -/
theorem strings_unmoved {read read' : Text → Option Text} {peers : PeersMap} (old : resolveSeed read fields = .ok cfg)
    (new : resolveSeed read' fields' = .ok { cfg with peers }) (seed : fields'.seed = fields.seed) :
    fields'.strings = fields.strings := by
  have old := resolveSeed_fields old
  have new := resolveSeed_fields new
  rw [Config.strings,Config.strings,seed,← congrArg Config.mode new,← congrArg Config.ip new,← congrArg Config.ipv6 new,
    ← congrArg Config.seedFile new,← congrArg Config.serverKey new,← congrArg Config.outIface new,old]

/-! ### A successful run -/

/-- What a successful `addclient` on the text `raw` has done; the insertion is behind `lead`. -/
structure Added (w w' : World) (path raw lead back : Text) (cfg : Config) (clients : List Created) : Prop where
  cut : insertionPoint raw = some (lead ++ ['{'],back)
  whole : raw = lead ++ '{' :: back
  words : Words clients
  several : clients ≠ []
  seed : cfg.seed ≠ []
  written : w'.read path = some (lead ++ '{' :: (addEntries clients ++ back))
  bak : w'.read (bakOf path) = some raw
  tmp : w'.read (tmpOf path) = none
  kept : ∀ other content, w.read other = some content → other ≠ path → other ≠ bakOf path →
    other ≠ tmpOf path → w'.read other = some content

theorem cmdAddclient_added {clients : List Created} (complete : env.Complete) (file : w.read path = some raw)
    (loaded : loadConfig w.read path = .ok cfg) (ok : cmdAddclient env w (path :: opts) = (w',.ok clients)) :
    parseCount opts 1 = .ok clients.length ∧ ∃ lead back, Added w w' path raw lead back cfg clients := by
  obtain ⟨plan,issues,w₁,planned,issued,-,length,listed,-,written,bak,tmp,kept⟩ := cmdAddclient_ok complete ok
  obtain ⟨counted,reloaded,-,seed,there,-,cut,net,parsed,used⟩ := addPlan_ok planned
  obtain rfl := Except.ok.inj (reloaded.symm.trans loaded)
  obtain rfl := Option.some.inj (there.symm.trans file)
  obtain ⟨_,found,accepted,resolved⟩ := (loadConfig_ok _ _ _).mp reloaded
  obtain rfl := Option.some.inj (found.symm.trans file)
  obtain ⟨front,gap,sameFront,whole,-⟩ := insertionPoint_eq_some cut
  have valid := accepted.ip
  have fields := resolveSeed_fields resolved
  have base : Base net.base := by
    rw [fields] at parsed
    exact parseSubnet_base valid parsed
  have shape : Base plan.net.base := by rw [used]; exact base
  have count : plan.n = clients.length := by rw [listed,List.length_map,length]
  have positive := parseCount_pos counted (Nat.le_refl 1)
  refine ⟨count ▸ counted,front ++ '"' :: gap,plan.back,⟨sameFront ▸ cut,whole,?_,?_,seed,?_,bak,tmp,?_⟩⟩
  · exact listed ▸ issue_words shape issues
  · exact List.ne_nil_of_length_pos (by omega)
  · rw [written,sameFront]
    simp
  · intro other content old noPath noBak noTmp
    exact (kept other noPath noBak noTmp).trans (issued.read_kept old)

/-! ### When the meaning is preserved -/

section
variable {path raw lead back : Text} {cfg : Config} {clients : List Created}

/-- The stripped texts before and after, when the brace is outside comments. -/
theorem Added.stripped (added : Added w w' path raw lead back cfg clients) (outside : ¬(scan .code lead).2.InComment) :
    stripComments raw = (scan .code lead).1 ++ '{' :: stripFrom (afterBrace (scan .code lead).2) back ∧
      stripComments (lead ++ '{' :: (addEntries clients ++ back)) = (scan .code lead).1 ++
        '{' :: (addEntries clients ++ stripFrom (afterBrace (scan .code lead).2) back) := by
  constructor
  · rw [added.whole,stripComments,stripFrom_scan (by decide) (by decide),stripFrom_brace _ outside]
  · rw [stripComments,stripFrom_scan (by decide) (by decide),stripFrom_entries added.words _ outside]

/-- A seed file that the run leaves alone reads as before. -/
theorem Added.seedFile_kept (added : Added w w' path raw lead back cfg clients) (file : w.read path = some raw)
    {fields : Config} (accepted : fields.Accepted w.read) (stays : SeedStays path fields) (inline : fields.seed = [])
    (external : fields.seedFile ≠ []) : w'.read fields.seedFile = w.read fields.seedFile := by
  obtain ⟨content,found,valid⟩ := accepted.seedFile inline external
  rw [found]
  refine added.kept _ content found (fun same => ?_) (stays inline).1 (stays inline).2
  rw [same,file] at found
  obtain rfl := Option.some.inj found
  exact config_not_seed added.cut _ valid

/-- Inserting behind the brace of the peers block preserves the meaning. -/
theorem Added.preserves (added : Added w w' path raw lead back cfg clients) (file : w.read path = some raw)
    (loaded : loadConfig w.read path = .ok cfg) (distinct : (clients.map Created.pubkey).Nodup)
    (absent : ∀ client ∈ clients, client.pubkey ∉ cfg.peers) (inserts : InsertsInPeers raw)
    (stays : SeedStays path (extract (stripComments raw))) : Preserves w'.read path cfg clients := by
  obtain ⟨_,_,cut,outside,inserts⟩ := inserts
  obtain ⟨same,rfl⟩ := Prod.mk.inj (Option.some.inj (cut.symm.trans added.cut))
  obtain rfl := List.append_cancel_right same
  obtain ⟨_,found,accepted,resolved⟩ := (loadConfig_ok _ _ _).mp loaded
  obtain rfl := Option.some.inj (found.symm.trans file)
  obtain ⟨before,after⟩ := added.stripped outside
  obtain ⟨pairs,old,new⟩ := extract_inserted added.words added.several inserts
  rw [← before] at old new
  rw [← after] at new
  have peers : cfg.peers = insertPairs ∅ pairs := by rw [resolveSeed_fields resolved,← old]
  obtain ⟨accepted',resolved'⟩ := resolveSeed_moved (insertPairs ∅ (pairsOf clients ++ pairs)) accepted
    resolved (added.seedFile_kept file accepted stays)
  rw [← new] at accepted' resolved'
  refine ⟨_,(loadConfig_ok _ _ _).mpr ⟨_,added.written,accepted',resolved'⟩,rfl,fun key ip => ?_⟩
  rw [peers] at absent ⊢
  exact lookup_added distinct absent

/-- A seed file that still reads as a seed is none of the replaced files. -/
theorem Added.seedStays (added : Added w w' path raw lead back cfg clients) {fields updated : Config}
    (resolved : resolveSeed w.read fields = .ok cfg) (accepted : updated.Accepted w'.read)
    (seed : updated.seed = fields.seed) (seedFile : updated.seedFile = fields.seedFile) : SeedStays path fields := by
  intro inline
  have external : fields.seedFile ≠ [] := by
    intro none
    rcases (resolveSeed_ok _ _ _).mp resolved with ⟨-,named,-⟩ | ⟨-,same⟩
    · exact named none
    · exact added.seed (same ▸ inline)
  obtain ⟨content,there,valid⟩ := accepted.seedFile (seed.trans inline) (seedFile ▸ external)
  rw [seedFile] at there
  constructor
  · intro same
    rw [same,added.bak] at there
    exact config_not_seed added.cut _ (Option.some.inj there ▸ valid)
  · intro same
    rw [same,added.tmp] at there
    contradiction

/-- A config that kept its meaning had its entries inserted behind the brace of the peers
block: the new keys could not have got there in another way. -/
theorem Added.inserts (added : Added w w' path raw lead back cfg clients) (file : w.read path = some raw)
    (loaded : loadConfig w.read path = .ok cfg) (absent : ∀ client ∈ clients, client.pubkey ∉ cfg.peers)
    (intact : KeyIntact raw) (unseen : ∀ client ∈ clients, Unseen raw cfg client)
    (preserves : Preserves w'.read path cfg clients) :
    InsertsInPeers raw ∧ SeedStays path (extract (stripComments raw)) := by
  obtain ⟨cfg',reloaded,fields',lookups⟩ := preserves
  obtain ⟨_,found,accepted,resolved⟩ := (loadConfig_ok _ _ _).mp loaded
  obtain rfl := Option.some.inj (file.symm.trans found)
  obtain ⟨_,found',accepted',resolved'⟩ := (loadConfig_ok _ _ _).mp reloaded
  obtain rfl := Option.some.inj (found'.symm.trans added.written)
  obtain ⟨client,others,rfl⟩ := List.exists_cons_of_ne_nil added.several
  have unseen := unseen client List.mem_cons_self
  have old := resolveSeed_fields resolved
  have new := resolveSeed_fields resolved'
  have nonempty : client.pubkey ≠ [] := fun empty => unseen.text raw List.suffix_rfl (empty ▸ List.nil_suffix.isInfix)
  have suffix : back <:+ raw := ⟨lead ++ ['{'],by rw [added.whole]; simp⟩
  have absent : client.pubkey ∉ jsonPeers (stripComments raw) := by
    have absent := absent client List.mem_cons_self
    rwa [old] at absent
  have present : client.pubkey ∈ jsonPeers (stripComments (lead ++ '{' :: (addEntries (client :: others) ++ back))) := by
    have found := (lookups client.pubkey client.ip).mpr (.inr ⟨client,List.mem_cons_self,rfl,rfl⟩)
    rw [new] at found
    exact AList.lookup_isSome.mp (Option.isSome_of_eq_some found)
  have outside := outside_comment added.words intact added.cut absent (unseen.text back suffix) present
  obtain ⟨before,after⟩ := added.stripped outside
  rw [before] at accepted resolved old absent ⊢
  rw [after] at accepted' resolved' new present
  have reads (key : Text) (member : key ∈ stringFields) :=
    jsonString_cases (scan .code lead).1 (stripFrom (afterBrace (scan .code lead).2) back) added.words member
  have seed := seed_unmoved accepted' resolved' nonempty (by rw [fields']; exact unseen.fields)
    (reads "seed".toList (by simp [stringFields]))
  rw [fields'] at resolved'
  have strings := strings_unmoved resolved resolved' seed
  rw [extract_strings,extract_strings] at strings
  have strings := List.map_inj_left.mp strings
  refine ⟨⟨lead,back,added.cut,outside,?_⟩,?_⟩
  · refine inserts_of_same added.words (intact.noBrace added.cut) absent present (fun key member same => ?_) strings
    exact unseen.fields (resolveSeed_strings resolved nonempty (same ▸ List.mem_map_of_mem member))
  · exact added.seedStays resolved accepted' seed (strings "seedFile".toList (by simp [stringFields]))

end

/-- A successful run adds as many clients as asked for. It preserves the meaning of the
config if the entries go behind the brace of the peers block and the seed stays readable;
and only then, unless the peers key is put together across a comment. -/
theorem addclient_preserves_iff {path raw : Text} {cfg : Config} {clients : List Created} (complete : env.Complete)
    (file : w.read path = some raw) (loaded : loadConfig w.read path = .ok cfg)
    (ok : cmdAddclient env w (path :: opts) = (w',.ok clients))
    (distinct : (clients.map Created.pubkey).Nodup) (absent : ∀ client ∈ clients, client.pubkey ∉ cfg.peers) :
    parseCount opts 1 = .ok clients.length ∧
    (InsertsInPeers raw ∧ SeedStays path (extract (stripComments raw)) → Preserves w'.read path cfg clients) ∧
    (KeyIntact raw → (∀ client ∈ clients, Unseen raw cfg client) →
      (Preserves w'.read path cfg clients ↔
        InsertsInPeers raw ∧ SeedStays path (extract (stripComments raw)))) := by
  obtain ⟨counted,lead,back,added⟩ := cmdAddclient_added complete file loaded ok
  have enough (h : InsertsInPeers raw ∧ SeedStays path (extract (stripComments raw))) :=
    added.preserves file loaded distinct absent h.1 h.2
  exact ⟨counted,enough,fun intact unseen => ⟨added.inserts file loaded absent intact unseen,enough⟩⟩

/-- A server config behind a comment, with a comment in its peers block. -/
def commented (comment : Text) : Text :=
  comment ++ "\n\x7b \"mode\": \"server\", \"peers\": \x7b /* nobody */ \x7d,\n  \"ip\": \"10.0.0.1/24\", \"seed\": \"".toList ++
    seedHex threeKeys 2 ++ "\" \x7d".toList

/-- The disk with this config, before and after one client is added. -/
def beforeAdding (comment : Text) : World :=
  ⟨(∅ : Files).insert "vpn.jsonc".toList ⟨commented comment,0o600⟩,0,0,[]⟩
def afterAdding (comment : Text) : World × Except Text (List Created) :=
  cmdAddclient threeKeys (beforeAdding comment) ["vpn.jsonc".toList]

theorem absent_of_empty {cfg : Config} {clients : List Created} (empty : cfg.peers.entries.isEmpty = true) :
    ∀ client ∈ clients, client.pubkey ∉ cfg.peers := by
  intro client _
  rw [peers_empty empty]
  exact AList.notMem_empty _

theorem addclient_preserves_commented :
    ∃ cfg client, loadConfig (beforeAdding "// home".toList).read "vpn.jsonc".toList = .ok cfg ∧
      afterAdding "// home".toList = ((afterAdding "// home".toList).1,.ok [client]) ∧
      client.ip = "10.0.0.2".toList ∧ KeyIntact (commented "// home".toList) ∧
      Unseen (commented "// home".toList) cfg client ∧
      Preserves (afterAdding "// home".toList).1.read "vpn.jsonc".toList cfg [client] := by
  obtain ⟨cfg,loaded,fields⟩ := exists_loaded (beforeAdding "// home".toList).read "vpn.jsonc".toList
    (fun cfg => cfg.peers.entries.isEmpty && !cfg.strings.contains (keyHex threeKeys 0)) (by decide +kernel)
  simp only [Bool.and_eq_true,Bool.not_eq_true',List.contains_eq_mem,decide_eq_false_iff_not] at fields
  obtain ⟨clients,ok,listed⟩ := reported (f := fun client => (client.pubkey,client.ip))
    (show (afterAdding "// home".toList).2.toOption.map _ = some [(keyHex threeKeys 0,"10.0.0.2".toList)] by
      decide +kernel)
  obtain ⟨client,rfl,pair⟩ := List.map_eq_singleton_iff.mp listed
  obtain ⟨pubkey,ip⟩ := Prod.mk.inj pair
  have file : (beforeAdding "// home".toList).read "vpn.jsonc".toList = some (commented "// home".toList) := by
    decide +kernel
  have tails : ∀ rest ∈ (commented "// home".toList).tails, ¬keyHex threeKeys 0 <:+: stripComments rest := by
    decide +kernel
  have preserves := addclient_preserves_iff (fun _ _ => by simp [threeKeys]) file loaded ok
    (List.nodup_singleton _) (absent_of_empty fields.1)
  refine ⟨cfg,client,loaded,ok,ip,by decide +kernel,⟨?_,?_⟩,preserves.2.1 (by decide +kernel)⟩
  · exact pubkey ▸ fields.2
  · exact fun rest suffix => pubkey ▸ tails rest ((List.mem_tails _ _).mpr suffix)

/-- A comment that names the peers in front of the config misleads the insertion: the run
succeeds and the new file loads, with no peer in it. -/
theorem addclient_misled :
    ¬∀ (env : Env) (w w' : World) (path raw : Text) (opts : List Text) (cfg : Config) (clients : List Created),
      env.Complete → w.read path = some raw → loadConfig w.read path = .ok cfg →
      cmdAddclient env w (path :: opts) = (w',.ok clients) → (clients.map Created.pubkey).Nodup →
      (∀ client ∈ clients, client.pubkey ∉ cfg.peers) → Preserves w'.read path cfg clients := by
  intro claim
  obtain ⟨cfg,loaded,empty⟩ := exists_loaded (beforeAdding "// \"peers\" below".toList).read "vpn.jsonc".toList
    (fun cfg => cfg.peers.entries.isEmpty) (by decide +kernel)
  obtain ⟨clients,ok,ips⟩ := reported
    (show (afterAdding "// \"peers\" below".toList).2.toOption.map (List.map Created.ip) = some ["10.0.0.2".toList] by
      decide +kernel)
  obtain ⟨cfg',reloaded,still⟩ := exists_loaded (afterAdding "// \"peers\" below".toList).1.read "vpn.jsonc".toList
    (fun cfg => cfg.peers.entries.isEmpty) (by decide +kernel)
  obtain ⟨client,rfl⟩ : ∃ client, clients = [client] :=
    List.length_eq_one_iff.mp (by rw [← List.length_map,ips]; rfl)
  obtain ⟨_,same,-,lookups⟩ := claim threeKeys _ _ _ (commented "// \"peers\" below".toList) [] cfg [client]
    (fun _ _ => by simp [threeKeys]) (by decide +kernel) loaded ok (List.nodup_singleton _) (absent_of_empty empty)
  obtain rfl := Except.ok.inj (reloaded.symm.trans same)
  have there := (lookups client.pubkey client.ip).mpr (.inr ⟨client,List.mem_singleton_self _,rfl,rfl⟩)
  rw [peers_empty still] at there
  cases there

end Nospoon
