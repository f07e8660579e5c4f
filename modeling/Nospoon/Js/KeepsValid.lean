import Nospoon.AddClient
import Nospoon.Comments
import Nospoon.Js.Growth

/-! Whether the JavaScript loader accepts what `addclient` has written: the old text with
entries in it, each on a line of its own and with a comma behind it. -/
namespace Nospoon.Js

open Library Library.Json

/-! ### The condition -/

/-- The files as `addclient` leaves them, but with only a line break where the entries go. -/
def broken (read : Text → Option Text) (path raw front back : Text) (other : Text) : Option Text :=
  if other = path then some (front ++ '\n' :: back)
  else if other = bakOf path then some raw
  else if other = tmpOf path then none
  else read other

/-- A member is the first thing in this text. -/
def MemberFollows (back : Text) : Prop := (nameAt (stripComments back)).isSome = true

instance (back : Text) : Decidable (MemberFollows back) := inferInstanceAs (Decidable (_ = true))

/-- What the rules for peers say about one more address. -/
def PeerRules (js : LoadedConfig) (ip : Text) : Prop :=
  Permitted (some (parseSubnet ((testedText js.ip).getD []))) ip ∧
    ∀ allowed, js.peers = some allowed → ∀ key v, allowed.lookup key = some v → stringOf v ≠ some ip

/-- The clients have keys of their own, and none of a peer that is there. -/
structure NewKeys (front back : Text) (clients : List Created) : Prop where
  distinct : (clients.map Created.pubkey).Nodup
  unseen : ∀ ms, parse (stripComments (front ++ '\n' :: back)) = some (.obj ms) →
    ∀ client ∈ clients, PeersLack ms client.pubkey

instance (subnet : Option Subnet) (ip : Text) : Decidable (Permitted subnet ip) :=
  decidable_of_iff ((isIPv4 ip = true ∨ netIsIPv6 ip = true) ∧ (isIPv4 ip = true → checkIpv4 subnet [] ip = .ok ()))
    ⟨fun ⟨known,fits⟩ => ⟨known,fun four _ => checkIpv4_label _ _ _ _ (fits four)⟩,
      fun ⟨known,fits⟩ => ⟨known,fun four => fits four []⟩⟩

instance (js : LoadedConfig) (ip : Text) : Decidable (PeerRules js ip) :=
  decidable_of_iff (Permitted (some (parseSubnet ((testedText js.ip).getD []))) ip ∧
      ∀ allowed ∈ js.peers, ∀ e ∈ allowed.entries, stringOf e.2 ≠ some ip) <| and_congr_right fun _ =>
    forall_congr' fun _ => imp_congr_right fun _ =>
      ⟨fun apart _ _ taken => apart _ (AList.mem_lookup_iff.mp taken),
        fun fresh e member => fresh e.1 e.2 (AList.mem_lookup_iff.mpr member)⟩

/-! ### Text -/

/-- The lines behind a line break are stripped for themselves. -/
theorem stripComments_newline (x y : Text) : stripComments (x ++ '\n' :: y) = stripComments x ++ '\n' :: stripComments y := by
  induction length : x.length using Nat.strongRecOn generalizing x with
  | ind n ih =>
    rw [stripComments_eq,stripComments_eq]
    unfold cutText
    cases found : splitFirst '\n' x with
    | none =>
      rw [splitFirst_append (splitFirst_eq_none.mp found)]
    | some r =>
      obtain ⟨line,rest⟩ := r
      obtain ⟨rfl,absent⟩ := splitFirst_eq_some.mp found
      rw [List.append_assoc,List.cons_append,splitFirst_append absent]
      have shorter : rest.length < n := by
        rw [← length,List.length_append,List.length_cons]
        omega
      dsimp only
      rw [ih rest.length shorter rest rfl,List.append_assoc,List.cons_append]

theorem cutText_outside {prev : Option Char} (outside : prev ≠ some '\\') (t : Text) :
    cutText false prev t = stripComments t := by
  have first (line : Text) : cutLine false prev line = cutLine false none line := by
    cases line with
    | nil => rfl
    | cons c line => simp only [cutLine,outside,ne_eq,not_false_eq_true,and_true,reduceCtorEq]
  rw [stripComments_eq,cutText,cutText]
  cases splitFirst '\n' t with
  | none => exact first t
  | some r => exact congrArg (· ++ '\n' :: stripComments r.2) (first r.1)

/-- The entries as members. -/
def entriesOf (clients : List Created) : List (Parts × Parts) :=
  clients.map fun client => (client.pubkey.map .char,client.ip.map .char)

theorem text_chars (t : Text) : Token.text (.str (t.map .char)) = '"' :: t ++ ['"'] := by
  have same : spelled (t.map .char) = t := by
    induction t with
    | nil => rfl
    | cons c t ih => exact congrArg (c :: ·) ih
  rw [Token.text,same]

theorem valid_chars (word : Word t) : ∀ p ∈ t.map Part.char, p.Valid := by
  intro p member
  obtain ⟨c,inside,rfl⟩ := List.mem_map.mp member
  obtain ⟨noQuote,noEscape,-⟩ := Nospoon.word_char (word c inside)
  refine ⟨?_,noQuote,noEscape⟩
  rcases word c inside with hex | rfl
  · exact xdigit_char hex
  · decide

theorem addEntries_lays (words : Words clients) (t : Text) :
    Lays (entriesTokens (entriesOf clients)) (addEntries clients ++ t) t := by
  induction clients with
  | nil => exact .done
  | cons client clients ih =>
    obtain ⟨⟨pubkey,ip⟩,later⟩ := List.forall_mem_cons.mp words
    have lead : Blank ('\n' :: "    ".toList) := by simp [Blank,isWhite]
    have noLead : Blank [] := by simp [Blank]
    have space : Blank [' '] := by simp [Blank,isWhite]
    have comma : Lays (.mark ',' :: entriesTokens (entriesOf clients)) (',' :: (addEntries clients ++ t)) t :=
      .token noLead rfl trivial (ih later)
    have value : Lays (.str (client.ip.map .char) :: .mark ',' :: entriesTokens (entriesOf clients))
        ([' '] ++ Token.text (.str (client.ip.map .char)) ++ ',' :: (addEntries clients ++ t)) t :=
      .token space (valid_chars ip) trivial comma
    have colon : Lays (.mark ':' :: .str (client.ip.map .char) :: .mark ',' :: entriesTokens (entriesOf clients))
        (':' :: ([' '] ++ Token.text (.str (client.ip.map .char)) ++ ',' :: (addEntries clients ++ t))) t :=
      .token noLead rfl trivial value
    have entry : Lays (entriesTokens (entriesOf (client :: clients))) ('\n' :: "    ".toList ++
        Token.text (.str (client.pubkey.map .char)) ++ (':' :: ([' '] ++ Token.text (.str (client.ip.map .char)) ++
          ',' :: (addEntries clients ++ t)))) t := .token lead (valid_chars pubkey) trivial colon
    have text := addEntries_cons client clients t
    rw [text_chars,text_chars] at entry
    rw [text]
    simpa using entry

theorem addEntries_line {clients : List Created} (several : clients ≠ []) : ∃ line, addEntries clients = '\n' :: line := by
  obtain ⟨client,clients,rfl⟩ := List.exists_cons_of_ne_nil several
  have text := addEntries_cons client clients []
  rw [List.append_nil] at text
  exact ⟨_,text⟩

/-- The entries come through the stripper, wherever they went. -/
theorem stripComments_added {clients : List Created} (words : Words clients) (several : clients ≠ []) (front back : Text) :
    stripComments (front ++ addEntries clients ++ back) = stripComments front ++ addEntries clients ++ stripComments back := by
  have closes : ∀ s, .str s ∈ entriesTokens (entriesOf clients) → Closes s := by
    intro s member
    obtain ⟨e,entry,token⟩ := List.mem_flatMap.mp member
    obtain ⟨client,-,rfl⟩ := List.mem_map.mp entry
    have chars (t : Text) : Closes (t.map .char) := by
      intro escape
      obtain ⟨c,-,same⟩ := List.mem_map.mp (List.mem_of_getLast? escape)
      contradiction
    simp only [entryTokens,List.mem_cons,Token.str.injEq,reduceCtorEq,List.not_mem_nil,or_false,false_or] at token
    rcases token with rfl | rfl
    · exact chars client.pubkey
    · exact chars client.ip
  obtain ⟨text,same,turns⟩ := uncomments_js.lays (addEntries_lays words back) closes
  obtain rfl := List.append_cancel_right same
  obtain ⟨prev,outside,eq⟩ := turns none (by simp)
  have behind := eq back
  rw [← stripComments_eq,cutText_outside outside] at behind
  obtain ⟨line,broken⟩ := addEntries_line several
  rw [broken,List.cons_append,stripComments_eq,cutText_newline,← stripComments_eq] at behind
  rw [broken,List.append_assoc,List.cons_append,stripComments_newline,behind,List.append_assoc]

/-! ### Syntax -/

/-- The tokens of a text with entries between two parts. -/
theorem tokens_added {clients : List Created} (words : Words clients) (several : clients ≠ []) (front back : Text) :
    tokens (front ++ addEntries clients ++ back) = (tokens front).bind fun pre => (tokens back).map fun post =>
      pre ++ (entriesTokens (entriesOf clients) ++ post) := by
  have entries := tokens_lead (addEntries_lays words back)
  obtain ⟨line,broken⟩ := addEntries_line several
  have lead : Blank ['\n'] := by simp [Blank,isWhite]
  have first : tokens ('\n' :: (line ++ back)) = tokens (line ++ back) := tokens_blank lead (line ++ back)
  rw [broken,List.cons_append,first] at entries
  rw [broken,List.append_assoc,List.cons_append,tokens_newline,entries]
  cases tokens front with
  | none => rfl
  | some pre => cases tokens back <;> rfl

theorem nameAt_tokens (lexed : tokens t = some toks) :
    (nameAt t).isSome = true ↔ ∃ s rest, toks = .str s :: .mark ':' :: rest := by
  obtain ⟨r,lays,-⟩ := tokens_eq_some.mp lexed
  rw [Option.isSome_iff_exists]
  constructor
  · rintro ⟨⟨s,behind⟩,found⟩
    obtain ⟨u,first,second⟩ := nameAt_eq_some.mp found
    rw [tokens_token first,tokens_token second] at lexed
    obtain ⟨_,here,rfl⟩ := Option.map_eq_some_iff.mp lexed
    obtain ⟨rest,-,rfl⟩ := Option.map_eq_some_iff.mp here
    exact ⟨s,rest,rfl⟩
  · rintro ⟨s,rest,rfl⟩
    obtain ⟨u,first,lays⟩ := lays.next
    obtain ⟨behind,second,-⟩ := lays.next
    exact ⟨(s,behind),nameAt_eq_some.mpr ⟨u,first,second⟩⟩

theorem parse_tokens (same : tokens t = tokens t') (v : Value) : parse t = some v ↔ parse t' = some v := by
  constructor
  · intro parsed
    obtain ⟨toks,lexed,derives⟩ := derives_of_parse parsed
    exact parse_of_derives (same ▸ lexed) derives
  · intro parsed
    obtain ⟨toks,lexed,derives⟩ := derives_of_parse parsed
    exact parse_of_derives (same ▸ lexed) derives

/-- The text with the entries is JSON exactly if the text with a line break is, and a member
follows; and then the entries are all there is new in it. -/
theorem parse_added {clients : List Created} (words : Words clients) (several : clients ≠ []) (front back : Text) :
    (∀ v', parse (front ++ addEntries clients ++ back) = some v' → (nameAt back).isSome = true ∧
      ∃ v, parse (front ++ '\n' :: back) = some v ∧ Grows (entriesOf clients) v v') ∧
    ∀ v, (nameAt back).isSome = true → parse (front ++ '\n' :: back) = some v →
      ∃ v', parse (front ++ addEntries clients ++ back) = some v' ∧ Grows (entriesOf clients) v v' := by
  have added := tokens_added words several front back
  have broken := tokens_newline front back
  have inserts (pre post : List Token) (v : Value) (first : tokens front = some pre) (second : tokens back = some post)
      (follows : ∃ s rest, post = .str s :: .mark ':' :: rest) (derives : Derives (.value v) (pre ++ post)) :
      ∃ v', parse (front ++ addEntries clients ++ back) = some v' ∧ Grows (entriesOf clients) v v' := by
    obtain ⟨s,rest,rfl⟩ := follows
    obtain ⟨v',derives',grows⟩ := derives.inserts (entriesOf clients)
    rw [first,second] at added
    exact ⟨v',parse_of_derives added derives',grows⟩
  constructor
  · intro v' parsed
    obtain ⟨toks,lexed,derives⟩ := derives_of_parse parsed
    rw [added] at lexed
    obtain ⟨pre,first,lexed⟩ := Option.bind_eq_some_iff.mp lexed
    obtain ⟨post,second,rfl⟩ := Option.map_eq_some_iff.mp lexed
    obtain ⟨follows,v,without⟩ := derives.removes (by simpa [entriesOf] using several)
    rw [first,second] at broken
    obtain ⟨v'',parsed'',grows⟩ := inserts pre post v first second follows without
    obtain rfl := Option.some.inj (parsed''.symm.trans parsed)
    exact ⟨(nameAt_tokens second).mpr follows,v,parse_of_derives broken without,grows⟩
  · intro v follows parsed
    obtain ⟨toks,lexed,derives⟩ := derives_of_parse parsed
    rw [broken] at lexed
    obtain ⟨pre,first,lexed⟩ := Option.bind_eq_some_iff.mp lexed
    obtain ⟨post,second,rfl⟩ := Option.map_eq_some_iff.mp lexed
    exact inserts pre post v first second ((nameAt_tokens second).mp follows) derives

/-! ### Values -/

section

variable {clients : List Created} {read : Text → Option Text} {v v' : Value}

theorem stringOf_textValue (t : Text) : stringOf (textValue t) = some t :=
  congrArg some (shown_eq (characters_char t))

/-- The rest of the entries, and the one in front of them. -/
theorem grows_cons {client : Created} (grows : Grows (entriesOf (client :: clients)) v v') :
    ∃ v₁, Grows (entriesOf clients) v v₁ ∧
      Grown (client.pubkey.map .char,textValue client.ip) (.value v₁) (.value v') := by
  cases grows with
  | entry rest grown => exact ⟨_,rest,grown⟩

theorem grows_nil (grows : Grows (entriesOf []) v v') : v' = v := by
  cases grows
  rfl

theorem grows_obj (grows : Grows (entriesOf clients) v v') : (∃ ms, v = .obj ms) ↔ ∃ ms, v' = .obj ms := by
  induction clients generalizing v' with
  | nil => rw [grows_nil grows]
  | cons client clients ih =>
    obtain ⟨v₁,rest,grown⟩ := grows_cons grows
    rw [ih rest]
    cases grown with
    | obj => exact iff_of_true ⟨_,rfl⟩ ⟨_,rfl⟩
    | arr => exact iff_of_false (by simp) (by simp)

/-- A config that is accepted stays accepted with clients that keep the rules. -/
theorem loadParsed_grows (grows : Grows (entriesOf clients) v v') (hex : ∀ client ∈ clients, hexRe client.pubkey = true)
    (distinct : (clients.map Created.ip).Nodup) (accepted : loadParsed read v = .ok js)
    (rules : ∀ client ∈ clients, PeerRules js client.ip) :
    ∃ js', loadParsed read v' = .ok js' ∧ js'.ip = js.ip ∧ ∀ allowed', js'.peers = some allowed' →
      ∀ a, (∃ key, allowed'.lookup key = some a) →
        a ∈ clients.map (textValue ∘ Created.ip) ∨ ∃ allowed, js.peers = some allowed ∧ ∃ key, allowed.lookup key = some a := by
  induction clients generalizing v' with
  | nil =>
    obtain rfl := grows_nil grows
    exact ⟨js,accepted,rfl,fun allowed here a taken => .inr ⟨allowed,here,taken⟩⟩
  | cons client clients ih =>
    obtain ⟨v₁,rest,grown⟩ := grows_cons grows
    obtain ⟨hexHere,hexLater⟩ := List.forall_mem_cons.mp hex
    obtain ⟨rulesHere,rulesLater⟩ := List.forall_mem_cons.mp rules
    obtain ⟨apart,distinct⟩ := List.nodup_cons.mp distinct
    obtain ⟨js₁,accepted₁,ip₁,known₁⟩ := ih rest hexLater distinct rulesLater
    obtain ⟨ms₁,rfl,loaded₁⟩ := loadParsed_ok accepted₁
    cases grown with
    | obj inside =>
      have permitted : Permitted (some (parseSubnet ((testedText js₁.ip).getD []))) client.ip := ip₁ ▸ rulesHere.1
      have fresh : ∀ allowed, js₁.peers = some allowed → ∀ key v, allowed.lookup key = some v →
          stringOf v ≠ some client.ip := by
        intro allowed₁ here key v taken string
        rcases known₁ allowed₁ here v ⟨key,taken⟩ with again | ⟨allowed,old,key,taken⟩
        · obtain ⟨other,member,rfl⟩ := List.mem_map.mp again
          obtain same := Option.some.inj ((stringOf_textValue _).symm.trans string)
          exact apart (List.mem_map.mpr ⟨other,member,same⟩)
        · exact rulesHere.2 allowed old key v taken string
      obtain ⟨js',loaded,ip',known⟩ := loadProperties_grown inside (characters_char client.pubkey) hexHere rfl
        (characters_char client.ip) loaded₁ permitted fresh
      refine ⟨js',loaded,ip'.trans ip₁,fun allowed' here a taken => ?_⟩
      rcases known allowed' here a taken with rfl | ⟨allowed₁,here₁,taken₁⟩
      · exact .inl List.mem_cons_self
      · exact (known₁ allowed₁ here₁ a taken₁).imp_left (List.mem_cons_of_mem _)

theorem peersLack_grows {ms ms' : List (Parts × Value)} (grows : Grows (entriesOf clients) (.obj ms) (.obj ms'))
    (hex : ∀ client ∈ clients, hexRe client.pubkey = true) (other : key ∉ clients.map Created.pubkey)
    (lack : PeersLack ms key) : PeersLack ms' key := by
  induction clients generalizing ms' with
  | nil =>
    obtain rfl := Value.obj.inj (grows_nil grows)
    exact lack
  | cons client clients ih =>
    obtain ⟨v₁,rest,grown⟩ := grows_cons grows
    obtain ⟨hexHere,hexLater⟩ := List.forall_mem_cons.mp hex
    obtain ⟨apart,later⟩ := not_or.mp (List.mem_cons.not.mp other)
    cases grown with
    | obj inside => exact peersLack_grown inside (characters_char client.pubkey) hexHere apart (ih rest hexLater later)

/-- A config that is accepted with clients was accepted without them, if their keys are new. -/
theorem loadParsed_shrinks (grows : Grows (entriesOf clients) v v') (hex : ∀ client ∈ clients, hexRe client.pubkey = true)
    (distinct : (clients.map Created.pubkey).Nodup)
    (unseen : ∀ ms, v = .obj ms → ∀ client ∈ clients, PeersLack ms client.pubkey) (accepted : loadParsed read v' = .ok js') :
    ∃ js, loadParsed read v = .ok js := by
  induction clients generalizing v' js' with
  | nil =>
    obtain rfl := grows_nil grows
    exact ⟨js',accepted⟩
  | cons client clients ih =>
    obtain ⟨v₁,rest,grown⟩ := grows_cons grows
    obtain ⟨hexHere,hexLater⟩ := List.forall_mem_cons.mp hex
    obtain ⟨apart,distinct⟩ := List.nodup_cons.mp distinct
    obtain ⟨ms',rfl,loaded⟩ := loadParsed_ok accepted
    cases grown with
    | @obj ms₁ _ inside =>
      obtain ⟨ms,rfl⟩ := (grows_obj rest).mpr ⟨ms₁,rfl⟩
      have lack : PeersLack ms₁ client.pubkey :=
        peersLack_grows rest hexLater apart (unseen ms rfl client List.mem_cons_self)
      obtain ⟨js₁,accepted₁⟩ := loadProperties_shrunk inside (characters_char client.pubkey) hexHere lack loaded
      exact ih rest hexLater distinct (fun ms same client member => unseen ms same client (List.mem_cons_of_mem _ member))
        accepted₁

end

/-! ### Files -/

/-- Not the content of a seed file. -/
def NoSeed (content : Option Text) : Prop := ∀ t, content = some t → hexRe (trim t) = false

theorem noSeed_none : NoSeed none := by
  intro t found
  contradiction

theorem noSeed_brace (member : '{' ∈ t) : NoSeed (some t) := by
  intro t' same
  obtain rfl := Option.some.inj same
  have stays : '{' ∈ trim t := by
    have behind : '{' ∈ t.dropWhile isJsSpace := by
      have split := List.takeWhile_append_dropWhile (p := isJsSpace) (l := t)
      rw [← split] at member
      rcases List.mem_append.mp member with blank | here
      · exact absurd (List.mem_takeWhile_imp blank) (by decide)
      · exact here
    exact mem_rdropWhile (by decide) behind
  cases hex : hexRe (trim t) with
  | false => rfl
  | true => exact absurd ((hexRe_eq_true.mp hex).2 _ stays) (by decide)

theorem readSeedFile_ok {read : Text → Option Text} : readSeedFile read value = .ok seed ↔
    ∃ s t, value = .str s ∧ read (shown s) = some t ∧ hexRe (trim t) = true ∧ seed = textValue (trim t) := by
  have tested (t : Text) : testedText (textValue t) = some t := stringOf_textValue t
  constructor
  · intro h
    cases value with
    | str s =>
      cases found : read (shown s) with
      | none => simp [readSeedFile,found] at h
      | some t =>
        simp only [readSeedFile,found,requireHex64,tested,Option.any_some] at h
        split_ifs at h with hex
        exact ⟨s,t,rfl,found,hex,(Except.ok.inj h).symm⟩
    | null | bool | num | arr | obj => contradiction
  · rintro ⟨s,t,rfl,found,hex,rfl⟩
    simp only [readSeedFile,found,requireHex64,tested,Option.any_some,if_pos hex]

theorem clientConfig_brace (serverPk ip : Text) (prefixLen : Int) (seed : Text) (mtu : Int) :
    '{' ∈ clientConfig serverPk ip prefixLen seed mtu := by
  have first : (clientConfig serverPk ip prefixLen seed mtu).head? = some '{' := rfl
  exact List.mem_of_mem_head? first

/-- Files that differ in what is no seed load the same. -/
theorem loadParsed_reads {read read' : Text → Option Text}
    (alike : ∀ other, read' other = read other ∨ NoSeed (read' other) ∧ NoSeed (read other)) (v : Value) (js : LoadedConfig) :
    loadParsed read' v = .ok js ↔ loadParsed read v = .ok js := by
  have file (value seed : Value) : readSeedFile read' value = .ok seed ↔ readSeedFile read value = .ok seed := by
    rw [readSeedFile_ok,readSeedFile_ok]
    refine exists_congr fun s => exists_congr fun t => and_congr_right fun _ => ?_
    rcases alike (shown s) with same | ⟨noSeed',noSeed⟩
    · rw [same]
    · refine iff_of_false (fun ⟨found,hex,_⟩ => ?_) fun ⟨found,hex,_⟩ => ?_
      · rw [noSeed' t found] at hex
        contradiction
      · rw [noSeed t found] at hex
        contradiction
  have seeds (get : Text → Option Value) (seed : Option Value) : loadSeed read' get = .ok seed ↔ loadSeed read get = .ok seed := by
    unfold loadSeed
    cases given get "seed".toList with
    | some value => cases given get "seedFile".toList <;> exact Iff.rfl
    | none =>
      cases given get "seedFile".toList with
      | none => exact Iff.rfl
      | some path => simp only [map_ok,file]
  have all (get : Text → Option Value) : loadProperties read' get = .ok js ↔ loadProperties read get = .ok js := by
    simp only [loadProperties,bind_ok,seeds]
  cases v with
  | obj ms => exact all (property ms)
  | null => exact Iff.rfl
  | bool | num | str | arr => exact all fun _ => none

/-! ### A successful run -/

section

variable {env : Env} {w w' : World} {path raw front back : Text} {clients : List Created}

/-- The clients have hex keys and addresses of their own. -/
theorem created_fit (complete : env.Complete) (ok : cmdAddclient env w (path :: opts) = (w',.ok clients)) :
    (∀ client ∈ clients, hexRe client.pubkey = true) ∧ (clients.map Created.ip).Nodup := by
  obtain ⟨plan,issues,w₁,-,-,reserved,-,rfl,-⟩ := cmdAddclient_ok complete ok
  constructor
  · intro client member
    obtain ⟨issue,-,rfl⟩ := List.mem_map.mp member
    refine hexRe_eq_true.mpr ⟨?_,bytesToHex_isXDigit _⟩
    rw [Issue.created,keyHex,bytesToHex_length,Vector.length_toList]
  · have distinct := (reserveHosts_spec plan.n plan.net).2
    rw [← reserved] at distinct
    have ips : (issues.map (Issue.created env plan.net.base)).map Created.ip =
        (issues.map Issue.host).map (hostIp plan.net.base) := by simp [Issue.created]
    rw [ips]
    exact distinct.map fun _ _ => hostIp_injective

/-- Behind the run a file is what it was, or no seed. -/
theorem added_reads (complete : env.Complete) (file : w.read path = some raw) (cut : insertionPoint raw = some (front,back))
    (ok : cmdAddclient env w (path :: opts) = (w',.ok clients)) (other : Text) :
    w'.read other = broken w.read path raw front back other ∨
      NoSeed (w'.read other) ∧ NoSeed (broken w.read path raw front back other) := by
  obtain ⟨plan,issues,w₁,planned,issued,-,-,-,-,written,bak,tmp,kept⟩ := cmdAddclient_ok complete ok
  obtain ⟨-,-,-,-,there,-,cut',-⟩ := addPlan_ok planned
  obtain rfl := Option.some.inj (there.symm.trans file)
  obtain ⟨rfl,rfl⟩ := Prod.mk.inj (Option.some.inj (cut'.symm.trans cut))
  obtain ⟨lead,gap,front,-⟩ := insertionPoint_eq_some cut
  have brace : '{' ∈ plan.front := front ▸ by simp
  unfold broken
  split_ifs with atPath atBak atTmp
  · subst atPath
    rw [written]
    exact .inr ⟨noSeed_brace (by simp [brace]),noSeed_brace (by simp [brace])⟩
  · subst atBak
    exact .inl bak
  · subst atTmp
    exact .inl tmp
  · rw [kept other atPath atBak atTmp]
    by_cases new : other ∈ issues.map Issue.name
    · obtain ⟨issue,member,rfl⟩ := List.mem_map.mp new
      have before : w.read issue.name = none := by rw [World.read,issued.free issue member]; rfl
      refine .inr ⟨?_,before ▸ noSeed_none⟩
      rw [issued.wrote issue member]
      exact noSeed_brace (clientConfig_brace _ _ _ _ _)
    · exact .inl (read_eq (issued.kept other new))

/-- The brace is code for the stripper and a token for the parser. -/
structure InCode (front back : Text) : Prop where
  stripped : stripComments (front ++ back) = stripComments front ++ stripComments back
  brace : (stripComments front).getLast? = some '{'
  lexed : (tokens (stripComments front)).isSome = true

/-- Then the line break changes nothing, if the helpers hold no seed. -/
theorem broken_loads (cut : insertionPoint raw = some (front,back)) (code : InCode front back)
    (file : w.read path = some raw) (bak : NoSeed (w.read (bakOf path))) (tmp : NoSeed (w.read (tmpOf path)))
    (js : LoadedConfig) : loadConfig (broken w.read path raw front back) path = .ok js ↔ loadConfig w.read path = .ok js := by
  obtain ⟨lead,gap,brace,whole,-⟩ := insertionPoint_eq_some cut
  have split : raw = front ++ back := by simp [brace,whole]
  have inFront : '{' ∈ front := brace ▸ by simp
  have alike : ∀ other, broken w.read path raw front back other = w.read other ∨
      NoSeed (broken w.read path raw front back other) ∧ NoSeed (w.read other) := by
    intro other
    unfold broken
    split_ifs with atPath atBak atTmp
    · rw [atPath,file,split]
      exact .inr ⟨noSeed_brace (by simp [inFront]),noSeed_brace (by simp [inFront])⟩
    · rw [atBak,split]
      exact .inr ⟨noSeed_brace (by simp [inFront]),bak⟩
    · rw [atTmp]
      exact .inr ⟨noSeed_none,tmp⟩
    · exact .inl rfl
  have parses (v : Value) : parse (stripComments (front ++ '\n' :: back)) = some v ↔ parse (stripComments raw) = some v := by
    refine parse_tokens ?_ v
    obtain ⟨toks,lexed⟩ := Option.isSome_iff_exists.mp code.lexed
    obtain ⟨a,ending⟩ := List.getLast?_eq_some_iff.mp code.brace
    have newline : Blank ['\n'] := by simp [Blank,isWhite]
    have blank : tokens ('\n' :: stripComments back) = tokens (stripComments back) := tokens_blank newline _
    rw [ending] at lexed
    rw [split,code.stripped,stripComments_newline,ending,List.append_assoc,List.append_assoc,List.singleton_append,
      List.singleton_append,tokens_mark rfl lexed,tokens_mark rfl lexed,blank]
  have text : broken w.read path raw front back path = some (front ++ '\n' :: back) := if_pos rfl
  rw [loadConfig_ok,loadConfig_ok]
  constructor
  · rintro ⟨_,v,found,parsed,loaded⟩
    obtain rfl := Option.some.inj (text.symm.trans found)
    exact ⟨raw,v,file,(parses v).mp parsed,(loadParsed_reads alike v js).mp loaded⟩
  · rintro ⟨_,v,found,parsed,loaded⟩
    obtain rfl := Option.some.inj (file.symm.trans found)
    exact ⟨_,v,text,(parses v).mpr parsed,(loadParsed_reads alike v js).mpr loaded⟩

/-- The loader accepts the file after a successful run if it accepts it with a line break
where the entries went, the addresses fit the peers there and a member follows; and, the keys
being new, only if it accepts that and a member follows. -/
theorem addclient_keepsValid_iff (complete : env.Complete) (file : w.read path = some raw)
    (cut : insertionPoint raw = some (front,back)) (ok : cmdAddclient env w (path :: opts) = (w',.ok clients)) :
    (∀ js, loadConfig (broken w.read path raw front back) path = .ok js → (∀ client ∈ clients, PeerRules js client.ip) →
      MemberFollows back → ∃ js', loadConfig w'.read path = .ok js') ∧
    (NewKeys front back clients → (∃ js', loadConfig w'.read path = .ok js') →
      MemberFollows back ∧ ∃ js, loadConfig (broken w.read path raw front back) path = .ok js) := by
  obtain ⟨plan,_,_,planned,-⟩ := cmdAddclient_ok complete ok
  obtain ⟨-,loaded,-⟩ := addPlan_ok planned
  obtain ⟨-,lead,back',added⟩ := cmdAddclient_added complete file loaded ok
  obtain ⟨rfl,rfl⟩ := Prod.mk.inj (Option.some.inj (added.cut.symm.trans cut))
  obtain ⟨hex,addresses⟩ := created_fit complete ok
  have alike := loadParsed_reads (added_reads complete file cut ok)
  obtain ⟨taken,given⟩ := parse_added added.words added.several (stripComments (lead ++ ['{'])) (stripComments back')
  have text : w'.read path = some (lead ++ ['{'] ++ addEntries clients ++ back') := by
    rw [added.written]
    simp
  have before : broken w.read path raw (lead ++ ['{']) back' path = some (lead ++ ['{'] ++ '\n' :: back') := if_pos rfl
  rw [← stripComments_added added.words added.several] at taken given
  rw [← stripComments_newline] at taken given
  constructor
  · intro js accepted fits follows
    obtain ⟨_,v,found,parsed,accepted⟩ := loadConfig_ok.mp accepted
    obtain rfl := Option.some.inj (before.symm.trans found)
    obtain ⟨v',parsed',grows⟩ := given v follows parsed
    obtain ⟨js',grown,-⟩ := loadParsed_grows grows hex addresses accepted fits
    exact ⟨js',loadConfig_ok.mpr ⟨_,v',text,parsed',(alike v' js').mpr grown⟩⟩
  · rintro new ⟨js',accepted⟩
    obtain ⟨_,v',found,parsed,accepted⟩ := loadConfig_ok.mp accepted
    obtain rfl := Option.some.inj (text.symm.trans found)
    obtain ⟨follows,v,parsed₀,grows⟩ := taken v' parsed
    refine ⟨follows,?_⟩
    have lacks : ∀ ms, v = .obj ms → ∀ client ∈ clients, PeersLack ms client.pubkey := by
      rintro ms rfl
      exact new.unseen ms parsed₀
    obtain ⟨js,shrunk⟩ := loadParsed_shrinks grows hex new.distinct lacks ((alike v' js').mp accepted)
    exact ⟨js,loadConfig_ok.mpr ⟨_,v,before,parsed₀,shrunk⟩⟩

end

/-! ### Peers and no peers -/

/-- A server config with these peers. -/
def listingHead : Text :=
  "\x7b \"mode\": \"server\", \"ip\": \"10.0.0.1/24\", \"seed\": \"".toList ++ seedHex threeKeys 2 ++
    "\",\n  \"peers\": \x7b".toList
def listingTail (peers : Text) : Text := peers ++ "\x7d \x7d".toList
def listing (peers : Text) : Text := listingHead ++ listingTail peers

/-- The disk with this config, before and after one client is added. -/
def beforeListing (peers : Text) : World := ⟨(∅ : Files).insert "vpn.jsonc".toList ⟨listing peers,0o600⟩,0,0,[]⟩
def afterListing (peers : Text) : World × Except Text (List Created) :=
  cmdAddclient threeKeys (beforeListing peers) ["vpn.jsonc".toList]

/-- A client joins another one. -/
theorem addclient_keepsValid_onePeer : ∃ js, loadConfig (afterListing onePeerText).1.read "vpn.jsonc".toList = .ok js := by
  obtain ⟨clients,ok,ips⟩ := reported
    (show (afterListing onePeerText).2.toOption.map (List.map Created.ip) = some ["10.0.0.3".toList] by decide +kernel)
  obtain ⟨client,rfl,ip⟩ := List.map_eq_singleton_iff.mp ips
  have file : (beforeListing onePeerText).read "vpn.jsonc".toList = some (listing onePeerText) := by decide +kernel
  have cut : insertionPoint (listing onePeerText) = some (listingHead,listingTail onePeerText) := by decide +kernel
  have code : InCode listingHead (listingTail onePeerText) := ⟨by decide +kernel,by decide +kernel,by decide +kernel⟩
  have bak : (beforeListing onePeerText).read (bakOf "vpn.jsonc".toList) = none := by decide +kernel
  have tmp : (beforeListing onePeerText).read (tmpOf "vpn.jsonc".toList) = none := by decide +kernel
  obtain ⟨js,loaded,rules⟩ := exists_accepted (loadConfig (beforeListing onePeerText).read "vpn.jsonc".toList)
    (fun js => decide (PeerRules js "10.0.0.3".toList)) (by decide +kernel)
  have same := (broken_loads cut code file (bak ▸ noSeed_none) (tmp ▸ noSeed_none) js).mpr loaded
  exact (addclient_keepsValid_iff (fun _ _ => by simp [threeKeys]) file cut ok).1 js same
    (List.forall_mem_singleton.mpr (ip ▸ of_decide_eq_true rules)) (by decide +kernel)

def isObject : Value → Bool
  | .obj _ => true
  | _ => false

def hasPeersObject : Value → Bool
  | .obj ms => (property ms "peers".toList).any isObject
  | _ => false

/-- Behind the entries of an empty peers block stands a comma, and no member. -/
theorem addclient_trailingComma :
    ¬∀ (env : Env) (w w' : World) (path raw : Text) (opts : List Text) (cfg : Config) (js : LoadedConfig)
      (clients : List Created), env.Complete → w.read path = some raw →
      Nospoon.loadConfig w.read path = .ok cfg → loadConfig w.read path = .ok js →
      (parse (stripComments raw)).any hasPeersObject = true →
      cmdAddclient env w (path :: opts) = (w',.ok clients) → (∀ client ∈ clients, PeerRules js client.ip) →
      ∃ js', loadConfig w'.read path = .ok js' := by
  intro claim
  obtain ⟨clients,ok,ips⟩ := reported
    (show (afterListing []).2.toOption.map (List.map Created.ip) = some ["10.0.0.2".toList] by decide +kernel)
  obtain ⟨client,rfl,ip⟩ := List.map_eq_singleton_iff.mp ips
  obtain ⟨cfg,loadedCpp,-⟩ := exists_accepted (Nospoon.loadConfig (beforeListing []).read "vpn.jsonc".toList) (fun _ => true)
    (by decide +kernel)
  obtain ⟨js,loaded,rules⟩ := exists_accepted (loadConfig (beforeListing []).read "vpn.jsonc".toList)
    (fun js => decide (PeerRules js "10.0.0.2".toList)) (by decide +kernel)
  have file : (beforeListing []).read "vpn.jsonc".toList = some (listing []) := by decide +kernel
  obtain ⟨js',loaded'⟩ := claim threeKeys _ _ _ _ [] cfg js [client] (fun _ _ => by simp [threeKeys]) file loadedCpp
    loaded (by decide +kernel) ok (List.forall_mem_singleton.mpr (ip ▸ of_decide_eq_true rules))
  exact refuses (loadConfig (afterListing []).1.read "vpn.jsonc".toList) (by decide +kernel) js' loaded'

end Nospoon.Js
