import Nospoon.ProvisionText

/-! Entries inserted behind a brace of a config text: where the brace stands for the
comment stripper and for the key search, and which fields still read the same. -/
namespace Nospoon

open Library

/-! ### The stripper in front of a brace -/

/-- What stripping has put out of a text, and where it stands at the end of it. -/
def scan : StripMode → Text → Text × StripMode
  | mode, [] => ([],mode)
  | .string prev, c :: rest =>
    let after := if c = '"' ∧ prev ≠ '\\' then .code else .string c
    (c :: (scan after rest).1,(scan after rest).2)
  | .line, c :: rest => scan (if c = '\n' then .code else .line) rest
  | .block, '*' :: '/' :: rest => scan .code rest
  | .block, _ :: rest => scan .block rest
  | .code, '"' :: rest => ('"' :: (scan (.string '"') rest).1,(scan (.string '"') rest).2)
  | .code, '/' :: '/' :: rest => scan .line rest
  | .code, '/' :: '*' :: rest => scan .block rest
  | .code, c :: rest => (c :: (scan .code rest).1,(scan .code rest).2)

theorem stripFrom_eq_scan (mode : StripMode) (s : Text) : stripFrom mode s = (scan mode s).1 := by
  fun_induction scan mode s with
  | case2 prev a rest after ih => exact congrArg (a :: ·) ih
  | _ => simp_all [stripFrom]

/-- Nothing begins or ends across a character that is neither slash nor star. -/
theorem stripFrom_scan (noSlash : c ≠ '/') (noStar : c ≠ '*') (mode : StripMode) (s t : Text) :
    stripFrom mode (s ++ c :: t) = (scan mode s).1 ++ stripFrom (scan mode s).2 (c :: t) := by
  -- a slash or a star at the end of `s` has no second character behind it
  have single {a b d : Char} {rest : Text} (differs : c ≠ b) (alone : ∀ r, a = d → rest = b :: r → False) :
      ∀ r, a = d → rest ++ c :: t = b :: r → False := by
    intro r first second
    cases rest with
    | nil => exact differs (List.cons.inj second).1
    | cons e rest =>
      obtain ⟨rfl,-⟩ := List.cons.inj second
      exact alone rest first rfl
  fun_induction scan mode s with
  | case1 mode => rfl
  | case2 prev a rest after ih => simp only [List.cons_append,stripFrom,ih,after]
  | case3 a rest ih => simp only [List.cons_append,stripFrom,ih]
  | case4 rest ih => simp only [List.cons_append,stripFrom,ih]
  | case5 a rest alone ih =>
    rw [List.cons_append,stripFrom,ih]
    exact single noSlash alone
  | case6 rest ih => simp only [List.cons_append,stripFrom,ih]
  | case7 rest ih => simp only [List.cons_append,stripFrom,ih]
  | case8 rest ih => simp only [List.cons_append,stripFrom,ih]
  | case9 a rest noQuote noLine noBlock ih =>
    rw [List.cons_append,stripFrom,ih,List.cons_append]
    · exact noQuote
    · exact single noSlash noLine
    · exact single noStar noBlock

theorem mem_stripFrom (member : c ∈ stripFrom mode s) : c ∈ s := by
  fun_induction stripFrom mode s <;> simp_all <;> grind

/-- Where the stripper stands behind an opening brace. -/
def afterBrace : StripMode → StripMode
  | .string _ => .string '{'
  | mode => mode

def StripMode.InComment : StripMode → Prop
  | .line | .block => True
  | .code | .string _ => False

instance : DecidablePred StripMode.InComment
  | .line | .block => .isTrue trivial
  | .code | .string _ => .isFalse id

theorem stripFrom_brace (mode : StripMode) (outside : ¬mode.InComment) (t : Text) :
    stripFrom mode ('{' :: t) = '{' :: stripFrom (afterBrace mode) t := by
  cases mode with
  | code => exact stripFrom_code (by simp) (by simp)
  | string prev => simp [stripFrom,afterBrace]
  | line | block => exact absurd trivial outside

/-- Inside a string only a backslash in front matters. -/
theorem stripFrom_prev (first : a ≠ '\\') (second : b ≠ '\\') (t : Text) :
    stripFrom (.string a) t = stripFrom (.string b) t := by
  cases t <;> simp [stripFrom,first,second]

/-! ### Inserted entries -/

def Words (clients : List Created) : Prop := ∀ client ∈ clients, Word client.pubkey ∧ Word client.ip

theorem addEntries_cons (client : Created) (clients : List Created) (t : Text) :
    addEntries (client :: clients) ++ t = '\n' :: "    ".toList ++ '"' :: client.pubkey ++ '"' :: ": ".toList ++
      '"' :: client.ip ++ '"' :: ',' :: (addEntries clients ++ t) := by
  rw [addEntries,List.flatMap_cons,addEntries]
  simp [entryText]

theorem Words.text (words : Words clients) : EntryText (pairsOf clients) (addEntries clients) := by
  have text := addEntries_text words (.done (show Plain [] by simp [Plain]))
  rwa [List.append_nil,List.append_nil] at text

/-- Inside a string the quotes of the entries pair up the other way, which leaves the
entries as they are and the string open. -/
theorem stripFrom_string_entries (words : Words clients) (prev : Char) (escaped : prev ≠ '\\') (t : Text) :
    stripFrom (.string prev) (addEntries clients ++ t) = addEntries clients ++ stripFrom (.string ',') t := by
  have clean {s : Text} (word : Word s) : Strips s s := strips_clean fun c member =>
    ⟨(word_char (word c member)).1,(word_char (word c member)).2.2.1⟩
  induction clients generalizing prev with
  | nil => exact stripFrom_prev escaped (by decide) t
  | cons client clients ih =>
    obtain ⟨⟨pubkey,ip⟩,later⟩ := List.forall_mem_cons.mp words
    have lead : Bare ('\n' :: "    ".toList) := by simp [Bare]
    have colon : Strips ('"' :: ": ".toList ++ ['"']) ('"' :: ": ".toList ++ ['"']) := strips_string (by simp [Bare])
    have close (u : Text) : stripFrom .code ('"' :: ',' :: u) = '"' :: ',' :: stripFrom (.string ',') u := by
      simp [stripFrom]
    have middle := colon (client.ip ++ '"' :: ',' :: (addEntries clients ++ t))
    rw [clean ip,close,ih later ',' (by decide)] at middle
    have whole := stripFrom_inside lead escaped
      (client.pubkey ++ ('"' :: ": ".toList ++ ['"'] ++ (client.ip ++ '"' :: ',' :: (addEntries clients ++ t))))
    rw [clean pubkey,middle] at whole
    have split := addEntries_cons client clients
    simp only [List.append_assoc,List.cons_append,List.nil_append] at split whole
    rw [split,split,whole]

theorem stripFrom_block_skip (noStar : '*' ∉ g) (t : Text) : stripFrom .block (g ++ t) = stripFrom .block t := by
  induction g with
  | nil => rfl
  | cons c g ih =>
    obtain ⟨differs,rest⟩ := not_or.mp (List.mem_cons.not.mp noStar)
    rw [List.cons_append,stripFrom,ih rest]
    intro r same
    exact absurd same.symm differs

/-- Outside comments the entries come through unchanged. -/
theorem stripFrom_entries (words : Words clients) (mode : StripMode) (outside : ¬mode.InComment) (t : Text) :
    stripFrom mode ('{' :: (addEntries clients ++ t)) = '{' :: (addEntries clients ++ stripFrom (afterBrace mode) t) := by
  rw [stripFrom_brace mode outside]
  cases mode with
  | code => exact congrArg _ (words.text.strips t)
  | string prev =>
    have same : stripFrom (.string ',') t = stripFrom (.string '{') t := stripFrom_prev (by decide) (by decide) t
    rw [afterBrace,stripFrom_string_entries words '{' (by decide),same]
  | line | block => exact absurd trivial outside

/-! ### Searching past a brace -/

theorem keyAt_stop (absent : c ∉ quoted key) (noBlank : isBlank c = false) (noColon : c ≠ ':') :
    keyAt key (p ++ c :: q) = (keyAt key p).map (· ++ c :: q) := by
  unfold keyAt
  cases front : afterPrefix (quoted key) p with
  | none =>
    rw [afterPrefix_eq_none.mpr fun here => afterPrefix_eq_none.mp front ((prefix_stop absent).mp here)]
    rfl
  | some r =>
    obtain rfl := afterPrefix_eq_some.mp front
    rw [List.append_assoc,afterPrefix_eq_some.mpr rfl,Option.bind_some,Option.bind_some,dropWhile_stop noBlank]
    cases r.dropWhile isBlank with
    | nil =>
      rw [List.nil_append]
      split
      · rename_i same; exact absurd (List.cons.inj same).1 noColon
      · rfl
    | cons d t =>
      rw [List.cons_append]
      by_cases colon : d = ':'
      · subst colon; rfl
      · split
        · rename_i same; exact absurd (List.cons.inj same).1 colon
        · split
          · rename_i same; exact absurd (List.cons.inj same).1 colon
          · rfl

/-- A key stands in front of a brace or behind it, never across it. -/
theorem findKey_stop (absent : c ∉ quoted key) (noBlank : isBlank c = false) (noColon : c ≠ ':') :
    findKey key (p ++ c :: q) = ((findKey key p).map (· ++ c :: q)).or (findKey key q) := by
  induction p with
  | nil =>
    have here : keyAt key (c :: q) = none := by
      apply keyAt_eq_none
      rintro ⟨r,same⟩
      obtain ⟨rfl,-⟩ := List.cons.inj same
      exact absent List.mem_cons_self
    simp only [List.nil_append,findKey,here]
    rfl
  | cons a p ih =>
    have here : keyAt key (a :: p ++ c :: q) = (keyAt key (a :: p)).map (· ++ c :: q) :=
      keyAt_stop absent noBlank noColon
    rw [List.cons_append] at here
    rw [List.cons_append,findKey,here,findKey]
    cases keyAt key (a :: p) with
    | none => exact ih
    | some value => rfl

theorem findKey_entries (member : key ∈ fieldNames) (words : Words clients) (t : Text) :
    findKey key (addEntries clients ++ t) = findKey key t := by
  induction clients with
  | nil => rfl
  | cons client clients ih =>
    obtain ⟨⟨pubkey,ip⟩,later⟩ := List.forall_mem_cons.mp words
    have differs (s : Text) (word : Word s) : s ≠ key := fun same => fieldNames_noWord key member (same ▸ word)
    have first : findKey key ('"' :: client.pubkey ++ '"' :: (": ".toList ++ '"' :: client.ip ++ '"' :: ',' ::
        (addEntries clients ++ t))) = _ :=
      findKey_string (isKey member) pubkey.bare.noQuote (differs _ pubkey)
        (by intro c here; obtain rfl := Option.some.inj here; rfl)
    have second : findKey key ('"' :: client.ip ++ '"' :: (',' :: (addEntries clients ++ t))) = _ :=
      findKey_string (isKey member) ip.bare.noQuote (differs _ ip)
        (by intro c here; obtain rfl := Option.some.inj here; rfl)
    have lead (u : Text) : findKey key ('\n' :: "    ".toList ++ u) = findKey key u := findKey_gap (by simp)
    have colon (u : Text) : findKey key (": ".toList ++ u) = findKey key u := findKey_gap (by simp)
    have comma (u : Text) : findKey key ([','] ++ u) = findKey key u := findKey_gap (by simp)
    have split := addEntries_cons client clients t
    simp only [List.append_assoc,List.cons_append,List.nil_append] at first second lead colon comma split
    rw [split,lead,first,colon,second,comma,ih later]

/-! ### Values in front of the brace -/

/-- What the first entry puts behind the brace, up to its first quote. -/
def indentation : Text := "\x7b\n    \"".toList

theorem indentation_eq : indentation = "\x7b\n    \"".toList := rfl

/-- A string left open in front of the brace ends at the first quote of the entries, with
the brace in it. -/
theorem stringBody_open (h : stringBody s = none) (t : Text) :
    ∃ body, stringBody (s ++ indentation ++ t) = some body ∧ '{' ∈ unescape body := by
  induction s using stringBody.induct with
  | case1 => exact ⟨"\x7b\n    ".toList,rfl,by simp [unescape]⟩
  | case2 e rest ih =>
    obtain ⟨body,found,brace⟩ := ih (Option.map_eq_none_iff.mp h)
    exact ⟨'\\' :: e :: body,by simp [stringBody,← found],by simp [unescape,brace]⟩
  | case3 rest => cases h
  | case4 c rest noPair noQuote ih =>
    by_cases escape : c = '\\'
    · subst escape
      cases rest with
      | nil => exact ⟨"\\\x7b\n    ".toList,rfl,by simp [unescape,escapeChar]⟩
      | cons e r => exact absurd rfl (noPair e r rfl)
    · rw [stringBody_cons escape noQuote] at h
      obtain ⟨body,found,brace⟩ := ih (Option.map_eq_none_iff.mp h)
      refine ⟨c :: body,?_,?_⟩
      · simp only [List.cons_append,stringBody_cons escape noQuote,found,Option.map_some]
      · rw [unescape]
        · exact List.mem_cons_of_mem _ brace
        · intro e r same; exact absurd same escape

theorem nextString_open (bare : '"' ∉ g) : nextString (g ++ '"' :: s) = (stringBody s).map unescape := by
  rw [nextString,splitFirst_append bare]
  cases h : stringBody s <;> simp [h]

/-- A value that starts in front of the brace is complete there or has the brace in it. -/
theorem nextString_indentation (opened : '"' ∈ gap) :
    ∃ value, nextString (gap ++ indentation) = some value ∧ (nextString gap = some value ∨ '{' ∈ value) := by
  obtain ⟨a,b,rfl,bare⟩ := splitFirst_of_mem opened
  simp only [List.append_assoc,List.cons_append,nextString_open bare]
  cases closed : stringBody b with
  | none =>
    obtain ⟨body,found,brace⟩ := stringBody_open closed []
    rw [List.append_nil] at found
    exact ⟨unescape body,by rw [found]; rfl,.inr brace⟩
  | some body => exact ⟨unescape body,by rw [stringBody_append closed]; rfl,.inl rfl⟩

theorem addEntries_indentation {clients : List Created} (several : clients ≠ []) (gap rest : Text) :
    ∃ t, gap ++ '{' :: (addEntries clients ++ rest) = gap ++ indentation ++ t := by
  cases clients with
  | nil => exact absurd rfl several
  | cons client clients =>
    exact ⟨client.pubkey ++ '"' :: ": ".toList ++ '"' :: client.ip ++ '"' :: ',' :: (addEntries clients ++ rest),
      by rw [addEntries_cons]; simp [indentation_eq]⟩

theorem nextString_entries {clients : List Created} (several : clients ≠ []) (opened : '"' ∈ gap) (rest : Text) :
    nextString (gap ++ '{' :: (addEntries clients ++ rest)) = nextString (gap ++ indentation) := by
  obtain ⟨t,same⟩ := addEntries_indentation several gap rest
  obtain ⟨value,found,-⟩ := nextString_indentation opened
  rw [same,found,nextString_append found]

/-- A value that starts behind the brace is now the first new key. -/
theorem nextString_pubkey {client : Created} {clients : List Created} (words : Words (client :: clients))
    (closed : '"' ∉ gap) (rest : Text) :
    nextString (gap ++ '{' :: (addEntries (client :: clients) ++ rest)) = some client.pubkey := by
  have bare := (words client List.mem_cons_self).1.bare
  have lead : '"' ∉ gap ++ "\x7b\n    ".toList := by simp [closed]
  have found : nextString (_ ++ '"' :: client.pubkey ++ '"' ::
      (": ".toList ++ '"' :: client.ip ++ '"' :: ',' :: (addEntries clients ++ rest))) = _ := nextString_bare lead bare
  rw [addEntries_cons]
  simpa using found

/-! ### The brace that `json_peers` reads -/

/-- A string whose key stands in front of the brace starts there too, and ends there, or
behind the brace where a line break and four blanks would end it as well. -/
def ValueKept (gap rest : Text) : Prop :=
  '"' ∈ gap ∧ nextString (gap ++ '{' :: rest) = nextString (gap ++ indentation)

/-- Between the stripped texts `json` and `rest` stands the brace of the peers block, and
no other field reads across it. -/
structure Inserts (json rest : Text) : Prop where
  key : ∃ gap ∈ findKey "peers".toList json, '{' ∉ gap
  closed : '}' ∈ rest
  fields : ∀ key ∈ stringFields, ∀ gap ∈ findKey key json, ValueKept gap rest

instance (gap rest : Text) : Decidable (ValueKept gap rest) := inferInstanceAs (Decidable (_ ∧ _))

instance (json rest : Text) : Decidable (Inserts json rest) :=
  decidable_of_iff ((∃ gap ∈ findKey "peers".toList json, '{' ∉ gap) ∧ '}' ∈ rest ∧
      ∀ key ∈ stringFields, ∀ gap ∈ findKey key json, ValueKept gap rest)
    ⟨fun ⟨key,closed,fields⟩ => ⟨key,closed,fields⟩,fun h => ⟨h.key,h.closed,h.fields⟩⟩

theorem findKey_brace (member : key ∈ fieldNames) (json rest : Text) :
    findKey key (json ++ '{' :: rest) = ((findKey key json).map (· ++ '{' :: rest)).or (findKey key rest) := by
  have absent : '{' ∉ quoted key := (by decide +kernel : ∀ key ∈ fieldNames, '{' ∉ quoted key) key member
  exact findKey_stop absent (by decide) (by decide)

theorem jsonString_inserted {clients : List Created} (words : Words clients) (several : clients ≠ [])
    (member : key ∈ stringFields) (kept : ∀ gap ∈ findKey key json, ValueKept gap rest) :
    jsonString (json ++ '{' :: (addEntries clients ++ rest)) key = jsonString (json ++ '{' :: rest) key := by
  have field := mem_fieldNames member
  rw [jsonString,jsonString,findKey_brace field,findKey_brace field,findKey_entries field words]
  cases found : findKey key json with
  | none => rfl
  | some gap =>
    obtain ⟨opened,same⟩ := kept gap found
    simp only [Option.map_some,Option.some_or,Option.bind_some,nextString_entries several opened,same]

theorem jsonInt_inserted (words : Words clients) (member : key ∈ fieldNames) (fallback : Int) :
    jsonInt (json ++ '{' :: (addEntries clients ++ rest)) key fallback = jsonInt (json ++ '{' :: rest) key fallback := by
  rw [jsonInt,jsonInt,findKey_brace member,findKey_brace member,findKey_entries member words]
  cases findKey key json with
  | none => rfl
  | some gap =>
    have value (t : Text) : atoi (skipSpaces (gap ++ '{' :: t)) = atoi (skipSpaces gap) := by
      rw [skipSpaces,dropWhile_stop (by decide),atoi_stop (by decide) (by decide) (by decide) (by decide),skipSpaces]
    simp only [Option.map_some,Option.some_or,value]

theorem jsonBool_inserted (words : Words clients) (member : key ∈ fieldNames) (fallback : Bool) :
    jsonBool (json ++ '{' :: (addEntries clients ++ rest)) key fallback = jsonBool (json ++ '{' :: rest) key fallback := by
  rw [jsonBool,jsonBool,findKey_brace member,findKey_brace member,findKey_entries member words]
  cases findKey key json with
  | none => rfl
  | some gap =>
    have word (s t : Text) (absent : '{' ∉ s) : s <+: skipSpaces (gap ++ '{' :: t) ↔ s <+: skipSpaces gap := by
      rw [skipSpaces,dropWhile_stop (by decide),prefix_stop absent,skipSpaces]
    simp only [Option.map_some,Option.some_or,word "true".toList _ (by simp),word "false".toList _ (by simp)]

/-- The new pairs are read in front of the old ones. -/
theorem jsonPeers_inserted {clients : List Created} (words : Words clients) (h : Inserts json rest) :
    ∃ pairs, jsonPeers (json ++ '{' :: rest) = insertPairs ∅ pairs ∧
      jsonPeers (json ++ '{' :: (addEntries clients ++ rest)) = insertPairs ∅ (pairsOf clients ++ pairs) := by
  obtain ⟨gap,key,noBrace⟩ := h.key
  obtain ⟨body,tail,rfl,open'⟩ := splitFirst_of_mem h.closed
  have member : "peers".toList ∈ fieldNames := by simp [fieldNames]
  have closed : '}' ∉ addEntries clients ++ body := by
    intro inside
    rcases List.mem_append.mp inside with here | there
    · exact words.text.absent rfl (by simp [entryMarks]) here
    · exact open' there
  have old : findKey "peers".toList (json ++ '{' :: (body ++ '}' :: tail)) = some (gap ++ '{' :: body ++ '}' :: tail) := by
    rw [findKey_brace member,Option.mem_def.mp key,Option.map_some,Option.some_or]
    simp
  have new : findKey "peers".toList (json ++ '{' :: (addEntries clients ++ (body ++ '}' :: tail))) =
      some (gap ++ '{' :: (addEntries clients ++ body) ++ '}' :: tail) := by
    rw [findKey_brace member,Option.mem_def.mp key,Option.map_some,Option.some_or]
    simp
  refine ⟨blockPairs body,?_,?_⟩
  · rw [jsonPeers,peersBlock_eq_some.mpr ⟨gap,tail,old,noBrace,open'⟩]
  · rw [jsonPeers,peersBlock_eq_some.mpr ⟨gap,tail,new,noBrace,closed⟩,← words.text.blockPairs_append]

/-- Nothing but the peers reads differently. -/
theorem extract_inserted {clients : List Created} (words : Words clients) (several : clients ≠ [])
    (h : Inserts json rest) : ∃ pairs, (extract (json ++ '{' :: rest)).peers = insertPairs ∅ pairs ∧
      extract (json ++ '{' :: (addEntries clients ++ rest)) =
        { extract (json ++ '{' :: rest) with peers := insertPairs ∅ (pairsOf clients ++ pairs) } := by
  obtain ⟨pairs,old,new⟩ := jsonPeers_inserted words h
  have field {key : Text} (member : key ∈ stringFields) := jsonString_inserted words several member (h.fields key member)
  refine ⟨pairs,old,?_⟩
  rw [extract,new,field (by simp [stringFields]),field (by simp [stringFields]),field (by simp [stringFields]),
    field (by simp [stringFields]),field (by simp [stringFields]),field (by simp [stringFields]),
    field (by simp [stringFields]),jsonInt_inserted words (by simp [fieldNames]),
    jsonBool_inserted words (by simp [fieldNames])]
  rfl

/-! ### What the same reading says about the brace -/

/-- A value behind an insertion is the old one, the first new key, or has the brace in it. -/
theorem jsonString_cases {client : Created} {clients : List Created} (json rest : Text)
    (words : Words (client :: clients)) (member : key ∈ stringFields) :
    jsonString (json ++ '{' :: (addEntries (client :: clients) ++ rest)) key = jsonString (json ++ '{' :: rest) key ∨
      jsonString (json ++ '{' :: (addEntries (client :: clients) ++ rest)) key = client.pubkey ∨
      '{' ∈ jsonString (json ++ '{' :: (addEntries (client :: clients) ++ rest)) key := by
  have field := mem_fieldNames member
  rw [jsonString,jsonString,findKey_brace field,findKey_brace field,findKey_entries field words]
  cases found : findKey key json with
  | none => exact .inl rfl
  | some gap =>
    simp only [Option.map_some,Option.some_or,Option.bind_some]
    by_cases opened : '"' ∈ gap
    · obtain ⟨value,read,complete | brace⟩ := nextString_indentation opened
      · left
        rw [nextString_append complete,nextString_append complete]
      · right; right
        rw [nextString_entries (by simp) opened,read]
        exact brace
    · right; left
      rw [nextString_pubkey words opened]
      rfl

/-- If every string reads the same and the first new key is a peer, the brace is the one
of the peers block. -/
theorem inserts_of_same {client : Created} {clients : List Created} (words : Words (client :: clients))
    (intact : ∀ gap ∈ findKey "peers".toList json, '{' ∉ gap)
    (absent : client.pubkey ∉ jsonPeers (json ++ '{' :: rest))
    (present : client.pubkey ∈ jsonPeers (json ++ '{' :: (addEntries (client :: clients) ++ rest)))
    (unread : ∀ key ∈ stringFields, jsonString (json ++ '{' :: rest) key ≠ client.pubkey)
    (same : ∀ key ∈ stringFields,
      jsonString (json ++ '{' :: (addEntries (client :: clients) ++ rest)) key = jsonString (json ++ '{' :: rest) key) :
    Inserts json rest := by
  have peers : "peers".toList ∈ fieldNames := by simp [fieldNames]
  have search := findKey_brace peers json
  have entries := findKey_entries peers words rest
  obtain ⟨gap,key⟩ : ∃ gap, findKey "peers".toList json = some gap := by
    cases found : findKey "peers".toList json with
    | some gap => exact ⟨gap,rfl⟩
    | none =>
      have unmoved : peersBlock (json ++ '{' :: (addEntries (client :: clients) ++ rest)) =
          peersBlock (json ++ '{' :: rest) := by
        simp only [peersBlock,search,entries,found,Option.map_none,Option.none_or]
      rw [jsonPeers,unmoved] at present
      exact absurd present absent
  have noBrace := intact gap key
  refine ⟨⟨gap,key,noBrace⟩,?_,fun field member gap found => ?_⟩
  · by_contra unclosed
    have closed : '}' ∉ addEntries (client :: clients) ++ rest := by
      intro inside
      rcases List.mem_append.mp inside with here | there
      · exact words.text.absent rfl (by simp [entryMarks]) here
      · exact unclosed there
    have none : peersBlock (json ++ '{' :: (addEntries (client :: clients) ++ rest)) = none := by
      simp only [peersBlock,search,key,Option.map_some,Option.some_or,Option.bind_eq_bind,Option.bind_some,
        splitFirst_append noBrace,splitFirst_eq_none.mpr closed,Option.bind_none]
    rw [jsonPeers,none] at present
    exact AList.notMem_empty _ present
  · have reads := same field member
    have unread := unread field member
    have position := mem_fieldNames member
    rw [Option.mem_def] at found
    rw [jsonString,jsonString,findKey_brace position,findKey_brace position,found] at reads
    rw [jsonString,findKey_brace position,found] at unread
    simp only [Option.map_some,Option.some_or,Option.bind_some] at reads unread
    by_cases opened : '"' ∈ gap
    · refine ⟨opened,?_⟩
      obtain ⟨value,read,complete | brace⟩ := nextString_indentation opened
      · rw [nextString_append complete,nextString_append complete]
      · rw [nextString_entries (by simp) opened,read] at reads
        cases old : nextString (gap ++ '{' :: rest) with
        | none =>
          rw [old] at reads
          obtain rfl : value = [] := reads
          contradiction
        | some v =>
          rw [old] at reads
          rw [read]
          exact congrArg some (show value = v from reads).symm
    · rw [nextString_pubkey words opened] at reads
      exact absurd reads.symm unread

/-! ### The brace in the raw text -/

/-- The brace behind which `addclient` inserts stands outside comments, and is the one
that `json_peers` reads. -/
def InsertsInPeers (raw : Text) : Prop :=
  ∃ lead back, insertionPoint raw = some (lead ++ ['{'],back) ∧ ¬(scan .code lead).2.InComment ∧
    Inserts (scan .code lead).1 (stripFrom (afterBrace (scan .code lead).2) back)

instance (raw : Text) : Decidable (InsertsInPeers raw) :=
  decidable_of_iff (∃ cut ∈ insertionPoint raw, cut.1 = cut.1.dropLast ++ ['{'] ∧
      ¬(scan .code cut.1.dropLast).2.InComment ∧
      Inserts (scan .code cut.1.dropLast).1 (stripFrom (afterBrace (scan .code cut.1.dropLast).2) cut.2)) <| by
    constructor
    · rintro ⟨⟨cut,back⟩,found,brace,outside,inserts⟩
      exact ⟨cut.dropLast,back,brace ▸ found,outside,inserts⟩
    · rintro ⟨lead,back,found,outside,inserts⟩
      refine ⟨_,found,?_⟩
      rw [List.dropLast_concat]
      exact ⟨rfl,outside,inserts⟩

/-- No peers key is found in front of the first place where its name stands in quotes: none
is put together from two sides of a comment. -/
def KeyIntact (raw : Text) : Prop :=
  ∀ front rest, splitSub (quoted "peers".toList) raw = some (front,rest) →
    findKey "peers".toList (stripComments front) = none

instance (raw : Text) : Decidable (KeyIntact raw) :=
  decidable_of_iff (∀ cut ∈ splitSub (quoted "peers".toList) raw, findKey "peers".toList (stripComments cut.1) = none)
    ⟨fun h _ _ found => h _ found,fun h _ found => h _ _ found⟩

theorem insertionPoint_eq_some (h : insertionPoint raw = some (cut,back)) :
    ∃ front gap, cut = front ++ '"' :: gap ++ ['{'] ∧ raw = front ++ '"' :: gap ++ '{' :: back ∧ '{' ∉ gap ∧
      ∃ rest, splitSub (quoted "peers".toList) raw = some (front,rest) := by
  simp only [insertionPoint,bind,Option.bind_eq_some_iff,Prod.exists,pure,Option.some.injEq,Prod.mk.injEq] at h
  obtain ⟨front,rest,found,before,_,brace,rfl,rfl⟩ := h
  obtain ⟨rfl,noBrace⟩ := splitFirst_eq_some.mp brace
  obtain ⟨rfl,r,here⟩ := splitSub_found found
  cases before with
  | nil => cases here
  | cons c gap =>
    obtain ⟨rfl,-⟩ := List.cons.inj here
    exact ⟨front,gap,by simp,by simp,fun inside => noBrace (List.mem_cons_of_mem _ inside),_,found⟩

theorem keyAt_eq_some : keyAt key s = some value ↔
    ∃ blanks, s = quoted key ++ (blanks ++ ':' :: value) ∧ ∀ c ∈ blanks, isBlank c = true := by
  simp only [keyAt,Option.bind_eq_some_iff,afterPrefix_eq_some]
  constructor
  · rintro ⟨r,rfl,h⟩
    split at h
    · rename_i v rest
      obtain rfl := Option.some.inj h
      refine ⟨r.takeWhile isBlank,?_,fun c member => List.mem_takeWhile_imp member⟩
      rw [← rest,List.takeWhile_append_dropWhile]
    · cases h
  · rintro ⟨blanks,rfl,blank⟩
    refine ⟨_,rfl,?_⟩
    rw [List.dropWhile_append_of_pos blank,List.dropWhile_cons_of_neg (by decide)]
    rfl

theorem findKey_suffix (h : findKey key s = some value) : value <:+ s := by
  induction s with
  | nil => cases h
  | cons c s ih =>
    rw [findKey] at h
    split at h
    · rename_i v here
      obtain rfl := Option.some.inj h
      obtain ⟨blanks,same,-⟩ := keyAt_eq_some.mp here
      exact ⟨quoted key ++ (blanks ++ [':']),by rw [same]; simp⟩
    · exact (ih h).trans (List.suffix_cons c s)

/-- What follows a key in joined texts follows it in the first, or is part of the second. -/
theorem findKey_append (h : findKey key (p ++ q) = some value) :
    (∃ g, findKey key p = some g ∧ value = g ++ q) ∨ value <:+ q := by
  induction p with
  | nil => exact .inr (findKey_suffix h)
  | cons c p ih =>
    rw [List.cons_append,findKey] at h
    cases here : keyAt key (c :: (p ++ q)) with
    | some v =>
      rw [here] at h
      obtain rfl := Option.some.inj h
      obtain ⟨blanks,same,blank⟩ := keyAt_eq_some.mp here
      have whole : c :: p ++ q = quoted key ++ (blanks ++ [':']) ++ v := by
        rw [List.cons_append,same]
        simp
      rcases List.suffix_or_suffix_of_suffix ⟨_,whole.symm⟩ (List.suffix_append (c :: p) q) with short | ⟨g,rfl⟩
      · exact .inr short
      · left
        rw [← List.append_assoc] at whole
        have front := keyAt_eq_some.mpr ⟨blanks,by simpa using List.append_cancel_right whole,blank⟩
        exact ⟨g,by rw [findKey,front],rfl⟩
    | none =>
      rw [here] at h
      cases front : keyAt key (c :: p) with
      | none =>
        rw [findKey,front]
        exact ih h
      | some g =>
        obtain ⟨blanks,same,blank⟩ := keyAt_eq_some.mp front
        have longer : keyAt key (c :: (p ++ q)) = some (g ++ q) :=
          keyAt_eq_some.mpr ⟨blanks,by rw [← List.cons_append,same]; simp,blank⟩
        rw [here] at longer
        contradiction

/-- With the key intact no other brace comes between it and the insertion. -/
theorem KeyIntact.noBrace (intact : KeyIntact raw) (h : insertionPoint raw = some (lead ++ ['{'],back)) :
    ∀ gap ∈ findKey "peers".toList (scan .code lead).1, '{' ∉ gap := by
  obtain ⟨front,before,cut,-,noBrace,rest,found⟩ := insertionPoint_eq_some h
  obtain rfl := List.append_cancel_right cut
  intro gap key inside
  have split : (scan .code (front ++ '"' :: before)).1 =
      stripComments front ++ stripFrom (scan .code front).2 ('"' :: before) := by
    rw [← stripFrom_eq_scan,stripFrom_scan (by decide) (by decide),stripComments,stripFrom_eq_scan .code front]
  rw [split] at key
  rcases findKey_append key with ⟨g,early,-⟩ | behind
  · rw [intact front rest found] at early
    contradiction
  · have member := mem_stripFrom (behind.subset inside)
    rcases List.mem_cons.mp member with brace | brace
    · revert brace; decide
    · exact noBrace brace

/-! ### Insertions inside comments -/

theorem blockPairs_inside (member : (k,value) ∈ blockPairs block) : k <:+: block := by
  induction length : block.length using Nat.strongRecOn generalizing block with
  | ind n ih =>
    cases next : nextPeer block with
    | none =>
      rw [blockPairs,peerReader.drain_wait (by simp only [peerReader,next,Option.map_none])] at member
      cases member
    | some found =>
      obtain ⟨⟨key,val⟩,rest⟩ := found
      have step : peerReader.next block = some (some (key,val),rest) := by
        simp only [peerReader,next,Option.map_some]
      have shorter := peerReader.progress step
      obtain ⟨gap,mid,rfl,-⟩ := nextPeer_eq_some.mp next
      rw [blockPairs,peerReader.drain_next step] at member
      rcases List.mem_cons.mp (show (k,value) ∈ (key,val) :: blockPairs rest from member) with here | later
      · obtain ⟨rfl,-⟩ := Prod.mk.inj here
        exact ⟨gap ++ ['"'],'"' :: mid ++ '"' :: val ++ '"' :: rest,by simp⟩
      · refine (ih rest.length (length ▸ shorter) later rfl).trans (List.IsSuffix.isInfix ?_)
        exact ⟨gap ++ '"' :: key ++ '"' :: mid ++ '"' :: val ++ ['"'],by simp⟩

/-- A brace of a suffix, when none stands in front: what follows it is a suffix as well. -/
theorem suffix_brace (h : a ++ c :: rest <:+ front ++ z) (absent : c ∉ front) : rest <:+ z := by
  have here : c :: rest <:+ front ++ z := (List.suffix_append a _).trans h
  rcases List.suffix_or_suffix_of_suffix here (List.suffix_append front z) with inside | ⟨g,longer⟩
  · exact (List.suffix_cons c rest).trans inside
  · cases g with
    | nil =>
      rw [List.nil_append] at longer
      rw [longer]
      exact List.suffix_cons c rest
    | cons d g =>
      obtain ⟨rfl,tail⟩ := List.cons.inj longer
      rw [← longer] at here
      obtain ⟨x,same⟩ := here
      rw [← List.append_assoc] at same
      rw [← List.append_cancel_right same] at absent
      exact absurd (List.mem_append_right _ List.mem_cons_self) absent

/-- With no brace between the key and `z`, every peer is named in `z`. -/
theorem peers_behind (noBrace : ∀ gap ∈ findKey "peers".toList p, '{' ∉ gap) (clean : '{' ∉ g)
    (member : k ∈ jsonPeers (p ++ (g ++ z))) : k <:+: z := by
  rw [jsonPeers] at member
  split at member
  · exact absurd member (AList.notMem_empty k)
  · rename_i block found
    obtain ⟨a,tail,key,-,-⟩ := peersBlock_eq_some.mp found
    rcases mem_insertAll member with none | ⟨value,listed⟩
    · exact absurd none (AList.notMem_empty k)
    · have inside : block ++ '}' :: tail <:+ z := by
        rcases findKey_append key with ⟨gap,early,same⟩ | behind
        · have whole : a ++ '{' :: (block ++ '}' :: tail) <:+ (gap ++ g) ++ z := by
            rw [List.append_assoc,← same]
            simp
          exact suffix_brace whole (by simp [noBrace gap early,clean])
        · have whole : a ++ '{' :: (block ++ '}' :: tail) <:+ g ++ z := by
            simpa using behind
          exact suffix_brace whole clean
      exact (blockPairs_inside listed).trans ((List.prefix_append block _).isInfix.trans inside.isInfix)

/-- Inside a comment the first new key does not become a peer. -/
theorem outside_comment {client : Created} {clients : List Created} (words : Words (client :: clients))
    (intact : KeyIntact raw) (cut : insertionPoint raw = some (lead ++ ['{'],back))
    (absent : client.pubkey ∉ jsonPeers (stripComments raw)) (unseen : ¬client.pubkey <:+: stripComments back)
    (present : client.pubkey ∈
      jsonPeers (stripComments (lead ++ '{' :: (addEntries (client :: clients) ++ back)))) :
    ¬(scan .code lead).2.InComment := by
  intro comment
  have whole : raw = lead ++ '{' :: back := by
    obtain ⟨front,gap,same,rfl,-⟩ := insertionPoint_eq_some cut
    rw [List.append_cancel_right same]
  have noBrace := intact.noBrace cut
  rw [whole] at absent
  rw [stripComments,stripFrom_scan (by decide) (by decide)] at absent present
  cases mode : (scan .code lead).2 with
  | code | string prev => rw [mode] at comment; exact comment
  | block =>
    have skip (t : Text) : stripFrom .block ('{' :: t) = stripFrom .block t :=
      stripFrom_block_skip (g := ['{']) (by decide) t
    have noStar : '*' ∉ addEntries (client :: clients) := words.text.absent rfl (by simp [entryMarks])
    rw [mode,skip] at absent present
    rw [stripFrom_block_skip noStar] at present
    exact absent present
  | line =>
    obtain ⟨entries,first⟩ : ∃ entries, addEntries (client :: clients) = '\n' :: entries := ⟨_,rfl⟩
    have strips := words.text.strips back
    have clean : '{' ∉ addEntries (client :: clients) := words.text.absent rfl (by simp [entryMarks])
    rw [first] at strips clean present
    rw [List.cons_append,stripFrom_code (by decide) (by decide),List.cons_append] at strips
    have skip (t : Text) : stripFrom .line ('{' :: '\n' :: t) = stripFrom .code t := rfl
    rw [mode,List.cons_append,skip,(List.cons.inj strips).2] at present
    exact unseen (peers_behind noBrace (fun inside => clean (List.mem_cons_of_mem _ inside)) present)

end Nospoon
