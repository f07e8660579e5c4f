import Nospoon.Js.Fields
import Nospoon.Layout

/-! One field of two documents. Every extractor searches forward from its key, so it
depends on the value of its own member alone only where what it wants stands in there. -/
namespace Nospoon

open Library Library.Json

/-! ### The extractor of a field -/

inductive Extractor where
  | string
  | int
  | bool
  | peers

/-- The extractor that `load_config` calls for a field. -/
def extractorOf (key : Text) : Extractor :=
  if key = "mtu".toList then .int
  else if key = "fullTunnel".toList then .bool
  else if key = "peers".toList then .peers
  else .string

inductive Extracted where
  | string (value : Text)
  | int (value : Int)
  | bool (value : Bool)
  | peers (value : PeersMap)

def extractField (json key : Text) : Extracted :=
  match extractorOf key with
  | .string => .string (jsonString json key)
  | .int => .int (jsonInt json key 1400)
  | .bool => .bool (jsonBool json key false)
  | .peers => .peers (jsonPeers json)

theorem extractorOf_string (field : key ∈ stringFields) : extractorOf key = .string := by
  simp only [stringFields,List.mem_cons,List.not_mem_nil,or_false] at field
  rcases field with rfl | rfl | rfl | rfl | rfl | rfl | rfl <;> rfl

theorem field_cases (field : key ∈ fieldNames) :
    key ∈ stringFields ∨ key = "mtu".toList ∨ key = "fullTunnel".toList ∨ key = "peers".toList := by
  simp only [fieldNames,List.mem_cons,List.not_mem_nil,or_false] at field
  rcases field with rfl | rfl | rfl | rfl | rfl | rfl | rfl | rfl | rfl | rfl
  iterate 6 exact .inl (by simp [stringFields])
  · exact .inr (.inl rfl)
  · exact .inr (.inr (.inr rfl))
  · exact .inr (.inr (.inl rfl))
  · exact .inl (by simp [stringFields])

/-- The fields are all that `load_config` extracts. -/
theorem extract_ext (same : ∀ key ∈ fieldNames, extractField t key = extractField u key) : extract t = extract u := by
  have string (key : Text) (field : key ∈ stringFields) : jsonString t key = jsonString u key := by
    have here := same key (mem_fieldNames field)
    unfold extractField at here
    rw [extractorOf_string field] at here
    exact Extracted.string.inj here
  have number : jsonInt t "mtu".toList 1400 = jsonInt u "mtu".toList 1400 :=
    Extracted.int.inj (same "mtu".toList (by simp [fieldNames]))
  have flag : jsonBool t "fullTunnel".toList false = jsonBool u "fullTunnel".toList false :=
    Extracted.bool.inj (same "fullTunnel".toList (by simp [fieldNames]))
  have peers : jsonPeers t = jsonPeers u := Extracted.peers.inj (same "peers".toList (by simp [fieldNames]))
  rw [extract,extract,number,flag,peers,string _ (by simp [stringFields]),string _ (by simp [stringFields]),
    string _ (by simp [stringFields]),string _ (by simp [stringFields]),string _ (by simp [stringFields]),
    string _ (by simp [stringFields]),string _ (by simp [stringFields])]

/-! ### Behind the colon -/

/-- From the first `{` to the first `}` behind it. -/
def firstBlock (t : Text) : Option Text :=
  (splitFirst '{' t).bind fun r => (splitFirst '\x7d' r.2).map Prod.fst

/-- What an extractor makes of the text behind its key. -/
def Extractor.read : Extractor → Text → Extracted
  | .string, behind => .string ((nextString behind).getD [])
  | .int, behind => .int (atoi (skip behind))
  | .bool, behind => .bool ("true".toList.isPrefixOf (skip behind) && !breaks behind)
  | .peers, behind => .peers ((firstBlock behind).elim ∅ fun block => insertPairs ∅ (blockPairs block))

def Extractor.fallback : Extractor → Extracted
  | .string => .string []
  | .int => .int 1400
  | .bool => .bool false
  | .peers => .peers ∅

theorem extractField_eq (field : key ∈ fieldNames) :
    extractField json key = (findKey key json).elim (extractorOf key).fallback (extractorOf key).read := by
  rcases field_cases field with string | rfl | rfl | rfl
  · unfold extractField
    rw [extractorOf_string string]
    dsimp only
    rw [jsonString]
    cases findKey key json <;> rfl
  · have number : extractField json "mtu".toList = .int (jsonInt json "mtu".toList 1400) := rfl
    have int : extractorOf "mtu".toList = .int := rfl
    rw [number,int,jsonInt]
    cases findKey "mtu".toList json with
    | none => rfl
    | some behind => exact congrArg Extracted.int (atoi_behind behind)
  · have flag : extractField json "fullTunnel".toList = .bool (jsonBool json "fullTunnel".toList false) := rfl
    have bool : extractorOf "fullTunnel".toList = .bool := rfl
    rw [flag,bool,jsonBool_eq]
    cases findKey "fullTunnel".toList json <;> rfl
  · have block : extractField json "peers".toList = .peers (jsonPeers json) := rfl
    have peers : extractorOf "peers".toList = .peers := rfl
    rw [block,peers,jsonPeers,peersBlock]
    cases findKey "peers".toList json with
    | none => rfl
    | some behind =>
      simp only [Option.bind_eq_bind,Option.bind_some,Option.elim_some,Extractor.read,firstBlock]
      cases splitFirst '{' behind with
      | none => rfl
      | some r =>
        simp only [Option.bind_some]
        cases splitFirst '\x7d' r.2 <;> rfl

/-! ### Values -/

/-- The text of the value in front. -/
def ownText (t : Text) : Text :=
  match readValue (enough t + 1) t with
  | some (_,r) => (skip t).take ((skip t).length - r.length)
  | none => []

/-- A value by its first token, in its own text and in front of what follows it. -/
structure Spans (x b : Text) : Prop where
  front : ∃ r, skip b = x ++ r
  lays : ∃ toks, Lays toks x []
  first : ∃ tok u u', nextToken x = some (tok,u) ∧ nextToken b = some (tok,u')

theorem spans_member (document : topLevel t = some ms) (member : m ∈ ms) : Spans (ownText m.behind) m.behind := by
  obtain ⟨fuel,r,c,rest,read,front,closing⟩ := topLevel_reads document m member
  have ends : Ends r := ends_of_next (nextToken_mark front (by rcases closing with rfl | rfl <;> decide))
  obtain ⟨toks,lays,derives⟩ := (derives_of_read fuel).1 _ _ _ read ends
  have again : readValue (enough m.behind + 1) m.behind = some (m.value,r) := (reads_of_derives derives) _ _ _ lays ends le_rfl
  obtain ⟨tok,rest,rfl,-⟩ := derives.first
  obtain ⟨u,found,later⟩ := lays.next
  obtain ⟨-,-,-,valid,stops⟩ := nextToken_eq_some.mp found
  have here : Lays (tok :: rest) (tok.text ++ u) r := .token (g := []) nofun valid stops later
  obtain ⟨x,split,moves⟩ := here.follow
  have own := moves [] fun _ => nofun
  rw [List.append_nil] at own
  have text : ownText m.behind = x := by
    rw [ownText,again]
    simp [skip_of_next found,split]
  rw [text]
  obtain ⟨u',found',-⟩ := own.next
  exact ⟨⟨r,(skip_of_next found).trans split⟩,⟨_,own⟩,⟨tok,u',u,found',found⟩⟩

theorem Spans.skip_own (spans : Spans x b) : skip x = x := by
  obtain ⟨r,front⟩ := spans.front
  cases x with
  | nil => rfl
  | cons c x =>
    have dark := List.head?_dropWhile_not isWhite b
    have head : (b.dropWhile isWhite).head? = some c := congrArg List.head? front
    rw [head] at dark
    exact List.dropWhile_cons_of_neg (by simpa using dark)

theorem Spans.split (spans : Spans x b) : ∃ g r, Blank g ∧ b = g ++ (x ++ r) := by
  obtain ⟨r,front⟩ := spans.front
  obtain ⟨g,blank,whole⟩ := before_skip b
  exact ⟨g,r,blank,front ▸ whole⟩

/-! ### Confined extractors -/

/-- What the extractor wants stands in the value, or nowhere behind the colon. A flag may
not stand on a line of its own. -/
def Extractor.Within (x behind : Text) : Extractor → Prop
  | .string => '"' ∈ behind → '"' ∈ x
  | .int => True
  | .bool => "true".toList <+: x → breaks behind = false
  | .peers => '{' ∈ behind → (firstBlock x).isSome = true

theorem quote_lays (lays : Lays toks t r) (blank : Blank r) (none : firstString toks = none) : '"' ∉ t := by
  induction lays with
  | done => exact blank_noQuote blank
  | @token g toks t r tok before valid ends rest ih =>
    have gap := blank_noQuote before
    cases tok with
    | str s => exact absurd none (by simp [firstString])
    | mark c => simp [gap,mark_noQuote valid,ih blank none]
    | word w => simp [gap,word_noQuote valid,ih blank none]

theorem nextString_within (spans : Spans x b) (within : '"' ∈ b → '"' ∈ x) : nextString b = nextString x := by
  obtain ⟨g,r,blank,rfl⟩ := spans.split
  obtain ⟨toks,lays⟩ := spans.lays
  cases own : nextString x with
  | some value => rw [nextString_skip (blank_noQuote blank),nextString_append own]
  | none =>
    rw [nextString_lays lays nofun] at own
    have bare := mt within (quote_lays lays nofun own)
    rw [nextString,splitFirst_eq_none.mpr bare]
    rfl

theorem firstBlock_eq_some : firstBlock t = some block ↔
    ∃ g r, t = g ++ '{' :: (block ++ '\x7d' :: r) ∧ '{' ∉ g ∧ '\x7d' ∉ block := by
  simp only [firstBlock,Option.bind_eq_some_iff,Option.map_eq_some_iff,Prod.exists,splitFirst_eq_some]
  constructor
  · rintro ⟨g,_,⟨rfl,bare⟩,_,r,⟨rfl,closed⟩,rfl⟩
    exact ⟨g,r,rfl,bare,closed⟩
  · rintro ⟨g,r,rfl,bare,closed⟩
    exact ⟨g,_,⟨rfl,bare⟩,block,r,⟨rfl,closed⟩,rfl⟩

theorem firstBlock_within (spans : Spans x b) (within : '{' ∈ b → (firstBlock x).isSome = true) : firstBlock b = firstBlock x := by
  obtain ⟨g,r,blank,rfl⟩ := spans.split
  have gap : '{' ∉ g := fun brace => absurd (blank _ brace) (by decide)
  cases own : firstBlock x with
  | some block =>
    obtain ⟨g',r',rfl,bare,closed⟩ := firstBlock_eq_some.mp own
    exact firstBlock_eq_some.mpr ⟨g ++ g',r' ++ r,by simp,by simp [gap,bare],closed⟩
  | none =>
    rw [own] at within
    rw [firstBlock,splitFirst_eq_none.mpr fun brace => absurd (within brace) (by decide)]
    rfl

/-- A confined extractor reads its value and nothing else. -/
theorem Extractor.read_within {e : Extractor} (spans : Spans x b) (within : e.Within x b) : e.read b = e.read x := by
  obtain ⟨tok,u,u',own,here⟩ := spans.first
  cases e with
  | string =>
    rw [Extractor.read,Extractor.read,nextString_within spans within]
  | int =>
    rw [Extractor.read,Extractor.read,atoi_next here [],atoi_next own []]
  | peers =>
    rw [Extractor.read,Extractor.read,firstBlock_within spans within]
  | bool =>
    have dark : breaks x = false := by
      have first : x.takeWhile isWhite = [] := by
        have whole := x.takeWhile_append_dropWhile (p := isWhite)
        have same : x.dropWhile isWhite = x := spans.skip_own
        rw [same] at whole
        exact List.append_left_eq_self.mp whole
      rw [breaks,first]
      rfl
    have word : "true".toList.isPrefixOf (skip b) = "true".toList.isPrefixOf (skip x) := Bool.eq_iff_iff.mpr <|
      List.isPrefixOf_iff_prefix.trans <| (startsTrue_next here []).trans <|
        (startsTrue_next own []).symm.trans List.isPrefixOf_iff_prefix.symm
    rw [Extractor.read,Extractor.read,word,dark]
    cases set : "true".toList.isPrefixOf (skip x) with
    | false => rfl
    | true =>
      rw [spans.skip_own] at set
      rw [within (List.isPrefixOf_iff_prefix.mp set)]

/-! ### Two documents -/

/-- The text of the value that counts for a name. -/
def memberText (ms : List Member) (key : Text) : Option Text :=
  (Js.lastMember ms key).map fun m => ownText m.behind

/-- The first name at any depth that ends like the key is that of the member that counts,
whose value the extractor does not leave; without such a member there is no such name. -/
structure Confined (t : Text) (ms : List Member) (key : Text) : Prop where
  place : ((names t).find? fun n => EndsNamed key n.1).map Prod.snd = (Js.lastMember ms key).map Member.behind
  within : ∀ m, Js.lastMember ms key = some m → (extractorOf key).Within (ownText m.behind) m.behind

theorem fieldNames_plain (field : key ∈ fieldNames) : PlainKey key := by
  simp only [fieldNames,List.mem_cons,List.not_mem_nil,or_false] at field
  rcases field with rfl | rfl | rfl | rfl | rfl | rfl | rfl | rfl | rfl | rfl <;> decide

theorem findKey_document (document : topLevel t = some ms) (field : key ∈ fieldNames) :
    findKey key t = ((names t).find? fun n => EndsNamed key n.1).map Prod.snd := by
  obtain ⟨toks,lexed,derives⟩ := derives_of_parse (parse_obj.mpr ⟨ms,document,rfl⟩)
  obtain ⟨r,lays,blank⟩ := tokens_eq_some.mp lexed
  exact findKey_names (fieldNames_plain field) derives.separated lays blank

/-- A confined field is the one of its member's text. -/
theorem extractField_confined (document : topLevel t = some ms) (field : key ∈ fieldNames) (confined : Confined t ms key) :
    extractField t key = (memberText ms key).elim (extractorOf key).fallback (extractorOf key).read := by
  rw [extractField_eq field,findKey_document document field,confined.place,memberText]
  cases found : Js.lastMember ms key with
  | none => rfl
  | some m =>
    have member : m ∈ ms := List.mem_reverse.mp (List.mem_of_find?_eq_some found)
    exact Extractor.read_within (spans_member document member) (confined.within m found)

/-- Two documents that agree on a field's member give it the same value, where nothing
else in them is in the way. -/
theorem extractField_independent (first : topLevel t = some ms) (second : topLevel u = some ms') (field : key ∈ fieldNames)
    (agree : memberText ms key = memberText ms' key) (confined : Confined t ms key) (confined' : Confined u ms' key) :
    extractField t key = extractField u key := by
  rw [extractField_confined first field confined,extractField_confined second field confined',agree]

theorem confined_of (behind : Text) (document : topLevel t = some ms)
    (found : ((names t).find? fun n => EndsNamed key n.1).map Prod.snd = some behind)
    (counts : ((topLevel t).bind fun ms => (Js.lastMember ms key).map Member.behind) = some behind)
    (within : (extractorOf key).Within (ownText behind) behind) :
    Confined t ms key ∧ memberText ms key = some (ownText behind) := by
  rw [document,Option.bind_some] at counts
  obtain ⟨m,last,rfl⟩ := Option.map_eq_some_iff.mp counts
  constructor
  · constructor
    · rw [found,last]
      rfl
    · intro m' again
      obtain rfl := Option.some.inj (last.symm.trans again)
      exact within
  · rw [memberText,last]
    rfl

/-- A mode in front of another field, and behind a nested object. -/
theorem extractField_independent_mode :
    extractField "\x7b\"mode\":\"client\",\"ip\":\"10.0.0.2/24\"\x7d".toList "mode".toList =
      extractField "\x7b\"note\":\x7b\"ip\":null\x7d,\"mode\": \"client\"\x7d".toList "mode".toList := by
  obtain ⟨ms,first⟩ := Option.isSome_iff_exists.mp (by decide +kernel :
    (topLevel "\x7b\"mode\":\"client\",\"ip\":\"10.0.0.2/24\"\x7d".toList).isSome = true)
  obtain ⟨ms',second⟩ := Option.isSome_iff_exists.mp (by decide +kernel :
    (topLevel "\x7b\"note\":\x7b\"ip\":null\x7d,\"mode\": \"client\"\x7d".toList).isSome = true)
  have quoted (behind : Text) (inside : (ownText behind).contains '"' = true) :
      (extractorOf "mode".toList).Within (ownText behind) behind := fun _ => List.contains_iff_mem.mp inside
  obtain ⟨confined,text⟩ := confined_of "\"client\",\"ip\":\"10.0.0.2/24\"\x7d".toList first (by decide +kernel)
    (by decide +kernel) (quoted _ (by decide +kernel))
  obtain ⟨confined',text'⟩ := confined_of " \"client\"\x7d".toList second (by decide +kernel)
    (by decide +kernel) (quoted _ (by decide +kernel))
  exact extractField_independent first second (by simp [fieldNames])
    (text.trans (Eq.trans (by decide +kernel) text'.symm)) confined confined'

/-- Two documents with the same member that the extractor reads differently. -/
def Depends (key : Text) : Prop :=
  ∃ t u ms ms', topLevel t = some ms ∧ topLevel u = some ms' ∧ memberText ms key = memberText ms' key ∧
    extractField t key ≠ extractField u key

theorem depends (agree : ((topLevel t).bind fun ms => (topLevel u).map fun ms' => decide (memberText ms key = memberText ms' key)) =
    some true) (differs : extractField t key ≠ extractField u key) : Depends key := by
  obtain ⟨ms,first,rest⟩ := Option.bind_eq_some_iff.mp agree
  obtain ⟨ms',second,same⟩ := Option.map_eq_some_iff.mp rest
  exact ⟨t,u,ms,ms',first,second,of_decide_eq_true same,differs⟩

/-- A null reads the name behind it, a nested member stands in for an absent one or hides a
number, a line break turns a flag off, and any object behind a null gives peers. -/
theorem fields_depend : Depends "mode".toList ∧ Depends "ipv6".toList ∧ Depends "mtu".toList ∧
    Depends "fullTunnel".toList ∧ Depends "peers".toList := by
  refine ⟨depends (t := "\x7b\"mode\":null,\"ip\":\"10.0.0.1/24\"\x7d".toList)
      (u := "\x7b\"ip\":\"10.0.0.1/24\",\"mode\":null\x7d".toList) (by decide +kernel) fun same => ?_,
    depends (t := "\x7b\"old\":\x7b\"ipv6\":\"fd00::1/64\"\x7d\x7d".toList) (u := "\x7b\x7d".toList)
      (by decide +kernel) fun same => ?_,
    depends (t := "\x7b\"old\":\x7b\"mtu\":9000\x7d,\"mtu\":1400\x7d".toList)
      (u := "\x7b\"mtu\":1400\x7d".toList) (by decide +kernel) fun same => ?_,
    depends (t := "\x7b\"fullTunnel\":\ntrue\x7d".toList)
      (u := "\x7b\"fullTunnel\":true\x7d".toList) (by decide +kernel) fun same => ?_,
    depends (t := "\x7b\"peers\":null,\"note\":\x7b\"a\":\"b\"\x7d\x7d".toList)
      (u := "\x7b\"peers\":null\x7d".toList) (by decide +kernel) fun same => ?_⟩
  · exact absurd (Extracted.string.inj same) (by decide +kernel)
  · exact absurd (Extracted.string.inj same) (by decide +kernel)
  · exact absurd (Extracted.int.inj same) (by decide +kernel)
  · exact absurd (Extracted.bool.inj same) (by decide +kernel)
  · exact absurd (congrArg (AList.lookup "a".toList) (Extracted.peers.inj same)) (by decide +kernel)

end Nospoon
