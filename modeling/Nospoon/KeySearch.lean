import Nospoon.JsonText
import Nospoon.Library.JsonGrammar

/-! What `find_key` finds in well-formed JSON: the first member of that name at any depth,
where a name with an escaped quote is taken for what follows the quote. -/
namespace Nospoon

open Library Library.Json

/-! ### Names in quotes -/

/-- Letters of any alphabet, digits, and whatever else JSON does not take for a quote, an escape,
white space or punctuation. -/
def isPlain (c : Char) : Bool := c != '"' && c != '\\' && !isWhite c && !isMark c

def PlainKey (key : Text) : Prop := key.all isPlain = true

instance (key : Text) : Decidable (PlainKey key) := inferInstanceAs (Decidable (_ = _))

/-- The quoted key ends the quoted string. -/
def EndsNamed (key : Text) (s : Parts) : Prop := quoted key <:+ '"' :: spelled s ++ ['"']

instance (key : Text) (s : Parts) : Decidable (EndsNamed key s) := inferInstanceAs (Decidable (_ <:+ _))

theorem PlainKey.apart (plain : PlainKey key) : '"' ∉ key ∧ '\\' ∉ key := by
  have each := List.all_eq_true.mp plain
  constructor
  · intro quote
    exact absurd (each _ quote) (by decide)
  · intro escape
    exact absurd (each _ escape) (by decide)

/-- Inside a string, a quote has a backslash in front. -/
theorem escaped_quote {s : Parts} (valid : ∀ p ∈ s, Part.Valid p) (split : spelled s = a ++ '"' :: b) :
    ∃ a', a = a' ++ ['\\'] := by
  induction s generalizing a with
  | nil =>
    have empty : [] = a ++ '"' :: b := split
    exact absurd empty.symm (List.append_ne_nil_of_right_ne_nil _ (List.cons_ne_nil _ _))
  | cons p s ih =>
    obtain ⟨here,later⟩ := List.forall_mem_cons.mp valid
    have front : spelled (p :: s) = p.text ++ spelled s := List.flatMap_cons
    rw [front] at split
    rcases List.append_eq_append_iff.mp split with ⟨x,rfl,rest⟩ | ⟨x,text,rest⟩
    · obtain ⟨a',rfl⟩ := ih later rest
      exact ⟨p.text ++ a',(List.append_assoc ..).symm⟩
    · cases x with
      | nil =>
        obtain ⟨a',same⟩ := ih later (a := []) rest.symm
        exact absurd same.symm (List.append_ne_nil_of_right_ne_nil _ (List.cons_ne_nil _ _))
      | cons c x =>
        obtain ⟨rfl,-⟩ := List.cons.inj rest
        cases p with
        | char c =>
          cases a with
          | nil => exact absurd (List.cons.inj text).1 here.2.1
          | cons d a => exact absurd (List.cons.inj text).2.symm (List.append_ne_nil_of_right_ne_nil _ (List.cons_ne_nil _ _))
        | escape e =>
          cases a with
          | nil => exact absurd (List.cons.inj text).1 (by decide)
          | cons d a =>
            obtain ⟨rfl,single⟩ := List.cons.inj text
            cases a with
            | nil => exact ⟨[],rfl⟩
            | cons d' a =>
              exact absurd (List.cons.inj single).2.symm (List.append_ne_nil_of_right_ne_nil _ (List.cons_ne_nil _ _))
        | unit digits =>
          have quote : '"' ∈ Part.text (.unit digits) := by
            rw [text]
            exact List.mem_append_right _ List.mem_cons_self
          rw [Part.text,List.mem_cons,List.mem_cons] at quote
          rcases quote with same | same | inside
          · exact absurd same (by decide)
          · exact absurd same (by decide)
          · exact absurd rfl (hexDigit_noEscape (here.2 _ inside)).2.1

/-- The quoted key cannot start in a string and end behind it, or end inside. -/
theorem hit_whole {s : Parts} (valid : ∀ p ∈ s, Part.Valid p) (plain : PlainKey key) (opens : ¬(key ++ ['"']) <+: t)
    (suffix : y <:+ '"' :: spelled s ++ ['"']) (nonempty : y ≠ []) (hit : quoted key <+: y ++ t) : y = quoted key := by
  obtain ⟨w,split⟩ := suffix
  obtain ⟨y,last,rfl⟩ := List.eq_nil_or_concat y |>.resolve_left nonempty
  obtain ⟨before,rfl⟩ : w ++ y = '"' :: spelled s ∧ last = '"' := by
    rw [List.concat_eq_append,← List.append_assoc] at split
    obtain ⟨before,same⟩ := List.append_inj' split rfl
    exact ⟨before,(List.cons.inj same).1⟩
  rw [List.concat_eq_append] at hit ⊢
  obtain ⟨z,same⟩ := hit
  have apart := plain.apart
  rcases List.append_eq_append_iff.mp same with ⟨x,whole,-⟩ | ⟨x,whole,rest⟩
  · -- the key's second quote would be an escaped one
    rcases List.eq_nil_or_concat x with rfl | ⟨x,last,rfl⟩
    · rw [whole,List.append_nil]
    · rw [List.concat_eq_append,← List.append_assoc] at whole
      obtain ⟨rfl,-⟩ := List.append_inj' whole rfl
      obtain ⟨a,escape⟩ : ∃ a, w ++ '"' :: key = '"' :: (a ++ ['\\']) := by
        cases w with
        | nil =>
          have inside : spelled s = key ++ '"' :: x := by
            have all := (List.cons.inj before).2.symm
            simpa [quoted] using all
          obtain ⟨a,rfl⟩ := escaped_quote valid inside
          exact ⟨a,rfl⟩
        | cons c w =>
          obtain ⟨rfl,all⟩ := List.cons.inj before
          have inside : spelled s = (w ++ '"' :: key) ++ '"' :: x := by
            rw [← all]
            simp [quoted]
          obtain ⟨a,same⟩ := escaped_quote valid inside
          exact ⟨a,congrArg ('"' :: ·) same⟩
      have ends := congrArg List.getLast? escape
      rw [← List.cons_append,List.getLast?_append_of_ne_nil _ (by simp),List.getLast?_append_of_ne_nil _ (by simp)] at ends
      have last : '\\' ∈ '"' :: key := List.mem_of_getLast? ends
      rcases List.mem_cons.mp last with quote | inside
      · exact absurd quote (by decide)
      · exact absurd inside apart.2
  · -- only the closing quote is left to start it
    cases y with
    | nil =>
      obtain ⟨-,more⟩ := List.cons.inj whole
      exact absurd ⟨z,(congrArg (· ++ z) more).trans rest.symm⟩ opens
    | cons c y =>
      obtain ⟨rfl,-⟩ := List.cons.inj whole
      have more : key ++ ['"'] = y ++ '"' :: x := by simpa using (List.cons.inj whole).2
      have key_eq : key = y ∧ x = [] := by
        rcases List.append_eq_append_iff.mp more with ⟨u,rfl,tail⟩ | ⟨u,rfl,tail⟩
        · cases u with
          | nil => exact ⟨(List.append_nil _).symm,(List.cons.inj tail).2.symm⟩
          | cons d u => simp at tail
        · cases u with
          | nil => exact ⟨List.append_nil _,by simpa using tail⟩
          | cons d u =>
            obtain ⟨rfl,-⟩ := List.cons.inj tail
            exact absurd (List.mem_append_right _ List.mem_cons_self) apart.1
      rw [key_eq.1]
      rfl

/-! ### The search -/

/-- The colon of a member, and what follows it. -/
def afterColon (t : Text) : Option Text :=
  match t.dropWhile isBlank with
  | ':' :: value => some value
  | _ => none

theorem keyAt_quoted (key t : Text) : keyAt key (quoted key ++ t) = afterColon t := by
  rw [keyAt,afterPrefix_eq_some.mpr rfl]
  rfl

/-- The search over a text in which the quoted key can only stand at the end. -/
theorem findKey_over (hits : ∀ y', y' <:+ y → y' ≠ [] → quoted key <+: y' ++ t → y' = quoted key) :
    findKey key (y ++ t) = if quoted key <:+ y then (afterColon t).or (findKey key t) else findKey key t := by
  induction y with
  | nil => exact (if_neg fun h => List.cons_ne_nil _ _ (List.suffix_nil.mp h)).symm
  | cons c y ih =>
    have later := ih fun y' suffix => hits y' (suffix.trans (List.suffix_cons c y))
    rw [List.cons_append,findKey]
    by_cases whole : quoted key = c :: y
    · have short : ¬quoted key <:+ y := by
        intro suffix
        have le := suffix.length_le
        rw [whole,List.length_cons] at le
        omega
      have here := keyAt_quoted key t
      rw [whole,List.cons_append] at here
      rw [here,if_pos (whole ▸ List.suffix_refl _),later,if_neg short]
      cases afterColon t <;> rfl
    · have here : keyAt key (c :: (y ++ t)) = none := keyAt_eq_none fun hit =>
        whole (hits (c :: y) (List.suffix_refl _) (List.cons_ne_nil _ _) hit).symm
      have same : quoted key <:+ c :: y ↔ quoted key <:+ y := by simp [List.suffix_cons_iff,whole]
      rw [here,later]
      simp only [same]

/-- A string is found by the end of its text, if a colon follows. -/
theorem findKey_token {s : Parts} (valid : ∀ p ∈ s, Part.Valid p) (plain : PlainKey key) (opens : ¬(key ++ ['"']) <+: t) :
    findKey key ('"' :: spelled s ++ '"' :: t) =
      if EndsNamed key s then (afterColon t).or (findKey key t) else findKey key t := by
  have all := findKey_over fun y (suffix : y <:+ '"' :: spelled s ++ ['"']) nonempty hit =>
    hit_whole valid plain opens suffix nonempty hit
  rw [List.append_assoc] at all
  exact all

theorem afterColon_eq (t : Text) : afterColon t = match nextToken t with
    | some (.mark ':',behind) => some behind
    | _ => none := by
  have same : t.dropWhile isBlank = skip t := rfl
  rw [afterColon,same,nextToken]
  split
  · rename_i value front
    rw [front]
    rfl
  · rename_i other
    split
    · rename_i behind found
      split at found
      · contradiction
      · obtain ⟨r,-,pair⟩ := Option.map_eq_some_iff.mp found
        have token := (Prod.mk.inj pair).1
        contradiction
      · rename_i c rest noQuote front
        split_ifs at found with mark word
        · obtain ⟨token,rfl⟩ := Prod.mk.inj (Option.some.inj found)
          exact absurd (front.trans (congrArg (· :: rest) (Token.mark.inj token))) (other _)
        · have token := (Prod.mk.inj (Option.some.inj found)).1
          contradiction
    · rfl

/-- Behind a string that stands by itself no key can begin. -/
theorem opens_separated (plain : PlainKey key) (separated : Separated (.str s :: toks)) (lays : Lays toks t r)
    (blank : Blank r) : ¬(key ++ ['"']) <+: t := by
  have first := separated.front rfl lays blank
  rintro ⟨z,rfl⟩
  cases key with
  | nil => exact absurd (first '"' rfl) (by decide)
  | cons c key =>
    have plain : isPlain c = true := List.all_eq_true.mp plain c List.mem_cons_self
    simp only [isPlain,Bool.and_eq_true,Bool.not_eq_true'] at plain
    rcases first c rfl with white | mark
    · exact absurd (white.symm.trans plain.1.2) (by decide)
    · exact absurd (mark.symm.trans plain.2) (by decide)

/-- The key is found behind the first name that ends like it. -/
theorem findKey_names (plain : PlainKey key) (separated : Separated toks) (lays : Lays toks t r) (blank : Blank r) :
    findKey key t = ((names t).find? fun name => EndsNamed key name.1).map Prod.snd := by
  induction lays with
  | @done t =>
    rw [names_nothing (nextToken_blank blank)]
    exact findKey_none fun quote => absurd (blank _ quote) (by decide)
  | @token g toks t r tok before valid ends rest ih =>
    have later := ih (List.isChain_of_isChain_cons separated) blank
    have found : nextToken (g ++ tok.text ++ t) = some (tok,t) := nextToken_eq_some.mpr ⟨g,rfl,before,valid,ends⟩
    have noQuote : '"' ∉ g := fun quote => absurd (before _ quote) (by decide)
    cases tok with
    | mark c =>
      have bare : '"' ∉ g ++ Token.text (.mark c) := by
        simp [Token.text,noQuote,Ne.symm (mark_char valid).2.2]
      rw [findKey_gap bare,names_mark found,later]
    | word w =>
      have bare : '"' ∉ g ++ Token.text (.word w) := by
        simp only [Token.text,List.mem_append,noQuote,false_or]
        exact fun quote => wordChar_quote (valid.2 _ quote) rfl
      rw [findKey_gap bare,names_word found,later]
    | str s =>
      have opens := opens_separated plain separated rest blank
      have token : findKey key (g ++ Token.text (.str s) ++ t) =
          if EndsNamed key s then (afterColon t).or (findKey key t) else findKey key t := by
        rw [List.append_assoc,findKey_gap noQuote,← findKey_token valid plain opens]
        simp [Token.text]
      rw [token,later,afterColon_eq]
      cases named : nameAt (g ++ Token.text (.str s) ++ t) with
      | some name =>
        obtain ⟨u,found',colon⟩ := nameAt_eq_some.mp named
        obtain ⟨same,rfl⟩ := Prod.mk.inj (Option.some.inj (found.symm.trans found'))
        obtain rfl := Token.str.inj same
        rw [names_name named,colon,names_mark colon]
        by_cases ends : EndsNamed key name.1
        · rw [if_pos ends,List.find?_cons_of_pos (by simpa using ends)]
          rfl
        · rw [if_neg ends,List.find?_cons_of_neg (by simpa using ends)]
      | none =>
        have noColon : NoColon t := by
          intro u colon
          have some := nameAt_eq_some.mpr ⟨t,found,colon⟩
          rw [named] at some
          contradiction
        have nothing : (match nextToken t with
            | some (.mark ':',behind) => some behind
            | _ => none) = none := by
          split
          · rename_i behind colon
            exact absurd colon (noColon behind)
          · rfl
        rw [names_str found noColon,nothing]
        split_ifs <;> rfl

/-! ### Strings behind their keys -/

/-- A name without backslashes ends like a key only if it is the key. -/
theorem endsNamed_iff {s : Parts} (valid : ∀ p ∈ s, Part.Valid p) (noEscape : '\\' ∉ spelled s) :
    EndsNamed key s ↔ spelled s = key := by
  constructor
  · rintro ⟨w,split⟩
    cases w with
    | nil => exact (List.append_cancel_right (List.cons.inj split).2).symm
    | cons c w =>
      have inside : (w ++ '"' :: key) ++ ['"'] = spelled s ++ ['"'] := by
        simpa [quoted] using (List.cons.inj split).2
      obtain ⟨a,rfl⟩ := escaped_quote valid (List.append_cancel_right inside).symm
      rw [← List.append_cancel_right inside] at noEscape
      exact absurd (by simp) noEscape
  · rintro rfl
    exact List.suffix_refl _

/-- Searches that agree on related items find related items. -/
theorem find?_forall₂ {R : α → β → Prop} {p : α → Bool} {q : β → Bool} {as : List α} {bs : List β} (related : List.Forall₂ R as bs)
    (alike : ∀ a b, b ∈ bs → R a b → p a = q b) : Option.Rel R (as.find? p) (bs.find? q) := by
  induction related with
  | nil => exact .none
  | @cons a b as bs here rest ih =>
    have same := alike a b List.mem_cons_self here
    cases hit : q b with
    | true =>
      rw [List.find?_cons_of_pos hit,List.find?_cons_of_pos (same.trans hit)]
      exact .some here
    | false =>
      have noHit : ¬p a = true := by simp [same,hit]
      rw [List.find?_cons_of_neg noHit,List.find?_cons_of_neg (by simp [hit])]
      exact ih fun a b member => alike a b (List.mem_cons_of_mem _ member)

/-- The next string of a text that begins with one. -/
theorem nextString_token (found : nextToken t = some (.str s,u)) : nextString t = some (s.flatMap scanned) := by
  obtain ⟨g,rfl,blank,valid,-⟩ := nextToken_eq_some.mp found
  have noQuote : '"' ∉ g := fun quote => absurd (blank _ quote) (by decide)
  have shape : g ++ Token.text (.str s) ++ u = g ++ '"' :: (spelled s ++ '"' :: u) := by simp [Token.text]
  rw [shape,nextString,splitFirst_append noQuote]
  simp only [Option.bind_eq_bind,Option.bind_some,stringBody_spelled valid,unescape_spelled valid,Option.pure_def]

theorem derives_str (derives : Derives (.value (.str s)) toks) : toks = [.str s] := by
  cases derives with
  | str => rfl
  | word spells => rcases spells.scalar with same | ⟨b,same⟩ | ⟨n,same⟩ <;> contradiction

/-- The string of a key that a document has once comes back as it was before it was
encoded. -/
theorem jsonString_decodes (wellFormed : parse text = some (.obj es)) (plain : PlainKey key)
    (once : (membersOf (.obj es)).filter (fun m => spelled m.1 = key) = [(name,.str s)])
    (noEscape : ∀ m ∈ membersOf (.obj es), '\\' ∉ spelled m.1) (short : NoUnits s)
    (encodes : characters s = decoded.map some) : jsonString text key = decoded := by
  have stands := names_of_parse wellFormed
  have first : (membersOf (.obj es)).find? (fun m => spelled m.1 = key) = some (name,.str s) := by
    rw [← List.head?_filter,once]
    rfl
  have alike (n : Parts × Text) (m : Parts × Value) (member : m ∈ membersOf (.obj es)) (here : Stands n m) :
      decide (EndsNamed key n.1) = decide (spelled m.1 = key) := by
    rw [here.same]
    exact decide_eq_decide.mpr (endsNamed_iff here.valid (noEscape m member))
  have related := find?_forall₂ stands alike
  rw [first] at related
  generalize search : (names text).find? (fun n => decide (EndsNamed key n.1)) = found at related
  obtain ⟨n,rfl,here⟩ : ∃ n, found = some n ∧ Stands n (name,.str s) := by
    cases related with
    | some here => exact ⟨_,rfl,here⟩
  obtain ⟨toks,u,lays,derives⟩ := here.value
  obtain rfl := derives_str derives
  obtain ⟨u',next,-⟩ := lays.next
  obtain ⟨all,lexed,derived⟩ := derives_of_parse wellFormed
  obtain ⟨r,laid,blank⟩ := tokens_eq_some.mp lexed
  rw [jsonString,findKey_names plain derived.separated laid blank,search,Option.map_some,Option.bind_some,
    nextString_token next,Option.getD_some]
  have same := encodes.symm.trans ((scanned_iff (valid_of_next next)).mpr short)
  exact ((List.map_injective_iff.mpr (Option.some_injective _)) same).symm

/-- An escaped slash, behind a string that quotes the key. -/
theorem jsonString_decodes_slash :
    jsonString "\x7b\"note\":\"\\\"ip\\\":\",\"ip\":\"10.0.0.2\\/24\"\x7d".toList "ip".toList = "10.0.0.2/24".toList := by
  have lexed : tokens "\x7b\"note\":\"\\\"ip\\\":\",\"ip\":\"10.0.0.2\\/24\"\x7d".toList =
      some [.mark '{',.str ("note".toList.map .char),.mark ':',
        .str [.escape '"',.char 'i',.char 'p',.escape '"',.char ':'],.mark ',',.str ("ip".toList.map .char),.mark ':',
        .str ("10.0.0.2".toList.map .char ++ .escape '/' :: "24".toList.map .char),.mark '}'] := by decide +kernel
  have wellFormed := parse_of_derives lexed (.members (.member .str (.lastMember .str)))
  refine jsonString_decodes wellFormed (by decide) rfl ?_ ?_ ?_
  · exact List.forall_mem_cons.mpr ⟨by decide,List.forall_mem_singleton.mpr (by decide)⟩
  · exact fun digits => by simp
  · rfl

end Nospoon
