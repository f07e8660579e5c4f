import Nospoon.Comments
import Nospoon.KeySearch
import Nospoon.PeerRules

/-! The same tokens written in two ways. What the extractors find depends on the tokens
alone, but for the blanks behind the colon of a flag. -/
namespace Nospoon

open Library Library.Json

/-! ### What the extractors make of tokens -/

def firstString : List Token → Option Text
  | [] => none
  | .str s :: _ => some (s.flatMap scanned)
  | _ :: toks => firstString toks

/-- What `atoi` makes of the first token. -/
def firstNumber : List Token → Int
  | .word w :: _ => atoi w
  | _ => 0

/-- The strings of a block, which ends at the first brace, be it inside a string. -/
def blockStrings : List Token → List Text
  | [] => []
  | .str s :: toks => if '\x7d' ∈ spelled s then [] else spelled s :: blockStrings toks
  | .mark c :: toks => if c = '\x7d' then [] else blockStrings toks
  | .word _ :: toks => blockStrings toks

def pairUp : List Text → List (Text × Text)
  | key :: val :: rest => (key,val) :: pairUp rest
  | _ => []

theorem nextString_skip (bare : '"' ∉ g) : nextString (g ++ t) = nextString t := by
  simp only [nextString,splitFirst_prepend bare,Option.bind_eq_bind,Option.bind_map]
  rfl

theorem blank_noQuote (blank : Blank g) : '"' ∉ g := fun quote => absurd (blank _ quote) (by decide)

theorem blank_noBrace (blank : Blank g) : '\x7d' ∉ g := fun brace => absurd (blank _ brace) (by decide)

theorem mark_noQuote (valid : Token.Valid (.mark c)) : '"' ∉ Token.text (.mark c) := by
  rw [Token.text,List.mem_singleton]
  exact Ne.symm (mark_char valid).2.2

theorem word_noQuote (valid : Token.Valid (.word w)) : '"' ∉ Token.text (.word w) := fun quote =>
  wordChar_quote (valid.2 _ quote) rfl

theorem nextString_lays (lays : Lays toks t r) (blank : Blank r) : nextString t = firstString toks := by
  induction lays with
  | @done t =>
    rw [nextString,splitFirst_eq_none.mpr (blank_noQuote blank)]
    rfl
  | @token g toks t r tok before valid ends rest ih =>
    cases tok with
    | mark c =>
      rw [List.append_assoc,nextString_skip (blank_noQuote before),nextString_skip (mark_noQuote valid),ih blank]
      rfl
    | word w =>
      rw [List.append_assoc,nextString_skip (blank_noQuote before),nextString_skip (word_noQuote valid),ih blank]
      rfl
    | str s => exact nextString_token (nextToken_eq_some.mpr ⟨g,rfl,before,valid,ends⟩)

theorem wordChar_noSpace (word : isWordChar c = true) : isSpace c = false := by
  cases space : isSpace c with
  | false => rfl
  | true =>
    simp only [isSpace,Bool.or_eq_true,Bool.and_eq_true,decide_eq_true_eq,Char.le_def] at space
    rcases space with rfl | ⟨low,high⟩
    · exact absurd word (by decide)
    · have low : 9 ≤ c.toNat := UInt32.le_iff_toNat_le.mp low
      have high : c.toNat ≤ 13 := UInt32.le_iff_toNat_le.mp high
      have blank (d : Char) (same : c.toNat = d.toNat) (noWord : isWordChar d = false) : true = false := by
        obtain rfl := Char.toNat_inj.mp same
        exact word.symm.trans noWord
      obtain h | h | h | h | h : c.toNat = 9 ∨ c.toNat = 10 ∨ c.toNat = 11 ∨ c.toNat = 12 ∨ c.toNat = 13 := by omega
      · exact blank '\t' h (by decide)
      · exact blank '\n' h (by decide)
      · exact blank '\x0b' h (by decide)
      · exact blank '\x0c' h (by decide)
      · exact blank '\r' h (by decide)

theorem leadingInt_word (valid : Token.Valid (.word w)) (ends : Ends t) : leadingInt (w ++ t) = leadingInt w := by
  obtain ⟨nonempty,word⟩ := valid
  have digits (s : Text) : (s ++ t).takeWhile Char.isDigit = s.takeWhile Char.isDigit := by
    cases t with
    | nil => rw [List.append_nil]
    | cons c t => exact takeWhile_stop (noWord_char (ends_cons ends)).1
  cases w with
  | nil => contradiction
  | cons c w =>
    have noSpace := wordChar_noSpace (word c List.mem_cons_self)
    unfold leadingInt
    rw [List.cons_append,List.dropWhile_cons_of_neg (by simp [noSpace]),List.dropWhile_cons_of_neg (by simp [noSpace])]
    by_cases minus : c = '-'
    · subst minus
      exact congrArg (fun d => -(natOf d : Int)) (digits w)
    · by_cases plus : c = '+'
      · subst plus
        exact congrArg (fun d => (natOf d : Int)) (digits w)
      · split
        · rename_i h; exact absurd (List.cons.inj h).1 minus
        · rename_i h; exact absurd (List.cons.inj h).1 plus
        · split
          · rename_i h; exact absurd (List.cons.inj h).1 minus
          · rename_i h; exact absurd (List.cons.inj h).1 plus
          · exact congrArg (fun d => (natOf d : Int)) (digits (c :: w))

theorem atoi_word (valid : Token.Valid (.word w)) (ends : Ends t) : atoi (w ++ t) = atoi w := by
  rw [atoi,leadingInt_word valid ends,← atoi]

theorem atoi_next (found : nextToken t = some (tok,u)) (toks : List Token) : atoi (skip t) = firstNumber (tok :: toks) := by
  have other {c : Char} {u : Text} (no : isSpace c = false ∧ c.isDigit = false ∧ c ≠ '-' ∧ c ≠ '+') : atoi (c :: u) = 0 :=
    atoi_stop (s := []) no.1 no.2.1 no.2.2.1 no.2.2.2
  have front := skip_of_next found
  obtain ⟨-,-,-,valid,ends⟩ := nextToken_eq_some.mp found
  cases tok with
  | word w =>
    rw [front]
    exact atoi_word valid ends
  | str s =>
    rw [front]
    exact other (by decide)
  | mark c =>
    rw [front]
    have mark : isMark c = true := valid
    simp only [isMark,List.contains_eq_mem,List.mem_cons,List.not_mem_nil,or_false,decide_eq_true_eq] at mark
    refine other ?_
    rcases mark with rfl | rfl | rfl | rfl | rfl | rfl <;> decide

theorem atoi_lays (lays : Lays toks t r) (blank : Blank r) : atoi (skip t) = firstNumber toks := by
  cases toks with
  | nil =>
    cases lays with
    | done =>
      rw [skip_eq_nil.mpr blank]
      rfl
  | cons tok toks =>
    obtain ⟨u,found,-⟩ := lays.next
    exact atoi_next found toks

/-! ### Blocks -/

/-- A scan of quotes takes the strings of a weave two by two. -/
theorem blockPairs_weave (lead : '"' ∉ g) (bare : ∀ x ∈ ss, '"' ∉ x.1 ∧ '"' ∉ x.2) (few : tail.count '"' ≤ 1) :
    blockPairs (g ++ weave ss tail) = pairUp (ss.map Prod.fst) := by
  have none {x : Text} (absent : '"' ∉ x) : x.count '"' = 0 := List.count_eq_zero.mpr absent
  induction ss using List.twoStepInduction generalizing g with
  | nil =>
    apply blockPairs_eq_nil.mpr
    simp only [weave,List.count_append,none lead]
    omega
  | singleton x =>
    obtain ⟨value,gap⟩ := List.forall_mem_singleton.mp bare
    apply blockPairs_eq_nil.mpr
    simp only [weave,List.count_append,List.count_cons_self,none lead,none value,none gap]
    omega
  | cons_cons x y ss ih ih' =>
    obtain ⟨⟨first,gap⟩,later⟩ := List.forall_mem_cons.mp bare
    obtain ⟨⟨second,gap'⟩,others⟩ := List.forall_mem_cons.mp later
    have whole : g ++ weave (x :: y :: ss) tail =
        g ++ '"' :: x.1 ++ '"' :: x.2 ++ '"' :: y.1 ++ '"' :: (y.2 ++ weave ss tail) := by simp [weave]
    rw [whole,blockPairs_next (nextPeer_eq_some.mpr ⟨g,x.2,rfl,lead,first,gap,second⟩),ih gap' others]
    rfl

theorem literal_chars {s : Parts} (valid : ∀ p ∈ s, Part.Valid p) (literal : Literal s) : '"' ∉ spelled s ∧ '\\' ∉ spelled s := by
  have inside {c : Char} (member : c ∈ spelled s) : c ≠ '"' ∧ c ≠ '\\' := by
    obtain ⟨p,among,here⟩ := List.mem_flatMap.mp member
    obtain ⟨c,rfl⟩ := literal p among
    obtain rfl := List.mem_singleton.mp here
    exact (valid _ among).2
  exact ⟨fun quote => (inside quote).1 rfl,fun escape => (inside escape).2 rfl⟩

/-- The block in front of the first brace is a weave of the strings before it. -/
theorem block_weave (lays : Lays toks t r) (blank : Blank r) (literal : ∀ s, .str s ∈ toks → Literal s)
    (cut : splitFirst '\x7d' t = some (block,after)) : ∃ g ss tail, block = g ++ weave ss tail ∧ '"' ∉ g ∧
      (∀ x ∈ ss, '"' ∉ x.1 ∧ '"' ∉ x.2) ∧ tail.count '"' ≤ 1 ∧ ss.map Prod.fst = blockStrings toks := by
  induction lays generalizing block with
  | done =>
    rw [splitFirst_eq_none.mpr (blank_noBrace blank)] at cut
    contradiction
  | @token g toks t r tok before valid ends rest ih =>
    have later {block' : Text} (cut : splitFirst '\x7d' t = some (block',after)) :=
      ih blank (fun s member => literal s (List.mem_cons_of_mem _ member)) cut
    have gap := blank_noBrace before
    have past {x : Text} (noBrace : '\x7d' ∉ x) (noQuote : '"' ∉ x) (cut : splitFirst '\x7d' (g ++ x ++ t) = some (block,after)) :
        ∃ g ss tail, block = g ++ weave ss tail ∧ '"' ∉ g ∧ (∀ x ∈ ss, '"' ∉ x.1 ∧ '"' ∉ x.2) ∧ tail.count '"' ≤ 1 ∧
          ss.map Prod.fst = blockStrings toks := by
      rw [splitFirst_prepend (by simp [gap,noBrace] : '\x7d' ∉ g ++ x)] at cut
      obtain ⟨⟨block',after'⟩,found,same⟩ := Option.map_eq_some_iff.mp cut
      obtain ⟨rfl,rfl⟩ := Prod.mk.inj same
      obtain ⟨g',ss,tail,rfl,lead,rest⟩ := later found
      exact ⟨g ++ x ++ g',ss,tail,by simp,by simp [blank_noQuote before,noQuote,lead],rest⟩
    cases tok with
    | word w =>
      refine past (fun brace => ?_) (word_noQuote valid) cut
      exact absurd (valid.2 _ brace) (by decide)
    | mark c =>
      by_cases brace : c = '\x7d'
      · subst brace
        have whole : g ++ Token.text (.mark '\x7d') ++ t = g ++ '\x7d' :: t := by simp [Token.text]
        rw [whole,splitFirst_append gap] at cut
        obtain ⟨rfl,-⟩ := Prod.mk.inj (Option.some.inj cut)
        exact ⟨g,[],[],by simp [weave],blank_noQuote before,by simp,by simp,rfl⟩
      · have strings : blockStrings (.mark c :: toks) = blockStrings toks := if_neg brace
        rw [strings]
        exact past (by simp [Token.text,Ne.symm brace]) (mark_noQuote valid) cut
    | str s =>
      have noQuote := (literal_chars valid (literal s List.mem_cons_self)).1
      have whole : g ++ Token.text (.str s) ++ t = (g ++ ['"']) ++ (spelled s ++ '"' :: t) := by simp [Token.text]
      have lead : '\x7d' ∉ g ++ ['"'] := by simp [gap]
      by_cases brace : '\x7d' ∈ spelled s
      · -- the block ends inside the string
        obtain ⟨front,back,split,absent⟩ := splitFirst_of_mem brace
        rw [whole,splitFirst_prepend lead,split,List.append_assoc,List.cons_append,splitFirst_append absent] at cut
        obtain ⟨rfl,-⟩ := Prod.mk.inj (Option.some.inj cut)
        have strings : blockStrings (.str s :: toks) = [] := if_pos brace
        rw [strings]
        have few : front.count '"' = 0 := by
          refine List.count_eq_zero.mpr fun quote => noQuote ?_
          rw [split]
          exact List.mem_append_left _ quote
        exact ⟨g,[],'"' :: front,by simp [weave],blank_noQuote before,by simp,by simp [few],rfl⟩
      · have strings : blockStrings (.str s :: toks) = spelled s :: blockStrings toks := if_neg brace
        have whole' : g ++ Token.text (.str s) ++ t = (g ++ '"' :: spelled s ++ ['"']) ++ t := by simp [Token.text]
        rw [whole',splitFirst_prepend (by simp [gap,brace])] at cut
        obtain ⟨⟨block',after'⟩,found,same⟩ := Option.map_eq_some_iff.mp cut
        obtain ⟨rfl,rfl⟩ := Prod.mk.inj same
        obtain ⟨g',ss,tail,rfl,lead',bare,few,same⟩ := later found
        refine ⟨g,(spelled s,g') :: ss,tail,by simp [weave],blank_noQuote before,
          List.forall_mem_cons.mpr ⟨⟨noQuote,lead'⟩,bare⟩,few,?_⟩
        rw [strings,List.map_cons,same]

/-! ### Two layouts -/

/-- One name in two layouts, in front of the same tokens. -/
structure SameName (toks : List Token) (r r' : Text) (n n' : Parts × Text) : Prop where
  name : n.1 = n'.1
  member : .str n.1 ∈ toks
  behind : ∃ rest, rest <:+ toks ∧ Lays rest n.2 r ∧ Lays rest n'.2 r'

theorem SameName.later (same : SameName toks r r' n n') (tok : Token) : SameName (tok :: toks) r r' n n' := by
  obtain ⟨rest,suffix,lays,lays'⟩ := same.behind
  exact ⟨same.name,List.mem_cons_of_mem tok same.member,rest,suffix.trans (List.suffix_cons tok toks),lays,lays'⟩

theorem names_parallel (first : Lays toks t r) (blank : Blank r) (second : Lays toks u r') (blank' : Blank r') :
    List.Forall₂ (SameName toks r r') (names t) (names u) := by
  induction toks generalizing t u with
  | nil =>
    cases first with
    | done =>
      cases second with
      | done =>
        rw [names_nothing (nextToken_blank blank),names_nothing (nextToken_blank blank')]
        exact .nil
  | cons tok toks ih =>
    obtain ⟨t',found,rest⟩ := first.next
    obtain ⟨u',found',rest'⟩ := second.next
    have later := (ih rest rest').imp fun n n' same => same.later tok
    cases tok with
    | mark c =>
      rw [names_mark found,names_mark found']
      exact later
    | word w =>
      rw [names_word found,names_word found']
      exact later
    | str s =>
      have colon : (∃ more, toks = .mark ':' :: more) ∨ NoColon t' ∧ NoColon u' := by
        have noColon {t' r : Text} (lays : Lays toks t' r) (blank : Blank r) (other : ∀ more, toks ≠ .mark ':' :: more) :
            NoColon t' := by
          intro v mark
          cases toks with
          | nil =>
            cases lays with
            | done =>
              rw [nextToken_blank blank] at mark
              contradiction
          | cons tok toks =>
            obtain ⟨v',next,-⟩ := lays.next
            obtain rfl := (Prod.mk.inj (Option.some.inj (next.symm.trans mark))).1
            exact other toks rfl
        by_cases h : ∃ more, toks = .mark ':' :: more
        · exact .inl h
        · exact .inr ⟨noColon rest blank (not_exists.mp h),noColon rest' blank' (not_exists.mp h)⟩
      rcases colon with ⟨more,rfl⟩ | ⟨noColon,noColon'⟩
      · obtain ⟨v,mark,after⟩ := rest.next
        obtain ⟨v',mark',after'⟩ := rest'.next
        rw [names_name (nameAt_eq_some.mpr ⟨t',found,mark⟩),names_name (nameAt_eq_some.mpr ⟨u',found',mark'⟩)]
        rw [names_mark mark,names_mark mark'] at later
        exact .cons ⟨rfl,List.mem_cons_self,more,List.suffix_append [_,_] more,after,after'⟩ later
      · rw [names_str found noColon,names_str found' noColon']
        exact later

theorem findKey_literal (plain : PlainKey key) (separated : Separated toks) (lays : Lays toks t r) (blank : Blank r)
    (literal : ∀ s, .str s ∈ toks → Literal s) :
    findKey key t = ((names t).find? fun n => spelled n.1 = key).map Prod.snd := by
  rw [findKey_names plain separated lays blank]
  refine congrArg (Option.map Prod.snd) (List.find?_congr fun n member => ?_)
  have same := List.forall₂_same.mp (names_parallel lays blank lays blank) n member
  have valid := lays.valid _ same.member
  exact decide_eq_decide.mpr (endsNamed_iff valid (literal_chars valid (literal _ same.member)).2)

section

variable {toks : List Token} {t u r r' : Text} (separated : Separated toks) (first : Lays toks t r) (blank : Blank r)
  (second : Lays toks u r') (blank' : Blank r')

include separated first blank second blank'

theorem findKey_parallel (plain : PlainKey key) :
    Option.Rel (fun b b' => ∃ rest, rest <:+ toks ∧ Lays rest b r ∧ Lays rest b' r') (findKey key t) (findKey key u) := by
  rw [findKey_names plain separated first blank,findKey_names plain separated second blank']
  have related := find?_forall₂ (p := fun n => decide (EndsNamed key n.1)) (q := fun n => decide (EndsNamed key n.1))
    (names_parallel first blank second blank') fun n n' _ same => by rw [same.name]
  generalize (names t).find? _ = found at related ⊢
  generalize (names u).find? _ = found' at related ⊢
  cases related with
  | some here => exact .some here.behind
  | none => exact .none

theorem jsonString_layout (plain : PlainKey key) : jsonString t key = jsonString u key := by
  have related := findKey_parallel separated first blank second blank' plain
  unfold jsonString
  generalize findKey key t = found at related ⊢
  generalize findKey key u = found' at related ⊢
  cases related with
  | some here =>
    obtain ⟨rest,-,lays,lays'⟩ := here
    simp only [Option.bind_some,nextString_lays lays blank,nextString_lays lays' blank']
  | none => rfl

theorem jsonInt_layout (plain : PlainKey key) (fallback : Int) : jsonInt t key fallback = jsonInt u key fallback := by
  have related := findKey_parallel separated first blank second blank' plain
  unfold jsonInt
  generalize findKey key t = found at related ⊢
  generalize findKey key u = found' at related ⊢
  cases related with
  | some here =>
    obtain ⟨rest,-,lays,lays'⟩ := here
    dsimp only
    rw [atoi_behind,atoi_behind,atoi_lays lays blank,atoi_lays lays' blank']
  | none => rfl

end

/-! ### Flags -/

def startsTrue : List Token → Bool
  | .word w :: _ => "true".toList.isPrefixOf w
  | _ => false

/-- A line break among the blanks at the front. -/
def breaks (t : Text) : Bool := (t.takeWhile isWhite).any fun c => c = '\n' || c = '\r'

/-- The first flag is `true` and stands on another line than its colon. -/
def trueOnNewLine (t : Text) : Bool :=
  (((names t).find? fun n => spelled n.1 = "fullTunnel".toList).map Prod.snd).any fun behind =>
    "true".toList.isPrefixOf (skip behind) && breaks behind

theorem true_skipSpaces (t : Text) : "true".toList <+: skipSpaces t ↔ "true".toList <+: skip t ∧ breaks t = false := by
  induction t with
  | nil => simp [skipSpaces,skip,breaks]
  | cons c t ih =>
    have other {d : Char} {u : Text} (differs : d ≠ 't') : ¬"true".toList <+: d :: u := by
      rintro ⟨r,same⟩
      exact differs (List.cons.inj same).1.symm
    by_cases space : (c = ' ' || c = '\t') = true
    · have white := space_white c space
      have noBreak : breaks (c :: t) = breaks t := by
        rw [breaks,List.takeWhile_cons_of_pos white,List.any_cons]
        simp only [Bool.or_eq_true,decide_eq_true_eq] at space
        rcases space with rfl | rfl <;> rfl
      have spaces : skipSpaces (c :: t) = skipSpaces t := List.dropWhile_cons_of_pos space
      have blanks : skip (c :: t) = skip t := List.dropWhile_cons_of_pos white
      rw [noBreak,spaces,blanks,ih]
    · have spaces : skipSpaces (c :: t) = c :: t := List.dropWhile_cons_of_neg space
      rw [spaces]
      by_cases white : isWhite c = true
      · -- a line break
        have broken : breaks (c :: t) = true := by
          rw [breaks,List.takeWhile_cons_of_pos white,List.any_cons]
          simp only [isWhite,Bool.or_eq_true,decide_eq_true_eq] at white space
          simp only [Bool.or_eq_true,decide_eq_true_eq]
          rcases white with (blank | feed) | back
          · exact absurd blank space
          · exact .inl (.inl feed)
          · exact .inl (.inr back)
        have differs : c ≠ 't' := by
          rintro rfl
          exact absurd white (by decide)
        exact iff_of_false (other differs) fun h => absurd (broken.symm.trans h.2) (by decide)
      · have calm : breaks (c :: t) = false := by rw [breaks,List.takeWhile_cons_of_neg white]; rfl
        have blanks : skip (c :: t) = c :: t := List.dropWhile_cons_of_neg white
        rw [blanks]
        exact ⟨fun h => ⟨h,calm⟩,And.left⟩

theorem startsTrue_next (found : nextToken t = some (tok,u)) (toks : List Token) :
    "true".toList <+: skip t ↔ startsTrue (tok :: toks) = true := by
  have other {d : Char} {u : Text} (differs : d ≠ 't') : ¬"true".toList <+: d :: u := by
    rintro ⟨r,same⟩
    exact differs (List.cons.inj same).1.symm
  obtain ⟨-,-,-,valid,ends⟩ := nextToken_eq_some.mp found
  rw [skip_of_next found]
  cases tok with
  | mark c =>
    have differs : c ≠ 't' := by
      rintro rfl
      have mark : isMark 't' = true := valid
      exact absurd mark (by decide)
    exact iff_of_false (other differs) nofun
  | str s => exact iff_of_false (other (by decide)) nofun
  | word w =>
    have stop : "true".toList <+: w ++ u ↔ "true".toList <+: w := by
      cases u with
      | nil => rw [List.append_nil]
      | cons c u =>
        refine prefix_stop fun member => ?_
        have noWord := ends_cons ends
        simp only [String.reduceToList,List.mem_cons,List.not_mem_nil,or_false] at member
        rcases member with rfl | rfl | rfl | rfl <;> exact absurd noWord (by decide)
    rw [Token.text,stop,startsTrue,List.isPrefixOf_iff_prefix]

theorem startsTrue_lays (lays : Lays toks t r) (blank : Blank r) : "true".toList <+: skip t ↔ startsTrue toks = true := by
  cases toks with
  | nil =>
    cases lays with
    | done =>
      rw [skip_eq_nil.mpr blank]
      exact iff_of_false (by simp) nofun
  | cons tok toks =>
    obtain ⟨u,found,-⟩ := lays.next
    exact startsTrue_next found toks

/-- The flag of a text is on where its `true` is on the line of the colon. -/
theorem jsonBool_eq (json key : Text) :
    jsonBool json key false = (findKey key json).any fun b => "true".toList.isPrefixOf (skip b) && !breaks b := by
  unfold jsonBool
  cases findKey key json with
  | none => rfl
  | some b =>
    have front := true_skipSpaces b
    simp only [Option.any_some]
    by_cases yes : "true".toList <+: skipSpaces b
    · obtain ⟨word,calm⟩ := front.mp yes
      rw [if_pos yes,List.isPrefixOf_iff_prefix.mpr word,calm]
      rfl
    · rw [if_neg yes,ite_self]
      symm
      rw [Bool.and_eq_false_iff,Bool.not_eq_false']
      by_contra both
      obtain ⟨word,calm⟩ := not_or.mp both
      exact yes (front.mpr ⟨List.isPrefixOf_iff_prefix.mp (by simpa using word),by simpa using calm⟩)

section

variable {toks : List Token} {t u r r' : Text} (separated : Separated toks) (first : Lays toks t r) (blank : Blank r)
  (second : Lays toks u r') (blank' : Blank r')

include separated first blank second blank'

theorem jsonBool_layout_iff (literal : ∀ s, .str s ∈ toks → Literal s) : jsonBool t "fullTunnel".toList false = jsonBool u "fullTunnel".toList false ↔
    trueOnNewLine t = trueOnNewLine u := by
  have plain := (by decide : PlainKey "fullTunnel".toList)
  have related := findKey_parallel separated first blank second blank' plain
  rw [jsonBool_eq,jsonBool_eq,trueOnNewLine,trueOnNewLine,← findKey_literal plain separated first blank literal,
    ← findKey_literal plain separated second blank' literal]
  generalize findKey _ t = found at related ⊢
  generalize findKey _ u = found' at related ⊢
  cases related with
  | none => exact Iff.rfl
  | @some b b' here =>
    obtain ⟨rest,-,lays,lays'⟩ := here
    have word {b r : Text} (lays : Lays rest b r) (blank : Blank r) : "true".toList.isPrefixOf (skip b) = startsTrue rest :=
      Bool.eq_iff_iff.mpr (List.isPrefixOf_iff_prefix.trans (startsTrue_lays lays blank))
    simp only [Option.any_some,word lays blank,word lays' blank']
    cases startsTrue rest <;> simp

end

/-- A text without escapes is its own stripped text. -/
theorem stripComments_literal (lays : Lays toks t r) (blank : Blank r) (literal : ∀ s, .str s ∈ toks → Literal s) :
    stripComments t = t := by
  have closes : ∀ s, .str s ∈ toks → Closes s := by
    intro s member same
    obtain ⟨c,char⟩ := literal s member _ (List.mem_of_getLast? same)
    contradiction
  obtain ⟨front,rfl,turns⟩ := uncomments_cpp.lays lays closes
  obtain ⟨_,rfl,eq⟩ := (turns.append (uncomments_cpp.blanks blank)) .code rfl
  have all := eq []
  rw [List.append_nil,stripFrom,List.append_nil] at all
  exact all

/-! ### Configs -/

/-- The fields of the schema and their types. -/
inductive Conforms : Text → Value → Prop
  | string (field : key ∈ stringFields) : Conforms key (.str s)
  | mtu : Conforms "mtu".toList (.num n)
  | fullTunnel : Conforms "fullTunnel".toList (.bool b)
  | peers (strings : ∀ e ∈ es, ∃ s, e.2 = .str s) : Conforms "peers".toList (.obj es)

theorem Conforms.peers_obj (conforms : Conforms key v) (peers : key = "peers".toList) : ∃ es, v = .obj es := by
  cases conforms with
  | string field =>
    rw [peers] at field
    exact absurd field (by decide)
  | mtu => exact absurd peers (by decide)
  | fullTunnel => exact absurd peers (by decide)
  | peers => exact ⟨_,rfl⟩

theorem Conforms.flat (conforms : Conforms key v) (other : key ≠ "peers".toList) : membersOf v = [] := by
  cases conforms with
  | peers => exact absurd rfl other
  | string => simp only [membersOf]
  | mtu => simp only [membersOf]
  | fullTunnel => simp only [membersOf]

/-- The first member named `peers` at any depth is a field. -/
theorem first_peers (conforms : ∀ m ∈ fields, Conforms (spelled m.1) m.2)
    (found : (membersOf (.obj fields)).find? (fun m => spelled m.1 = "peers".toList) = some m) : ∃ es, m.2 = .obj es := by
  rw [membersOf] at found
  induction fields with
  | nil => contradiction
  | cons field fields ih =>
    obtain ⟨s,v⟩ := field
    obtain ⟨here,later⟩ := List.forall_mem_cons.mp conforms
    rw [membersOfMembers] at found
    by_cases peers : spelled s = "peers".toList
    · rw [List.find?_cons_of_pos (by simpa using peers)] at found
      obtain rfl := Option.some.inj found
      exact here.peers_obj peers
    · rw [List.find?_cons_of_neg (by simpa using peers),here.flat peers,List.nil_append] at found
      exact ih later found

/-- An object stands behind the first key of that name. -/
theorem peers_opens (conforms : ∀ m ∈ fields, Conforms (spelled m.1) m.2) (wellFormed : parse t = some (.obj fields))
    (lays : Lays toks t r) (blank : Blank r) (literal : ∀ s, .str s ∈ toks → Literal s)
    (found : findKey "peers".toList t = some b) : ∃ inner, nextToken b = some (.mark '{',inner) ∧ '\x7d' ∈ inner := by
  obtain ⟨toks',lexed,derives⟩ := derives_of_parse wellFormed
  obtain rfl := Option.some.inj (lexed.symm.trans (tokens_eq_some.mpr ⟨r,lays,blank⟩))
  rw [findKey_literal (by decide) derives.separated lays blank literal] at found
  obtain ⟨n,first,rfl⟩ := Option.map_eq_some_iff.mp found
  have related := find?_forall₂ (p := fun n => decide (spelled n.1 = "peers".toList))
    (q := fun m => decide (spelled m.1 = "peers".toList)) (names_of_parse wellFormed) fun n m _ here => by rw [here.same]
  rw [first] at related
  generalize search : (membersOf (.obj fields)).find? _ = hit at related
  cases related with
  | some here =>
    obtain ⟨es,value⟩ := first_peers conforms search
    obtain ⟨vt,u,laid,derived⟩ := here.value
    rw [value] at derived
    have opens (inside : List Token) (laid : Lays (.mark '{' :: inside ++ [.mark '}']) n.2 u) :
        ∃ inner, nextToken n.2 = some (.mark '{',inner) ∧ '\x7d' ∈ inner := by
      obtain ⟨inner,mark,rest⟩ := laid.next
      obtain ⟨v,front,close⟩ := rest.split
      obtain ⟨w,last,-⟩ := close.next
      obtain ⟨g,rfl,-⟩ := nextToken_eq_some.mp last
      exact ⟨inner,mark,front.suffix.subset (by simp [Token.text])⟩
    cases derived with
    | word spells => rcases spells.scalar with same | ⟨b,same⟩ | ⟨n,same⟩ <;> contradiction
    | noMembers => exact opens [] laid
    | members inside => exact opens _ laid

/-- The peers of an object in the text are those its tokens spell. -/
theorem jsonPeers_lays {inner : Text} (found : findKey "peers".toList json = some b) (lays : Lays toks b r) (blank : Blank r)
    (literal : ∀ s, .str s ∈ toks → Literal s) (opens : nextToken b = some (.mark '{',inner)) (closes : '\x7d' ∈ inner) :
    jsonPeers json = insertPairs ∅ (pairUp (blockStrings toks.tail)) := by
  obtain ⟨block,after,split,absent⟩ := splitFirst_of_mem closes
  have cut : splitFirst '\x7d' inner = some (block,after) := splitFirst_eq_some.mpr ⟨split,absent⟩
  cases lays with
  | done =>
    rw [nextToken_blank blank] at opens
    contradiction
  | @token g toks t r tok before valid ends rest =>
    have found' : nextToken (g ++ tok.text ++ t) = some (tok,t) := nextToken_eq_some.mpr ⟨g,rfl,before,valid,ends⟩
    obtain ⟨rfl,rfl⟩ := Prod.mk.inj (Option.some.inj (found'.symm.trans opens))
    obtain ⟨g',ss,tail,rfl,lead,bare,few,strings⟩ := block_weave rest blank
      (fun s member => literal s (List.mem_cons_of_mem _ member)) cut
    have noBrace : '{' ∉ g := fun brace => absurd (before _ brace) (by decide)
    have place : peersBlock json = some (g' ++ weave ss tail) := by
      refine peersBlock_eq_some.mpr ⟨g,after,?_,noBrace,absent⟩
      rw [found,split]
      simp [Token.text]
    rw [jsonPeers,place]
    dsimp only
    rw [blockPairs_weave lead bare few,strings]
    rfl

section

variable {toks : List Token} {t u r r' : Text} {fields : List (Parts × Value)} (derives : Derives (.value (.obj fields)) toks)
  (conforms : ∀ m ∈ fields, Conforms (spelled m.1) m.2) (literal : ∀ s, .str s ∈ toks → Literal s)
  (first : Lays toks t r) (blank : Blank r) (second : Lays toks u r') (blank' : Blank r')

include derives conforms literal first blank second blank'

theorem jsonPeers_layout : jsonPeers t = jsonPeers u := by
  have wellFormed {t r : Text} (lays : Lays toks t r) (blank : Blank r) : parse t = some (.obj fields) :=
    parse_of_derives (tokens_eq_some.mpr ⟨r,lays,blank⟩) derives
  have opens {b : Text} := peers_opens (b := b) conforms (wellFormed first blank) first blank literal
  have opens' {b : Text} := peers_opens (b := b) conforms (wellFormed second blank') second blank' literal
  have related := findKey_parallel derives.separated first blank second blank'
    (by decide : PlainKey "peers".toList)
  cases found : findKey "peers".toList t with
  | none =>
    rw [found] at related
    generalize other : findKey "peers".toList u = hit at related
    cases related with
    | none => rw [jsonPeers,peersBlock,found,jsonPeers,peersBlock,other]
  | some b =>
    rw [found] at related
    generalize other : findKey "peers".toList u = hit at related
    cases related with
    | some here =>
      obtain ⟨rest,suffix,lays,lays'⟩ := here
      have inside : ∀ s, .str s ∈ rest → Literal s := fun s member => literal s (suffix.subset member)
      obtain ⟨inner,mark,brace⟩ := opens found
      obtain ⟨inner',mark',brace'⟩ := opens' other
      rw [jsonPeers_lays found lays blank inside mark brace,jsonPeers_lays other lays' blank' inside mark' brace']

end

/-- Two layouts of a config are read as the same fields, but for a flag that is `true` on a
line of its own in one of them. -/
theorem extract_layout_iff (derives : Derives (.value (.obj fields)) toks)
    (conforms : ∀ m ∈ fields, Conforms (spelled m.1) m.2) (literal : ∀ s, .str s ∈ toks → Literal s)
    (first : tokens t = some toks) (second : tokens u = some toks) :
    extract (stripComments t) = extract (stripComments u) ↔ trueOnNewLine t = trueOnNewLine u := by
  obtain ⟨r,lays,blank⟩ := tokens_eq_some.mp first
  obtain ⟨r',lays',blank'⟩ := tokens_eq_some.mp second
  rw [stripComments_literal lays blank literal,stripComments_literal lays' blank' literal]
  have flag := jsonBool_layout_iff derives.separated lays blank lays' blank' literal
  have text (key : Text) (plain : PlainKey key) : jsonString t key = jsonString u key :=
    jsonString_layout derives.separated lays blank lays' blank' plain
  have number := jsonInt_layout derives.separated lays blank lays' blank'
    (by decide : PlainKey "mtu".toList) 1400
  have peers := jsonPeers_layout derives conforms literal lays blank lays' blank'
  rw [← flag]
  constructor
  · exact congrArg Config.fullTunnel
  · intro same
    rw [extract,extract,text "mode".toList (by decide),text "ip".toList (by decide),text "ipv6".toList (by decide),
      text "seed".toList (by decide),text "seedFile".toList (by decide),text "server".toList (by decide),
      text "outInterface".toList (by decide),number,peers,same]

/-- A client with a full tunnel. -/
def tunnelFields : List (Parts × Value) :=
  [("mode".toList.map .char,.str ("client".toList.map .char)),("ip".toList.map .char,.str ("10.0.0.2/24".toList.map .char)),
    ("fullTunnel".toList.map .char,.bool true)]

def tunnelTokens : List Token :=
  [.mark '{',.str ("mode".toList.map .char),.mark ':',.str ("client".toList.map .char),.mark ',',
    .str ("ip".toList.map .char),.mark ':',.str ("10.0.0.2/24".toList.map .char),.mark ',',
    .str ("fullTunnel".toList.map .char),.mark ':',.word "true".toList,.mark '}']

/-- Its text with these blanks in front of the flag. -/
def flagText (gap : String) : Text :=
  "\x7b\"mode\":\"client\",\"ip\":\"10.0.0.2/24\",\"fullTunnel\":".toList ++ gap.toList ++ "true\x7d".toList

theorem tunnel_derives : Derives (.value (.obj tunnelFields)) tunnelTokens := by
  have yes : Spells "true".toList (.bool true) := (rfl : readBare "true".toList = some (.bool true,[]))
  exact .members (.member .str (.member .str (.lastMember (.word yes))))

theorem tunnel_conforms : ∀ m ∈ tunnelFields, Conforms (spelled m.1) m.2 :=
  List.forall_mem_cons.mpr ⟨.string (by decide),List.forall_mem_cons.mpr ⟨.string (by decide),
    List.forall_mem_singleton.mpr .fullTunnel⟩⟩

theorem tunnel_literal : ∀ s, .str s ∈ tunnelTokens → Literal s := by
  have chars (t : Text) : Literal (t.map .char) := fun p member => by
    obtain ⟨c,-,rfl⟩ := List.mem_map.mp member
    exact ⟨c,rfl⟩
  intro s member
  simp only [tunnelTokens,List.mem_cons,List.not_mem_nil,or_false,reduceCtorEq,false_or,Token.str.injEq] at member
  rcases member with rfl | rfl | rfl | rfl | rfl <;> exact chars _

theorem extract_layout_spaces :
    extract (stripComments (flagText " ")) = extract (stripComments (flagText "\t ")) :=
  (extract_layout_iff tunnel_derives tunnel_conforms tunnel_literal (by decide +kernel) (by decide +kernel)).mpr
    (by decide +kernel)

/-- A line break in front of the flag turns it off. -/
theorem extract_layout_newLine : tokens (flagText " ") = some tunnelTokens ∧ tokens (flagText "\n") = some tunnelTokens ∧
    extract (stripComments (flagText " ")) ≠ extract (stripComments (flagText "\n")) := by
  refine ⟨by decide +kernel,by decide +kernel,fun same => ?_⟩
  have on : (extract (stripComments (flagText " "))).fullTunnel = true := by decide +kernel
  have off : (extract (stripComments (flagText "\n"))).fullTunnel = false := by decide +kernel
  rw [same,off] at on
  contradiction

end Nospoon
