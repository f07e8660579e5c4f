import Nospoon.Library.Json
import Nospoon.Library.Streaming

/-! The tokens of JSON texts. A text lays a sequence of tokens when it has them in order
with blanks between them; the lexer reads the sequence that a text lays, and the names of
members are the strings in front of colons. -/
namespace Library.Json

inductive Token where
  | mark (c : Char)
  | str (s : Parts)
  | word (w : List Char)
  deriving DecidableEq, Repr

def isMark (c : Char) : Bool := ['{','}','[',']',':',','].contains c

/-- What numbers and names are made of. -/
def isWordChar (c : Char) : Bool := c.isAlphanum || c = '+' || c = '-' || c = '.'

def Token.text : Token → List Char
  | .mark c => [c]
  | .str s => '"' :: spelled s ++ ['"']
  | .word w => w

def Token.Valid : Token → Prop
  | .mark c => isMark c = true
  | .str s => ∀ p ∈ s, p.Valid
  | .word w => w ≠ [] ∧ ∀ c ∈ w, isWordChar c = true

/-- No word goes on in this text. -/
def Ends (t : List Char) : Prop := ∀ c ∈ t.head?, isWordChar c = false

/-- The token ends where the text behind it starts. -/
def Token.EndsAt : Token → List Char → Prop
  | .word _, t => Ends t
  | _, _ => True

def Blank (g : List Char) : Prop := ∀ c ∈ g, isWhite c = true

/-- The first text has these tokens in order, with blanks before them, up to the second. -/
inductive Lays : List Token → List Char → List Char → Prop
  | done : Lays [] t t
  | token (blank : Blank g) (valid : tok.Valid) (ends : tok.EndsAt t) (rest : Lays toks t r) :
    Lays (tok :: toks) (g ++ tok.text ++ t) r

/-! ### The lexer -/

def nextToken (t : List Char) : Option (Token × List Char) :=
  match skip t with
  | [] => none
  | '"' :: t => (readString t).map fun r => (.str r.1,r.2)
  | c :: t =>
    if isMark c then some (.mark c,t)
    else if isWordChar c then some (.word (c :: t.takeWhile isWordChar),t.dropWhile isWordChar)
    else none

/-! ### One token -/

theorem white_char (white : isWhite c = true) : isMark c = false ∧ isWordChar c = false ∧ c ≠ '"' := by
  simp only [isWhite,Bool.or_eq_true,decide_eq_true_eq] at white
  rcases white with ((rfl | rfl) | rfl) | rfl <;> decide

theorem mark_char (mark : isMark c = true) : isWhite c = false ∧ isWordChar c = false ∧ c ≠ '"' := by
  simp only [isMark,List.contains_eq_mem,List.mem_cons,List.not_mem_nil,or_false,decide_eq_true_eq] at mark
  rcases mark with rfl | rfl | rfl | rfl | rfl | rfl <;> decide

theorem wordChar_quote (word : isWordChar c = true) : c ≠ '"' := by
  rintro rfl
  exact absurd word (by decide)

theorem Token.Valid.front {tok : Token} (valid : tok.Valid) : ∃ c t, tok.text = c :: t ∧ isWhite c = false := by
  cases tok with
  | mark c => exact ⟨c,[],rfl,(mark_char valid).1⟩
  | str s => exact ⟨'"',_,rfl,by decide⟩
  | word w =>
    cases w with
    | nil => exact absurd rfl valid.1
    | cons c w =>
      refine ⟨c,w,rfl,?_⟩
      have word := valid.2 c List.mem_cons_self
      cases white : isWhite c with
      | false => rfl
      | true => rw [(white_char white).2.1] at word; contradiction

theorem skip_blank (blank : Blank g) (t : List Char) : skip (g ++ t) = skip t := by
  induction g with
  | nil => rfl
  | cons c g ih =>
    obtain ⟨here,later⟩ := List.forall_mem_cons.mp blank
    rw [List.cons_append,skip,List.dropWhile_cons_of_pos here]
    exact ih later

theorem skip_token {tok : Token} (blank : Blank g) (valid : tok.Valid) (t : List Char) :
    skip (g ++ tok.text ++ t) = tok.text ++ t := by
  obtain ⟨c,u,front,dark⟩ := valid.front
  rw [List.append_assoc,skip_blank blank,front,List.cons_append,skip,List.dropWhile_cons_of_neg (by simp [dark])]

/-- A string is read back from its spelling. -/
theorem readString_spelled (valid : ∀ p ∈ s, Part.Valid p) (t : List Char) :
    readString (spelled s ++ '"' :: t) = some (s,t) := by
  induction s with
  | nil => rfl
  | cons p s ih =>
    obtain ⟨here,later⟩ := List.forall_mem_cons.mp valid
    have rest := ih later
    have front : spelled (p :: s) = p.text ++ spelled s := List.flatMap_cons
    rw [front,List.append_assoc]
    cases p with
    | char c =>
      obtain ⟨high,noQuote,noEscape⟩ := here
      have step : readString (c :: (spelled s ++ '"' :: t)) =
          if c.toNat < 32 then none else (readString (spelled s ++ '"' :: t)).map (put (.char c)) := by
        rw [readString]
        · exact fun same => noQuote same
        · exact fun _ _ _ _ _ same => absurd same noEscape
        · exact fun _ _ same => absurd same noEscape
      rw [Part.text,List.singleton_append,step,if_neg (Nat.not_lt.mpr high),rest]
      rfl
    | escape e =>
      have simple : e ∈ simpleEscapes := here
      have step : readString ('\\' :: e :: (spelled s ++ '"' :: t)) =
          if e ∈ simpleEscapes then (readString (spelled s ++ '"' :: t)).map (put (.escape e)) else none := by
        rw [readString]
        rintro a b c d u rfl
        exact absurd simple (by decide)
      rw [Part.text,List.cons_append,List.singleton_append,step,if_pos simple,rest]
      rfl
    | unit digits =>
      obtain ⟨four,hex⟩ := here
      obtain ⟨a,b,c,d,rfl⟩ := List.length_eq_four.mp four
      have step : readString ('\\' :: 'u' :: a :: b :: c :: d :: (spelled s ++ '"' :: t)) =
          if [a,b,c,d].all isXDigit then (readString (spelled s ++ '"' :: t)).map (put (.unit [a,b,c,d])) else none := by
        rw [readString]
      rw [Part.text]
      refine step.trans ?_
      rw [if_pos (List.all_eq_true.mpr hex),rest]
      rfl

theorem takeWhile_word (word : ∀ c ∈ w, isWordChar c = true) (ends : Ends t) :
    (w ++ t).takeWhile isWordChar = w ∧ (w ++ t).dropWhile isWordChar = t := by
  induction w with
  | nil =>
    cases t with
    | nil => exact ⟨rfl,rfl⟩
    | cons c t =>
      have stop : ¬isWordChar c = true := by simp [ends c rfl]
      exact ⟨List.takeWhile_cons_of_neg stop,List.dropWhile_cons_of_neg stop⟩
  | cons c w ih =>
    obtain ⟨here,later⟩ := List.forall_mem_cons.mp word
    obtain ⟨taken,left⟩ := ih later
    rw [List.cons_append,List.takeWhile_cons_of_pos here,List.dropWhile_cons_of_pos here,taken,left]
    exact ⟨rfl,rfl⟩

theorem before_skip (t : List Char) : ∃ g, Blank g ∧ t = g ++ skip t :=
  ⟨t.takeWhile isWhite,fun _ member => List.mem_takeWhile_imp member,List.takeWhile_append_dropWhile.symm⟩

/-- The lexer finds a token exactly where the text has one behind blanks. -/
theorem nextToken_eq_some : nextToken u = some (tok,t) ↔
    ∃ g, u = g ++ tok.text ++ t ∧ Blank g ∧ tok.Valid ∧ tok.EndsAt t := by
  constructor
  · intro h
    obtain ⟨g,blank,split⟩ := before_skip u
    refine ⟨g,?_⟩
    rw [List.append_assoc]
    suffices skip u = tok.text ++ t ∧ tok.Valid ∧ tok.EndsAt t from
      ⟨split.trans (congrArg (g ++ ·) this.1),blank,this.2⟩
    unfold nextToken at h
    split at h
    · contradiction
    · rename_i rest front
      obtain ⟨⟨s,r⟩,read,same⟩ := Option.map_eq_some_iff.mp h
      obtain ⟨rfl,rfl⟩ := Prod.mk.inj same
      obtain ⟨rfl,valid⟩ := readString_some read
      exact ⟨by rw [front]; simp [Token.text],valid,trivial⟩
    · rename_i c rest noQuote front
      split_ifs at h with mark word
      · obtain ⟨rfl,rfl⟩ := Prod.mk.inj (Option.some.inj h)
        exact ⟨front,mark,trivial⟩
      · obtain ⟨rfl,rfl⟩ := Prod.mk.inj (Option.some.inj h)
        refine ⟨?_,⟨by simp,List.forall_mem_cons.mpr ⟨word,fun d member => List.mem_takeWhile_imp member⟩⟩,fun d first => ?_⟩
        · rw [front,Token.text,List.cons_append,List.takeWhile_append_dropWhile]
        · have stop := List.head?_dropWhile_not isWordChar rest
          rw [Option.mem_def.mp first] at stop
          simpa using stop
  · rintro ⟨g,rfl,blank,valid,ends⟩
    rw [nextToken,skip_token blank valid]
    cases tok with
    | mark c =>
      obtain ⟨-,-,noQuote⟩ := mark_char valid
      rw [Token.text,List.singleton_append]
      split
      · contradiction
      · rename_i same
        exact absurd (List.cons.inj same).1 noQuote
      · rename_i same
        obtain ⟨rfl,rfl⟩ := List.cons.inj same
        exact if_pos valid
    | str s =>
      have shape : Token.text (.str s) ++ t = '"' :: (spelled s ++ '"' :: t) := by simp [Token.text]
      rw [shape]
      exact congrArg (Option.map _) (readString_spelled valid t)
    | word w =>
      obtain ⟨nonempty,word⟩ := valid
      cases w with
      | nil => contradiction
      | cons c w =>
        obtain ⟨here,later⟩ := List.forall_mem_cons.mp word
        obtain ⟨taken,left⟩ := takeWhile_word later ends
        have noMark : ¬isMark c = true := by
          intro mark
          rw [(mark_char mark).2.1] at here
          contradiction
        rw [Token.text,List.cons_append]
        split
        · contradiction
        · rename_i same
          exact absurd (List.cons.inj same).1 (wordChar_quote here)
        · rename_i same
          obtain ⟨rfl,rfl⟩ := List.cons.inj same
          rw [if_neg noMark,if_pos here,taken,left]

theorem nextToken_length (found : nextToken u = some (tok,t)) : t.length < u.length := by
  obtain ⟨g,rfl,-,valid,-⟩ := nextToken_eq_some.mp found
  obtain ⟨c,w,front,-⟩ := valid.front
  rw [front]
  simp only [List.length_append,List.length_cons]
  omega

/-! ### All tokens -/

def lexer : Reader Char Token where
  next t := (nextToken t).map fun r => (some r.1,r.2)
  progress := by
    intro u item t h
    simp only [Option.map_eq_some_iff,Prod.exists] at h
    obtain ⟨tok,r,found,same⟩ := h
    obtain ⟨rfl,rfl⟩ := Prod.mk.inj same
    exact nextToken_length found

/-- The tokens of a text, if it has no other text in it. -/
def tokens (t : List Char) : Option (List Token) := finish (lexer.drain t)

theorem skip_eq_nil : skip t = [] ↔ Blank t := List.dropWhile_eq_nil_iff

theorem tokens_token (found : nextToken u = some (tok,t)) : tokens u = (tokens t).map (tok :: ·) := by
  have next : lexer.next u = some (some tok,t) := by simp only [lexer,found,Option.map_some]
  rw [tokens,lexer.drain_next next,tokens]
  unfold finish
  split_ifs <;> rfl

theorem tokens_nothing (nothing : nextToken u = none) : tokens u = finish ([],u) := by
  have wait : lexer.next u = none := by simp only [lexer,nothing,Option.map_none]
  rw [tokens,lexer.drain_wait wait]

theorem nextToken_blank (blank : Blank g) : nextToken g = none := by rw [nextToken,skip_eq_nil.mpr blank]

/-- The lexer reads the tokens that a text lays. -/
theorem tokens_eq_some : tokens t = some toks ↔ ∃ r, Lays toks t r ∧ Blank r := by
  constructor
  · intro h
    induction length : t.length using Nat.strongRecOn generalizing t toks with
    | ind n ih =>
      cases found : nextToken t with
      | none =>
        rw [tokens_nothing found] at h
        obtain ⟨rfl,blank⟩ := finish_some.mp h
        exact ⟨t,.done,skip_eq_nil.mp blank⟩
      | some next =>
        obtain ⟨tok,rest⟩ := next
        rw [tokens_token found] at h
        obtain ⟨more,read,rfl⟩ := Option.map_eq_some_iff.mp h
        obtain ⟨r,later,blanks⟩ := ih rest.length (length ▸ nextToken_length found) read rfl
        obtain ⟨g,rfl,blank,valid,ends⟩ := nextToken_eq_some.mp found
        exact ⟨r,.token blank valid ends later,blanks⟩
  · rintro ⟨r,lays,blank⟩
    induction lays with
    | done =>
      rw [tokens_nothing (nextToken_blank blank)]
      exact finish_some.mpr ⟨rfl,skip_eq_nil.mpr blank⟩
    | token before valid ends rest ih =>
      rw [tokens_token (nextToken_eq_some.mpr ⟨_,rfl,before,valid,ends⟩),ih blank]
      rfl

theorem tokens_lead (lays : Lays toks t u) : tokens t = (tokens u).map (toks ++ ·) := by
  induction lays with
  | done => simp
  | token before valid ends rest ih =>
    rw [tokens_token (nextToken_eq_some.mpr ⟨_,rfl,before,valid,ends⟩),ih,Option.map_map]
    rfl

theorem blank_append (first : Blank g) (second : Blank g') : Blank (g ++ g') := by
  intro c member
  rcases List.mem_append.mp member with here | there
  · exact first c here
  · exact second c there

namespace Lays

theorem next (lays : Lays (tok :: toks) u r) : ∃ t, nextToken u = some (tok,t) ∧ Lays toks t r := by
  cases lays with
  | token blank valid ends rest => exact ⟨_,nextToken_eq_some.mpr ⟨_,rfl,blank,valid,ends⟩,rest⟩

theorem of_next (found : nextToken u = some (tok,t)) (rest : Lays toks t r) : Lays (tok :: toks) u r := by
  obtain ⟨g,rfl,blank,valid,ends⟩ := nextToken_eq_some.mp found
  exact .token blank valid ends rest

/-- More blanks in front of a token. -/
theorem indent (blank : Blank g) (lays : Lays (tok :: toks) t r) : Lays (tok :: toks) (g ++ t) r := by
  cases lays with
  | token before valid ends rest =>
    have all := Lays.token (blank_append blank before) valid ends rest
    simpa only [List.append_assoc] using all

theorem valid (lays : Lays toks t r) : ∀ tok ∈ toks, tok.Valid := by
  induction lays with
  | done => exact nofun
  | token blank valid ends rest ih => exact List.forall_mem_cons.mpr ⟨valid,ih⟩

theorem append (first : Lays toks t u) (second : Lays more u r) : Lays (toks ++ more) t r := by
  induction first with
  | done => exact second
  | token blank valid ends rest ih => exact .token blank valid ends (ih second)

theorem split (lays : Lays (toks ++ more) t r) : ∃ u, Lays toks t u ∧ Lays more u r := by
  induction toks generalizing t with
  | nil => exact ⟨t,.done,lays⟩
  | cons tok toks ih =>
    obtain ⟨t',found,rest⟩ := lays.next
    obtain ⟨u,first,second⟩ := ih rest
    exact ⟨u,.of_next found first,second⟩

/-- The tokens stand in front of every text in which their last word ends. -/
theorem follow (lays : Lays toks t u) : ∃ f, t = f ++ u ∧ ∀ v, (Ends u → Ends v) → Lays toks (f ++ v) v := by
  induction lays with
  | done => exact ⟨[],rfl,fun _ _ => .done⟩
  | @token g toks t u tok before valid ends rest ih =>
    obtain ⟨f,rfl,front⟩ := ih
    refine ⟨g ++ tok.text ++ f,by simp,fun v stops => ?_⟩
    rw [List.append_assoc]
    refine .token before valid ?_ (front v stops)
    cases tok with
    | mark c => trivial
    | str s => trivial
    | word w =>
      cases f with
      | nil => exact stops ends
      | cons c f => exact fun d head => ends d head

theorem suffix (lays : Lays toks t r) : r <:+ t := by
  induction lays with
  | done => exact List.suffix_refl _
  | token blank valid ends rest ih => exact ih.trans (List.suffix_append _ _)

end Lays

/-! ### Names -/

/-- A string in front of a colon, and what follows the colon. -/
def nameAt (t : List Char) : Option (Parts × List Char) :=
  match nextToken t with
  | some (.str s,u) =>
    match nextToken u with
    | some (.mark ':',behind) => some (s,behind)
    | _ => none
  | _ => none

theorem nameAt_eq_some : nameAt t = some (s,behind) ↔
    ∃ u, nextToken t = some (.str s,u) ∧ nextToken u = some (.mark ':',behind) := by
  constructor
  · intro h
    unfold nameAt at h
    split at h
    · rename_i s' u found
      split at h
      · rename_i behind' colon
        obtain ⟨rfl,rfl⟩ := Prod.mk.inj (Option.some.inj h)
        exact ⟨u,found,colon⟩
      · contradiction
    · contradiction
  · rintro ⟨u,found,colon⟩
    simp only [nameAt,found,colon]

def nameReader : Reader Char (Parts × List Char) where
  next t := match nameAt t with
    | some name => some (some name,name.2)
    | none => (nextToken t).map fun r => (none,r.2)
  progress := by
    intro t item rest h
    split at h
    · rename_i name found
      obtain ⟨rfl,rfl⟩ := Prod.mk.inj (Option.some.inj h)
      obtain ⟨u,first,colon⟩ := nameAt_eq_some.mp found
      exact (nextToken_length colon).trans (nextToken_length first)
    · obtain ⟨⟨tok,u⟩,found,same⟩ := Option.map_eq_some_iff.mp h
      obtain ⟨-,rfl⟩ := Prod.mk.inj same
      exact nextToken_length found

/-- The names of a text in order, each with what follows its colon. -/
def names (t : List Char) : List (Parts × List Char) := (nameReader.drain t).1

theorem names_nothing (nothing : nextToken t = none) : names t = [] := by
  have noName : nameAt t = none := by rw [nameAt,nothing]
  have wait : nameReader.next t = none := by simp only [nameReader,noName,nothing,Option.map_none]
  rw [names,nameReader.drain_wait wait]

theorem names_name (found : nameAt t = some name) : names t = name :: names name.2 := by
  have next : nameReader.next t = some (some name,name.2) := by simp only [nameReader,found]
  rw [names,nameReader.drain_next next]
  rfl

theorem names_other (noName : nameAt t = none) (found : nextToken t = some (tok,u)) : names t = names u := by
  have next : nameReader.next t = some (none,u) := by simp only [nameReader,noName,found,Option.map_some]
  rw [names,nameReader.drain_next next]
  rfl

end Library.Json
