import Nospoon.Library.JsonGrammar

/-! Entries put into a JSON document, each with a comma behind it. The result is JSON exactly
where the document without them is, and a member follows. -/
namespace Library.Json

/-- The second phrase has one member more somewhere inside, in front of another. -/
inductive Grown (m : Parts × Value) : Phrase → Phrase → Prop
  | front (several : ms ≠ []) : Grown m (.members ms) (.members (m :: ms))
  | member (value : Grown m (.value v) (.value v')) : Grown m (.members ((s,v) :: ms)) (.members ((s,v') :: ms))
  | later (more : Grown m (.members ms) (.members ms')) : Grown m (.members (e :: ms)) (.members (e :: ms'))
  | obj (inside : Grown m (.members ms) (.members ms')) : Grown m (.value (.obj ms)) (.value (.obj ms'))
  | item (value : Grown m (.value v) (.value v')) : Grown m (.items (v :: vs)) (.items (v' :: vs))
  | laterItem (more : Grown m (.items vs) (.items vs')) : Grown m (.items (v :: vs)) (.items (v :: vs'))
  | arr (inside : Grown m (.items vs) (.items vs')) : Grown m (.value (.arr vs)) (.value (.arr vs'))

theorem Grown.value (grown : Grown m (.value v) p) : ∃ v', p = .value v' := by
  cases grown <;> exact ⟨_,rfl⟩

theorem Grown.items (grown : Grown m (.items vs) p) : ∃ vs', p = .items vs' := by
  cases grown <;> exact ⟨_,rfl⟩

theorem Grown.members (grown : Grown m (.members ms) p) : ∃ ms', p = .members ms' := by
  cases grown <;> exact ⟨_,rfl⟩

/-- `"name":"text",`. -/
def entryTokens (e : Parts × Parts) : List Token := [.str e.1,.mark ':',.str e.2,.mark ',']

/-! ### In front of a name -/

/-- A name is on one side of a mark. -/
theorem split_name {toks toks' pre rest : List Token} (other : c ≠ ':')
    (whole : toks ++ .mark c :: toks' = pre ++ .str s :: .mark ':' :: rest) :
    (∃ rest', toks = pre ++ .str s :: .mark ':' :: rest' ∧ rest = rest' ++ .mark c :: toks') ∨
      ∃ pre', pre = toks ++ .mark c :: pre' ∧ toks' = pre' ++ .str s :: .mark ':' :: rest := by
  rcases List.append_eq_append_iff.mp whole with ⟨x,front,back⟩ | ⟨x,front,back⟩
  · cases x with
    | nil => exact absurd (List.cons.inj back).1 (by simp)
    | cons tok x =>
      obtain ⟨rfl,same⟩ := List.cons.inj back
      exact .inr ⟨x,front,same⟩
  · rcases x with - | ⟨tok,- | ⟨tok',x⟩⟩
    · exact absurd (List.cons.inj back).1 (by simp)
    · exact absurd (Token.mark.inj (List.cons.inj (List.cons.inj back).2).1).symm other
    · obtain ⟨rfl,second⟩ := List.cons.inj back
      obtain ⟨rfl,same⟩ := List.cons.inj second
      exact .inl ⟨x,front,same⟩

/-- The same where the mark is the last token. -/
theorem split_close {toks pre rest : List Token} (other : c ≠ ':')
    (whole : toks ++ [.mark c] = pre ++ .str s :: .mark ':' :: rest) :
    ∃ rest', toks = pre ++ .str s :: .mark ':' :: rest' ∧ rest = rest' ++ [.mark c] := by
  rcases split_name other whole with inside | ⟨pre',-,empty⟩
  · exact inside
  · exact absurd empty.symm (List.append_ne_nil_of_right_ne_nil _ (List.cons_ne_nil _ _))

/-- No name is the first of tokens that begin with a mark. -/
theorem split_open {toks pre rest : List Token} (whole : .mark c :: toks = pre ++ .str s :: rest) :
    ∃ pre', pre = .mark c :: pre' ∧ toks = pre' ++ .str s :: rest := by
  cases pre with
  | nil => exact absurd (List.cons.inj whole).1 (by simp)
  | cons tok pre =>
    obtain ⟨rfl,same⟩ := List.cons.inj whole
    exact ⟨pre,rfl,same⟩

/-- Behind a member's name and colon, or in front of them. -/
theorem split_member {toks pre rest : List Token} (whole : .str s' :: .mark ':' :: toks = pre ++ .str s :: .mark ':' :: rest) :
    (pre = [] ∧ s' = s ∧ toks = rest) ∨
      ∃ pre', pre = .str s' :: .mark ':' :: pre' ∧ toks = pre' ++ .str s :: .mark ':' :: rest := by
  rcases pre with - | ⟨tok,- | ⟨tok',pre⟩⟩
  · obtain ⟨name,same⟩ := List.cons.inj whole
    exact .inl ⟨rfl,Token.str.inj name,(List.cons.inj same).2⟩
  · exact absurd (List.cons.inj (List.cons.inj whole).2).1 (by simp)
  · obtain ⟨rfl,second⟩ := List.cons.inj whole
    obtain ⟨rfl,same⟩ := List.cons.inj second
    exact .inr ⟨pre,rfl,same⟩

/-- An entry goes in front of any member. -/
theorem Derives.insert (derives : Derives p toks) (e : Parts × Parts) (whole : toks = pre ++ .str s :: .mark ':' :: rest) :
    ∃ p', Derives p' (pre ++ entryTokens e ++ .str s :: .mark ':' :: rest) ∧ Grown (e.1,.str e.2) p p' := by
  induction derives generalizing pre rest with
  | word | str | noItems | noMembers =>
    have colon := congrArg (Token.mark ':' ∈ ·) whole
    simp at colon
  | items inside ih =>
    obtain ⟨pre',rfl,opened⟩ := split_open whole
    obtain ⟨rest',here,rfl⟩ := split_close (by decide) opened
    obtain ⟨p',derived,grown⟩ := ih here
    obtain ⟨vs',rfl⟩ := grown.items
    exact ⟨_,by simpa using derived.items,.arr grown⟩
  | members inside ih =>
    obtain ⟨pre',rfl,opened⟩ := split_open whole
    obtain ⟨rest',here,rfl⟩ := split_close (by decide) opened
    obtain ⟨p',derived,grown⟩ := ih here
    obtain ⟨ms',rfl⟩ := grown.members
    exact ⟨_,by simpa using derived.members,.obj grown⟩
  | lastItem value ih =>
    obtain ⟨p',derived,grown⟩ := ih whole
    obtain ⟨v',rfl⟩ := grown.value
    exact ⟨_,derived.lastItem,.item grown⟩
  | item value more ih ih' =>
    rcases split_name (by decide) whole with ⟨rest',here,rfl⟩ | ⟨pre',rfl,there⟩
    · obtain ⟨p',derived,grown⟩ := ih here
      obtain ⟨v',rfl⟩ := grown.value
      exact ⟨_,by simpa using derived.item more,.item grown⟩
    · obtain ⟨p',derived,grown⟩ := ih' there
      obtain ⟨vs',rfl⟩ := grown.items
      exact ⟨_,by simpa using value.item derived,.laterItem grown⟩
  | lastMember value ih =>
    rcases split_member whole with ⟨rfl,rfl,rfl⟩ | ⟨pre',rfl,behind⟩
    · exact ⟨_,Derives.member .str (.lastMember value),.front (List.cons_ne_nil _ _)⟩
    · obtain ⟨p',derived,grown⟩ := ih behind
      obtain ⟨v',rfl⟩ := grown.value
      exact ⟨_,by simpa using derived.lastMember,.member grown⟩
  | member value more ih ih' =>
    rcases split_member whole with ⟨rfl,rfl,rfl⟩ | ⟨pre',rfl,behind⟩
    · exact ⟨_,Derives.member .str (value.member more),.front (List.cons_ne_nil _ _)⟩
    · rcases split_name (by decide) behind with ⟨rest',here,rfl⟩ | ⟨pre'',rfl,there⟩
      · obtain ⟨p',derived,grown⟩ := ih here
        obtain ⟨v',rfl⟩ := grown.value
        exact ⟨_,by simpa using derived.member more,.member grown⟩
      · obtain ⟨p',derived,grown⟩ := ih' there
        obtain ⟨ms',rfl⟩ := grown.members
        exact ⟨_,by simpa using value.member derived,.later grown⟩

/-! ### Behind a comma -/

theorem Grown.value_inv (grown : Grown m p (.value v')) : ∃ v, p = .value v := by
  cases grown <;> exact ⟨_,rfl⟩

theorem Grown.items_inv (grown : Grown m p (.items vs')) : ∃ vs, p = .items vs := by
  cases grown <;> exact ⟨_,rfl⟩

theorem Grown.members_inv (grown : Grown m p (.members ms')) : ∃ ms, p = .members ms := by
  cases grown <;> exact ⟨_,rfl⟩

/-- A value that begins or ends with a string is that string. -/
theorem Derives.value_str (derives : Derives (.value v) toks) :
    (∀ rest, toks = .str s :: rest → rest = []) ∧ ∀ rest, toks = rest ++ [.str s] → rest = [] := by
  have last {c : Char} (toks : List Token) {rest : List Token} (whole : toks ++ [.mark c] = rest ++ [.str s]) : False := by
    have same := (List.append_inj' whole rfl).2
    simp at same
  cases derives with
  | word | str => exact ⟨by simp,fun rest whole => by cases rest with | nil => rfl | cons tok rest => simp at whole⟩
  | noItems => exact ⟨by simp,fun rest whole => (last [.mark '['] whole).elim⟩
  | noMembers => exact ⟨by simp,fun rest whole => (last [.mark '{'] whole).elim⟩
  | items | members => exact ⟨by simp,fun rest whole => (last _ whole).elim⟩

theorem Derives.no_name (derives : Derives (.value v) toks) : toks ≠ pre ++ [.str s,.mark ':',.str s'] := by
  intro whole
  have empty := (derives.value_str (s := s')).2 (pre ++ [.str s,.mark ':']) (by rw [whole]; simp)
  exact List.append_ne_nil_of_right_ne_nil _ (List.cons_ne_nil _ _) empty

/-- A mark behind a string and a comma: the comma itself, or one that stands later. -/
theorem split_comma {rest toks' post : List Token} (whole : .str s :: .mark ',' :: post = rest ++ .mark c :: toks') :
    (rest = [.str s] ∧ c = ',' ∧ toks' = post) ∨ ∃ post', rest = .str s :: .mark ',' :: post' ∧ post = post' ++ .mark c :: toks' := by
  rcases rest with - | ⟨tok,- | ⟨tok',rest⟩⟩
  · exact absurd (List.cons.inj whole).1 (by simp)
  · obtain ⟨rfl,second⟩ := List.cons.inj whole
    obtain ⟨comma,same⟩ := List.cons.inj second
    exact .inl ⟨rfl,(Token.mark.inj comma).symm,same.symm⟩
  · obtain ⟨rfl,second⟩ := List.cons.inj whole
    obtain ⟨rfl,same⟩ := List.cons.inj second
    exact .inr ⟨rest,rfl,same⟩

/-- Behind an entry and its comma a member follows, and without them it is JSON as well. -/
theorem Derives.remove (derives : Derives p toks) (e : Parts × Parts)
    (whole : toks = pre ++ .str e.1 :: .mark ':' :: .str e.2 :: .mark ',' :: post) :
    (∃ s rest, post = .str s :: .mark ':' :: rest) ∧ ∃ p', Derives p' (pre ++ post) ∧ Grown (e.1,.str e.2) p' p := by
  induction derives generalizing pre post with
  | word | str | noItems | noMembers =>
    have colon := congrArg (Token.mark ':' ∈ ·) whole
    simp at colon
  | items inside ih =>
    obtain ⟨pre',rfl,opened⟩ := split_open whole
    obtain ⟨rest',here,closed⟩ := split_close (by decide) opened
    obtain ⟨post',rfl,rfl⟩ := (split_comma closed).resolve_left fun h => absurd h.2.1 (by decide)
    obtain ⟨⟨s,more,rfl⟩,p',derived,grown⟩ := ih here
    obtain ⟨vs',rfl⟩ := grown.items_inv
    exact ⟨⟨s,_,rfl⟩,_,by simpa using derived.items,.arr grown⟩
  | members inside ih =>
    obtain ⟨pre',rfl,opened⟩ := split_open whole
    obtain ⟨rest',here,closed⟩ := split_close (by decide) opened
    obtain ⟨post',rfl,rfl⟩ := (split_comma closed).resolve_left fun h => absurd h.2.1 (by decide)
    obtain ⟨⟨s,more,rfl⟩,p',derived,grown⟩ := ih here
    obtain ⟨ms',rfl⟩ := grown.members_inv
    exact ⟨⟨s,_,rfl⟩,_,by simpa using derived.members,.obj grown⟩
  | lastItem value ih =>
    obtain ⟨follows,p',derived,grown⟩ := ih whole
    obtain ⟨v',rfl⟩ := grown.value_inv
    exact ⟨follows,_,derived.lastItem,.item grown⟩
  | item value more ih ih' =>
    rcases split_name (by decide) whole with ⟨rest',here,closed⟩ | ⟨pre',rfl,there⟩
    · rcases split_comma closed with ⟨rfl,-⟩ | ⟨post',rfl,rfl⟩
      · exact absurd here value.no_name
      · obtain ⟨⟨s,rest,rfl⟩,p',derived,grown⟩ := ih here
        obtain ⟨v',rfl⟩ := grown.value_inv
        exact ⟨⟨s,_,rfl⟩,_,by simpa using derived.item more,.item grown⟩
    · obtain ⟨follows,p',derived,grown⟩ := ih' there
      obtain ⟨vs',rfl⟩ := grown.items_inv
      exact ⟨follows,_,by simpa using value.item derived,.laterItem grown⟩
  | lastMember value ih =>
    rcases split_member whole with ⟨rfl,rfl,rfl⟩ | ⟨pre',rfl,behind⟩
    · exact absurd (value.value_str.1 _ rfl) (by simp)
    · obtain ⟨follows,p',derived,grown⟩ := ih behind
      obtain ⟨v',rfl⟩ := grown.value_inv
      exact ⟨follows,_,by simpa using derived.lastMember,.member grown⟩
  | member value more ih ih' =>
    rcases split_member whole with ⟨rfl,rfl,behind⟩ | ⟨pre',rfl,behind⟩
    · rcases split_comma behind.symm with ⟨rfl,-,rfl⟩ | ⟨post',rfl,-⟩
      · cases value with
        | str =>
          refine ⟨?_,_,more,.front ?_⟩
          · cases more <;> exact ⟨_,_,rfl⟩
          · cases more <;> exact List.cons_ne_nil _ _
      · exact absurd (value.value_str.1 _ rfl) (by simp)
    · rcases split_name (by decide) behind with ⟨rest',here,closed⟩ | ⟨pre'',rfl,there⟩
      · rcases split_comma closed with ⟨rfl,-⟩ | ⟨post',rfl,rfl⟩
        · exact absurd here value.no_name
        · obtain ⟨⟨s,rest,rfl⟩,p',derived,grown⟩ := ih here
          obtain ⟨v',rfl⟩ := grown.value_inv
          exact ⟨⟨s,_,rfl⟩,_,by simpa using derived.member more,.member grown⟩
      · obtain ⟨follows,p',derived,grown⟩ := ih' there
        obtain ⟨ms',rfl⟩ := grown.members_inv
        exact ⟨follows,_,by simpa using value.member derived,.later grown⟩

/-! ### Many entries -/

def entriesTokens (es : List (Parts × Parts)) : List Token := es.flatMap entryTokens

/-- The entries came one by one, the last of them first. -/
inductive Grows : List (Parts × Parts) → Value → Value → Prop
  | none : Grows [] v v
  | entry (rest : Grows es v v') (grown : Grown (e.1,.str e.2) (.value v') (.value v'')) : Grows (e :: es) v v''

theorem Derives.inserts (derives : Derives (.value v) (pre ++ .str s :: .mark ':' :: rest)) (es : List (Parts × Parts)) :
    ∃ v', Derives (.value v') (pre ++ (entriesTokens es ++ .str s :: .mark ':' :: rest)) ∧ Grows es v v' := by
  induction es with
  | nil => exact ⟨v,derives,.none⟩
  | cons e es ih =>
    obtain ⟨v',derived,grows⟩ := ih
    obtain ⟨s',rest',name⟩ : ∃ s' rest', entriesTokens es ++ .str s :: .mark ':' :: rest = .str s' :: .mark ':' :: rest' := by
      cases es <;> exact ⟨_,_,rfl⟩
    rw [name] at derived
    obtain ⟨p,derived',grown⟩ := derived.insert e rfl
    obtain ⟨v'',rfl⟩ := grown.value
    refine ⟨v'',?_,.entry grows grown⟩
    rw [← name] at derived'
    simpa [entriesTokens] using derived'

theorem Derives.removes (derives : Derives (.value v) (pre ++ (entriesTokens es ++ post))) (several : es ≠ []) :
    (∃ s rest, post = .str s :: .mark ':' :: rest) ∧ ∃ v, Derives (.value v) (pre ++ post) := by
  induction es generalizing v with
  | nil => contradiction
  | cons e es ih =>
    have whole : pre ++ (entriesTokens (e :: es) ++ post) =
        pre ++ .str e.1 :: .mark ':' :: .str e.2 :: .mark ',' :: (entriesTokens es ++ post) := rfl
    obtain ⟨follows,p,derived,grown⟩ := derives.remove e whole
    obtain ⟨v',rfl⟩ := grown.value_inv
    by_cases last : es = []
    · subst last
      exact ⟨follows,v',derived⟩
    · exact ih derived last

/-! ### Lines -/

theorem Token.Valid.oneLine {tok : Token} (valid : tok.Valid) : '\n' ∉ tok.text := by
  cases tok with
  | mark c =>
    intro newline
    rw [Token.text,List.mem_singleton] at newline
    subst newline
    exact absurd valid (by simp [Token.Valid,isMark])
  | word w => exact fun newline => absurd (valid.2 _ newline) (by decide)
  | str s =>
    intro newline
    have inside : '\n' ∈ spelled s := by simpa [Token.text] using newline
    obtain ⟨p,member,here⟩ := List.mem_flatMap.mp inside
    cases p with
    | char c =>
      obtain rfl := List.mem_singleton.mp here
      exact absurd (valid _ member).1 (by decide)
    | escape e =>
      have simple : e ∈ simpleEscapes := valid _ member
      rw [Part.text,List.mem_cons,List.mem_singleton] at here
      rcases here with slash | rfl
      · exact absurd slash (by decide)
      · exact absurd simple (by decide)
    | unit digits =>
      rw [Part.text,List.mem_cons,List.mem_cons] at here
      rcases here with slash | u | digit
      · exact absurd slash (by decide)
      · exact absurd u (by decide)
      · exact absurd ((valid _ member).2 _ digit) (by decide)

theorem tokens_blank (blank : Blank g) (t : List Char) : tokens (g ++ t) = tokens t := by
  have same : nextToken (g ++ t) = nextToken t := by rw [nextToken,skip_blank blank,← nextToken]
  cases found : nextToken t with
  | none => rw [tokens_nothing (same.trans found),tokens_nothing found,finish,finish,skip_blank blank]
  | some r => rw [tokens_token (same.trans found),tokens_token found]

/-- The first token of a line ends on the line. -/
theorem nextToken_newline (dark : ¬Blank t) (u : List Char) :
    nextToken (t ++ '\n' :: u) = (nextToken t).map fun r => (r.1,r.2 ++ '\n' :: u) := by
  have ends {tok : Token} {y : List Char} : tok.EndsAt (y ++ '\n' :: u) ↔ tok.EndsAt y := by
    cases tok with
    | mark | str => exact Iff.rfl
    | word w =>
      cases y with
      | nil => exact ⟨fun _ => nofun,fun _ c head => by rw [← Option.some.inj head]; decide⟩
      | cons c y => exact Iff.rfl
  cases found : nextToken t with
  | some r =>
    obtain ⟨tok,r⟩ := r
    obtain ⟨g,rfl,blank,valid,stops⟩ := nextToken_eq_some.mp found
    exact nextToken_eq_some.mpr ⟨g,by simp,blank,valid,ends.mpr stops⟩
  | none =>
    cases longer : nextToken (t ++ '\n' :: u) with
    | none => rfl
    | some r =>
      obtain ⟨tok,w⟩ := r
      obtain ⟨g,whole,blank,valid,stops⟩ := nextToken_eq_some.mp longer
      rw [List.append_assoc] at whole
      rcases List.append_eq_append_iff.mp whole with ⟨x,rfl,-⟩ | ⟨x,rfl,rest⟩
      · exact absurd (fun c member => blank c (List.mem_append_left _ member)) dark
      · rcases List.append_eq_append_iff.mp rest with ⟨y,rfl,rfl⟩ | ⟨y,text,back⟩
        · have here : nextToken (g ++ (tok.text ++ y)) = some (tok,y) :=
            nextToken_eq_some.mpr ⟨g,(List.append_assoc ..).symm,blank,valid,ends.mp stops⟩
          rw [here] at found
          contradiction
        · cases y with
          | nil =>
            rw [List.append_nil] at text
            have last : tok.EndsAt [] := by
              cases tok with
              | mark | str => trivial
              | word w => exact nofun
            have here : nextToken (g ++ x) = some (tok,[]) :=
              nextToken_eq_some.mpr ⟨g,by rw [text,List.append_nil],blank,valid,last⟩
            rw [here] at found
            contradiction
          | cons c y =>
            obtain ⟨rfl,-⟩ := List.cons.inj back
            exact absurd (text ▸ List.mem_append_right _ List.mem_cons_self) valid.oneLine

/-- A line break ends a token: the tokens of a text are those of the lines before it and
those of the lines behind it. -/
theorem tokens_newline (t u : List Char) :
    tokens (t ++ '\n' :: u) = (tokens t).bind fun pre => (tokens u).map (pre ++ ·) := by
  induction length : t.length using Nat.strongRecOn generalizing t with
  | ind n ih =>
    by_cases blank : Blank t
    · have all : Blank (t ++ ['\n']) := blank_append blank (List.forall_mem_singleton.mpr rfl)
      have none : tokens t = some [] := tokens_eq_some.mpr ⟨t,.done,blank⟩
      rw [List.append_cons,tokens_blank all,none]
      simp
    · have next := nextToken_newline blank u
      cases found : nextToken t with
      | none =>
        rw [found] at next
        have dark : ¬Blank (t ++ '\n' :: u) := fun all => blank fun c member => all c (List.mem_append_left _ member)
        rw [tokens_nothing next,tokens_nothing found,finish,finish,if_neg (mt skip_eq_nil.mp blank),
          if_neg (mt skip_eq_nil.mp dark)]
        rfl
      | some r =>
        rw [found] at next
        have shorter : r.2.length < t.length := nextToken_length found
        rw [tokens_token next,tokens_token found,ih r.2.length (length ▸ shorter) r.2 rfl]
        cases tokens r.2 with
        | none => rfl
        | some pre => cases tokens u <;> rfl


/-- A mark that ends the tokens of a text ends them in front of every other text. -/
theorem tokens_mark (mark : isMark c = true) (lexed : tokens (a ++ [c]) = some toks) (t : List Char) :
    tokens (a ++ c :: t) = (tokens t).map (toks ++ ·) := by
  obtain ⟨r,lays,blank⟩ := tokens_eq_some.mp lexed
  obtain ⟨noWhite,noWord,noQuote⟩ := mark_char mark
  have finished : r = [] := by
    by_contra left
    obtain ⟨front,whole⟩ := lays.suffix
    have last : c ∈ r := by
      have same := congrArg List.getLast? whole
      rw [List.getLast?_append_of_ne_nil _ left,List.getLast?_concat] at same
      exact List.mem_of_getLast? same
    rw [blank c last] at noWhite
    contradiction
  subst finished
  rcases List.eq_nil_or_concat toks with rfl | ⟨pre,tok,rfl⟩
  · generalize whole : a ++ [c] = text at lays
    cases lays
    simp at whole
  · rw [List.concat_eq_append] at lays ⊢
    obtain ⟨u,leading,rest⟩ := lays.split
    obtain ⟨u',next,ending⟩ := rest.next
    obtain rfl : u' = [] := by cases ending; rfl
    obtain ⟨g,rfl,before,valid,-⟩ := nextToken_eq_some.mp next
    rw [List.append_nil] at leading
    obtain ⟨f,whole,follows⟩ := leading.follow
    -- the last token is the mark itself
    have last : tok.text.getLast? = some c := by
      have same := congrArg List.getLast? whole
      obtain ⟨d,w,text,-⟩ := valid.front
      rw [List.getLast?_concat,← List.append_assoc,List.getLast?_append_of_ne_nil _ (by simp [text])] at same
      exact same.symm
    have token : tok = .mark c := by
      cases tok with
      | mark d => exact congrArg Token.mark (Option.some.inj last)
      | str s =>
        rw [Token.text,List.getLast?_concat] at last
        exact absurd (Option.some.inj last).symm noQuote
      | word w =>
        have inside := valid.2 c (List.mem_of_getLast? last)
        rw [noWord] at inside
        contradiction
    subst token
    rw [Token.text,← List.append_assoc] at whole
    have front := (List.append_inj' whole rfl).1
    have ends : Ends (g ++ [c]) → Ends (g ++ c :: t) := by
      intro ends d head
      apply ends d
      cases g <;> exact head
    have brace : Lays [.mark c] (g ++ c :: t) t := by
      have token := Lays.token (t := t) before valid trivial .done
      rwa [Token.text,List.append_assoc] at token
    have all := (follows (g ++ c :: t) ends).append brace
    rw [front,List.append_assoc]
    exact tokens_lead all

end Library.Json
