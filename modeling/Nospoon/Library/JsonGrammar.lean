import Mathlib.Data.List.Chain
import Nospoon.Library.JsonTokens

/-! The grammar of JSON over tokens, and the reader of `parse` against it: what the reader
reads is derived, and what is derived is read. -/
namespace Library.Json

/-! ### Words -/

/-- What a reader found, with more text behind it. -/
def ahead (r : List Char) (found : α × List Char) : α × List Char := (found.1,found.2 ++ r)

/-- A reader of words: text that no word goes on in does not matter to it, and it leaves
an end of what it read. -/
structure ReadsWords (read : List Char → Option (α × List Char)) : Prop where
  stop : ∀ w r, (∀ c ∈ w, isWordChar c = true) → Ends r → read (w ++ r) = (read w).map (ahead r)
  suffix : ∀ w a u, read w = some (a,u) → u <:+ w

theorem wordChar_digit (digit : c.isDigit = true) : isWordChar c = true := by
  simp [isWordChar,Char.isAlphanum,digit]

theorem noWord_char (noWord : isWordChar c = false) : c.isDigit = false ∧ c ≠ '-' ∧ c ≠ '+' ∧ c ≠ '.' ∧ c ≠ 'e' ∧ c ≠ 'E' := by
  refine ⟨?_,?_,?_,?_,?_,?_⟩
  · cases digit : c.isDigit with
    | false => rfl
    | true => rw [wordChar_digit digit] at noWord; contradiction
  all_goals
    rintro rfl
    exact absurd noWord (by decide)

theorem ends_cons (ends : Ends (c :: r)) : isWordChar c = false := ends c rfl

theorem readsWords_digits : ReadsWords readDigits where
  stop w r _ ends := by
    cases r with
    | nil => cases h : readDigits w <;> simp [ahead,h]
    | cons c r =>
      have stop := (noWord_char (ends_cons ends)).1
      unfold readDigits
      rw [takeWhile_stop stop,dropWhile_stop stop]
      split_ifs <;> rfl
  suffix w digits u h := by
    obtain ⟨rfl,-⟩ := readDigits_some h
    exact List.suffix_append _ _

theorem ReadsWords.map {read : List Char → Option (α × List Char)} (reads : ReadsWords read) (f : α → β) :
    ReadsWords fun t => (read t).map fun r => (f r.1,r.2) where
  stop w r word ends := by
    simp only [reads.stop w r word ends,Option.map_map]
    rfl
  suffix w a u h := by
    obtain ⟨⟨a',u'⟩,found,same⟩ := Option.map_eq_some_iff.mp h
    obtain ⟨-,rfl⟩ := Prod.mk.inj same
    exact reads.suffix w a' u' found

/-- Readers in turn, the second on what the first leaves. -/
theorem ReadsWords.bind {read : List Char → Option (α × List Char)} {next : α → List Char → Option (β × List Char)}
    (reads : ReadsWords read) (nexts : ∀ a, ReadsWords (next a)) :
    ReadsWords fun t => (read t).bind fun r => next r.1 r.2 where
  stop w r word ends := by
    simp only [reads.stop w r word ends,Option.bind_map]
    cases found : read w with
    | none => rfl
    | some f =>
      have inside := reads.suffix w f.1 f.2 found
      exact (nexts f.1).stop f.2 r (fun c member => word c (inside.subset member)) ends
  suffix w b u h := by
    obtain ⟨⟨a,v⟩,first,second⟩ := Option.bind_eq_some_iff.mp h
    exact ((nexts a).suffix v b u second).trans (reads.suffix w a v first)

theorem ReadsWords.pure (a : α) : ReadsWords fun t => some (a,t) where
  stop _ _ _ _ := rfl
  suffix w a u h := by
    obtain ⟨-,rfl⟩ := Prod.mk.inj (Option.some.inj h)
    exact List.suffix_refl _

theorem ReadsWords.filter {read : List Char → Option (α × List Char)} (reads : ReadsWords read) (p : α → Bool) :
    ReadsWords fun t => (read t).filter fun r => p r.1 where
  stop w r word ends := by
    simp only [reads.stop w r word ends,Option.filter_map]
    rfl
  suffix w a u h := reads.suffix w a u (Option.filter_eq_some_iff.mp h).1

/-- A reader with another way to read behind some first characters of words. -/
theorem ReadsWords.front {read again : List Char → Option (α × List Char)} (reads : ReadsWords again)
    (outside : ∀ t, Ends t → read t = again t)
    (inside : ∀ c, (∀ t, read (c :: t) = again (c :: t)) ∨
      ∃ special, ReadsWords special ∧ ∀ t, read (c :: t) = special t) : ReadsWords read where
  stop w r word ends := by
    cases w with
    | nil =>
      rw [List.nil_append,outside r ends,outside [] nofun]
      exact reads.stop [] r nofun ends
    | cons c w =>
      obtain ⟨-,later⟩ := List.forall_mem_cons.mp word
      rcases inside c with same | ⟨special,reads',same⟩
      · rw [List.cons_append,same,same]
        exact reads.stop (c :: w) r word ends
      · rw [List.cons_append,same,same]
        exact reads'.stop w r later ends
  suffix w a u h := by
    cases w with
    | nil => exact reads.suffix [] a u (outside [] nofun ▸ h)
    | cons c w =>
      rcases inside c with same | ⟨special,reads',same⟩
      · exact reads.suffix (c :: w) a u (same w ▸ h)
      · exact (reads'.suffix w a u (same w ▸ h)).trans (List.suffix_cons c w)

theorem readsWords_fraction : ReadsWords readFraction := by
  apply (ReadsWords.pure []).front
  · intro t ends
    unfold readFraction
    split
    · exact absurd (ends_cons ends) (by decide)
    · rfl
  · intro c
    by_cases point : c = '.'
    · subst point
      exact .inr ⟨readDigits,readsWords_digits,fun _ => rfl⟩
    · exact .inl fun t => by rw [readFraction]; exact fun _ same => absurd (List.cons.inj same).1 point

theorem readsWords_power : ReadsWords readPower := by
  have digits (f : List Char → Int) := readsWords_digits.map f
  apply (digits fun d => natOf d).front
  · intro t ends
    unfold readPower
    split
    · exact absurd (ends_cons ends) (by decide)
    · exact absurd (ends_cons ends) (by decide)
    · rfl
  · intro c
    by_cases minus : c = '-'
    · subst minus
      exact .inr ⟨_,digits fun d => -(natOf d : Int),fun _ => rfl⟩
    · by_cases plus : c = '+'
      · subst plus
        exact .inr ⟨_,digits fun d => natOf d,fun _ => rfl⟩
      · refine .inl fun t => ?_
        rw [readPower]
        · exact fun _ same => absurd (List.cons.inj same).1 minus
        · exact fun _ same => absurd (List.cons.inj same).1 plus

theorem readsWords_exponent : ReadsWords readExponent := by
  apply (ReadsWords.pure 0).front
  · intro t ends
    unfold readExponent
    split
    · exact absurd (ends_cons ends) (by decide)
    · exact absurd (ends_cons ends) (by decide)
    · rfl
  · intro c
    by_cases small : c = 'e'
    · subst small
      exact .inr ⟨readPower,readsWords_power,fun _ => rfl⟩
    · by_cases big : c = 'E'
      · subst big
        exact .inr ⟨readPower,readsWords_power,fun _ => rfl⟩
      · refine .inl fun t => ?_
        rw [readExponent]
        · exact fun _ same => absurd (List.cons.inj same).1 small
        · exact fun _ same => absurd (List.cons.inj same).1 big

theorem readsWords_whole : ReadsWords readWhole :=
  readsWords_digits.filter fun d => d.length = 1 || d.head? ≠ some '0'

theorem readsWords_unsigned (negative : Bool) : ReadsWords (readUnsigned negative) := by
  have stages : ReadsWords fun t => (readWhole t).bind fun d => (readFraction d.2).bind fun f =>
      (readExponent f.2).map fun e => (Number.mk negative d.1 f.1 e.1,e.2) :=
    readsWords_whole.bind fun d => readsWords_fraction.bind fun f =>
      readsWords_exponent.map fun e => Number.mk negative d f e
  have same : readUnsigned negative = fun t => (readWhole t).bind fun d => (readFraction d.2).bind fun f =>
      (readExponent f.2).map fun e => (Number.mk negative d.1 f.1 e.1,e.2) := by
    funext t
    simp only [readUnsigned,bind,pure,Option.map_eq_bind]
    rfl
  rw [same]
  exact stages

theorem readsWords_number : ReadsWords readNumber := by
  apply (readsWords_unsigned false).front
  · intro t ends
    unfold readNumber
    split
    · exact absurd (ends_cons ends) (by decide)
    · rfl
  · intro c
    by_cases minus : c = '-'
    · subst minus
      exact .inr ⟨_,readsWords_unsigned true,fun _ => rfl⟩
    · exact .inl fun t => by rw [readNumber]; exact fun _ same => absurd (List.cons.inj same).1 minus

theorem readsWords_word (inside : ∀ c ∈ word.toList, isWordChar c = true) (v : Value) : ReadsWords (readWord word v) where
  stop w r _ ends := by
    have found : afterPrefix word.toList (w ++ r) = (afterPrefix word.toList w).map (· ++ r) := by
      cases r with
      | nil => cases h : afterPrefix word.toList w <;> simp [h]
      | cons c r =>
        have absent : c ∉ word.toList := by
          intro member
          have here := inside c member
          rw [ends_cons ends] at here
          contradiction
        unfold afterPrefix
        by_cases front : word.toList <+: w
        · rw [if_pos front,if_pos ((prefix_stop absent).mpr front),List.drop_append_of_le_length front.length_le]
          rfl
        · rw [if_neg front,if_neg fun h => front ((prefix_stop absent).mp h)]
          rfl
    rw [readWord,found,readWord,Option.map_map,Option.map_map]
    rfl
  suffix w a u h := by
    obtain ⟨-,rfl⟩ := readWord_some h
    exact List.suffix_append _ _

/-- A value that is one word. -/
def readBare : List Char → Option (Value × List Char)
  | 'n' :: t => readWord "ull" .null t
  | 't' :: t => readWord "rue" (.bool true) t
  | 'f' :: t => readWord "alse" (.bool false) t
  | t => (readNumber t).map fun r => (.num r.1,r.2)

theorem readScalar_bare (noQuote : '"' ∉ t.head?) : readScalar t = readBare t := by
  unfold readScalar
  split
  · exact absurd rfl noQuote
  · rfl
  · rfl
  · rfl
  · rename_i noNull noYes noNo
    rw [readBare]
    · exact noNull
    · exact noYes
    · exact noNo

theorem readsWords_bare : ReadsWords readBare := by
  apply (readsWords_number.map Value.num).front
  · intro t ends
    unfold readBare
    split
    · exact absurd (ends_cons ends) (by decide)
    · exact absurd (ends_cons ends) (by decide)
    · exact absurd (ends_cons ends) (by decide)
    · rfl
  · intro c
    by_cases null : c = 'n'
    · subst null
      exact .inr ⟨_,readsWords_word (by simp [isWordChar] : ∀ c ∈ "ull".toList, _) _,fun _ => rfl⟩
    by_cases yes : c = 't'
    · subst yes
      exact .inr ⟨_,readsWords_word (by simp [isWordChar] : ∀ c ∈ "rue".toList, _) _,fun _ => rfl⟩
    by_cases no : c = 'f'
    · subst no
      exact .inr ⟨_,readsWords_word (by simp [isWordChar] : ∀ c ∈ "alse".toList, _) _,fun _ => rfl⟩
    refine .inl fun t => ?_
    rw [readBare]
    · exact fun _ same => absurd (List.cons.inj same).1 null
    · exact fun _ same => absurd (List.cons.inj same).1 yes
    · exact fun _ same => absurd (List.cons.inj same).1 no

/-- The word and nothing else is read as this value. -/
def Spells (w : List Char) (v : Value) : Prop := readBare w = some (v,[])

theorem Spells.scalar (spells : Spells w v) : v = .null ∨ (∃ b, v = .bool b) ∨ ∃ n, v = .num n := by
  unfold Spells readBare at spells
  split at spells
  · exact .inl (readWord_some spells).1
  · exact .inr (.inl ⟨true,(readWord_some spells).1⟩)
  · exact .inr (.inl ⟨false,(readWord_some spells).1⟩)
  · obtain ⟨n,-,same⟩ := Option.map_eq_some_iff.mp spells
    exact .inr (.inr ⟨n.1,(Prod.mk.inj same).1.symm⟩)

theorem Token.Valid.noQuote (valid : Token.Valid (.word w)) (t : List Char) : '"' ∉ (w ++ t).head? := by
  obtain ⟨nonempty,word⟩ := valid
  cases w with
  | nil => contradiction
  | cons c w =>
    intro quote
    exact wordChar_quote (word c List.mem_cons_self) (Option.some.inj quote)

/-- A word that ends is read whatever follows it. -/
theorem readScalar_word (valid : Token.Valid (.word w)) (spells : Spells w v) (ends : Ends t) :
    readScalar (w ++ t) = some (v,t) := by
  rw [readScalar_bare (valid.noQuote t),readsWords_bare.stop w t valid.2 ends,spells]
  rfl

/-- A scalar that is no string is one word, if it ends where the reader stops. -/
theorem word_of_readScalar (h : readScalar t = some (v,r)) (noQuote : '"' ∉ t.head?) (ends : Ends r) :
    ∃ w, t = w ++ r ∧ Token.Valid (.word w) ∧ Spells w v := by
  have word : ∀ c ∈ t.takeWhile isWordChar, isWordChar c = true := fun c member => List.mem_takeWhile_imp member
  have split : t = t.takeWhile isWordChar ++ t.dropWhile isWordChar := List.takeWhile_append_dropWhile.symm
  have stops : Ends (t.dropWhile isWordChar) := by
    intro c first
    have stop := List.head?_dropWhile_not isWordChar t
    rw [Option.mem_def.mp first] at stop
    simpa using stop
  have read := readsWords_bare.stop _ _ word stops
  rw [← split,← readScalar_bare noQuote,h] at read
  obtain ⟨⟨v',u⟩,found,same⟩ := Option.map_eq_some_iff.mp read.symm
  obtain ⟨rfl,rfl⟩ := Prod.mk.inj same
  -- what is left of the word would go on behind it
  cases u with
  | nil =>
    refine ⟨t.takeWhile isWordChar,split,⟨fun empty => ?_,word⟩,found⟩
    rw [empty] at found
    contradiction
  | cons c u =>
    have inside := (readsWords_bare.suffix _ _ _ found).subset List.mem_cons_self
    have here := word c inside
    rw [ends_cons ends] at here
    contradiction

/-! ### The grammar -/

inductive Phrase where
  | value (v : Value)
  | items (vs : List Value)
  | members (ms : List (Parts × Value))

/-- The tokens spell the phrase; items and members without their brackets. -/
inductive Derives : Phrase → List Token → Prop
  | word (spells : Spells w v) : Derives (.value v) [.word w]
  | str : Derives (.value (.str s)) [.str s]
  | noItems : Derives (.value (.arr [])) [.mark '[',.mark ']']
  | items (inside : Derives (.items vs) toks) : Derives (.value (.arr vs)) (.mark '[' :: toks ++ [.mark ']'])
  | noMembers : Derives (.value (.obj [])) [.mark '{',.mark '}']
  | members (inside : Derives (.members ms) toks) : Derives (.value (.obj ms)) (.mark '{' :: toks ++ [.mark '}'])
  | lastItem (value : Derives (.value v) toks) : Derives (.items [v]) toks
  | item (value : Derives (.value v) toks) (more : Derives (.items vs) toks') :
    Derives (.items (v :: vs)) (toks ++ .mark ',' :: toks')
  | lastMember (value : Derives (.value v) toks) : Derives (.members [(s,v)]) (.str s :: .mark ':' :: toks)
  | member (value : Derives (.value v) toks) (more : Derives (.members ms) toks') :
    Derives (.members ((s,v) :: ms)) (.str s :: .mark ':' :: toks ++ .mark ',' :: toks')

theorem nextToken_mark (front : skip t = c :: u) (mark : isMark c = true) : nextToken t = some (.mark c,u) := by
  obtain ⟨-,-,noQuote⟩ := mark_char mark
  rw [nextToken,front]
  split
  · contradiction
  · rename_i same
    exact absurd (List.cons.inj same).1 noQuote
  · rename_i same
    obtain ⟨rfl,rfl⟩ := List.cons.inj same
    exact if_pos mark

theorem ends_of_next (found : nextToken t = some (.mark c,u)) : Ends t := by
  obtain ⟨g,rfl,blank,valid,-⟩ := nextToken_eq_some.mp found
  intro d first
  cases g with
  | nil =>
    obtain rfl := Option.some.inj first
    exact (mark_char valid).2.1
  | cons a g =>
    obtain rfl := Option.some.inj first
    exact (white_char (blank a List.mem_cons_self)).2.1

theorem Lays.single (found : nextToken t = some (tok,u)) : Lays [tok] t u := .of_next found .done

/-- Blanks in front of a scalar, and its one token. -/
theorem lays_scalar (scalar : readScalar (skip t) = some (v,r)) (ends : Ends r) :
    ∃ tok, Lays [tok] t r ∧ Derives (.value v) [tok] := by
  obtain ⟨g,blank,split⟩ := before_skip t
  by_cases quote : '"' ∈ (skip t).head?
  · obtain ⟨u,front⟩ := List.head?_eq_some_iff.mp quote
    rw [front] at scalar
    obtain ⟨⟨s,r'⟩,read,same⟩ := Option.map_eq_some_iff.mp (show (readString u).map _ = some (v,r) from scalar)
    obtain ⟨rfl,rfl⟩ := Prod.mk.inj same
    obtain ⟨rfl,valid⟩ := readString_some read
    refine ⟨.str s,Lays.single (nextToken_eq_some.mpr ⟨_,?_,blank,valid,trivial⟩),.str⟩
    rw [split,front]
    simp [Token.text]
  · obtain ⟨w,front,valid,spells⟩ := word_of_readScalar scalar quote ends
    refine ⟨.word w,Lays.single (nextToken_eq_some.mpr ⟨_,?_,blank,valid,ends⟩),.word spells⟩
    rw [Token.text,List.append_assoc,← front]
    exact split

theorem lays_name (h : readName t = some (name,behind)) : Lays [.str name,.mark ':'] t behind := by
  obtain ⟨gap,blank,front,valid⟩ := readName_some h
  obtain ⟨g,before,split⟩ := before_skip t
  have colon : nextToken (gap ++ ':' :: behind) = some (.mark ':',behind) :=
    nextToken_eq_some.mpr ⟨gap,by simp [Token.text],blank,rfl,trivial⟩
  refine .of_next (nextToken_eq_some.mpr ⟨_,?_,before,valid,trivial⟩) (.single colon)
  rw [split,front]
  simp [Token.text]

theorem ends_blank (blank : Blank r) : Ends r := fun c first =>
  (white_char (blank c (List.mem_of_mem_head? first))).2.1

/-- What the reader reads is spelled by tokens of the grammar. -/
theorem derives_of_read (fuel : Nat) :
    (∀ t v r, readValue fuel t = some (v,r) → Ends r → ∃ toks, Lays toks t r ∧ Derives (.value v) toks) ∧
    (∀ t vs r, readItems fuel t = some (vs,r) → ∃ toks, Lays (toks ++ [.mark ']']) t r ∧ Derives (.items vs) toks) ∧
    ∀ t ms r, readMembers fuel t = some (ms,r) →
      ∃ toks, Lays (toks ++ [.mark '}']) t r ∧ Derives (.members (ms.map Member.entry)) toks := by
  induction fuel with
  | zero => exact ⟨nofun,nofun,nofun⟩
  | succ fuel ih =>
    obtain ⟨values,items,members⟩ := ih
    refine ⟨fun t v r h ends => ?_,fun t vs r h => ?_,fun t ms r h => ?_⟩
    · rw [readValue] at h
      split at h
      · rename_i rest front
        have opens := Lays.single (nextToken_mark front rfl)
        split at h
        · rename_i close
          obtain ⟨rfl,rfl⟩ := Prod.mk.inj (Option.some.inj h)
          exact ⟨_,opens.append (.single (nextToken_mark close rfl)),.noItems⟩
        · obtain ⟨⟨vs,r'⟩,read,same⟩ := Option.map_eq_some_iff.mp h
          obtain ⟨rfl,rfl⟩ := Prod.mk.inj same
          obtain ⟨toks,lays,derives⟩ := items _ _ _ read
          exact ⟨_,opens.append lays,.items derives⟩
      · rename_i rest front
        have opens := Lays.single (nextToken_mark front rfl)
        split at h
        · rename_i close
          obtain ⟨rfl,rfl⟩ := Prod.mk.inj (Option.some.inj h)
          exact ⟨_,opens.append (.single (nextToken_mark close rfl)),.noMembers⟩
        · obtain ⟨⟨ms,r'⟩,read,same⟩ := Option.map_eq_some_iff.mp h
          obtain ⟨rfl,rfl⟩ := Prod.mk.inj same
          obtain ⟨toks,lays,derives⟩ := members _ _ _ read
          exact ⟨_,opens.append lays,.members derives⟩
      · obtain ⟨tok,lays,derives⟩ := lays_scalar h ends
        exact ⟨[tok],lays,derives⟩
    · obtain ⟨v,rest,read,closed⟩ := readItems_some h
      rcases closeOrMore_some closed with ⟨close,rfl⟩ | ⟨more,others,comma,later,rfl⟩
      · have next := nextToken_mark close rfl
        obtain ⟨toks,lays,derives⟩ := values _ _ _ read (ends_of_next next)
        exact ⟨toks,lays.append (.single next),.lastItem derives⟩
      · have next := nextToken_mark comma rfl
        obtain ⟨toks,lays,derives⟩ := values _ _ _ read (ends_of_next next)
        obtain ⟨toks',lays',derives'⟩ := items _ _ _ later
        refine ⟨_,?_,.item derives derives'⟩
        rw [List.append_assoc]
        exact lays.append (.of_next next lays')
    · obtain ⟨name,behind,v,rest,first,read,closed⟩ := readMembers_some h
      have named := lays_name first
      rcases closeOrMore_some closed with ⟨close,rfl⟩ | ⟨more,others,comma,later,rfl⟩
      · have next := nextToken_mark close rfl
        obtain ⟨toks,lays,derives⟩ := values _ _ _ read (ends_of_next next)
        exact ⟨.str name :: .mark ':' :: toks,named.append (lays.append (.single next)),.lastMember derives⟩
      · have next := nextToken_mark comma rfl
        obtain ⟨toks,lays,derives⟩ := values _ _ _ read (ends_of_next next)
        obtain ⟨toks',lays',derives'⟩ := members _ _ _ later
        refine ⟨_,?_,.member derives derives'⟩
        have all := named.append (lays.append (.of_next next lays'))
        simpa only [List.append_assoc,List.cons_append,List.nil_append] using all

/-- A document is the tokens of its value between blanks. -/
theorem derives_of_parse (h : parse t = some v) : ∃ toks, tokens t = some toks ∧ Derives (.value v) toks := by
  obtain ⟨⟨v',r⟩,read,done⟩ := Option.bind_eq_some_iff.mp h
  obtain ⟨rfl,blank⟩ := finish_some.mp done
  have blanks := skip_eq_nil.mp blank
  obtain ⟨toks,lays,derives⟩ := (derives_of_read _).1 _ _ _ read (ends_blank blanks)
  exact ⟨toks,tokens_eq_some.mpr ⟨r,lays,blanks⟩,derives⟩

/-! ### Reading what is derived -/

theorem skip_of_next (found : nextToken t = some (tok,u)) : skip t = tok.text ++ u := by
  obtain ⟨g,rfl,blank,valid,-⟩ := nextToken_eq_some.mp found
  exact skip_token blank valid u

/-- A phrase does not start with a closing bracket. -/
theorem Derives.first (derives : Derives phrase toks) :
    ∃ tok rest, toks = tok :: rest ∧ tok ≠ .mark ']' ∧ tok ≠ .mark '}' := by
  induction derives with
  | word spells => exact ⟨_,_,rfl,nofun,nofun⟩
  | str => exact ⟨_,_,rfl,nofun,nofun⟩
  | noItems => exact ⟨_,_,rfl,by decide,by decide⟩
  | items inside ih => exact ⟨_,_,rfl,by decide,by decide⟩
  | noMembers => exact ⟨_,_,rfl,by decide,by decide⟩
  | members inside ih => exact ⟨_,_,rfl,by decide,by decide⟩
  | lastItem value ih => exact ih
  | item value more ih ih' =>
    obtain ⟨tok,rest,rfl,noBracket,noBrace⟩ := ih
    exact ⟨tok,_,rfl,noBracket,noBrace⟩
  | lastMember value ih => exact ⟨_,_,rfl,nofun,nofun⟩
  | member value more ih ih' => exact ⟨_,_,rfl,nofun,nofun⟩

theorem readValue_scalar (noBracket : ∀ u, skip t ≠ '[' :: u) (noBrace : ∀ u, skip t ≠ '{' :: u) :
    readValue (fuel + 1) t = readScalar (skip t) := by
  rw [readValue]
  split
  · rename_i u front
    exact absurd front (noBracket u)
  · rename_i u front
    exact absurd front (noBrace u)
  · rfl

theorem readValue_noItems (opens : skip t = '[' :: u) (closes : skip u = ']' :: r) :
    readValue (fuel + 1) t = some (.arr [],r) := by
  rw [readValue]
  simp only [opens,closes]

theorem readValue_items (opens : skip t = '[' :: u) (more : ∀ r, skip u ≠ ']' :: r) :
    readValue (fuel + 1) t = (readItems fuel u).map fun r => (.arr r.1,r.2) := by
  rw [readValue]
  simp only [opens]

theorem readValue_noMembers (opens : skip t = '{' :: u) (closes : skip u = '}' :: r) :
    readValue (fuel + 1) t = some (.obj [],r) := by
  rw [readValue]
  simp only [opens,closes]

theorem readValue_members (opens : skip t = '{' :: u) (more : ∀ r, skip u ≠ '}' :: r) :
    readValue (fuel + 1) t = (readMembers fuel u).map fun r => (.obj (r.1.map Member.entry),r.2) := by
  rw [readValue]
  simp only [opens]

theorem skip_of_mark (found : nextToken t = some (.mark c,u)) : skip t = c :: u := skip_of_next found

theorem readName_of_lays (name : nextToken t = some (.str s,u)) (colon : nextToken u = some (.mark ':',behind)) :
    readName t = some (s,behind) := by
  have front : skip t = '"' :: (spelled s ++ '"' :: u) := (skip_of_next name).trans (by simp [Token.text])
  obtain ⟨-,-,-,valid,-⟩ := nextToken_eq_some.mp name
  rw [readName,front]
  simp only [readString_spelled valid,Option.bind_eq_bind,Option.bind_some,skip_of_next colon,Token.text,
    List.singleton_append]

theorem closeOrMore_close (front : skip t = close :: r) (item : α) (more : List Char → Option (List α × List Char)) :
    closeOrMore close item more t = some ([item],r) := by
  rw [closeOrMore,front]
  exact if_pos rfl

theorem closeOrMore_more (front : skip t = ',' :: u) (other : ',' ≠ close) (item : α)
    (more : List Char → Option (List α × List Char)) : closeOrMore close item more t = (more u).map (put item) := by
  rw [closeOrMore,front]
  exact (if_neg other).trans (if_pos rfl)

/-- The reader reads the phrase from its tokens, the closing bracket of items and members
included. -/
def Reads : Phrase → List Token → Prop
  | .value v, toks => ∀ t r fuel, Lays toks t r → Ends r → enough t + 1 ≤ fuel → readValue fuel t = some (v,r)
  | .items vs, toks => ∀ t r fuel, Lays (toks ++ [.mark ']']) t r → enough t + 2 ≤ fuel → readItems fuel t = some (vs,r)
  | .members ms, toks => ∀ t r fuel, Lays (toks ++ [.mark '}']) t r → enough t + 2 ≤ fuel →
    ∃ found, readMembers fuel t = some (found,r) ∧ found.map Member.entry = ms

theorem reads_of_derives (derives : Derives phrase toks) : Reads phrase toks := by
  have shorter {t u : List Char} {c : Char} (found : nextToken t = some (.mark c,u)) : enough u + 2 ≤ enough t := by
    have less := nextToken_length found
    unfold enough
    omega
  have later {t u : List Char} {toks : List Token} (lays : Lays toks t u) : enough u ≤ enough t := by
    have le := lays.suffix.length_le
    unfold enough
    omega
  induction derives with
  | @word w v spells =>
    intro t r fuel lays ends room
    obtain ⟨fuel,rfl⟩ : ∃ n, fuel = n + 1 := ⟨fuel - 1,by omega⟩
    obtain ⟨u,found,rest⟩ := lays.next
    cases rest with
    | done =>
      obtain ⟨-,-,-,valid,-⟩ := nextToken_eq_some.mp found
      have front : skip t = w ++ r := skip_of_next found
      have other (c : Char) (noWord : isWordChar c = false) (u : List Char) : skip t ≠ c :: u := by
        rw [front]
        intro same
        cases w with
        | nil => exact valid.1 rfl
        | cons d w =>
          have here := valid.2 d List.mem_cons_self
          rw [(List.cons.inj same).1,noWord] at here
          contradiction
      rw [readValue_scalar (other '[' rfl) (other '{' rfl),front]
      exact readScalar_word valid spells ends
  | @str s =>
    intro t r fuel lays ends room
    obtain ⟨fuel,rfl⟩ : ∃ n, fuel = n + 1 := ⟨fuel - 1,by omega⟩
    obtain ⟨u,found,rest⟩ := lays.next
    cases rest with
    | done =>
      obtain ⟨-,-,-,valid,-⟩ := nextToken_eq_some.mp found
      have front : skip t = '"' :: (spelled s ++ '"' :: r) := (skip_of_next found).trans (by simp [Token.text])
      have other (c : Char) (noQuote : c ≠ '"') (u : List Char) : skip t ≠ c :: u := by
        rw [front]
        exact fun same => noQuote (List.cons.inj same).1.symm
      rw [readValue_scalar (other '[' (by decide)) (other '{' (by decide)),front]
      exact congrArg (Option.map _) (readString_spelled valid r)
  | noItems =>
    intro t r fuel lays ends room
    obtain ⟨fuel,rfl⟩ : ∃ n, fuel = n + 1 := ⟨fuel - 1,by omega⟩
    obtain ⟨u,opens,rest⟩ := lays.next
    obtain ⟨u',closes,rest⟩ := rest.next
    cases rest with
    | done =>
      exact readValue_noItems (skip_of_mark opens) (skip_of_mark closes)
  | noMembers =>
    intro t r fuel lays ends room
    obtain ⟨fuel,rfl⟩ : ∃ n, fuel = n + 1 := ⟨fuel - 1,by omega⟩
    obtain ⟨u,opens,rest⟩ := lays.next
    obtain ⟨u',closes,rest⟩ := rest.next
    cases rest with
    | done =>
      exact readValue_noMembers (skip_of_mark opens) (skip_of_mark closes)
  | @items vs toks inside ih =>
    intro t r fuel lays ends room
    obtain ⟨fuel,rfl⟩ : ∃ n, fuel = n + 1 := ⟨fuel - 1,by omega⟩
    obtain ⟨u,opens,rest⟩ := lays.next
    have read := ih u r fuel rest (by have := shorter opens; omega)
    obtain ⟨tok,more,rfl,noBracket,-⟩ := inside.first
    obtain ⟨u',first,-⟩ := rest.next
    have more (r : List Char) : skip u ≠ ']' :: r := fun close =>
      absurd (Prod.mk.inj (Option.some.inj (first.symm.trans (nextToken_mark close rfl)))).1 noBracket
    rw [readValue_items (skip_of_mark opens) more,read]
    rfl
  | @members ms toks inside ih =>
    intro t r fuel lays ends room
    obtain ⟨fuel,rfl⟩ : ∃ n, fuel = n + 1 := ⟨fuel - 1,by omega⟩
    obtain ⟨u,opens,rest⟩ := lays.next
    obtain ⟨found,read,same⟩ := ih u r fuel rest (by have := shorter opens; omega)
    obtain ⟨tok,more,rfl,-,noBrace⟩ := inside.first
    obtain ⟨u',first,-⟩ := rest.next
    have more (r : List Char) : skip u ≠ '}' :: r := fun close =>
      absurd (Prod.mk.inj (Option.some.inj (first.symm.trans (nextToken_mark close rfl)))).1 noBrace
    rw [readValue_members (skip_of_mark opens) more,read,← same]
    rfl
  | lastItem value ih =>
    intro t r fuel lays room
    obtain ⟨fuel,rfl⟩ : ∃ n, fuel = n + 1 := ⟨fuel - 1,by omega⟩
    obtain ⟨u,first,rest⟩ := lays.split
    obtain ⟨u',closes,rest⟩ := rest.next
    cases rest with
    | done =>
      have read := ih t u fuel first (ends_of_next closes) (by omega)
      rw [readItems,read,Option.bind_some]
      exact closeOrMore_close (skip_of_mark closes) _ _
  | item value more ih ih' =>
    intro t r fuel lays room
    obtain ⟨fuel,rfl⟩ : ∃ n, fuel = n + 1 := ⟨fuel - 1,by omega⟩
    rw [List.append_assoc] at lays
    obtain ⟨u,first,rest⟩ := lays.split
    obtain ⟨u',comma,rest⟩ := rest.next
    have read := ih t u fuel first (ends_of_next comma) (by omega)
    have others := ih' u' r fuel rest (by have := shorter comma; have := later first; omega)
    rw [readItems,read,Option.bind_some,closeOrMore_more (skip_of_mark comma) (by decide),others]
    rfl
  | @lastMember v toks s value ih =>
    intro t r fuel lays room
    obtain ⟨fuel,rfl⟩ : ∃ n, fuel = n + 1 := ⟨fuel - 1,by omega⟩
    obtain ⟨u,name,rest⟩ := lays.next
    obtain ⟨behind,colon,rest⟩ := rest.next
    obtain ⟨w,first,rest⟩ := rest.split
    obtain ⟨w',closes,rest⟩ := rest.next
    cases rest with
    | done =>
      have read := ih behind w fuel first (ends_of_next closes) (by
        have := shorter colon
        have := nextToken_length name
        unfold enough at *
        omega)
      refine ⟨[⟨s,behind,v⟩],?_,rfl⟩
      rw [readMembers,readName_of_lays name colon,Option.bind_some,read,Option.bind_some]
      exact closeOrMore_close (skip_of_mark closes) _ _
  | @member v toks ms toks' s value more ih ih' =>
    intro t r fuel lays room
    obtain ⟨fuel,rfl⟩ : ∃ n, fuel = n + 1 := ⟨fuel - 1,by omega⟩
    obtain ⟨u,name,rest⟩ := lays.next
    obtain ⟨behind,colon,rest⟩ := rest.next
    simp only [List.append_eq,List.append_assoc] at rest
    obtain ⟨w,first,rest⟩ := rest.split
    obtain ⟨w',comma,rest⟩ := rest.next
    have room' : enough behind + 2 ≤ enough t := by
      have := shorter colon
      have := nextToken_length name
      unfold enough at *
      omega
    have read := ih behind w fuel first (ends_of_next comma) (by omega)
    obtain ⟨found,others,same⟩ := ih' w' r fuel rest (by have := shorter comma; have := later first; omega)
    refine ⟨⟨s,behind,v⟩ :: found,?_,by rw [List.map_cons,same]; rfl⟩
    rw [readMembers,readName_of_lays name colon,Option.bind_some,read,Option.bind_some,
      closeOrMore_more (skip_of_mark comma) (by decide),others]
    rfl

/-- Tokens of the grammar are parsed. -/
theorem parse_of_derives (lexed : tokens t = some toks) (derives : Derives (.value v) toks) : parse t = some v := by
  obtain ⟨r,lays,blank⟩ := tokens_eq_some.mp lexed
  have read := reads_of_derives derives t r (enough t + 1) lays (ends_blank blank) le_rfl
  rw [parse,read]
  exact finish_some.mpr ⟨rfl,skip_eq_nil.mpr blank⟩

/-! ### What stands side by side -/

def Token.separates : Token → Bool
  | .mark _ => true
  | _ => false

/-- Strings and words have marks between them. -/
def Separated (toks : List Token) : Prop := toks.IsChain fun a b => a.separates = true ∨ b.separates = true

theorem Separated.mark (first : Separated toks) (second : Separated toks') (c : Char) :
    Separated (toks ++ .mark c :: toks') := by
  refine List.isChain_append.mpr ⟨first,List.isChain_cons.mpr ⟨fun _ _ => .inl rfl,second⟩,fun _ _ b next => .inr ?_⟩
  obtain rfl := Option.some.inj next
  rfl

/-- A string or a word is followed by blanks, a mark or nothing. -/
theorem Separated.front (separated : Separated (tok :: toks)) (lone : tok.separates = false) (lays : Lays toks t r)
    (blank : Blank r) : ∀ c ∈ t.head?, isWhite c = true ∨ isMark c = true := by
  intro c head
  cases lays with
  | done => exact .inl (blank c (List.mem_of_mem_head? head))
  | @token g toks t _ next before valid ends rest =>
    cases g with
    | cons d g =>
      obtain rfl := Option.some.inj head
      exact .inl (before d List.mem_cons_self)
    | nil =>
      have joint := (List.isChain_cons_cons.mp separated).1
      rw [lone] at joint
      cases next with
      | mark d =>
        obtain rfl := Option.some.inj head
        exact .inr valid
      | str s => simp [Token.separates] at joint
      | word w => simp [Token.separates] at joint

theorem Separated.ends (separated : Separated (tok :: toks)) (lays : Lays toks t r) (blank : Blank r) : tok.EndsAt t := by
  cases tok with
  | mark c => trivial
  | str s => trivial
  | word w =>
    intro c head
    rcases separated.front rfl lays blank c head with white | mark
    · exact (white_char white).2.1
    · exact (mark_char mark).2.1

theorem Derives.separated (derives : Derives phrase toks) : Separated toks := by
  have nothing : Separated [] := .nil
  induction derives with
  | word spells => exact .singleton _
  | str => exact .singleton _
  | noItems => exact nothing.mark (nothing.mark nothing ']') '['
  | items inside ih => exact nothing.mark (ih.mark nothing ']') '['
  | noMembers => exact nothing.mark (nothing.mark nothing '}') '{'
  | members inside ih => exact nothing.mark (ih.mark nothing '}') '{'
  | lastItem value ih => exact ih
  | item value more ih ih' => exact ih.mark ih' ','
  | @lastMember v toks s value ih => exact Separated.mark (.singleton (.str s)) ih ':'
  | @member v toks ms toks' s value more ih ih' =>
    exact Separated.mark (.singleton (.str s)) (ih.mark ih' ',') ':'

/-! ### Members at any depth -/

mutual

/-- The members of all objects in a value, in the order of the text. -/
def membersOf : Value → List (Parts × Value)
  | .arr vs => membersOfItems vs
  | .obj ms => membersOfMembers ms
  | _ => []

def membersOfItems : List Value → List (Parts × Value)
  | [] => []
  | v :: vs => membersOf v ++ membersOfItems vs

def membersOfMembers : List (Parts × Value) → List (Parts × Value)
  | [] => []
  | (s,v) :: ms => (s,v) :: (membersOf v ++ membersOfMembers ms)

end

def Phrase.inside : Phrase → List (Parts × Value)
  | .value v => membersOf v
  | .items vs => membersOfItems vs
  | .members ms => membersOfMembers ms

/-- The member's name, and its value behind the colon. -/
structure Stands (name : Parts × List Char) (m : Parts × Value) : Prop where
  same : name.1 = m.1
  valid : ∀ p ∈ m.1, p.Valid
  value : ∃ toks u, Lays toks name.2 u ∧ Derives (.value m.2) toks

theorem membersOf_bare (spells : Spells w v) : membersOf v = [] := by
  rcases spells.scalar with rfl | ⟨b,rfl⟩ | ⟨n,rfl⟩ <;> simp only [membersOf]

/-- No colon follows, so the string in front is no name. -/
def NoColon (t : List Char) : Prop := ∀ u, nextToken t ≠ some (.mark ':',u)

theorem names_mark (found : nextToken t = some (.mark c,u)) : names t = names u := by
  refine names_other ?_ found
  rw [nameAt,found]

theorem names_word (found : nextToken t = some (.word w,u)) : names t = names u := by
  refine names_other ?_ found
  rw [nameAt,found]

theorem names_str (found : nextToken t = some (.str s,u)) (noColon : NoColon u) : names t = names u := by
  refine names_other ?_ found
  cases named : nameAt t with
  | none => rfl
  | some name =>
    obtain ⟨u',found',colon⟩ := nameAt_eq_some.mp named
    obtain rfl := (Prod.mk.inj (Option.some.inj (found.symm.trans found'))).2
    exact absurd colon (noColon _)

theorem noColon_mark (found : nextToken t = some (.mark c,u)) (other : c ≠ ':') : NoColon t := by
  intro u' colon
  have same := (Prod.mk.inj (Option.some.inj (found.symm.trans colon))).1
  exact other (Token.mark.inj same)

theorem valid_of_next (found : nextToken t = some (.str s,u)) : ∀ p ∈ s, p.Valid := by
  obtain ⟨-,-,-,valid,-⟩ := nextToken_eq_some.mp found
  exact valid

/-- The names in the text of a value are those of the members inside. -/
theorem names_of_derives (derives : Derives phrase toks) (lays : Lays toks t r) (noColon : NoColon r) :
    ∃ found, names t = found ++ names r ∧ List.Forall₂ Stands found phrase.inside := by
  induction derives generalizing t r with
  | @word w v spells =>
    obtain ⟨u,found,rest⟩ := lays.next
    cases rest with
    | done => exact ⟨[],names_word found,by rw [Phrase.inside,membersOf_bare spells]; exact .nil⟩
  | str =>
    obtain ⟨u,found,rest⟩ := lays.next
    cases rest with
    | done => exact ⟨[],names_str found noColon,.nil⟩
  | noItems =>
    obtain ⟨u,first,rest⟩ := lays.next
    obtain ⟨u',second,rest⟩ := rest.next
    cases rest with
    | done => exact ⟨[],(names_mark first).trans (names_mark second),.nil⟩
  | noMembers =>
    obtain ⟨u,first,rest⟩ := lays.next
    obtain ⟨u',second,rest⟩ := rest.next
    cases rest with
    | done => exact ⟨[],(names_mark first).trans (names_mark second),.nil⟩
  | items inside ih =>
    obtain ⟨u,opens,rest⟩ := lays.next
    obtain ⟨v,inner,rest⟩ := rest.split
    obtain ⟨w,close,rest⟩ := rest.next
    cases rest with
    | done =>
      obtain ⟨found,same,stands⟩ := ih inner (noColon_mark close (by decide))
      exact ⟨found,by rw [names_mark opens,same,names_mark close],stands⟩
  | members inside ih =>
    obtain ⟨u,opens,rest⟩ := lays.next
    obtain ⟨v,inner,rest⟩ := rest.split
    obtain ⟨w,close,rest⟩ := rest.next
    cases rest with
    | done =>
      obtain ⟨found,same,stands⟩ := ih inner (noColon_mark close (by decide))
      exact ⟨found,by rw [names_mark opens,same,names_mark close],stands⟩
  | @lastItem v toks value ih =>
    obtain ⟨found,same,stands⟩ := ih lays noColon
    exact ⟨found,same,by rw [Phrase.inside,membersOfItems,membersOfItems,List.append_nil]; exact stands⟩
  | item value more ih ih' =>
    obtain ⟨u,first,rest⟩ := lays.split
    obtain ⟨v,comma,rest⟩ := rest.next
    obtain ⟨found,same,stands⟩ := ih first (noColon_mark comma (by decide))
    obtain ⟨others,same',stands'⟩ := ih' rest noColon
    refine ⟨found ++ others,by rw [same,names_mark comma,same',List.append_assoc],?_⟩
    exact List.rel_append stands stands'
  | @lastMember v toks s value ih =>
    obtain ⟨u,first,rest⟩ := lays.next
    obtain ⟨behind,colon,rest⟩ := rest.next
    obtain ⟨found,same,stands⟩ := ih rest noColon
    refine ⟨(s,behind) :: found,?_,?_⟩
    · rw [names_name (nameAt_eq_some.mpr ⟨u,first,colon⟩),same]
      rfl
    · rw [Phrase.inside,membersOfMembers,membersOfMembers,List.append_nil]
      exact .cons ⟨rfl,valid_of_next first,toks,r,rest,value⟩ stands
  | @member v toks ms toks' s value more ih ih' =>
    obtain ⟨u,first,rest⟩ := lays.next
    obtain ⟨behind,colon,rest⟩ := rest.next
    obtain ⟨u',front,rest⟩ := rest.split
    obtain ⟨v,comma,rest⟩ := rest.next
    obtain ⟨found,same,stands⟩ := ih front (noColon_mark comma (by decide))
    obtain ⟨others,same',stands'⟩ := ih' rest noColon
    refine ⟨(s,behind) :: (found ++ others),?_,?_⟩
    · rw [names_name (nameAt_eq_some.mpr ⟨u,first,colon⟩),same,names_mark comma,same']
      simp
    · rw [Phrase.inside,membersOfMembers]
      exact .cons ⟨rfl,valid_of_next first,toks,u',front,value⟩ (List.rel_append stands stands')

/-- The names of a document are those of its members at any depth. -/
theorem names_of_parse (h : parse t = some v) : List.Forall₂ Stands (names t) (membersOf v) := by
  obtain ⟨toks,lexed,derives⟩ := derives_of_parse h
  obtain ⟨r,lays,blank⟩ := tokens_eq_some.mp lexed
  have nothing := nextToken_blank blank
  obtain ⟨found,same,stands⟩ := names_of_derives derives lays fun u colon => by
    rw [nothing] at colon
    contradiction
  rw [names_nothing nothing,List.append_nil] at same
  rw [same]
  exact stands

end Library.Json
