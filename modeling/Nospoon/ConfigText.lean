import Nospoon.Commands

/-! The texts the commands write, as the config reader sees them: strings without quotes
or backslashes, with gaps between them in which no key can hide. -/
namespace Nospoon

open Library

/-! ### Searching past strings and gaps -/

/-- A field name: quoted it stands for a key, and it starts with a letter. -/
structure IsKey (key : Text) : Prop where
  bare : '"' ∉ key
  letter : ∃ c ∈ key.head?, c.isAlpha = true

instance IsKey.decidable (key : Text) : Decidable (IsKey key) :=
  decidable_of_iff ('"' ∉ key ∧ key.head?.any Char.isAlpha = true)
    ⟨fun h => ⟨h.1,(Option.any_eq_true _ _).mp h.2⟩,fun h => ⟨h.bare,(Option.any_eq_true _ _).mpr h.letter⟩⟩

/-- The fields that `load_config` reads. -/
def fieldNames : List Text :=
  ["mode".toList,"ip".toList,"ipv6".toList,"seed".toList,"seedFile".toList,"server".toList,"mtu".toList,
    "peers".toList,"fullTunnel".toList,"outInterface".toList]

theorem isKey : key ∈ fieldNames → IsKey key := (by decide +kernel : ∀ key ∈ fieldNames, IsKey key) key

/-- The fields read as strings. -/
def stringFields : List Text :=
  ["mode".toList,"ip".toList,"ipv6".toList,"seed".toList,"seedFile".toList,"server".toList,"outInterface".toList]

theorem mem_fieldNames : key ∈ stringFields → key ∈ fieldNames :=
  (by decide +kernel : ∀ key ∈ stringFields, key ∈ fieldNames) key

/-- Text that no field name can continue. -/
def Opens (t : Text) : Prop := ∀ c ∈ t.head?, c.isAlpha = false

theorem key_not_begins (field : IsKey key) (opens : Opens t) : ¬(key ++ ['"']) <+: t := by
  rintro ⟨rest,rfl⟩
  obtain ⟨c,first,letter⟩ := field.letter
  cases key with
  | nil => cases first
  | cons k key =>
    obtain rfl := Option.some.inj first
    exact absurd (opens k rfl) (by simp [letter])

/-- What stands in front of the first quote of `a ++ '"' :: b` is `a`. -/
theorem eq_of_quote (first : '"' ∉ a) (second : '"' ∉ b) (same : a ++ '"' :: s <+: b ++ '"' :: t) :
    a = b := by
  obtain ⟨rest,same⟩ := same
  have left := splitFirst_append (q := s ++ rest) first
  have right := splitFirst_append (q := t) second
  rw [← same,List.append_assoc,List.cons_append,left] at right
  exact (Prod.mk.inj (Option.some.inj right)).1

theorem keyAt_eq_none (h : ¬quoted key <+: t) : keyAt key t = none := by
  simp [keyAt,afterPrefix_eq_none.mpr h]

theorem findKey_gap (bare : '"' ∉ g) : findKey key (g ++ t) = findKey key t := by
  induction g with
  | nil => rfl
  | cons c g ih =>
    obtain ⟨differs,rest⟩ := not_or.mp (List.mem_cons.not.mp bare)
    have here : keyAt key (c :: (g ++ t)) = none := by
      apply keyAt_eq_none
      rintro ⟨r,same⟩
      exact differs (List.cons.inj same).1
    rw [List.cons_append,findKey,here]
    exact ih rest

theorem findKey_none (bare : '"' ∉ g) : findKey key g = none := by
  have gone : findKey key (g ++ []) = findKey key [] := findKey_gap bare
  rwa [List.append_nil,findKey] at gone

theorem findKey_quote (h : ¬(key ++ ['"']) <+: t) : findKey key ('"' :: t) = findKey key t := by
  have here : keyAt key ('"' :: t) = none := by
    apply keyAt_eq_none
    rintro ⟨r,same⟩
    exact h ⟨r,(List.cons.inj same).2⟩
  rw [findKey,here]

/-- A string that is no key is passed over together with both its quotes. -/
theorem findKey_string (field : IsKey key) (bare : '"' ∉ s) (differs : s ≠ key) (opens : Opens t) :
    findKey key ('"' :: s ++ '"' :: t) = findKey key t := by
  have first : ¬(key ++ ['"']) <+: s ++ '"' :: t := fun h =>
    differs (eq_of_quote field.bare bare h).symm
  rw [List.cons_append,findKey_quote first,findKey_gap bare,findKey_quote (key_not_begins field opens)]

/-- The key's own name as a value: no colon follows it. -/
theorem findKey_value (field : IsKey key) (opens : Opens (c :: t)) (blank : isBlank c = false)
    (noColon : c ≠ ':') : findKey key (quoted key ++ c :: t) = findKey key (c :: t) := by
  have here : keyAt key (quoted key ++ c :: t) = none := by
    rw [keyAt,afterPrefix_eq_some.mpr rfl,Option.bind_some,List.dropWhile_cons_of_neg (by simp [blank])]
    split
    · rename_i h
      exact absurd (List.cons.inj h).1 noColon
    · rfl
  rw [quoted,List.cons_append,List.cons_append,findKey]
  rw [quoted,List.cons_append,List.cons_append] at here
  rw [here,List.append_assoc,findKey_gap field.bare]
  exact findKey_quote (key_not_begins field opens)

/-- The key itself, and what follows its colon. -/
theorem findKey_key (key value : Text) : findKey key (quoted key ++ ':' :: value) = some value := by
  have here : keyAt key (quoted key ++ ':' :: value) = some value := by
    rw [keyAt,afterPrefix_eq_some.mpr rfl,Option.bind_some,List.dropWhile_cons_of_neg (by decide)]
    rfl
  rw [quoted,List.cons_append,List.cons_append] at here ⊢
  rw [findKey,here]

/-- A string literal without quotes and backslashes inside. -/
def Bare (s : Text) : Prop := ∀ c ∈ s, c ≠ '"' ∧ c ≠ '\\'

theorem Bare.noQuote (bare : Bare s) : '"' ∉ s := fun member => (bare _ member).1 rfl

theorem stringBody_append (h : stringBody s = some body) (t : Text) : stringBody (s ++ t) = some body := by
  induction s using stringBody.induct generalizing body with
  | case1 => cases h
  | case2 e rest ih =>
    simp only [stringBody,Option.map_eq_some_iff,List.cons_append] at h ⊢
    obtain ⟨inside,found,rfl⟩ := h
    exact ⟨inside,ih found,rfl⟩
  | case3 rest => exact h
  | case4 c rest noPair noQuote ih =>
    rw [stringBody] at h
    · obtain ⟨inside,found,rfl⟩ := Option.map_eq_some_iff.mp h
      have noEscape : c ≠ '\\' := by
        rintro rfl
        cases rest with
        | nil => cases found
        | cons e r => exact noPair e r rfl rfl
      rw [List.cons_append,stringBody_cons noEscape noQuote,ih found]
      rfl
    · exact noPair
    · exact noQuote

/-- A complete string is read before anything behind it is. -/
theorem nextString_append (h : nextString s = some value) (t : Text) : nextString (s ++ t) = some value := by
  simp only [nextString,bind,Option.bind_eq_some_iff,Prod.exists,splitFirst_eq_some] at h ⊢
  obtain ⟨gap,rest,⟨rfl,bare⟩,body,found,same⟩ := h
  exact ⟨gap,rest ++ t,⟨by simp,bare⟩,body,stringBody_append found t,same⟩

theorem stringBody_bare (bare : Bare s) : stringBody (s ++ '"' :: t) = some s := by
  induction s with
  | nil => rfl
  | cons c s ih =>
    obtain ⟨noQuote,noEscape⟩ := bare c List.mem_cons_self
    rw [List.cons_append,stringBody,ih fun c' member => bare c' (List.mem_cons_of_mem _ member)]
    · rfl
    · intro e rest same; exact absurd same noEscape
    · intro same; exact absurd same noQuote

theorem unescape_bare (bare : Bare s) : unescape s = s := by
  induction s with
  | nil => rfl
  | cons c s ih =>
    have noEscape := (bare c List.mem_cons_self).2
    rw [unescape,ih fun c' member => bare c' (List.mem_cons_of_mem _ member)]
    intro e rest same
    exact absurd same noEscape

theorem nextString_bare (gap : '"' ∉ g) (bare : Bare s) :
    nextString (g ++ '"' :: s ++ '"' :: t) = some s := by
  rw [nextString,List.append_assoc,List.cons_append,splitFirst_append gap]
  simp only [Option.bind_eq_bind,Option.bind_some,stringBody_bare bare,unescape_bare bare,Option.pure_def]

/-! ### Blocks of entries -/

/-- Layout between entries. -/
def Plain (g : Text) : Prop := ∀ c ∈ g, c = ',' ∨ isBlank c = true

/-- What a key or an address consists of. -/
def Word (s : Text) : Prop := ∀ c ∈ s, isXDigit c = true ∨ c = '.'

instance Word.decidable (s : Text) : Decidable (Word s) :=
  List.decidableBAll _ s

theorem fieldNames_noWord : ∀ key ∈ fieldNames, ¬Word key := by decide +kernel

/-- A text that lists `pairs`, each as `"key": "value"`. -/
inductive EntryText : List (Text × Text) → Text → Prop
  | done (tail : Plain t) : EntryText [] t
  | entry (lead : Plain g) (key : Word k) (value : Word v) (rest : EntryText pairs t) :
    EntryText ((k,v) :: pairs) (g ++ '"' :: k ++ '"' :: ": ".toList ++ '"' :: v ++ '"' :: t)

theorem plain_char (h : c = ',' ∨ isBlank c = true) :
    c ≠ '"' ∧ c ≠ '/' ∧ c ≠ '{' ∧ c ≠ '}' ∧ c.isAlpha = false := by
  rcases h with rfl | blank
  · decide
  · simp only [isBlank,Bool.or_eq_true,decide_eq_true_eq] at blank
    rcases blank with ((rfl | rfl) | rfl) | rfl <;> decide

theorem word_char (h : isXDigit c = true ∨ c = '.') :
    c ≠ '"' ∧ c ≠ '\\' ∧ c ≠ '/' ∧ c ≠ '{' ∧ c ≠ '}' := by
  rcases h with hex | rfl
  · refine ⟨?_,?_,?_,?_,?_⟩ <;> (intro same; subst same; revert hex; decide)
  · decide

theorem Plain.noQuote (plain : Plain g) : '"' ∉ g := fun member => (plain_char (plain _ member)).1 rfl
theorem Word.bare (word : Word s) : Bare s := fun c member =>
  ⟨(word_char (word c member)).1,(word_char (word c member)).2.1⟩

theorem Plain.append (first : Plain g) (second : Plain g') : Plain (g ++ g') := by
  intro c member
  rcases List.mem_append.mp member with here | there
  · exact first c here
  · exact second c there

/-- All that stands in an entry text besides the digits of its words. -/
def entryMarks : Text := ['.',',','"',':',' ','\t','\n','\r']

/-- What stands in front of the first quote is no entry. -/
theorem blockPairs_gap (bare : '"' ∉ g) : blockPairs (g ++ r) = blockPairs r := by
  have same : nextPeer (g ++ r) = nextPeer r := by
    simp only [nextPeer,splitFirst_prepend bare,Option.bind_eq_bind,Option.bind_map]
    rfl
  cases next : nextPeer r with
  | none =>
    rw [blockPairs,peerReader.drain_wait (by simp only [peerReader,same,next,Option.map_none]),blockPairs,
      peerReader.drain_wait (by simp only [peerReader,next,Option.map_none])]
  | some found =>
    have first : peerReader.next (g ++ r) = some (some found.1,found.2) := by
      simp only [peerReader,same,next,Option.map_some]
    have second : peerReader.next r = some (some found.1,found.2) := by
      simp only [peerReader,next,Option.map_some]
    rw [blockPairs,peerReader.drain_next first,blockPairs,peerReader.drain_next second]

namespace EntryText

/-- More layout in front. -/
theorem indent (lead : Plain g) (text : EntryText pairs t) : EntryText pairs (g ++ t) := by
  cases text with
  | done tail => exact .done (lead.append tail)
  | entry first key value rest =>
    have longer := EntryText.entry (lead.append first) key value rest
    simpa only [List.append_assoc] using longer

theorem append (first : EntryText pairs t) (second : EntryText more u) :
    EntryText (pairs ++ more) (t ++ u) := by
  induction first with
  | done tail => exact second.indent tail
  | entry lead key value rest ih =>
    have longer := EntryText.entry lead key value ih
    simpa only [List.append_assoc,List.cons_append] using longer

theorem char (text : EntryText pairs t) : ∀ c ∈ t, isXDigit c = true ∨ c ∈ entryMarks := by
  have plain {g : Text} (plain : Plain g) (c : Char) (member : c ∈ g) : c ∈ entryMarks := by
    rcases plain c member with rfl | blank
    · simp [entryMarks]
    · simp only [isBlank,Bool.or_eq_true,decide_eq_true_eq] at blank
      simp only [entryMarks,List.mem_cons]
      tauto
  have word {s : Text} (word : Word s) (c : Char) (member : c ∈ s) : isXDigit c = true ∨ c ∈ entryMarks := by
    rcases word c member with hex | rfl
    · exact .inl hex
    · simp [entryMarks]
  induction text with
  | done tail => exact fun c member => .inr (plain tail c member)
  | entry lead key value rest ih =>
    intro c member
    simp only [List.mem_append,List.mem_cons,or_assoc] at member
    rcases member with here | rfl | here | rfl | here | rfl | here | rfl | later
    · exact .inr (plain lead c here)
    · simp [entryMarks]
    · exact word key c here
    · simp [entryMarks]
    · simp only [String.reduceToList,List.mem_cons,List.not_mem_nil,or_false] at here
      rcases here with rfl | rfl <;> simp [entryMarks]
    · simp [entryMarks]
    · exact word value c here
    · simp [entryMarks]
    · exact ih c later

theorem absent (text : EntryText pairs t) (noHex : isXDigit c = false) (noMark : c ∉ entryMarks) : c ∉ t := by
  intro member
  rcases text.char c member with hex | mark
  · rw [noHex] at hex
    contradiction
  · exact noMark mark

/-- No field name continues an entry text: it starts with layout or a quote. -/
theorem opens (text : EntryText pairs t) (after : Opens r) : Opens (t ++ r) := by
  have plainOpens {g : Text} (plain : Plain g) (c : Char) (here : c ∈ (g ++ r).head?) :
      c.isAlpha = false := by
    cases g with
    | nil => exact after c here
    | cons a g =>
      obtain rfl := Option.some.inj here
      exact (plain_char (plain a List.mem_cons_self)).2.2.2.2
  cases text with
  | done tail => exact plainOpens tail
  | @entry g k v _ _ lead key value rest =>
    intro c here
    cases g with
    | nil => obtain rfl := Option.some.inj here; rfl
    | cons a g =>
      obtain rfl := Option.some.inj here
      exact (plain_char (lead a List.mem_cons_self)).2.2.2.2

/-- The scanner of `json_peers` lists the pairs, then those of what follows. -/
theorem blockPairs_append (text : EntryText pairs t) (r : Text) : blockPairs (t ++ r) = pairs ++ blockPairs r := by
  induction text with
  | done tail => exact blockPairs_gap tail.noQuote
  | @entry g k v pairs t lead key value rest ih =>
    have found : nextPeer (g ++ '"' :: k ++ '"' :: ": ".toList ++ '"' :: v ++ '"' :: t ++ r) = some ((k,v),t ++ r) :=
      nextPeer_eq_some.mpr ⟨g,": ".toList,by simp,lead.noQuote,key.bare.noQuote,by simp,value.bare.noQuote⟩
    have next : peerReader.next (g ++ '"' :: k ++ '"' :: ": ".toList ++ '"' :: v ++ '"' :: t ++ r) =
        some (some (k,v),t ++ r) := by
      simp only [peerReader,found,Option.map_some]
    rw [blockPairs,peerReader.drain_next next]
    exact congrArg ((k,v) :: ·) ih

/-- No field is found among the entries: their strings are words, field names are not. -/
theorem findKey_eq (text : EntryText pairs t) (field : IsKey key) (noWord : ¬Word key) (after : Opens r) :
    findKey key (t ++ r) = findKey key r := by
  induction text with
  | done tail => exact findKey_gap tail.noQuote
  | @entry g k v pairs t lead word value rest ih =>
    have differs (s : Text) (h : Word s) : s ≠ key := fun same => noWord (same ▸ h)
    have colon : Opens (": ".toList ++ '"' :: v ++ '"' :: (t ++ r)) := by
      intro c here
      obtain rfl := Option.some.inj here
      rfl
    have step := findKey_string field word.bare.noQuote (differs k word) colon
    have value := findKey_string field value.bare.noQuote (differs v value) (rest.opens after)
    simp only [List.append_assoc,List.cons_append] at step value ⊢
    rw [findKey_gap lead.noQuote,step,findKey_gap (by simp),value,ih]

end EntryText

/-! ### Strings and gaps -/

/-- Strings in quotes, each with the gap behind it. -/
def weave : List (Text × Text) → Text → Text
  | [], tail => tail
  | (s,g) :: tokens, tail => '"' :: s ++ '"' :: (g ++ weave tokens tail)

theorem weave_tokens (front back : List (Text × Text)) (tail : Text) :
    weave (front ++ back) tail = weave front (weave back tail) := by
  induction front with
  | nil => rfl
  | cons token front ih => simp only [List.cons_append,weave,ih]

theorem weave_append (tokens : List (Text × Text)) (t r : Text) :
    weave tokens t ++ r = weave tokens (t ++ r) := by
  induction tokens with
  | nil => rfl
  | cons token tokens ih => simp only [weave,List.cons_append,List.append_assoc,ih]

/-- A string and its gap as the writers put them: no quotes inside, and a comma or a
colon, never a blank, right behind the string. -/
structure Tidy (token : Text × Text) : Prop where
  bare : '"' ∉ token.1
  gap : '"' ∉ token.2
  begins : ∃ c ∈ token.2.head?, c.isAlpha = false ∧ isBlank c = false

theorem tidy_colon (bare : '"' ∉ s) : Tidy (s,": ".toList) :=
  ⟨bare,show '"' ∉ ": ".toList by simp,':',rfl,by simp [isBlank]⟩

theorem tidy_comma (bare : '"' ∉ s) : Tidy (s,",\n  ".toList) :=
  ⟨bare,show '"' ∉ ",\n  ".toList by simp,',',rfl,by simp [isBlank]⟩

/-- The first string of that name with a colon behind it. -/
def seek (key tail : Text) : List (Text × Text) → Option Text
  | [] => findKey key tail
  | (s,g) :: tokens =>
    if s = key ∧ g.head? = some ':' then some (g.tail ++ weave tokens tail)
    else seek key tail tokens

/-- In a weave the search sees one string after the other: another name is passed over
with its quotes, the name itself is passed over as a value. -/
theorem findKey_weave (field : IsKey key) (tokens : List (Text × Text))
    (tidy : ∀ token ∈ tokens, Tidy token) : findKey key (weave tokens t) = seek key t tokens := by
  induction tokens with
  | nil => rfl
  | cons token tokens ih =>
    obtain ⟨s,g⟩ := token
    obtain ⟨bare,gap,c,first,noLetter,noBlank⟩ := tidy _ List.mem_cons_self
    obtain ⟨g,rfl⟩ := List.head?_eq_some_iff.mp first
    have later := ih fun token member => tidy token (List.mem_cons_of_mem _ member)
    have opens : Opens (c :: g ++ weave tokens t) := fun c' here => Option.some.inj here ▸ noLetter
    have past : findKey key ((c :: g) ++ weave tokens t) = seek key t tokens := (findKey_gap gap).trans later
    by_cases same : s = key
    · subst same
      by_cases colon : c = ':'
      · subst colon
        have found := findKey_key s (g ++ weave tokens t)
        simpa [quoted,weave,seek] using found
      · have value := findKey_value field opens noBlank colon
        simp only [List.head?_cons,Option.some.injEq,colon,and_false,↓reduceIte,seek]
        simp only [quoted,weave,List.cons_append,List.append_assoc,List.nil_append] at value past ⊢
        exact value.trans past
    · rw [weave,findKey_string field bare same opens,past,seek,if_neg fun h => same h.1]

theorem seek_skip (free : ∀ token ∈ front, ¬(token.1 = key ∧ token.2.head? = some ':')) :
    seek key t (front ++ back) = seek key t back := by
  induction front with
  | nil => rfl
  | cons token front ih =>
    rw [List.cons_append,seek,if_neg (free _ List.mem_cons_self)]
    exact ih fun token' member => free token' (List.mem_cons_of_mem _ member)

theorem findKey_absent (field : IsKey key) (lead : '"' ∉ g) (tidy : ∀ token ∈ tokens, Tidy token)
    (free : ∀ token ∈ tokens, ¬(token.1 = key ∧ token.2.head? = some ':')) (outside : findKey key t = none) :
    findKey key (g ++ weave tokens t) = none := by
  have skip : seek key t (tokens ++ []) = seek key t [] := seek_skip free
  rw [List.append_nil] at skip
  rw [findKey_gap lead,findKey_weave field _ tidy,skip,seek,outside]

/-- A field of a weave and the string behind it. -/
theorem jsonString_member (front : List (Text × Text)) (field : IsKey key) (lead : '"' ∉ g)
    (tidy : ∀ token ∈ front ++ (key,": ".toList) :: (s,g') :: back, Tidy token)
    (free : ∀ token ∈ front, ¬(token.1 = key ∧ token.2.head? = some ':')) (bare : Bare s) :
    jsonString (g ++ weave (front ++ (key,": ".toList) :: (s,g') :: back) t) key = s := by
  have found : findKey key (g ++ weave (front ++ (key,": ".toList) :: (s,g') :: back) t) =
      some (" ".toList ++ '"' :: s ++ '"' :: (g' ++ weave back t)) := by
    rw [findKey_gap lead,findKey_weave field _ tidy,seek_skip free,seek,if_pos ⟨rfl,rfl⟩]
    rfl
  rw [jsonString,found,Option.bind_some,nextString_bare (by simp) bare]
  rfl

theorem jsonString_absent (h : findKey key json = none) : jsonString json key = [] := by
  rw [jsonString,h]
  rfl

theorem jsonBool_absent (h : findKey key json = none) : jsonBool json key fallback = fallback := by
  rw [jsonBool,h]

/-! ### The first occurrence of a quoted name -/

theorem splitSub_gap (bare : '"' ∉ g) : splitSub (quoted key) (g ++ t) =
    (splitSub (quoted key) t).map fun r => (g ++ r.1,r.2) := by
  induction g with
  | nil => simp
  | cons c g ih =>
    obtain ⟨differs,rest⟩ := not_or.mp (List.mem_cons.not.mp bare)
    have here : ¬quoted key <+: c :: (g ++ t) := by
      rintro ⟨r,same⟩
      exact differs (List.cons.inj same).1
    rw [List.cons_append,splitSub,if_neg here,ih rest,Option.map_map]
    rfl

theorem splitSub_string (field : IsKey key) (bare : '"' ∉ s) (differs : s ≠ key) (opens : Opens t) :
    splitSub (quoted key) ('"' :: s ++ '"' :: t) =
      (splitSub (quoted key) t).map fun r => ('"' :: s ++ '"' :: r.1,r.2) := by
  have first : ¬quoted key <+: '"' :: (s ++ '"' :: t) := by
    rintro ⟨r,same⟩
    exact differs (eq_of_quote field.bare bare ⟨r,(List.cons.inj same).2⟩).symm
  have second : ¬quoted key <+: '"' :: t := by
    rintro ⟨r,same⟩
    exact key_not_begins field opens ⟨r,(List.cons.inj same).2⟩
  rw [List.cons_append,splitSub,if_neg first,splitSub_gap bare,splitSub,if_neg second]
  simp only [Option.map_map]
  rfl

theorem splitSub_weave (field : IsKey key) (tokens : List (Text × Text)) (tidy : ∀ token ∈ tokens, Tidy token)
    (others : ∀ token ∈ tokens, token.1 ≠ key) : splitSub (quoted key) (weave tokens t) =
      (splitSub (quoted key) t).map fun r => (weave tokens r.1,r.2) := by
  induction tokens with
  | nil => simp [weave]
  | cons token tokens ih =>
    obtain ⟨bare,gap,c,first,noLetter,-⟩ := tidy token List.mem_cons_self
    have later := ih (fun token' member => tidy token' (List.mem_cons_of_mem _ member))
      fun token' member => others token' (List.mem_cons_of_mem _ member)
    have opens : Opens (token.2 ++ weave tokens t) := by
      obtain ⟨g,same⟩ := List.head?_eq_some_iff.mp first
      rw [same]
      exact fun c' here => Option.some.inj here ▸ noLetter
    rw [weave,splitSub_string field bare (others token List.mem_cons_self) opens,splitSub_gap gap,later]
    simp only [Option.map_map]
    rfl

/-! ### Comments -/

/-- Outside strings and comments, `g` strips to `h` and leaves no comment open. -/
def Strips (g h : Text) : Prop := ∀ r, stripFrom .code (g ++ r) = h ++ stripFrom .code r

theorem Strips.stripComments (strips : Strips g h) : stripComments g = h := by
  have whole := strips []
  rwa [List.append_nil,stripFrom,List.append_nil] at whole

theorem Strips.append (first : Strips g h) (second : Strips g' h') : Strips (g ++ g') (h ++ h') := by
  intro r
  rw [List.append_assoc,first,second,List.append_assoc]

theorem stripFrom_code (noQuote : c ≠ '"') (noSlash : c ≠ '/') :
    stripFrom .code (c :: t) = c :: stripFrom .code t := by
  rw [stripFrom]
  · exact fun same => absurd same noQuote
  · intro rest same; exact absurd same noSlash
  · intro rest same; exact absurd same noSlash

theorem strips_clean (clean : ∀ c ∈ g, c ≠ '"' ∧ c ≠ '/') : Strips g g := by
  intro r
  induction g with
  | nil => rfl
  | cons c g ih =>
    obtain ⟨noQuote,noSlash⟩ := clean c List.mem_cons_self
    rw [List.cons_append,stripFrom_code noQuote noSlash,ih fun c' member =>
      clean c' (List.mem_cons_of_mem _ member)]
    rfl

/-- Inside a string, up to its closing quote. -/
theorem stripFrom_inside (bare : Bare s) (escaped : prev ≠ '\\') (r : Text) :
    stripFrom (.string prev) (s ++ '"' :: r) = s ++ '"' :: stripFrom .code r := by
  induction s generalizing prev with
  | nil => simp [stripFrom,escaped]
  | cons c s ih =>
    obtain ⟨noQuote,noEscape⟩ := bare c List.mem_cons_self
    have later := ih (fun c' member => bare c' (List.mem_cons_of_mem _ member)) noEscape
    simp [stripFrom,noQuote,later]

theorem strips_string (bare : Bare s) : Strips ('"' :: s ++ ['"']) ('"' :: s ++ ['"']) := by
  intro r
  simp only [List.cons_append,List.append_assoc,List.nil_append]
  rw [stripFrom,stripFrom_inside bare (by decide)]

/-- A line comment goes with its newline. -/
theorem strips_comment (inside : '\n' ∉ body) : Strips ('/' :: '/' :: body ++ ['\n']) [] := by
  intro r
  have line : stripFrom .line (body ++ '\n' :: r) = stripFrom .code r := by
    induction body with
    | nil => rfl
    | cons c body ih =>
      obtain ⟨differs,rest⟩ := not_or.mp (List.mem_cons.not.mp inside)
      rw [List.cons_append,stripFrom,if_neg (Ne.symm differs)]
      exact ih rest
  simp only [List.cons_append,List.append_assoc,List.nil_append]
  rw [stripFrom]
  exact line

/-- Comments go from the gaps, strings stay. -/
theorem strips_weave {tokens stripped : List (Text × Text)}
    (gaps : List.Forall₂ (fun token token' => Bare token.1 ∧ token'.1 = token.1 ∧ Strips token.2 token'.2)
      tokens stripped) (tail : Strips t t') : Strips (weave tokens t) (weave stripped t') := by
  induction gaps with
  | nil => exact tail
  | @cons token token' tokens stripped h rest ih =>
    obtain ⟨bare,same,gap⟩ := h
    have whole := (strips_string bare).append (gap.append ih)
    rw [weave,weave,same]
    simpa only [List.append_assoc,List.cons_append,List.nil_append] using whole

theorem EntryText.strips (text : EntryText pairs t) : Strips t t := by
  have clean {g : Text} (plain : Plain g) : Strips g g := strips_clean fun c member =>
    ⟨(plain_char (plain c member)).1,(plain_char (plain c member)).2.1⟩
  induction text with
  | done tail => exact clean tail
  | @entry g k v pairs t lead key value rest ih =>
    have colon : Strips ": ".toList ": ".toList := strips_clean (by simp)
    have whole := (clean lead).append ((strips_string key.bare).append
      (colon.append ((strips_string value.bare).append ih)))
    simpa only [List.append_assoc,List.cons_append,List.nil_append] using whole

end Nospoon
