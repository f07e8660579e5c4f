import Nospoon.ConfigText
import Nospoon.FailClosed
import Nospoon.Library.Json

/-! What the extractors of `config.hpp` make of well-formed JSON: for a member whose place
they have found, the value the JSON text has there. -/
namespace Nospoon

open Library Library.Json

/-! ### Strings -/

/-- What `json_string` makes of a part: a `\u` loses its backslash. -/
def scanned : Part → Text
  | .char c => [c]
  | .escape e => [escapeChar e]
  | .unit digits => 'u' :: digits

/-- A string spelled without `\u`. -/
def NoUnits (s : Parts) : Prop := ∀ digits, .unit digits ∉ s

/-- A string spelled without any backslash. -/
def Literal (s : Parts) : Prop := ∀ p ∈ s, ∃ c, p = .char c

theorem hexDigit_noEscape (hex : isXDigit c = true) : c ≠ '\\' ∧ c ≠ '"' ∧ c ≠ '\x7d' := by
  refine ⟨?_,?_,?_⟩ <;> (rintro rfl; revert hex; decide)

theorem stringBody_char (noQuote : c ≠ '"') (noEscape : c ≠ '\\') :
    stringBody (c :: t) = (stringBody t).map (c :: ·) := by
  rw [stringBody]
  · intro e rest same; exact absurd same noEscape
  · intro same; exact absurd same noQuote

theorem stringBody_chars (free : ∀ c ∈ g, c ≠ '\\' ∧ c ≠ '"') : stringBody (g ++ t) = (stringBody t).map (g ++ ·) := by
  induction g with
  | nil => simp
  | cons c g ih =>
    obtain ⟨here,later⟩ := List.forall_mem_cons.mp free
    rw [List.cons_append,stringBody_char here.2 here.1,ih later,Option.map_map]
    rfl

/-- The walk to the closing quote ends where the string does. -/
theorem stringBody_spelled (valid : ∀ p ∈ s, Part.Valid p) :
    stringBody (spelled s ++ '"' :: t) = some (spelled s) := by
  induction s with
  | nil => rfl
  | cons p s ih =>
    obtain ⟨here,later⟩ := List.forall_mem_cons.mp valid
    have rest := ih later
    have front : spelled (p :: s) = p.text ++ spelled s := List.flatMap_cons
    rw [front,List.append_assoc]
    cases p with
    | char c =>
      have step := stringBody_char (t := spelled s ++ '"' :: t) here.2.1 here.2.2
      rw [rest] at step
      exact step
    | escape e =>
      have step : stringBody ('\\' :: e :: (spelled s ++ '"' :: t)) =
          (stringBody (spelled s ++ '"' :: t)).map fun body => '\\' :: e :: body := rfl
      rw [rest] at step
      exact step
    | unit digits =>
      have step : stringBody ('\\' :: 'u' :: (digits ++ (spelled s ++ '"' :: t))) =
          (stringBody (digits ++ (spelled s ++ '"' :: t))).map fun body => '\\' :: 'u' :: body := rfl
      have free : ∀ c ∈ digits, c ≠ '\\' ∧ c ≠ '"' := fun c member =>
        ⟨(hexDigit_noEscape (here.2 c member)).1,(hexDigit_noEscape (here.2 c member)).2.1⟩
      rw [stringBody_chars free,rest] at step
      exact step

theorem unescape_chars (free : ∀ c ∈ g, c ≠ '\\') : unescape (g ++ t) = g ++ unescape t := by
  induction g with
  | nil => rfl
  | cons c g ih =>
    obtain ⟨here,later⟩ := List.forall_mem_cons.mp free
    rw [List.cons_append,unescape,ih later]
    · rfl
    · intro e rest same; exact absurd same here

theorem unescape_spelled (valid : ∀ p ∈ s, Part.Valid p) : unescape (spelled s) = s.flatMap scanned := by
  induction s with
  | nil => rfl
  | cons p s ih =>
    obtain ⟨here,later⟩ := List.forall_mem_cons.mp valid
    have front : spelled (p :: s) = p.text ++ spelled s := List.flatMap_cons
    rw [front,List.flatMap_cons,← ih later]
    cases p with
    | char c => exact unescape_chars (g := [c]) (List.forall_mem_singleton.mpr here.2.2)
    | escape e => rfl
    | unit digits =>
      have step : unescape ('\\' :: 'u' :: (digits ++ spelled s)) = 'u' :: unescape (digits ++ spelled s) := rfl
      rw [unescape_chars fun c member => (hexDigit_noEscape (here.2 c member)).1] at step
      exact step

theorem characters_length (s : Parts) : (characters s).length ≤ s.length := by
  induction s using characters.induct with
  | case1 => rfl
  | case2 c s ih => simpa [characters] using ih
  | case3 e s ih => simpa [characters] using ih
  | case4 high low s pair ih =>
    rw [characters,if_pos pair]
    simp only [List.length_cons]
    omega
  | case5 high low s lone ih =>
    rw [characters,if_neg lone]
    simp only [List.length_cons] at ih ⊢
    omega
  | case6 digits s other ih =>
    rw [characters]
    · simp only [List.length_cons]
      omega
    · exact other

theorem scanned_length {s : Parts} (valid : ∀ p ∈ s, Part.Valid p) : s.length ≤ (s.flatMap scanned).length := by
  induction s with
  | nil => rfl
  | cons p s ih =>
    obtain ⟨here,later⟩ := List.forall_mem_cons.mp valid
    have rest := ih later
    rw [List.flatMap_cons,List.length_append,List.length_cons]
    cases p with
    | char c => simp only [scanned,List.length_singleton]; omega
    | escape e => simp only [scanned,List.length_singleton]; omega
    | unit digits => simp only [scanned,List.length_cons]; omega

theorem escapeChar_eq (e : Char) : escapeChar e = escaped e := by
  unfold escapeChar escaped
  split <;> simp

/-- Scanning gives the characters of a string exactly where it has no `\u`. -/
theorem scanned_iff {s : Parts} (valid : ∀ p ∈ s, Part.Valid p) :
    characters s = (s.flatMap scanned).map some ↔ NoUnits s := by
  constructor
  · intro same digits member
    obtain ⟨front,back,rfl⟩ := List.append_of_mem member
    have long := scanned_length fun p inside => valid p (List.mem_append_left _ inside)
    have rest := scanned_length fun p inside => valid p (List.mem_append_right _ (List.mem_cons_of_mem _ inside))
    have sized := congrArg List.length same
    have short := characters_length (front ++ .unit digits :: back)
    have four := (valid _ member).1
    simp only [List.flatMap_append,List.flatMap_cons,List.map_append,List.length_append,List.length_map,scanned,
      List.length_cons] at sized short
    omega
  · intro plain
    induction s with
    | nil => rfl
    | cons p s ih =>
      have rest := ih (fun p inside => valid p (List.mem_cons_of_mem _ inside))
        fun digits inside => plain digits (List.mem_cons_of_mem _ inside)
      cases p with
      | char c => exact congrArg (some c :: ·) rest
      | escape e =>
        rw [characters,rest,← escapeChar_eq]
        rfl
      | unit digits => exact absurd List.mem_cons_self (plain digits)

/-- A character of a string that is not behind `\u`. -/
def plainValue : Part → Option Char
  | .char c => some c
  | .escape e => some (escaped e)
  | .unit _ => none

theorem value_mem_characters (s : Parts) : ∀ p ∈ s, ∀ c, plainValue p = some c → some c ∈ characters s := by
  induction s using characters.induct with
  | case1 => simp
  | case2 c s ih =>
    refine List.forall_mem_cons.mpr ⟨fun c' same => ?_,fun p member c' same => List.mem_cons_of_mem _ (ih p member c' same)⟩
    obtain rfl := Option.some.inj same
    exact List.mem_cons_self
  | case3 e s ih =>
    refine List.forall_mem_cons.mpr ⟨fun c' same => ?_,fun p member c' same => List.mem_cons_of_mem _ (ih p member c' same)⟩
    obtain rfl := Option.some.inj same
    exact List.mem_cons_self
  | case4 high low s pair ih =>
    rw [characters,if_pos pair]
    refine List.forall_mem_cons.mpr ⟨nofun,List.forall_mem_cons.mpr ⟨nofun,fun p member c' same => ?_⟩⟩
    exact List.mem_cons_of_mem _ (ih p member c' same)
  | case5 high low s lone ih =>
    rw [characters,if_neg lone]
    exact List.forall_mem_cons.mpr ⟨nofun,fun p member c' same => List.mem_cons_of_mem _ (ih p member c' same)⟩
  | case6 digits s other ih =>
    rw [characters]
    · exact List.forall_mem_cons.mpr ⟨nofun,fun p member c' same => List.mem_cons_of_mem _ (ih p member c' same)⟩
    · exact other

theorem characters_literal {s : Parts} (literal : Literal s) : characters s = (spelled s).map some := by
  induction s with
  | nil => rfl
  | cons p s ih =>
    obtain ⟨⟨c,rfl⟩,later⟩ := List.forall_mem_cons.mp literal
    exact congrArg (some c :: ·) (ih later)

theorem literal_of_noEscape {s : Parts} (noEscape : '\\' ∉ spelled s) : Literal s := by
  intro p member
  have inside : ∀ c ∈ p.text, c ∈ spelled s := fun c here => List.mem_flatMap.mpr ⟨p,member,here⟩
  cases p with
  | char c => exact ⟨c,rfl⟩
  | escape e => exact absurd (inside '\\' List.mem_cons_self) noEscape
  | unit digits => exact absurd (inside '\\' List.mem_cons_self) noEscape

/-! ### Values behind a colon -/

theorem blank_char (blank : isWhite c = true) : c ≠ '"' ∧ c ≠ '{' ∧ isSpace c = true := by
  simp only [isWhite,Bool.or_eq_true,decide_eq_true_eq] at blank
  rcases blank with ((rfl | rfl) | rfl) | rfl <;> decide

/-- A text is blanks and what is left of it without them. -/
theorem skip_split (t : Text) : ∃ gap, t = gap ++ skip t ∧ ∀ c ∈ gap, isWhite c = true :=
  ⟨t.takeWhile isWhite,List.takeWhile_append_dropWhile.symm,fun _ member => List.mem_takeWhile_imp member⟩

theorem shape_str (shape : Shape fuel (.str s) u r) :
    u = '"' :: spelled s ++ '"' :: r ∧ ∀ p ∈ s, Part.Valid p := by
  cases shape with
  | scalar scalar =>
    cases scalar with
    | str valid => exact ⟨rfl,valid⟩

/-- The string literal found behind the colon of a string member is its value. -/
theorem nextString_inPlace {m : Member} (place : m.InPlace) (value : m.value = .str s) :
    nextString m.behind = some (s.flatMap scanned) ∧ ∀ p ∈ s, Part.Valid p := by
  obtain ⟨fuel,r,shape⟩ := place
  obtain ⟨gap,split,blank⟩ := skip_split m.behind
  rw [value] at shape
  obtain ⟨front,valid⟩ := shape_str shape
  have noQuote : '"' ∉ gap := fun member => (blank_char (blank _ member)).1 rfl
  refine ⟨?_,valid⟩
  rw [split,front,nextString,List.cons_append,splitFirst_append noQuote]
  simp only [Option.bind_eq_bind,Option.bind_some,stringBody_spelled valid,unescape_spelled valid,Option.pure_def]

/-- A value that is no number does not look like one to `atoi`. -/
theorem shape_noNumber (shape : Shape fuel v u r) (other : ∀ n, v ≠ .num n) :
    ∃ c rest, u = c :: rest ∧ isSpace c = false ∧ c.isDigit = false ∧ c ≠ '-' ∧ c ≠ '+' := by
  cases shape with
  | noItems => exact ⟨'[',_,rfl,by decide⟩
  | items => exact ⟨'[',_,rfl,by decide⟩
  | noMembers => exact ⟨'{',_,rfl,by decide⟩
  | members => exact ⟨'{',_,rfl,by decide⟩
  | scalar scalar =>
    cases scalar with
    | null => exact ⟨'n',_,rfl,by decide⟩
    | yes => exact ⟨'t',_,rfl,by decide⟩
    | no => exact ⟨'f',_,rfl,by decide⟩
    | str => exact ⟨'"',_,rfl,by decide⟩
    | num => exact absurd rfl (other _)

/-- Dropping less first makes no difference. -/
theorem dropWhile_dropWhile {f g : Char → Bool} (less : ∀ c, f c = true → g c = true) (t : Text) :
    (t.dropWhile f).dropWhile g = t.dropWhile g := by
  induction t with
  | nil => rfl
  | cons c t ih =>
    cases here : f c with
    | true => rw [List.dropWhile_cons_of_pos here,List.dropWhile_cons_of_pos (less c here),ih]
    | false => rw [List.dropWhile_cons_of_neg (by simp [here])]

theorem space_white (c : Char) (space : (c = ' ' || c = '\t') = true) : isWhite c = true := by
  simp only [Bool.or_eq_true,decide_eq_true_eq] at space
  rcases space with rfl | rfl <;> decide

theorem skip_skipSpaces (t : Text) : skip (skipSpaces t) = skip t := dropWhile_dropWhile space_white t

theorem atoi_skip (t : Text) : atoi (skip t) = atoi t := by
  unfold atoi leadingInt skip
  rw [dropWhile_dropWhile fun c blank => (blank_char blank).2.2]

/-- `json_int` at a value: the blanks in front do not matter. -/
theorem atoi_behind (t : Text) : atoi (skipSpaces t) = atoi (skip t) := by
  rw [← atoi_skip,skip_skipSpaces]

theorem atoi_noNumber (shape : Shape fuel v u r) (other : ∀ n, v ≠ .num n) : atoi u = 0 := by
  obtain ⟨c,rest,rfl,noSpace,noDigit,noMinus,noPlus⟩ := shape_noNumber shape other
  exact atoi_stop (s := []) noSpace noDigit noMinus noPlus

theorem atoi_number {n : Number} (shape : Shape fuel (.num n) u r) (positive : n.negative = false) :
    atoi u = atoi n.whole := by
  cases shape with
  | scalar scalar =>
    cases scalar with
    | num nonempty digits ends =>
      have whole : leadingInt (n.whole ++ []) = natOf n.whole := leadingInt_digits digits nonempty nofun
      rw [List.append_nil] at whole
      rw [positive,atoi,atoi,whole]
      exact congrArg (fun v => (toLong v).bmod (2 ^ 32)) (leadingInt_digits digits nonempty ends)

theorem shape_true (shape : Shape fuel v u r) (front : "true".toList <+: u) : v = .bool true := by
  obtain ⟨rest,rfl⟩ := front
  cases shape with
  | scalar scalar =>
    generalize same : "true".toList ++ rest = u at scalar
    cases scalar with
    | yes => rfl
    | null => simp at same
    | no => simp at same
    | str => simp at same
    | @num _ _ n nonempty digits =>
      cases whole : n.whole with
      | nil => exact absurd whole nonempty
      | cons d ds =>
        have digit := digits d (by rw [whole]; exact List.mem_cons_self)
        rw [whole] at same
        split at same
        · exact absurd (List.cons.inj same).1 (by decide)
        · obtain rfl : 't' = d := (List.cons.inj same).1
          contradiction

/-- The strings of an entry are well formed. -/
def ValidEntry (e : Parts × Value) : Prop := (∀ p ∈ e.1, Part.Valid p) ∧ ∀ s, e.2 = .str s → ∀ p ∈ s, Part.Valid p

theorem readMembers_valid (h : readMembers fuel t = some (ms,r)) : ∀ m ∈ ms, ValidEntry m.entry := by
  induction fuel generalizing t ms with
  | zero => contradiction
  | succ fuel ih =>
    obtain ⟨name,behind,v,rest,first,read,closed⟩ := readMembers_some h
    obtain ⟨-,-,-,nameValid⟩ := readName_some first
    have here : ValidEntry (name,v) := by
      refine ⟨nameValid,?_⟩
      rintro s rfl
      cases fuel with
      | zero => contradiction
      | succ fuel => exact (shape_str (readValue_some read)).2
    rcases closeOrMore_some closed with ⟨-,rfl⟩ | ⟨more,others,-,later,rfl⟩
    · exact List.forall_mem_singleton.mpr here
    · exact List.forall_mem_cons.mpr ⟨here,ih later⟩

theorem valid_inPlace {m : Member} (place : m.InPlace) (value : m.value = .obj entries) :
    ∀ e ∈ entries, ValidEntry e := by
  obtain ⟨fuel,r,shape⟩ := place
  rw [value] at shape
  generalize skip m.behind = u at shape
  cases shape with
  | noMembers => simp
  | members read => exact List.forall_mem_map.mpr (readMembers_valid read)
  | scalar scalar => exact nomatch scalar

/-! ### A block of members -/

/-- What stands between the quotes of a string value. -/
def valueText : Value → Text
  | .str s => spelled s
  | _ => []

/-- A member as `json_peers` lists it. -/
def scannedPair (e : Parts × Value) : Text × Text := (spelled e.1,valueText e.2)

/-- A string that the search for quotes and braces passes over. -/
def Quiet (s : Parts) : Prop := '"' ∉ spelled s ∧ '\x7d' ∉ spelled s

/-- The name of a member and its value are strings that can be passed over. -/
def QuietEntry (e : Parts × Value) : Prop := Quiet e.1 ∧ ∃ s, e.2 = .str s ∧ Quiet s

/-- Members that are such strings are one block up to the closing brace, and its scanner
lists them. -/
theorem readMembers_block (h : readMembers fuel t = some (ms,r)) (quiet : ∀ m ∈ ms, QuietEntry m.entry) :
    ∃ body, t = body ++ '\x7d' :: r ∧ '\x7d' ∉ body ∧ blockPairs body = ms.map fun m => scannedPair m.entry := by
  induction fuel generalizing t ms with
  | zero => contradiction
  | succ fuel ih =>
    obtain ⟨name,behind,v,rest,first,read,closed⟩ := readMembers_some h
    have head : QuietEntry (name,v) := by
      rcases closeOrMore_some closed with ⟨-,rfl⟩ | ⟨more,others,-,-,rfl⟩
      · exact quiet _ List.mem_cons_self
      · exact quiet _ List.mem_cons_self
    obtain ⟨nameQuiet,s,rfl,valueQuiet⟩ := head
    obtain ⟨gap₀,split₀,blank₀⟩ := skip_split t
    obtain ⟨gap₁,blank₁,front,-⟩ := readName_some first
    obtain ⟨gap₂,split₂,blank₂⟩ := skip_split behind
    obtain ⟨gap₃,split₃,blank₃⟩ := skip_split rest
    obtain ⟨value,-⟩ : skip behind = '"' :: spelled s ++ '"' :: rest ∧ ∀ p ∈ s, Part.Valid p := by
      cases fuel with
      | zero => contradiction
      | succ fuel => exact shape_str (readValue_some read)
    have blank {gap : Text} (blanks : ∀ c ∈ gap, isWhite c = true) : '"' ∉ gap ∧ '\x7d' ∉ gap :=
      ⟨fun member => absurd (blanks _ member) (by decide),fun member => absurd (blanks _ member) (by decide)⟩
    -- one entry: its four quotes, then the blanks up to a comma or the brace
    have pair (tail : Text) : blockPairs (gap₀ ++ '"' :: spelled name ++ '"' :: (gap₁ ++ ':' :: gap₂) ++ '"' :: spelled s ++
        '"' :: tail) = scannedPair (name,.str s) :: blockPairs tail := by
      have mid : '"' ∉ gap₁ ++ ':' :: gap₂ := by simp [(blank blank₁).1,(blank blank₂).1]
      have next : peerReader.next (gap₀ ++ '"' :: spelled name ++ '"' :: (gap₁ ++ ':' :: gap₂) ++ '"' :: spelled s ++
          '"' :: tail) = some (some (spelled name,spelled s),tail) := by
        simp only [peerReader,Option.map_eq_some_iff]
        exact ⟨((spelled name,spelled s),tail),
          nextPeer_eq_some.mpr ⟨gap₀,_,rfl,(blank blank₀).1,nameQuiet.1,mid,valueQuiet.1⟩,rfl⟩
      rw [blockPairs,peerReader.drain_next next]
      rfl
    have text : t = gap₀ ++ '"' :: spelled name ++ '"' :: (gap₁ ++ ':' :: gap₂) ++ '"' :: spelled s ++ '"' :: rest := by
      rw [split₀,front,split₂,value]
      simp
    have noBrace (tail : Text) (free : '\x7d' ∉ tail) : '\x7d' ∉ gap₀ ++ '"' :: spelled name ++ '"' :: (gap₁ ++ ':' :: gap₂) ++
        '"' :: spelled s ++ '"' :: tail := by
      simp [(blank blank₀).2,(blank blank₁).2,(blank blank₂).2,nameQuiet.2,valueQuiet.2,free]
    rcases closeOrMore_some closed with ⟨close,rfl⟩ | ⟨more,others,comma,later,rfl⟩
    · refine ⟨_,?_,noBrace gap₃ (blank blank₃).2,?_⟩
      · rw [text,split₃,close]
        simp
      · rw [pair,← List.append_nil gap₃,blockPairs_gap (blank blank₃).1]
        rfl
    · obtain ⟨body,rfl,free,pairs⟩ := ih later fun m member => quiet m (List.mem_cons_of_mem _ member)
      refine ⟨_,?_,noBrace (gap₃ ++ ',' :: body) (by simp [(blank blank₃).2,free]),?_⟩
      · rw [text,split₃,comma]
        simp
      · have gap : '"' ∉ gap₃ ++ [','] := by simp [(blank blank₃).1]
        have passed : blockPairs (gap₃ ++ ',' :: body) = blockPairs body := by
          rw [List.append_cons]
          exact blockPairs_gap gap
        rw [pair,passed.trans pairs]
        rfl

/-- The value at which `json_peers` finds an object of such strings is read as its block. -/
theorem peersBlock_inPlace {m : Member} (found : findKey "peers".toList json = some m.behind) (place : m.InPlace)
    (value : m.value = .obj entries) (quiet : ∀ e ∈ entries, QuietEntry e) :
    jsonPeers json = insertPairs ∅ (entries.map scannedPair) := by
  obtain ⟨fuel,r,shape⟩ := place
  obtain ⟨gap,split,blank⟩ := skip_split m.behind
  have noBrace : '{' ∉ gap := fun member => absurd (blank _ member) (by decide)
  have block : ∃ body tail, skip m.behind = '{' :: body ++ '\x7d' :: tail ∧ '\x7d' ∉ body ∧
      blockPairs body = entries.map scannedPair := by
    rw [value] at shape
    generalize skip m.behind = u at shape
    cases shape with
    | @noMembers t _ close =>
      obtain ⟨inner,split,blanks⟩ := skip_split t
      refine ⟨inner,r,by rw [split,close]; rfl,fun member => absurd (blanks _ member) (by decide),?_⟩
      have noQuote : '"' ∉ inner := fun member => absurd (blanks _ member) (by decide)
      rw [← List.append_nil inner,blockPairs_gap noQuote]
      rfl
    | members read =>
      obtain ⟨body,rfl,free,pairs⟩ := readMembers_block read (List.forall_mem_map.mp quiet)
      refine ⟨body,r,rfl,free,?_⟩
      rw [pairs,List.map_map]
      rfl
    | scalar scalar => exact nomatch scalar
  obtain ⟨body,tail,front,free,pairs⟩ := block
  have place := peersBlock_eq_some.mpr ⟨gap,tail,by rw [found,split,front]; simp,noBrace,free⟩
  rw [jsonPeers,place]
  exact congrArg (insertPairs ∅) pairs

end Nospoon
