import Nospoon.Js.LoadConfig
import Nospoon.JsonText
import Nospoon.PeerRules

/-! What passes the checks of the JavaScript loader passes those of the C++ one, and which
characters it consists of. -/
namespace Nospoon.Js

open Library Library.Json

/-! ### Strings -/

theorem isText_iff : isText t v = true ↔ ∃ s, v = .str s ∧ characters s = ofText t := by
  cases v <;> simp [isText]

theorem shown_eq (h : characters s = ofText t) : shown s = t := by
  rw [shown,h,ofText,List.map_map]
  exact List.map_id _

theorem characters_char (t : Text) : characters (t.map .char) = ofText t := by
  induction t with
  | nil => rfl
  | cons c t ih => exact congrArg (some c :: ·) ih

theorem isText_textValue : isText t (textValue t') = true ↔ t' = t := by
  simp only [isText,textValue,characters_char,decide_eq_true_eq,ofText]
  exact (List.map_injective_iff.mpr (Option.some_injective _)).eq_iff

/-! ### Validation -/

theorem isJsSpace_of (space : isSpace c = true) : isJsSpace c = true := by simp [isJsSpace,space]

theorem dropWhile_jsSpace {t : Text} (ascii : ∀ c ∈ t.takeWhile isJsSpace, isSpace c = true) :
    t.dropWhile isJsSpace = t.dropWhile isSpace := by
  induction t with
  | nil => rfl
  | cons c t ih =>
    cases white : isJsSpace c with
    | true =>
      rw [List.takeWhile_cons_of_pos white] at ascii
      obtain ⟨here,later⟩ := List.forall_mem_cons.mp ascii
      rw [List.dropWhile_cons_of_pos white,List.dropWhile_cons_of_pos here,ih later]
    | false =>
      have space : isSpace c = false := by
        by_contra some
        rw [isJsSpace_of (by simpa using some)] at white
        contradiction
      rw [List.dropWhile_cons_of_neg (by simp [white]),List.dropWhile_cons_of_neg (by simp [space])]

theorem digit_noJsSpace {c : Char} (digit : c.isDigit = true) : isJsSpace c = false := by
  have plain : isSpace c = false := (digit_char digit).1
  have low : c.val.toNat ≤ 57 := by
    simp only [Char.isDigit,Bool.and_eq_true,decide_eq_true_eq] at digit
    exact digit.2
  have above (d : Char) (high : 57 < d.val.toNat) : c ≠ d := by
    rintro rfl
    omega
  have range : ¬( '\u2000' ≤ c) := fun high => by
    have : 0x2000 ≤ c.val.toNat := high
    omega
  simp [isJsSpace,plain,above,range]

/-- White space that `isspace` does not know ends the number before it begins. -/
theorem atoi_wide {t : Text} (wide : ∃ c ∈ t.takeWhile isJsSpace, isSpace c = false) : atoi t = 0 := by
  induction t with
  | nil => simp at wide
  | cons c t ih =>
    cases white : isJsSpace c with
    | false =>
      rw [List.takeWhile_cons_of_neg (by simp [white])] at wide
      simp at wide
    | true =>
      rw [List.takeWhile_cons_of_pos white] at wide
      cases space : isSpace c with
      | true =>
        have later : ∃ c ∈ t.takeWhile isJsSpace, isSpace c = false := by
          obtain ⟨d,member,odd⟩ := wide
          rcases List.mem_cons.mp member with rfl | inside
          · rw [space] at odd
            contradiction
          · exact ⟨d,inside,odd⟩
        have step : atoi (c :: t) = atoi t := by
          unfold atoi leadingInt
          rw [List.dropWhile_cons_of_pos space]
        exact step.trans (ih later)
      | false =>
        have noDigit : c.isDigit = false := by
          by_contra digit
          exact absurd white (by simp [digit_noJsSpace (by simpa using digit)])
        refine atoi_stop (s := []) space noDigit ?_ ?_
        · rintro rfl; revert white; decide
        · rintro rfl; revert white; decide

theorem parseIntText_leadingInt {t : Text} (ascii : ∀ c ∈ t.takeWhile isJsSpace, isSpace c = true)
    (parsed : parseIntText t = some n) : leadingInt t = n := by
  have signed {sign : Int} {t : Text} (h : signedDigits sign t = some n) : n = sign * natOf (t.takeWhile Char.isDigit) := by
    unfold signedDigits at h
    split_ifs at h
    exact (Option.some.inj h).symm
  unfold parseIntText at parsed
  rw [dropWhile_jsSpace ascii] at parsed
  split at parsed
  · rename_i rest front
    unfold leadingInt
    rw [front,signed parsed]
    exact (Int.neg_one_mul _).symm
  · rename_i rest front
    unfold leadingInt
    rw [front,signed parsed]
    exact (Int.one_mul _).symm
  · rename_i rest noMinus noPlus
    rw [signed parsed,Int.one_mul]
    unfold leadingInt
    split
    · rename_i front; exact absurd front (noMinus _)
    · rename_i front; exact absurd front (noPlus _)
    · rfl

/-- An IPv6 text that both validators read: an address without a dotted end and without a
zone, and no exotic blanks in front of the length. -/
def ScannableV6 (value : Text) : Prop :=
  ∀ addr length, splitFirst '/' value = some (addr,length) →
    (∀ c ∈ addr, c = ':' ∨ isXDigit c = true) ∧ ∀ c ∈ length.takeWhile isJsSpace, isSpace c = true

theorem validateCidrV6_split (accepted : validateCidrV6 value field = .ok ()) : ∃ addr length n,
    splitFirst '/' value = some (addr,length) ∧ netIsIPv6 addr = true ∧ parseIntText length = some n ∧ 1 ≤ n ∧ n ≤ 128 := by
  unfold validateCidrV6 at accepted
  split at accepted
  · rename_i addr length split
    split_ifs at accepted with valid
    obtain ⟨address,prefixed⟩ := valid
    obtain ⟨n,parsed,inRange⟩ := (Option.any_eq_true _ _).mp prefixed
    have bounds : 1 ≤ n ∧ n ≤ 128 := by simpa using inRange
    refine ⟨addr,length,n,?_,address,parsed,bounds⟩
    cases first : splitFirst '/' value with
    | none =>
      rw [List.splitOn_eq_singleton (splitFirst_eq_none.mp first)] at split
      simp at split
    | some r =>
      obtain ⟨front,back⟩ := r
      obtain ⟨rfl,absent⟩ := splitFirst_eq_some.mp first
      rw [List.splitOn_append_cons_self_of_not_mem absent] at split
      obtain ⟨rfl,pieces⟩ := List.cons.inj split
      have whole : ['/'].intercalate (back.splitOn '/') = back := List.intercalate_splitOn '/'
      rw [pieces] at whole
      exact congrArg (fun back => some (front,back)) (whole.symm.trans (List.append_nil _))
  · contradiction

theorem netIsIPv6_colon (valid : netIsIPv6 addr = true) : ':' ∈ addr := by
  have colon {t : Text} (h : isIPv6 t = true) : ':' ∈ t := by
    obtain ⟨bytes,read⟩ := Option.isSome_iff_exists.mp h
    exact (parseIpv6_eq_some read).2
  unfold netIsIPv6 at valid
  split at valid
  · exact colon valid
  · rename_i front zone split
    simp only [Bool.and_eq_true] at valid
    obtain ⟨rfl,-⟩ := splitFirst_eq_some.mp split
    exact List.mem_append_left _ (colon valid.1.1)

theorem validateCidrV6_iff (accepted : validateCidrV6 value field = .ok ()) (label : Text) :
    Nospoon.validateCidrV6 value label = .ok () ↔ ScannableV6 value := by
  obtain ⟨addr,length,n,split,address,parsed,low,high⟩ := validateCidrV6_split accepted
  have colon := netIsIPv6_colon address
  unfold Nospoon.validateCidrV6 ScannableV6
  simp only [split,Option.some.injEq,Prod.mk.injEq]
  constructor
  · intro passes
    rintro _ _ ⟨rfl,rfl⟩
    split_ifs at passes with outside clean
    refine ⟨fun c member => ?_,fun c member => ?_⟩
    · simpa using List.all_eq_true.mp clean c member
    · by_contra wide
      rw [atoi_wide ⟨c,member,by simpa using wide⟩] at outside
      exact outside (.inl (by decide))
  · intro scannable
    obtain ⟨chars,ascii⟩ := scannable addr length ⟨rfl,rfl⟩
    have leading := parseIntText_leadingInt ascii parsed
    have value : atoi length = n := (atoi_of_int (by omega) (by omega)).trans leading
    rw [value,if_neg (by omega),if_neg (not_not.mpr colon),if_pos]
    apply List.all_eq_true.mpr
    intro c member
    simpa using chars c member

theorem requireHex64_ok (h : requireHex64 value field = .ok v) : v = value ∧
    ∀ t, isText t value = true → ∀ label, Nospoon.validateHex64 t label = .ok () := by
  unfold requireHex64 at h
  split_ifs at h with hex
  obtain rfl := Except.ok.inj h
  refine ⟨rfl,fun t text label => ?_⟩
  obtain ⟨s,rfl,chars⟩ := isText_iff.mp text
  have tested : hexRe t = true := by simpa [testedText,shown_eq chars] using hex
  exact validateHex64_ok.mpr (hexRe_eq_true.mp tested)

theorem requireCidr_ok (h : requireCidr value field = .ok v) : v = value ∧ (∃ s, value = .str s) ∧
    ∀ t, isText t value = true → ∀ label, Nospoon.validateCidr t label = .ok () := by
  unfold requireCidr at h
  split at h
  · contradiction
  · rename_i octets length s matched
    split_ifs at h with invalid
    obtain rfl := Except.ok.inj h
    refine ⟨rfl,⟨s,rfl⟩,fun t text label => ?_⟩
    obtain ⟨_,same,chars⟩ := isText_iff.mp text
    obtain rfl := Value.str.inj same
    obtain ⟨small,fits⟩ := not_or.mp invalid
    refine validateCidr_ok.mpr ⟨octets,length,?_,Nat.le_of_not_lt fits,fun o member => ?_⟩
    · rw [← shown_eq chars]
      exact matched
    · by_contra large
      exact small (List.any_eq_true.mpr ⟨o,member,by simpa using large⟩)
  · contradiction

theorem requireCidrV6_ok (h : requireCidrV6 value field = .ok v) : v = value ∧ ∃ s, value = .str s ∧
    validateCidrV6 (shown s) field = .ok () := by
  unfold requireCidrV6 at h
  split at h
  · rename_i s
    obtain ⟨valid,same⟩ := seq_ok.mp h
    exact ⟨(Except.ok.inj same).symm,s,rfl,valid⟩
  · contradiction

theorem requireMtu_ok (h : requireMtu value = .ok mtu) :
    parseIntValue value = some mtu ∧ 576 ≤ mtu ∧ mtu ≤ 65535 := by
  unfold requireMtu at h
  split at h
  · contradiction
  · rename_i parsed
    split_ifs at h with outside
    obtain rfl := Except.ok.inj h
    exact ⟨parsed,by omega,by omega⟩

theorem map_ok {x : Except Text α} {f : α → β} : x.map f = .ok b ↔ ∃ a, x = .ok a ∧ f a = b := by
  cases x <;> simp [Except.map]

/-! ### Checked peers -/

/-- What keys and addresses consist of. -/
def WordChar (c : Char) : Prop := c.isAlphanum = true ∨ c = '.' ∨ c = ':' ∨ c = '%' ∨ c = '-'

theorem hexDigit_word (hex : isXDigit c = true) : WordChar c := by
  simp only [isXDigit,Bool.or_eq_true,Bool.and_eq_true,decide_eq_true_eq] at hex
  have letter (alpha : c.isUpper = true ∨ c.isLower = true) : c.isAlphanum = true :=
    Bool.or_eq_true_iff.mpr (.inl (Bool.or_eq_true_iff.mpr alpha))
  refine .inl ?_
  rcases hex with (digit | ⟨low,high⟩) | ⟨low,high⟩
  · exact Bool.or_eq_true_iff.mpr (.inr digit)
  · have last : c ≤ 'z' := Char.le_trans high (by decide)
    exact letter (.inr (Bool.and_eq_true_iff.mpr ⟨decide_eq_true low,decide_eq_true last⟩))
  · have last : c ≤ 'Z' := Char.le_trans high (by decide)
    have lower : 'A' ≤ c := low
    exact letter (.inl (decide_eq_true ⟨lower,last⟩))

theorem word_char (word : WordChar c) :
    c ≠ '"' ∧ c ≠ '\\' ∧ c ≠ '\x7d' ∧ c ≠ '\ufffd' ∧ ∀ e ∈ simpleEscapes, c ≠ escaped e := by
  have apart (d : Char) (other : ¬(d.isAlphanum = true ∨ d = '.' ∨ d = ':' ∨ d = '%' ∨ d = '-')) : c ≠ d := by
    rintro rfl
    exact other word
  refine ⟨apart _ (by decide),apart _ (by decide),apart _ (by decide),apart _ (by decide),?_⟩
  simp only [simpleEscapes,List.forall_mem_cons]
  exact ⟨apart _ (by decide),apart _ (by decide),apart _ (by decide),apart _ (by decide),apart _ (by decide),
    apart _ (by decide),apart _ (by decide),apart _ (by decide),by simp⟩

theorem addressChar_word (char : AddressChar c) : WordChar c := by
  rcases char with hex | rfl | rfl
  · exact hexDigit_word hex
  · exact .inr (.inl rfl)
  · exact .inr (.inr (.inl rfl))

theorem netIsIPv6_word (valid : netIsIPv6 ip = true) : ∀ c ∈ ip, WordChar c := by
  unfold netIsIPv6 at valid
  split at valid
  · exact fun c member => addressChar_word (isIPv6_chars valid c member)
  · rename_i addr zone split
    obtain ⟨rfl,-⟩ := splitFirst_eq_some.mp split
    simp only [Bool.and_eq_true] at valid
    obtain ⟨⟨address,-⟩,zoned⟩ := valid
    intro c member
    rcases List.mem_append.mp member with here | there
    · exact addressChar_word (isIPv6_chars address c here)
    · rcases List.mem_cons.mp there with rfl | inside
      · exact .inr (.inr (.inr (.inl rfl)))
      · have char := List.all_eq_true.mp zoned c inside
        simp only [Bool.or_eq_true,decide_eq_true_eq] at char
        rcases char with ((alnum | rfl) | rfl) | rfl
        · exact .inl alnum
        · exact .inr (.inr (.inr (.inr rfl)))
        · exact .inr (.inl rfl)
        · exact .inr (.inr (.inl rfl))

/-- An entry of the peers object and the pair it gives: the address stays the value it is. -/
structure EntryPasses (e : List (Option Char) × Value) (pair : Text × Value) : Prop where
  name : e.1 = ofText pair.1
  value : pair.2 = e.2
  hex : hexRe pair.1 = true
  known : isIPv4 (peerText e.2) = true ∨ netIsIPv6 (peerText e.2) = true

theorem EntryPasses.key {e : List (Option Char) × Value} (passed : EntryPasses e pair) : ∀ c ∈ pair.1, WordChar c :=
  fun c member => hexDigit_word ((hexRe_eq_true.mp passed.hex).2 c member)

theorem EntryPasses.ip {e : List (Option Char) × Value} (passed : EntryPasses e pair) : ∀ c ∈ peerText e.2, WordChar c := by
  rcases passed.known with four | six
  · exact fun c member => addressChar_word (isIPv4_chars four c member)
  · exact netIsIPv6_word six

theorem ofText_shown {s : List (Option Char)} (words : ∀ c ∈ s.map (·.getD '\ufffd'), WordChar c) :
    s = ofText (s.map (·.getD '\ufffd')) := by
  induction s with
  | nil => rfl
  | cons a s ih =>
    obtain ⟨here,later⟩ := List.forall_mem_cons.mp words
    cases a with
    | none => exact absurd rfl (word_char here).2.2.2.1
    | some c => exact congrArg (some c :: ·) (ih later)

/-- A string that is an address has no halves of surrogate pairs. -/
theorem EntryPasses.chars {name : List (Option Char)} {s : Parts} (passed : EntryPasses (name,.str s) pair) : characters s = ofText (shown s) :=
  ofText_shown passed.ip

theorem unknown_iff (ip : Text) :
    (!isIPv4 ip && !netIsIPv6 ip) = true ↔ ¬(isIPv4 ip = true ∨ netIsIPv6 ip = true) := by simp

theorem checkEntry_ok (h : checkEntry subnet seen name value = .ok pair) : EntryPasses (name,value) pair := by
  unfold checkEntry at h
  obtain ⟨key,checked,h⟩ := bind_ok.mp h
  obtain ⟨rfl,length,hex⟩ := require64_ok.mp checked
  have keyWord : ∀ c ∈ name.map (·.getD '\ufffd'), WordChar c := fun c member => hexDigit_word (hex c member)
  simp only [unknown_iff,ite_not] at h
  by_cases known : isIPv4 (peerText value) = true ∨ netIsIPv6 (peerText value) = true
  swap
  · rw [if_neg known] at h
    contradiction
  rw [if_pos known] at h
  simp only [seq_ok] at h
  obtain ⟨-,-,same⟩ := h
  obtain rfl := Except.ok.inj same
  exact ⟨ofText_shown keyWord,rfl,hexRe_eq_true.mpr ⟨length,hex⟩,known⟩

/-- The pairs of accepted entries are these entries. -/
theorem pairs_iff {entries : List (List (Option Char) × Value)} (passes : List.Forall₂ EntryPasses entries pairs) :
    (key,v) ∈ pairs ↔ (ofText key,v) ∈ entries := by
  have injective : ofText.Injective := List.map_injective_iff.mpr (Option.some_injective _)
  induction passes with
  | nil => simp
  | @cons e pair entries pairs here _ ih =>
    obtain ⟨name,value⟩ := e
    obtain ⟨k,v'⟩ := pair
    obtain ⟨rfl,rfl,-,-⟩ := here
    simp only [List.mem_cons,ih,Prod.mk.injEq,injective.eq_iff]

theorem pairs_distinct {entries : List (List (Option Char) × Value)} (passes : List.Forall₂ EntryPasses entries pairs)
    (distinct : (entries.map Prod.fst).Nodup) : (pairs.map Prod.fst).Nodup := by
  have names : (pairs.map Prod.fst).map ofText = entries.map Prod.fst := by
    clear distinct
    induction passes with
    | nil => rfl
    | cons here _ ih => rw [List.map_cons,List.map_cons,List.map_cons,ih,here.name]
  rw [← names] at distinct
  exact distinct.of_map

theorem passes_member {entries : List (List (Option Char) × Value)} (passes : List.Forall₂ EntryPasses entries pairs)
    (member : e ∈ entries) : ∃ pair, EntryPasses e pair := by
  induction passes with
  | nil => contradiction
  | cons here _ ih =>
    rcases List.mem_cons.mp member with rfl | later
    · exact ⟨_,here⟩
    · exact ih later

theorem checkEntries_ok (h : checkEntries subnet seen rest = .ok pairs) : List.Forall₂ EntryPasses rest pairs := by
  induction rest generalizing seen pairs with
  | nil =>
    obtain rfl := Except.ok.inj h
    exact .nil
  | cons e rest ih =>
    simp only [checkEntries,bind_ok] at h
    obtain ⟨pair,here,pairs',later,same⟩ := h
    obtain rfl := Except.ok.inj same
    exact .cons (checkEntry_ok here) (ih later)

/-- What an accepted peers value gives: every name that counts is a key and keeps its
value, whose text is an address. -/
theorem validatePeersValue_ok (h : validatePeersValue value cidr = .ok peers) : ∃ es, value = .obj es ∧
    (∀ key, peers.lookup key = (ownEntries es).lookup (ofText key)) ∧
    ∀ name v, (ownEntries es).lookup name = some v → ∃ pair, EntryPasses (name,v) pair := by
  unfold validatePeersValue at h
  split at h
  · rename_i es
    dsimp only at h
    obtain ⟨pairs,checked,same⟩ := bind_ok.mp h
    obtain rfl := Except.ok.inj same
    have passes := checkEntries_ok checked
    have member (name : List (Option Char)) (v : Value) :
        (name,v) ∈ (ownEntries es).entries.map (fun e => (e.1,e.2)) ↔ (ownEntries es).lookup name = some v := mem_pairs_iff
    have distinct : (((ownEntries es).entries.map fun e => (e.1,e.2)).map Prod.fst).Nodup := by
      rw [List.map_map]
      exact (ownEntries es).nodupKeys
    have keys := pairs_distinct passes distinct
    refine ⟨es,rfl,fun key => Option.ext fun v => ?_,fun name v found => ?_⟩
    · have listed : (insertAll ∅ pairs).lookup key = some v ↔ (key,v) ∈ pairs := lookup_insertAll_iff keys
      rw [listed,pairs_iff passes,member]
    · exact passes_member passes ((member name v).mpr found)
  · contradiction

/-! ### Spelled words -/

theorem quiet_of_words {s : Parts} (valid : ∀ p ∈ s, Part.Valid p) (chars : characters s = ofText t)
    (words : ∀ c ∈ t, WordChar c) : Quiet s := by
  have char (p : Part) (member : p ∈ s) (c : Char) (value : plainValue p = some c) : WordChar c := by
    have inside := value_mem_characters s p member c value
    rw [chars,ofText,List.mem_map] at inside
    obtain ⟨d,there,same⟩ := inside
    exact Option.some.inj same ▸ words d there
  have free (d : Char) (noWord : ¬WordChar d) (noUnit : d ≠ '\\' ∧ d ≠ 'u' ∧ isXDigit d = false) : d ∉ spelled s := by
    intro inside
    obtain ⟨p,member,here⟩ := List.mem_flatMap.mp inside
    cases p with
    | char c =>
      obtain rfl := List.mem_singleton.mp here
      exact noWord (char _ member d rfl)
    | escape e =>
      have word := char _ member (escaped e) rfl
      exact (word_char word).2.2.2.2 e (valid _ member) rfl
    | unit digits =>
      simp only [Part.text,List.mem_cons] at here
      rcases here with slash | u | digit
      · exact noUnit.1 slash
      · exact noUnit.2.1 u
      · have hex := (valid _ member).2 d digit
        rw [noUnit.2.2] at hex
        contradiction
  exact ⟨free _ (fun word => (word_char word).1 rfl) (by decide),
    free _ (fun word => (word_char word).2.2.1 rfl) (by decide)⟩

/-- A word is spelled without a backslash exactly where its spelling is the word. -/
theorem literal_iff {s : Parts} (chars : characters s = ofText t) (words : ∀ c ∈ t, WordChar c) :
    Literal s ↔ spelled s = t := by
  constructor
  · intro literal
    have same : ofText (spelled s) = ofText t := (characters_literal literal).symm.trans chars
    exact List.map_injective_iff.mpr (Option.some_injective _) same
  · rintro rfl
    exact literal_of_noEscape fun slash => absurd rfl (word_char (words _ slash)).2.1

/-- With names spelled out, the scanner's table is the parser's, value for value. -/
theorem scanned_lookup (names : ∀ e ∈ es, Literal e.1) (key : Text) :
    (insertPairs ∅ (es.map scannedPair)).lookup key = ((ownEntries es).lookup (ofText key)).map valueText := by
  have injective : ofText.Injective := List.map_injective_iff.mpr (Option.some_injective _)
  have values : ∀ e ∈ es, valueText ((fun e : Parts × Value => e.2) e) = (scannedPair e).2 := fun _ _ => rfl
  exact lookup_insertAll_image injective (fun e member => (characters_literal (names e member)).symm) values
    (fun _ => rfl) key

end Nospoon.Js
