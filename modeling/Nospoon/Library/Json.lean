import Mathlib.Data.List.TakeWhile
import Nospoon.Library.Scan

/-! JSON texts (ECMA-404). The reader keeps how a text spells its values: a string is the
list of its parts, a number its digits, and a member of an object knows what follows its
colon, so that another reader of the same text can be held against it. -/
namespace Library.Json

/-! ### Values as they are spelled -/

/-- A character, `\e`, or `\u` and four hexadecimal digits. -/
inductive Part where
  | char (c : Char)
  | escape (e : Char)
  | unit (digits : List Char)
  deriving DecidableEq, Repr

abbrev Parts := List Part

def Part.text : Part → List Char
  | .char c => [c]
  | .escape e => ['\\',e]
  | .unit digits => '\\' :: 'u' :: digits

/-- What stands between the quotes. -/
def spelled (s : Parts) : List Char := s.flatMap Part.text

/-! ### What strings stand for -/

def digitValue (c : Char) : Nat :=
  if c.isDigit then c.toNat - '0'.toNat
  else if c ≤ 'F' then c.toNat - 'A'.toNat + 10
  else c.toNat - 'a'.toNat + 10

/-- A UTF-16 code unit. -/
def unitValue (digits : List Char) : Nat := digits.foldl (fun n c => 16 * n + digitValue c) 0

/-- A code unit by itself. Half a surrogate pair is no character. -/
def loneUnit (u : Nat) : Option Char := if 0xd800 ≤ u ∧ u ≤ 0xdfff then none else some (Char.ofNat u)

def escaped : Char → Char
  | 'b' => '\x08'
  | 'f' => '\x0c'
  | 'n' => '\n'
  | 'r' => '\r'
  | 't' => '\t'
  | e => e

/-- The characters of a string. Two units that form a surrogate pair are one of them; a
surrogate without its partner, which no text can hold, is `none`. -/
def characters : Parts → List (Option Char)
  | [] => []
  | .char c :: s => some c :: characters s
  | .escape e :: s => some (escaped e) :: characters s
  | .unit high :: .unit low :: s =>
    if (0xd800 ≤ unitValue high ∧ unitValue high < 0xdc00) ∧ 0xdc00 ≤ unitValue low ∧ unitValue low < 0xe000 then
      some (Char.ofNat (0x10000 + 0x400 * (unitValue high - 0xd800) + (unitValue low - 0xdc00))) :: characters s
    else loneUnit (unitValue high) :: characters (.unit low :: s)
  | .unit digits :: s => loneUnit (unitValue digits) :: characters s

/-! ### Syntax trees -/

structure Number where
  negative : Bool
  whole : List Char
  fraction : List Char
  exponent : Int
  deriving DecidableEq, Repr

inductive Value where
  | null
  | bool (b : Bool)
  | num (n : Number)
  | str (s : Parts)
  | arr (items : List Value)
  | obj (members : List (Parts × Value))

/-- A member of an object, with the text behind its colon. -/
structure Member where
  name : Parts
  behind : List Char
  value : Value

def Member.entry (m : Member) : Parts × Value := (m.name,m.value)

/-! ### Reading -/

def isWhite (c : Char) : Bool := c = ' ' || c = '\t' || c = '\n' || c = '\r'

def skip (t : List Char) : List Char := t.dropWhile isWhite

/-- The characters that stand for one by themselves behind a backslash. -/
def simpleEscapes : List Char := ['"','\\','/','b','f','n','r','t']

/-- What a reader found, put in front of what the next one finds. -/
def put (a : α) (found : List α × List Char) : List α × List Char := (a :: found.1,found.2)

/-- A string behind its opening quote. -/
def readString : List Char → Option (Parts × List Char)
  | [] => none
  | '"' :: t => some ([],t)
  | '\\' :: 'u' :: a :: b :: c :: d :: t =>
    if [a,b,c,d].all isXDigit then (readString t).map (put (.unit [a,b,c,d])) else none
  | '\\' :: e :: t => if e ∈ simpleEscapes then (readString t).map (put (.escape e)) else none
  | c :: t => if c.toNat < 32 then none else (readString t).map (put (.char c))

/-- One digit or more. -/
def readDigits (t : List Char) : Option (List Char × List Char) :=
  if t.takeWhile Char.isDigit = [] then none else some (t.takeWhile Char.isDigit,t.dropWhile Char.isDigit)

/-- The digits behind a point, if there is one. -/
def readFraction : List Char → Option (List Char × List Char)
  | '.' :: t => readDigits t
  | t => some ([],t)

/-- The exponent behind its letter. -/
def readPower (t : List Char) : Option (Int × List Char) :=
  match t with
  | '-' :: t => (readDigits t).map fun r => (-(natOf r.1 : Int),r.2)
  | '+' :: t => (readDigits t).map fun r => ((natOf r.1 : Int),r.2)
  | t => (readDigits t).map fun r => ((natOf r.1 : Int),r.2)

def readExponent : List Char → Option (Int × List Char)
  | 'e' :: t => readPower t
  | 'E' :: t => readPower t
  | t => some (0,t)

/-- Digits that may stand in front of the point: no zero leads others. -/
def readWhole (t : List Char) : Option (List Char × List Char) :=
  (readDigits t).filter fun r => r.1.length = 1 || r.1.head? ≠ some '0'

def readUnsigned (negative : Bool) (t : List Char) : Option (Number × List Char) := do
  let (whole,t) ← readWhole t
  let (fraction,t) ← readFraction t
  let (exponent,t) ← readExponent t
  return (⟨negative,whole,fraction,exponent⟩,t)

def readNumber : List Char → Option (Number × List Char)
  | '-' :: t => readUnsigned true t
  | t => readUnsigned false t

/-- A value that is one word. -/
def readWord (word : String) (value : Value) (t : List Char) : Option (Value × List Char) :=
  (afterPrefix word.toList t).map fun t => (value,t)

def readScalar : List Char → Option (Value × List Char)
  | '"' :: t => (readString t).map fun r => (.str r.1,r.2)
  | 'n' :: t => readWord "ull" .null t
  | 't' :: t => readWord "rue" (.bool true) t
  | 'f' :: t => readWord "alse" (.bool false) t
  | t => (readNumber t).map fun r => (.num r.1,r.2)

/-- A member's name and its colon: the name and what follows. -/
def readName (t : List Char) : Option (Parts × List Char) :=
  match skip t with
  | '"' :: t => do
    let (name,t) ← readString t
    match skip t with
    | ':' :: behind => some (name,behind)
    | _ => none
  | _ => none

/-- Behind an item: the closing bracket, or a comma and more items. -/
def closeOrMore (close : Char) (item : α) (more : List Char → Option (List α × List Char)) (t : List Char) :
    Option (List α × List Char) :=
  match skip t with
  | [] => none
  | c :: t => if c = close then some ([item],t) else if c = ',' then (more t).map (put item) else none

/-! `fuel` bounds the nesting; twice the length of the text is always enough. -/

mutual

def readValue : Nat → List Char → Option (Value × List Char)
  | 0, _ => none
  | fuel + 1, t =>
    match skip t with
    | '[' :: t =>
      match skip t with
      | ']' :: t => some (.arr [],t)
      | _ => (readItems fuel t).map fun r => (.arr r.1,r.2)
    | '{' :: t =>
      match skip t with
      | '}' :: t => some (.obj [],t)
      | _ => (readMembers fuel t).map fun r => (.obj (r.1.map Member.entry),r.2)
    | t => readScalar t

/-- Items up to the closing bracket. -/
def readItems : Nat → List Char → Option (List Value × List Char)
  | 0, _ => none
  | fuel + 1, t => (readValue fuel t).bind fun r => closeOrMore ']' r.1 (readItems fuel) r.2

/-- Members up to the closing brace. -/
def readMembers : Nat → List Char → Option (List Member × List Char)
  | 0, _ => none
  | fuel + 1, t =>
    (readName t).bind fun name =>
      (readValue fuel name.2).bind fun r => closeOrMore '\x7d' ⟨name.1,name.2,r.1⟩ (readMembers fuel) r.2

end

/-- Only blanks may follow. -/
def finish (found : α × List Char) : Option α := if skip found.2 = [] then some found.1 else none

def enough (t : List Char) : Nat := 2 * t.length

/-- `JSON.parse`. -/
def parse (t : List Char) : Option Value := (readValue (enough t + 1) t).bind finish

/-- The members of a text that is one object. -/
def topLevel (t : List Char) : Option (List Member) :=
  match skip t with
  | '{' :: rest =>
    match skip rest with
    | '}' :: rest => finish ([],rest)
    | _ => (readMembers (enough t) rest).bind finish
  | _ => none


/-! ### What a reader leaves -/

theorem skip_length (t : List Char) : (skip t).length ≤ t.length := (List.dropWhile_suffix _).length_le

theorem skip_cons (h : skip t = c :: r) : r.length < t.length := by
  have shorter := skip_length t
  rw [h,List.length_cons] at shorter
  exact shorter

/-- The parts of a string that is well formed. -/
def Part.Valid : Part → Prop
  | .char c => 32 ≤ c.toNat ∧ c ≠ '"' ∧ c ≠ '\\'
  | .escape e => e ∈ simpleEscapes
  | .unit digits => digits.length = 4 ∧ ∀ c ∈ digits, isXDigit c = true

/-- A string is read exactly up to its closing quote. -/
theorem readString_some (h : readString t = some (s,r)) : t = spelled s ++ '"' :: r ∧ ∀ p ∈ s, p.Valid := by
  induction t using readString.induct generalizing s with
  | case1 => contradiction
  | case2 t =>
    obtain ⟨rfl,rfl⟩ := Prod.mk.inj (Option.some.inj h)
    exact ⟨rfl,by simp⟩
  | case3 a b c d t hex ih =>
    rw [readString,if_pos hex] at h
    obtain ⟨⟨s',r'⟩,read,same⟩ := Option.map_eq_some_iff.mp h
    obtain ⟨rfl,rfl⟩ := Prod.mk.inj same
    obtain ⟨rfl,valid⟩ := ih read
    exact ⟨rfl,List.forall_mem_cons.mpr ⟨⟨rfl,List.all_eq_true.mp hex⟩,valid⟩⟩
  | case4 a b c d t noHex =>
    rw [readString,if_neg noHex] at h
    contradiction
  | case5 e t other simple ih =>
    rw [readString,if_pos simple] at h
    · obtain ⟨⟨s',r'⟩,read,same⟩ := Option.map_eq_some_iff.mp h
      obtain ⟨rfl,rfl⟩ := Prod.mk.inj same
      obtain ⟨rfl,valid⟩ := ih read
      exact ⟨rfl,List.forall_mem_cons.mpr ⟨simple,valid⟩⟩
    · exact other
  | case6 e t other hard =>
    rw [readString,if_neg hard] at h
    · contradiction
    · exact other
  | case7 c t noQuote noUnit noEscape low =>
    rw [readString,if_pos low] at h
    · contradiction
    · exact noQuote
    · exact noUnit
    · exact noEscape
  | case8 c t noQuote noUnit noEscape high ih =>
    rw [readString,if_neg high] at h
    · obtain ⟨⟨s',r'⟩,read,same⟩ := Option.map_eq_some_iff.mp h
      obtain ⟨rfl,rfl⟩ := Prod.mk.inj same
      obtain ⟨rest,valid⟩ := ih read
      refine ⟨congrArg (c :: ·) rest,List.forall_mem_cons.mpr ⟨⟨Nat.le_of_not_lt high,noQuote,fun same => ?_⟩,valid⟩⟩
      -- a backslash has a character behind it, so another clause reads it
      cases t with
      | nil => contradiction
      | cons e t => exact noEscape e t same rfl
    · exact noQuote
    · exact noUnit
    · exact noEscape

theorem readDigits_some (h : readDigits t = some (digits,r)) :
    t = digits ++ r ∧ digits ≠ [] ∧ (∀ c ∈ digits, c.isDigit = true) ∧ ∀ c ∈ r.head?, c.isDigit = false := by
  unfold readDigits at h
  split_ifs at h with none
  obtain ⟨rfl,rfl⟩ := Prod.mk.inj (Option.some.inj h)
  refine ⟨List.takeWhile_append_dropWhile.symm,none,fun c member => List.mem_takeWhile_imp member,fun c first => ?_⟩
  have stop := List.head?_dropWhile_not Char.isDigit t
  rw [Option.mem_def.mp first] at stop
  simpa using stop

/-- The digits in front of the point stand at the front of the text. -/
theorem readNumber_some (h : readNumber t = some (n,r)) : ∃ tail,
    t = (if n.negative then ['-'] else []) ++ n.whole ++ tail ∧ n.whole ≠ [] ∧ (∀ c ∈ n.whole, c.isDigit = true) ∧
      (∀ c ∈ tail.head?, c.isDigit = false) ∧ r.length ≤ tail.length := by
  have unsigned {negative : Bool} {t : List Char} (h : readUnsigned negative t = some (n,r)) : n.negative = negative ∧
      ∃ tail, t = n.whole ++ tail ∧ n.whole ≠ [] ∧ (∀ c ∈ n.whole, c.isDigit = true) ∧
        (∀ c ∈ tail.head?, c.isDigit = false) ∧ r.length ≤ tail.length := by
    simp only [readUnsigned,bind,Option.bind_eq_some_iff,Prod.exists,pure,Option.some.injEq,Prod.mk.injEq] at h
    obtain ⟨whole,tail,found,fraction,t₂,second,exponent,t₃,third,rfl,rfl⟩ := h
    obtain ⟨digits,-⟩ := Option.filter_eq_some_iff.mp found
    obtain ⟨same,nonempty,digits,ends⟩ := readDigits_some digits
    have le₂ : t₂.length ≤ tail.length := by
      unfold readFraction at second
      split at second
      · obtain ⟨rfl,-⟩ := readDigits_some second
        simp
        omega
      · obtain ⟨-,rfl⟩ := Prod.mk.inj (Option.some.inj second)
        exact le_rfl
    have power {t : List Char} (h : readPower t = some (exponent,t₃)) : t₃.length ≤ t.length := by
      unfold readPower at h
      split at h
      all_goals
        obtain ⟨⟨digits,rest⟩,read,same⟩ := Option.map_eq_some_iff.mp h
        obtain ⟨rfl,rfl⟩ := Prod.mk.inj same
        obtain ⟨rfl,-⟩ := readDigits_some read
        simp
        try omega
    have le₃ : t₃.length ≤ t₂.length := by
      unfold readExponent at third
      split at third
      · exact (power third).trans (Nat.le_succ _)
      · exact (power third).trans (Nat.le_succ _)
      · obtain ⟨-,rfl⟩ := Prod.mk.inj (Option.some.inj third)
        exact le_rfl
    exact ⟨rfl,tail,same,nonempty,digits,ends,le₃.trans le₂⟩
  unfold readNumber at h
  split at h
  · obtain ⟨sign,tail,rfl,rest⟩ := unsigned h
    exact ⟨tail,by simp [sign],rest⟩
  · obtain ⟨sign,tail,rfl,rest⟩ := unsigned h
    exact ⟨tail,by simp [sign],rest⟩

theorem readWord_some (h : readWord word v t = some (v',r)) : v' = v ∧ t = word.toList ++ r := by
  obtain ⟨rest,found,same⟩ := Option.map_eq_some_iff.mp h
  obtain ⟨rfl,rfl⟩ := Prod.mk.inj same
  exact ⟨rfl,afterPrefix_eq_some.mp found⟩

/-- What a scalar looks like in front of `r`. -/
inductive Scalar : Value → List Char → List Char → Prop
  | null : Scalar .null ("null".toList ++ r) r
  | yes : Scalar (.bool true) ("true".toList ++ r) r
  | no : Scalar (.bool false) ("false".toList ++ r) r
  | str (valid : ∀ p ∈ s, Part.Valid p) : Scalar (.str s) ('"' :: spelled s ++ '"' :: r) r
  | num {n : Number} (nonempty : n.whole ≠ []) (digits : ∀ c ∈ n.whole, c.isDigit = true)
      (ends : ∀ c ∈ tail.head?, c.isDigit = false) (shorter : List.length r ≤ List.length tail) :
    Scalar (.num n) ((if n.negative then ['-'] else []) ++ n.whole ++ tail) r

theorem readScalar_some (h : readScalar t = some (v,r)) : Scalar v t r := by
  unfold readScalar at h
  split at h
  · obtain ⟨⟨s,rest⟩,read,same⟩ := Option.map_eq_some_iff.mp h
    obtain ⟨rfl,rfl⟩ := Prod.mk.inj same
    obtain ⟨rfl,valid⟩ := readString_some read
    exact .str valid
  · obtain ⟨rfl,rfl⟩ := readWord_some h
    exact .null
  · obtain ⟨rfl,rfl⟩ := readWord_some h
    exact .yes
  · obtain ⟨rfl,rfl⟩ := readWord_some h
    exact .no
  · obtain ⟨⟨n,rest⟩,read,same⟩ := Option.map_eq_some_iff.mp h
    obtain ⟨rfl,rfl⟩ := Prod.mk.inj same
    obtain ⟨tail,rfl,nonempty,digits,ends,shorter⟩ := readNumber_some read
    exact .num nonempty digits ends shorter

theorem Scalar.length (scalar : Scalar v t r) : r.length < t.length := by
  cases scalar with
  | null => simp; omega
  | yes => simp; omega
  | no => simp; omega
  | str => simp; omega
  | num nonempty digits ends shorter =>
    have some := List.length_pos_of_ne_nil nonempty
    simp only [List.length_append]
    omega

theorem readName_some (h : readName t = some (name,behind)) : ∃ gap, (∀ c ∈ gap, isWhite c = true) ∧
    skip t = '"' :: spelled name ++ '"' :: gap ++ ':' :: behind ∧ ∀ p ∈ name, p.Valid := by
  unfold readName at h
  split at h
  · rename_i rest quote
    simp only [bind,Option.bind_eq_some_iff,Prod.exists] at h
    obtain ⟨name',rest',read,h⟩ := h
    split at h
    · rename_i colon
      obtain ⟨rfl,rfl⟩ := Prod.mk.inj (Option.some.inj h)
      obtain ⟨rfl,valid⟩ := readString_some read
      refine ⟨rest'.takeWhile isWhite,fun c member => List.mem_takeWhile_imp member,?_,valid⟩
      rw [quote,List.append_assoc,List.cons_append,List.cons_append,← colon]
      exact congrArg ('"' :: spelled name' ++ '"' :: ·) List.takeWhile_append_dropWhile.symm
    · contradiction
  · contradiction

/-! ### Nested values -/

theorem closeOrMore_some {more : List Char → Option (List α × List Char)} (h : closeOrMore close item more t = some (found,r)) :
    (skip t = close :: r ∧ found = [item]) ∨
      ∃ rest others, skip t = ',' :: rest ∧ more rest = some (others,r) ∧ found = item :: others := by
  unfold closeOrMore at h
  split at h
  · contradiction
  · rename_i c rest front
    split_ifs at h with here comma
    · obtain ⟨rfl,rfl⟩ := Prod.mk.inj (Option.some.inj h)
      exact .inl ⟨front.trans (congrArg (· :: rest) here),rfl⟩
    · obtain ⟨⟨others,r'⟩,read,same⟩ := Option.map_eq_some_iff.mp h
      obtain ⟨rfl,rfl⟩ := Prod.mk.inj same
      exact .inr ⟨rest,others,front.trans (congrArg (· :: rest) comma),read,rfl⟩

theorem readItems_some (h : readItems (fuel + 1) t = some (found,r)) : ∃ v rest, readValue fuel t = some (v,rest) ∧
    closeOrMore ']' v (readItems fuel) rest = some (found,r) := by
  obtain ⟨⟨v,rest⟩,read,closed⟩ := Option.bind_eq_some_iff.mp (readItems.eq_2 t fuel ▸ h)
  exact ⟨v,rest,read,closed⟩

theorem readMembers_some (h : readMembers (fuel + 1) t = some (found,r)) : ∃ name behind v rest,
    readName t = some (name,behind) ∧ readValue fuel behind = some (v,rest) ∧
      closeOrMore '\x7d' ⟨name,behind,v⟩ (readMembers fuel) rest = some (found,r) := by
  obtain ⟨⟨name,behind⟩,first,h⟩ := Option.bind_eq_some_iff.mp (readMembers.eq_2 t fuel ▸ h)
  obtain ⟨⟨v,rest⟩,read,closed⟩ := Option.bind_eq_some_iff.mp h
  exact ⟨name,behind,v,rest,first,read,closed⟩

/-- What a value looks like in front of `r`, one level deep. -/
inductive Shape (fuel : Nat) : Value → List Char → List Char → Prop
  | noItems (close : skip t = ']' :: r) : Shape fuel (.arr []) ('[' :: t) r
  | items (read : readItems fuel t = some (vs,r)) : Shape fuel (.arr vs) ('[' :: t) r
  | noMembers (close : skip t = '\x7d' :: r) : Shape fuel (.obj []) ('\x7b' :: t) r
  | members (read : readMembers fuel t = some (ms,r)) : Shape fuel (.obj (ms.map Member.entry)) ('\x7b' :: t) r
  | scalar (scalar : Scalar v t r) : Shape fuel v t r

theorem readValue_some (h : readValue (fuel + 1) t = some (v,r)) : Shape fuel v (skip t) r := by
  rw [readValue] at h
  split at h
  · rename_i rest front
    rw [front]
    split at h
    · rename_i close
      obtain ⟨rfl,rfl⟩ := Prod.mk.inj (Option.some.inj h)
      exact .noItems close
    · obtain ⟨⟨vs,r'⟩,read,same⟩ := Option.map_eq_some_iff.mp h
      obtain ⟨rfl,rfl⟩ := Prod.mk.inj same
      exact .items read
  · rename_i rest front
    rw [front]
    split at h
    · rename_i close
      obtain ⟨rfl,rfl⟩ := Prod.mk.inj (Option.some.inj h)
      exact .noMembers close
    · obtain ⟨⟨ms,r'⟩,read,same⟩ := Option.map_eq_some_iff.mp h
      obtain ⟨rfl,rfl⟩ := Prod.mk.inj same
      exact .members read
  · exact .scalar (readScalar_some h)

/-- Every reader takes something off the text. -/
theorem progress (fuel : Nat) :
    (∀ t v r, readValue fuel t = some (v,r) → r.length < t.length) ∧
    (∀ t vs r, readItems fuel t = some (vs,r) → r.length < t.length) ∧
    ∀ t ms r, readMembers fuel t = some (ms,r) → r.length < t.length := by
  induction fuel with
  | zero => exact ⟨nofun,nofun,nofun⟩
  | succ fuel ih =>
    obtain ⟨values,items,members⟩ := ih
    have closes {α : Type} {close : Char} {item : α} {more : List Char → Option (List α × List Char)} {t found r}
        (later : ∀ t found r, more t = some (found,r) → r.length < t.length)
        (h : closeOrMore close item more t = some (found,r)) : r.length < t.length := by
      rcases closeOrMore_some h with ⟨closed,-⟩ | ⟨rest,others,comma,read,-⟩
      · exact skip_cons closed
      · exact (later _ _ _ read).trans (skip_cons comma)
    refine ⟨fun t v r h => ?_,fun t vs r h => ?_,fun t ms r h => ?_⟩
    · have shorter {u : List Char} (shape : Shape fuel v u r) : r.length < u.length := by
        cases shape with
        | noItems close => exact (skip_cons close).trans (Nat.lt_succ_self _)
        | items read => exact (items _ _ _ read).trans (Nat.lt_succ_self _)
        | noMembers close => exact (skip_cons close).trans (Nat.lt_succ_self _)
        | members read => exact (members _ _ _ read).trans (Nat.lt_succ_self _)
        | scalar scalar => exact scalar.length
      exact (shorter (readValue_some h)).trans_le (skip_length t)
    · obtain ⟨v,rest,read,closed⟩ := readItems_some h
      exact (closes items closed).trans (values _ _ _ read)
    · obtain ⟨name,behind,v,rest,first,read,closed⟩ := readMembers_some h
      have last := (closes members closed).trans (values _ _ _ read)
      obtain ⟨gap,-,front,-⟩ := readName_some first
      have sized := skip_length t
      simp only [front,List.length_append,List.length_cons] at sized
      omega

/-- Fuel for twice the length is enough: more of it reads the same. -/
theorem more_fuel (fuel : Nat) :
    (∀ t, enough t + 1 ≤ fuel → readValue (fuel + 1) t = readValue fuel t) ∧
    (∀ t, enough t + 2 ≤ fuel → readItems (fuel + 1) t = readItems fuel t) ∧
    ∀ t, enough t + 2 ≤ fuel → readMembers (fuel + 1) t = readMembers fuel t := by
  induction fuel with
  | zero => exact ⟨nofun,nofun,nofun⟩
  | succ fuel ih =>
    obtain ⟨values,items,members⟩ := ih
    have closes {α : Type} {close : Char} {item : α} {more more' : List Char → Option (List α × List Char)} {t : List Char}
        (later : ∀ rest, rest.length < t.length → more rest = more' rest) :
        closeOrMore close item more t = closeOrMore close item more' t := by
      unfold closeOrMore
      split
      · rfl
      · rename_i c rest front
        rw [later rest (skip_cons front)]
    refine ⟨fun t room => ?_,fun t room => ?_,fun t room => ?_⟩
    · rw [readValue,readValue]
      split
      · rename_i rest front
        have shorter := skip_cons front
        split
        · rfl
        · rw [items rest (by unfold enough at *; omega)]
      · rename_i rest front
        have shorter := skip_cons front
        split
        · rfl
        · rw [members rest (by unfold enough at *; omega)]
      · rfl
    · rw [readItems,readItems,values t (by unfold enough at *; omega)]
      apply Option.bind_congr
      rintro ⟨v,rest⟩ read
      have shorter := (progress fuel).1 _ _ _ read
      apply closes
      intro more (less : more.length < rest.length)
      exact items more (by unfold enough at *; omega)
    · rw [readMembers,readMembers]
      apply Option.bind_congr
      rintro ⟨name,behind⟩ first
      obtain ⟨gap,-,front,-⟩ := readName_some first
      have sized := skip_length t
      simp only [front,List.length_append,List.length_cons] at sized
      rw [values behind (by unfold enough at *; omega)]
      apply Option.bind_congr
      rintro ⟨v,rest⟩ read
      have shorter := (progress fuel).1 _ _ _ read
      apply closes
      intro more (less : more.length < rest.length)
      exact members more (by unfold enough at *; omega)

theorem parse_fuel (t : List Char) (more : Nat) :
    (readValue (enough t + 1 + more) t).bind finish = parse t := by
  induction more with
  | zero => rfl
  | succ more ih => rw [← Nat.add_assoc,(more_fuel _).1 t (by omega),ih]

/-! ### Members in place -/

/-- A member's value is what stands behind its colon. -/
def Member.InPlace (m : Member) : Prop := ∃ fuel r, Shape fuel m.value (skip m.behind) r

/-- A member's value is read up to a comma or the closing brace. -/
def Member.Reads (m : Member) : Prop :=
  ∃ fuel r c u, readValue fuel m.behind = some (m.value,r) ∧ skip r = c :: u ∧ (c = ',' ∨ c = '\x7d')

theorem readMembers_reads (h : readMembers fuel t = some (ms,r)) : ∀ m ∈ ms, m.Reads := by
  induction fuel generalizing t ms with
  | zero => contradiction
  | succ fuel ih =>
    obtain ⟨name,behind,v,rest,first,read,closed⟩ := readMembers_some h
    rcases closeOrMore_some closed with ⟨close,rfl⟩ | ⟨more,others,comma,read',rfl⟩
    · exact List.forall_mem_singleton.mpr ⟨fuel,rest,_,_,read,close,.inr rfl⟩
    · exact List.forall_mem_cons.mpr ⟨⟨fuel,rest,_,_,read,comma,.inl rfl⟩,ih read'⟩

theorem finish_some {found : α × List Char} : finish found = some a ↔ found.1 = a ∧ skip found.2 = [] := by
  rw [finish,Option.ite_none_right_eq_some,Option.some.injEq]
  exact and_comm

theorem topLevel_reads (h : topLevel t = some ms) : ∀ m ∈ ms, m.Reads := by
  unfold topLevel at h
  split at h
  · split at h
    · obtain ⟨rfl,-⟩ := finish_some.mp h
      simp
    · obtain ⟨⟨ms',r⟩,read,closed⟩ := Option.bind_eq_some_iff.mp h
      obtain ⟨rfl,-⟩ := finish_some.mp closed
      exact readMembers_reads read
  · contradiction

theorem topLevel_inPlace (h : topLevel t = some ms) : ∀ m ∈ ms, m.InPlace := by
  intro m member
  obtain ⟨fuel,r,-,-,read,-⟩ := topLevel_reads h m member
  cases fuel with
  | zero => contradiction
  | succ fuel => exact ⟨fuel,r,readValue_some read⟩

/-- An object is parsed into its members. -/
theorem parse_obj : parse t = some (.obj entries) ↔ ∃ ms, topLevel t = some ms ∧ ms.map Member.entry = entries := by
  have finished {v : Value} {r : List Char} : finish (v,r) = some (.obj entries) ↔ v = .obj entries ∧ skip r = [] := finish_some
  unfold parse topLevel
  rw [readValue]
  split
  · rename_i rest front
    simp only [front]
    refine iff_of_false (fun h => ?_) nofun
    split at h
    · exact absurd (finished.mp h).1 nofun
    · obtain ⟨found,read,done⟩ := Option.bind_eq_some_iff.mp h
      obtain ⟨⟨vs,r⟩,-,rfl⟩ := Option.map_eq_some_iff.mp read
      exact absurd (finished.mp done).1 nofun
  · rename_i rest front
    simp only [front]
    split
    · rename_i r close
      simp only [Option.bind_some,finished,finish_some,Value.obj.injEq]
      constructor
      · rintro ⟨rfl,done⟩
        exact ⟨[],⟨rfl,done⟩,rfl⟩
      · rintro ⟨_,⟨rfl,done⟩,rfl⟩
        exact ⟨rfl,done⟩
    · simp only [Option.bind_map,Option.bind_eq_some_iff,Function.comp_def,finished,finish_some,Value.obj.injEq,
        Prod.exists]
      constructor
      · rintro ⟨ms,r,read,rfl,done⟩
        exact ⟨ms,⟨ms,r,read,rfl,done⟩,rfl⟩
      · rintro ⟨_,⟨ms,r,read,rfl,done⟩,rfl⟩
        exact ⟨ms,r,read,rfl,done⟩
  · rename_i noBracket noBrace
    split
    · rename_i rest front
      exact absurd front (noBrace rest)
    · refine iff_of_false (fun h => ?_) nofun
      obtain ⟨⟨v,r⟩,read,done⟩ := Option.bind_eq_some_iff.mp h
      obtain ⟨rfl,-⟩ := finished.mp done
      exact nomatch readScalar_some read

end Library.Json
