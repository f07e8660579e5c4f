import Nospoon.Library.Scan
import Nospoon.Routing

/-! Field validation (`validation.hpp`). A `Result` is `Except`: the error text of an
invalid one, nothing for a valid one. -/
namespace Nospoon

open Library

def validateHex64 (value label : Text) : Except Text Unit :=
  if value.length ≠ 64 then .error (label ++ " must be exactly 64 hex characters".toList)
  else if value.all isXDigit then .ok ()
  else .error (label ++ " must be exactly 64 hex characters".toList)

/-- `\d{1,max}` followed by a character that is no digit, or by the end. -/
def matchDigits (max : Nat) (value : Text) : Option (Text × Text) :=
  let digits := value.takeWhile Char.isDigit
  if 1 ≤ digits.length ∧ digits.length ≤ max then some (digits,value.dropWhile Char.isDigit)
  else none

/-- `^\d{1,3}\.\d{1,3}\.\d{1,3}\.\d{1,3}/\d{1,2}$`: the four octets and the prefix. -/
def matchCidr (value : Text) : Option (List Text × Text) := do
  let (a,rest) ← matchDigits 3 value
  let rest ← afterPrefix ['.'] rest
  let (b,rest) ← matchDigits 3 rest
  let rest ← afterPrefix ['.'] rest
  let (c,rest) ← matchDigits 3 rest
  let rest ← afterPrefix ['.'] rest
  let (d,rest) ← matchDigits 3 rest
  let rest ← afterPrefix ['/'] rest
  let (length,rest) ← matchDigits 2 rest
  if rest = [] then some ([a,b,c,d],length) else none

def validateCidr (value label : Text) : Except Text Unit :=
  match matchCidr value with
  | none => .error (label ++ " must be in CIDR format (e.g. 10.0.0.1/24)".toList)
  | some (octets,length) =>
    if 32 < natOf length then .error (label ++ " has invalid prefix (0-32)".toList)
    else if octets.any (255 < natOf ·) then
      .error (label ++ " has invalid IP octet (0-255)".toList)
    else .ok ()

def validateCidrV6 (value label : Text) : Except Text Unit :=
  match splitFirst '/' value with
  | none => .error (label ++ " must be in CIDR format (e.g. fd00::1/64)".toList)
  | some (addr,length) =>
    if atoi length < 1 ∨ 128 < atoi length then
      .error (label ++ " has invalid prefix (1-128)".toList)
    else if ':' ∉ addr then .error (label ++ " is not a valid IPv6 address".toList)
    else if addr.all fun c => c = ':' || isXDigit c then .ok ()
    else .error (label ++ " has invalid character".toList)

def validateMtu (value : Int) : Except Text Unit :=
  if value < 576 ∨ 65535 < value then .error "MTU must be between 576 and 65535".toList
  else .ok ()

/-! ### Decimal numerals -/

/-- `std::to_string`. -/
def decimalInt : Int → Text
  | .ofNat n => decimal n
  | .negSucc n => '-' :: decimal (n + 1)

theorem decimal_isDigit (n : Nat) : ∀ c ∈ decimal n, c.isDigit = true := fun _ member =>
  Nat.isDigit_of_mem_toDigits (by decide) (by decide) member

theorem decimal_ne_nil (n : Nat) : decimal n ≠ [] := Nat.toDigits_ne_nil

@[simp] theorem natOf_decimal (n : Nat) : natOf (decimal n) = n := Nat.ofDigitChars_ten_toDigits

theorem decimal_noChar (n : Nat) (c : Char) (absent : c.isDigit = false) : c ∉ decimal n := by
  intro member
  rw [decimal_isDigit n c member] at absent
  contradiction

/-- A text at whose front no number goes on. -/
def EndsDigits (rest : Text) : Prop := ∀ c ∈ rest.head?, c.isDigit = false

theorem takeWhile_digits {s rest : Text} (digits : ∀ c ∈ s, c.isDigit = true) (ends : EndsDigits rest) :
    (s ++ rest).takeWhile Char.isDigit = s ∧ (s ++ rest).dropWhile Char.isDigit = rest := by
  rw [List.takeWhile_append_of_pos digits,List.dropWhile_append_of_pos digits]
  cases rest with
  | nil => simp
  | cons c rest =>
    have stop := ends c rfl
    simp [stop]

theorem digit_char {c : Char} (digit : Char.isDigit c = true) :
    isSpace c = false ∧ c ≠ '-' ∧ c ≠ '+' ∧ c ≠ '"' ∧ c ≠ '/' ∧ c ≠ '.' ∧ isXDigit c = true := by
  refine ⟨?_,?_,?_,?_,?_,?_,?_⟩
  · simp only [isSpace,Bool.or_eq_false_iff,decide_eq_false_iff_not,Bool.and_eq_false_iff]
    simp only [Char.isDigit,Bool.and_eq_true,decide_eq_true_eq] at digit
    refine ⟨?_,.inr ?_⟩
    · intro same; subst same; exact absurd digit.1 (by decide)
    · intro low
      have first : 48 ≤ c.val.toNat := digit.1
      have last : c.val.toNat ≤ 13 := low
      omega
  all_goals first
    | (intro same; subst same; revert digit; decide)
    | simp [isXDigit,digit]

/-- The digits at the front of a text are the number it starts with. -/
theorem leadingInt_digits {s rest : Text} (digits : ∀ c ∈ s, c.isDigit = true) (nonempty : s ≠ []) (ends : EndsDigits rest) :
    leadingInt (s ++ rest) = natOf s := by
  have taken := (takeWhile_digits digits ends).1
  cases s with
  | nil => exact absurd rfl nonempty
  | cons c s =>
    obtain ⟨noSpace,noMinus,noPlus,-⟩ := digit_char (digits c List.mem_cons_self)
    rw [leadingInt,List.cons_append,List.dropWhile_cons_of_neg (by simp [noSpace])]
    rw [List.cons_append] at taken
    split
    · rename_i same
      exact absurd (List.cons.inj same).1 noMinus
    · rename_i same
      exact absurd (List.cons.inj same).1 noPlus
    · rw [taken]

theorem atoi_digits {s rest : Text} (digits : ∀ c ∈ s, c.isDigit = true) (nonempty : s ≠ []) (ends : EndsDigits rest)
    (small : natOf s < 2 ^ 31) : atoi (s ++ rest) = natOf s := by
  have value := leadingInt_digits digits nonempty ends
  rw [atoi_of_int (by omega) (by omega),value]

theorem leadingInt_decimal {rest : Text} (n : Nat) (ends : EndsDigits rest) : leadingInt (decimal n ++ rest) = n := by
  rw [leadingInt_digits (decimal_isDigit n) (decimal_ne_nil n) ends,natOf_decimal]

theorem atoi_decimal {rest : Text} (n : Nat) (ends : EndsDigits rest) (small : n < 2 ^ 31) : atoi (decimal n ++ rest) = n := by
  rw [atoi_digits (decimal_isDigit n) (decimal_ne_nil n) ends (by rwa [natOf_decimal]),natOf_decimal]

theorem decimalInt_ne_nil (v : Int) : decimalInt v ≠ [] := by
  cases v with
  | ofNat n => exact decimal_ne_nil n
  | negSucc n => exact List.cons_ne_nil _ _

theorem leadingInt_decimalInt (v : Int) : leadingInt (decimalInt v) = v := by
  cases v with
  | ofNat n =>
    have value : leadingInt (decimal n ++ []) = n := leadingInt_decimal n nofun
    rwa [List.append_nil] at value
  | negSucc n =>
    have ends : EndsDigits [] := nofun
    have digits := (takeWhile_digits (decimal_isDigit (n + 1)) ends).1
    rw [List.append_nil] at digits
    have sign : leadingInt ('-' :: decimal (n + 1)) = -(natOf ((decimal (n + 1)).takeWhile Char.isDigit) : Int) := rfl
    rw [decimalInt,sign,digits,natOf_decimal]
    rfl

/-! ### What passes -/

theorem validateHex64_ok : validateHex64 value label = .ok () ↔
    value.length = 64 ∧ ∀ c ∈ value, isXDigit c = true := by
  unfold validateHex64
  split_ifs with short hex
  · simp [short]
  · simp_all
  · simp_all

theorem validateMtu_ok : validateMtu value = .ok () ↔ 576 ≤ value ∧ value ≤ 65535 := by
  unfold validateMtu
  split_ifs with h
  · simp only [false_iff]; omega
  · simp only [true_iff]; omega

theorem validateCidr_ok : validateCidr value label = .ok () ↔
    ∃ octets length, matchCidr value = some (octets,length) ∧ natOf length ≤ 32 ∧
      ∀ o ∈ octets, natOf o ≤ 255 := by
  unfold validateCidr
  split
  · rename_i h; simp [h]
  · rename_i octets length h
    split_ifs with long large
    · simp only [false_iff]
      rintro ⟨_,_,same,fits,_⟩
      obtain ⟨rfl,rfl⟩ := Prod.mk.inj (Option.some.inj (h.symm.trans same))
      omega
    · simp only [false_iff]
      rintro ⟨_,_,same,_,fits⟩
      obtain ⟨rfl,rfl⟩ := Prod.mk.inj (Option.some.inj (h.symm.trans same))
      obtain ⟨o,member,large⟩ := List.any_eq_true.mp large
      have := fits o member
      simp only [decide_eq_true_eq] at large
      omega
    · simp only [true_iff]
      refine ⟨octets,length,h,by omega,fun o member => ?_⟩
      simp only [List.any_eq_true,decide_eq_true_eq,not_exists,not_and,not_lt] at large
      exact large o member

end Nospoon
