import Nospoon.Validation

/-! Hexadecimal text of keys and seeds, as the end of `config.hpp` writes and reads it. -/
namespace Nospoon

open Library

abbrev PublicKey := Vector UInt8 32
abbrev Seed := Vector UInt8 32

/-- `%02x`. -/
def hexByte (b : UInt8) : Text := [Nat.digitChar (b.toNat / 16),Nat.digitChar (b.toNat % 16)]

def bytesToHex (data : List UInt8) : Text := data.flatMap hexByte

/-- The value of a hexadecimal digit of either case. -/
def hexValue (c : Char) : Nat :=
  if c.isDigit then c.toNat - '0'.toNat
  else if 'a' ≤ c ∧ c ≤ 'f' then c.toNat - 'a'.toNat + 10
  else c.toNat - 'A'.toNat + 10

/-- Pairs of hexadecimal digits. Only text that passed `validate_hex64` is ever parsed,
so what `sscanf` makes of other characters is not modelled. -/
def hexPairs : Text → Option (List UInt8)
  | [] => some []
  | a :: b :: rest =>
    if isXDigit a ∧ isXDigit b then
      (hexPairs rest).map (UInt8.ofNat (16 * hexValue a + hexValue b) :: ·)
    else none
  | [_] => none

def hexToBytes (hex : Text) : Option (Vector UInt8 32) :=
  (hexPairs hex).bind fun bytes => if sized : bytes.toArray.size = 32 then some ⟨bytes.toArray,sized⟩ else none

theorem digitChar_hex (n : Nat) (small : n < 16) :
    isXDigit (Nat.digitChar n) = true ∧ hexValue (Nat.digitChar n) = n := by
  interval_cases n <;> exact ⟨rfl,rfl⟩

theorem hexByte_isXDigit (b : UInt8) : ∀ c ∈ hexByte b, isXDigit c = true := by
  have bound := b.toNat_lt
  intro c member
  simp only [hexByte,List.mem_cons,List.not_mem_nil,or_false] at member
  rcases member with rfl | rfl
  · exact (digitChar_hex _ (by omega)).1
  · exact (digitChar_hex _ (by omega)).1

theorem bytesToHex_isXDigit (data : List UInt8) : ∀ c ∈ bytesToHex data, isXDigit c = true := by
  intro c member
  obtain ⟨b,-,here⟩ := List.mem_flatMap.mp member
  exact hexByte_isXDigit b c here

theorem bytesToHex_length (data : List UInt8) : (bytesToHex data).length = 2 * data.length := by
  induction data with
  | nil => rfl
  | cons b data ih =>
    simp only [bytesToHex,List.flatMap_cons,List.length_append,hexByte,List.length_cons,List.length_nil] at ih ⊢
    omega

theorem hexPairs_bytesToHex (data : List UInt8) : hexPairs (bytesToHex data) = some data := by
  induction data with
  | nil => rfl
  | cons b data ih =>
    have bound := b.toNat_lt
    obtain ⟨high,highValue⟩ := digitChar_hex (b.toNat / 16) (by omega)
    obtain ⟨low,lowValue⟩ := digitChar_hex (b.toNat % 16) (by omega)
    have byte : UInt8.ofNat (16 * (b.toNat / 16) + b.toNat % 16) = b := by
      rw [Nat.div_add_mod]
      exact UInt8.ofNat_toNat
    simp only [bytesToHex,List.flatMap_cons,hexByte,List.cons_append,List.nil_append,hexPairs,high,low,
      and_self,↓reduceIte,highValue,lowValue,byte] at ih ⊢
    rw [ih]
    rfl

/-- What `bytes_to_hex` writes, `hex_to_bytes` reads back. -/
theorem hexToBytes_bytesToHex (key : Vector UInt8 32) : hexToBytes (bytesToHex key.toList) = some key := by
  simp [hexToBytes,hexPairs_bytesToHex,Vector.toList]

theorem bytesToHex_injective (key key' : Vector UInt8 32)
    (same : bytesToHex key.toList = bytesToHex key'.toList) : key = key' := by
  have read := hexToBytes_bytesToHex key
  rw [same,hexToBytes_bytesToHex] at read
  exact (Option.some.inj read).symm

theorem validateHex64_bytesToHex (key : Vector UInt8 32) (label : Text) :
    validateHex64 (bytesToHex key.toList) label = .ok () :=
  validateHex64_ok.mpr ⟨by simp [bytesToHex_length],bytesToHex_isXDigit _⟩

/-! ### Spellings -/

/-- `%x` prints the lower-case spelling of a digit. -/
theorem digitChar_hexValue (c : Char) (hex : isXDigit c = true) :
    hexValue c < 16 ∧ Nat.digitChar (hexValue c) = c.toLower := by
  have char : c = Char.ofNat c.toNat := (Char.ofNat_toNat c).symm
  have range : (48 ≤ c.toNat ∧ c.toNat ≤ 57) ∨ (97 ≤ c.toNat ∧ c.toNat ≤ 102) ∨ (65 ≤ c.toNat ∧ c.toNat ≤ 70) := by
    simp only [isXDigit,Char.isDigit,Bool.or_eq_true,Bool.and_eq_true,decide_eq_true_eq] at hex
    rcases hex with (⟨low,high⟩ | ⟨low,high⟩) | ⟨low,high⟩
    · exact .inl ⟨low,high⟩
    · exact .inr (.inl ⟨low,high⟩)
    · exact .inr (.inr ⟨low,high⟩)
  rw [char]
  generalize c.toNat = n at range
  rcases range with ⟨low,high⟩ | ⟨low,high⟩ | ⟨low,high⟩
  all_goals interval_cases n <;> decide

/-- Pairs of digits always read as bytes, which print as the same digits in lower case. -/
theorem hexPairs_total (n : Nat) (t : Text) (hex : ∀ c ∈ t, isXDigit c = true) (sized : t.length = 2 * n) :
    ∃ bytes, hexPairs t = some bytes ∧ bytes.length = n ∧ bytesToHex bytes = t.map Char.toLower := by
  induction n generalizing t with
  | zero =>
    have empty : t = [] := List.eq_nil_of_length_eq_zero sized
    subst empty
    exact ⟨[],rfl,rfl,rfl⟩
  | succ n ih =>
    match t, sized with
    | x :: y :: rest, sized =>
      simp only [List.forall_mem_cons] at hex
      obtain ⟨hx,hy,hrest⟩ := hex
      obtain ⟨bytes,read,length,spelled⟩ := ih rest hrest (by simp at sized ⊢; omega)
      obtain ⟨smallX,lowerX⟩ := digitChar_hexValue x hx
      obtain ⟨smallY,lowerY⟩ := digitChar_hexValue y hy
      refine ⟨_,by rw [hexPairs,if_pos ⟨hx,hy⟩,read]; rfl,by simp [length],?_⟩
      have value : (UInt8.ofNat (16 * hexValue x + hexValue y)).toNat = 16 * hexValue x + hexValue y := by
        rw [UInt8.toNat_ofNat',Nat.mod_eq_of_lt (by omega)]
      have high : (16 * hexValue x + hexValue y) / 16 = hexValue x := by omega
      have low : (16 * hexValue x + hexValue y) % 16 = hexValue y := by omega
      rw [bytesToHex,List.flatMap_cons,← bytesToHex,spelled,hexByte,value,high,low,lowerX,lowerY]
      rfl

/-- A validated key names a key, and its lower-case spelling is the key's hex. -/
theorem hexToBytes_total (length : key.length = 64) (hex : ∀ c ∈ key, isXDigit c = true) :
    ∃ remotePk, hexToBytes key = some remotePk ∧ bytesToHex remotePk.toList = key.map Char.toLower := by
  obtain ⟨bytes,read,sized,spelled⟩ := hexPairs_total 32 key hex length
  exact ⟨⟨bytes.toArray,sized⟩,by simp [hexToBytes,read,sized],spelled⟩

end Nospoon
