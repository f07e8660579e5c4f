import Mathlib.Algebra.Order.Ring.Int
import Mathlib.Data.List.Infix

/-! First-occurrence searches over lists, in the form scanners use them: a position
is given by what stands before it and what follows. Also the C character classes and the
numbers `atoi` reads. -/
namespace Library

section Search

variable {α : Type*} [DecidableEq α] {c : α} {s p q : List α}

/-- The text before and after the first `c`. -/
def splitFirst (c : α) : List α → Option (List α × List α)
  | [] => none
  | a :: s => if a = c then some ([],s) else (splitFirst c s).map fun r => (a :: r.1,r.2)

theorem splitFirst_append (absent : c ∉ p) : splitFirst c (p ++ c :: q) = some (p,q) := by
  induction p with
  | nil => simp [splitFirst]
  | cons a p ih =>
    obtain ⟨differs,rest⟩ := not_or.mp (List.mem_cons.not.mp absent)
    simp [splitFirst,Ne.symm differs,ih rest]

theorem splitFirst_eq_none : splitFirst c s = none ↔ c ∉ s := by
  induction s with
  | nil => simp [splitFirst]
  | cons a s ih =>
    by_cases h : a = c
    · simp [splitFirst,h]
    · simp [splitFirst,h,ih,Ne.symm h]

theorem splitFirst_eq_some : splitFirst c s = some (p,q) ↔ s = p ++ c :: q ∧ c ∉ p := by
  constructor
  · intro h
    induction s generalizing p with
    | nil => simp [splitFirst] at h
    | cons a s ih =>
      by_cases same : a = c
      · simp only [splitFirst,same,↓reduceIte,Option.some.injEq,Prod.mk.injEq] at h
        obtain ⟨rfl,rfl⟩ := h
        simp [same]
      · simp only [splitFirst,same,↓reduceIte,Option.map_eq_some_iff,Prod.exists] at h
        obtain ⟨front,back,found,pair⟩ := h
        obtain ⟨rfl,rfl⟩ := Prod.mk.inj pair
        obtain ⟨rfl,absent⟩ := ih found
        exact ⟨rfl,by simp [absent,Ne.symm same]⟩
  · rintro ⟨rfl,absent⟩
    exact splitFirst_append absent

theorem splitFirst_of_mem (member : c ∈ s) : ∃ p q, s = p ++ c :: q ∧ c ∉ p := by
  cases h : splitFirst c s with
  | none => exact absurd member (splitFirst_eq_none.mp h)
  | some r => exact ⟨r.1,r.2,splitFirst_eq_some.mp h⟩

/-- Text without the character in front only lengthens the first part. -/
theorem splitFirst_prepend (absent : c ∉ p) :
    splitFirst c (p ++ s) = (splitFirst c s).map fun r => (p ++ r.1,r.2) := by
  cases h : splitFirst c s with
  | none =>
    have none : c ∉ s := splitFirst_eq_none.mp h
    simpa using splitFirst_eq_none.mpr (by simp [absent,none])
  | some r =>
    obtain ⟨rfl,before⟩ := splitFirst_eq_some.mp (show splitFirst c s = some (r.1,r.2) from h)
    rw [← List.append_assoc]
    exact splitFirst_append (by simp [absent,before])

theorem splitFirst_count (h : splitFirst c s = some (p,q)) : s.count c = q.count c + 1 := by
  obtain ⟨rfl,absent⟩ := splitFirst_eq_some.mp h
  simp [List.count_append,List.count_eq_zero.mpr absent]

/-- The text before the first occurrence of `pat`, and the text from it on. -/
def splitSub (pat : List α) : List α → Option (List α × List α)
  | [] => if pat = [] then some ([],[]) else none
  | a :: s =>
    if pat <+: a :: s then some ([],a :: s)
    else (splitSub pat s).map fun r => (a :: r.1,r.2)

theorem splitSub_head {pat : List α} (here : pat <+: s) : splitSub pat s = some ([],s) := by
  cases s with
  | nil => rw [splitSub,if_pos (List.prefix_nil.mp here)]
  | cons a s => rw [splitSub,if_pos here]

/-- The text after `pat` when the text starts with it. -/
def afterPrefix (pat s : List α) : Option (List α) :=
  if pat <+: s then some (s.drop pat.length) else none

theorem afterPrefix_eq_some {r : List α} : afterPrefix p s = some r ↔ s = p ++ r := by
  unfold afterPrefix
  constructor
  · intro h
    split at h
    · rename_i inside
      obtain ⟨t,rfl⟩ := inside
      simpa using h
    · contradiction
  · rintro rfl
    simp

theorem afterPrefix_head (c : α) (s : List α) : afterPrefix [c] (c :: s) = some s :=
  afterPrefix_eq_some.mpr rfl

theorem afterPrefix_eq_none : afterPrefix p s = none ↔ ¬ p <+: s := by
  simp [afterPrefix]

theorem splitSub_found {pat : List α} (h : splitSub pat s = some (p,q)) :
    s = p ++ q ∧ pat <+: q := by
  induction s generalizing p with
  | nil =>
    simp only [splitSub,Option.ite_none_right_eq_some,Option.some.injEq,Prod.mk.injEq] at h
    obtain ⟨rfl,rfl,rfl⟩ := h
    simp
  | cons a s ih =>
    simp only [splitSub] at h
    split at h
    · rename_i here
      obtain ⟨rfl,rfl⟩ := Prod.mk.inj (Option.some.inj h)
      exact ⟨rfl,here⟩
    · simp only [Option.map_eq_some_iff,Prod.exists] at h
      obtain ⟨front,back,found,pair⟩ := h
      obtain ⟨rfl,rfl⟩ := Prod.mk.inj pair
      obtain ⟨rfl,here⟩ := ih found
      exact ⟨rfl,here⟩

theorem splitSub_eq_none {pat : List α} : splitSub pat s = none ↔ ¬pat <:+: s := by
  induction s with
  | nil => simp [splitSub]
  | cons a s ih =>
    rw [splitSub,List.infix_cons_iff,not_or,← ih]
    split_ifs with here
    · simp [here]
    · simp [here]

/-- The text before and after the last `c`. -/
def splitLast (c : α) (s : List α) : Option (List α × List α) :=
  (splitFirst c s.reverse).map fun r => (r.2.reverse,r.1.reverse)

theorem splitLast_eq_some : splitLast c s = some (p,q) ↔ s = p ++ c :: q ∧ c ∉ q := by
  simp only [splitLast,Option.map_eq_some_iff,Prod.exists,splitFirst_eq_some,Prod.mk.injEq]
  constructor
  · rintro ⟨back,front,⟨same,absent⟩,rfl,rfl⟩
    refine ⟨?_,by simpa using absent⟩
    rw [← List.reverse_reverse s,same]
    simp
  · rintro ⟨rfl,absent⟩
    exact ⟨q.reverse,p.reverse,⟨by simp,by simpa using absent⟩,by simp,by simp⟩

end Search

/-! ### Cutting in front of a character

A scan that cannot pass `c` sees nothing of what follows it. -/

section Stop

variable {α : Type*} {c : α} {s pat q : List α}

theorem dropWhile_stop {f : α → Bool} (stop : f c = false) :
    (s ++ c :: q).dropWhile f = s.dropWhile f ++ c :: q := by
  induction s with
  | nil => simp [stop]
  | cons a s ih => cases h : f a <;> simp [h,ih]

theorem takeWhile_stop {f : α → Bool} (stop : f c = false) : (s ++ c :: q).takeWhile f = s.takeWhile f := by
  induction s with
  | nil => simp [stop]
  | cons a s ih => cases h : f a <;> simp [h,ih]

theorem prefix_stop (absent : c ∉ pat) : pat <+: s ++ c :: q ↔ pat <+: s := by
  constructor
  · rintro ⟨r,same⟩
    rcases List.append_eq_append_iff.mp same with ⟨x,whole,-⟩ | ⟨x,rfl,tail⟩
    · exact ⟨x,whole.symm⟩
    · cases x with
      | nil => simp
      | cons d x =>
        obtain ⟨rfl,-⟩ := List.cons.inj tail
        exact absurd (List.mem_append_right _ List.mem_cons_self) absent
  · rintro ⟨r,rfl⟩
    exact ⟨r ++ c :: q,by simp⟩

end Stop

/-! ### The C locale -/

/-- `isspace`. -/
def isSpace (c : Char) : Bool := c = ' ' || ('\t' ≤ c && c ≤ '\r')

/-- `isxdigit`. -/
def isXDigit (c : Char) : Bool :=
  c.isDigit || ('a' ≤ c && c ≤ 'f') || ('A' ≤ c && c ≤ 'F')

def natOf (digits : List Char) : Nat := Nat.ofDigitChars 10 digits 0

/-- The number at the front of a text: blanks, one sign, the digits that follow. -/
def leadingInt (s : List Char) : Int :=
  match s.dropWhile isSpace with
  | '-' :: rest => -(natOf (rest.takeWhile Char.isDigit) : Int)
  | '+' :: rest => natOf (rest.takeWhile Char.isDigit)
  | rest => natOf (rest.takeWhile Char.isDigit)

/-- A `long` of 64 bits, where `strtol` stops. -/
def toLong (v : Int) : Int := max (-2 ^ 63) (min v (2 ^ 63 - 1))

/-- `atoi`: the number as a `long`, cut to the 32 bits of an `int`. -/
def atoi (s : List Char) : Int := (toLong (leadingInt s)).bmod (2 ^ 32)

theorem toLong_of_int {v : Int} (low : -2 ^ 31 ≤ v) (high : v < 2 ^ 31) : toLong v = v := by
  rw [toLong]
  omega

/-- An `int` is read as it stands. -/
theorem atoi_of_int (low : -2 ^ 31 ≤ leadingInt s) (high : leadingInt s < 2 ^ 31) : atoi s = leadingInt s := by
  rw [atoi,toLong_of_int low high]
  exact Int.bmod_eq_of_le (by omega) (by omega)

example : atoi "4294968696".toList = 1400 := by decide +kernel

/-- The number ends in front of a character that belongs to no number. -/
theorem leadingInt_stop (noSpace : isSpace c = false) (noDigit : c.isDigit = false) (noMinus : c ≠ '-')
    (noPlus : c ≠ '+') : leadingInt (s ++ c :: q) = leadingInt s := by
  unfold leadingInt
  rw [dropWhile_stop noSpace]
  cases s.dropWhile isSpace with
  | nil =>
    rw [List.nil_append]
    split
    · rename_i h; exact absurd (List.cons.inj h).1 noMinus
    · rename_i h; exact absurd (List.cons.inj h).1 noPlus
    · rw [List.takeWhile_cons_of_neg (by simp [noDigit])]
      rfl
  | cons d t =>
    rw [List.cons_append]
    split
    · rename_i h
      obtain ⟨rfl,rfl⟩ := List.cons.inj h
      rw [takeWhile_stop noDigit]
      rfl
    · rename_i h
      obtain ⟨rfl,rfl⟩ := List.cons.inj h
      rw [takeWhile_stop noDigit]
      rfl
    · rename_i noMinus' noPlus'
      split
      · rename_i h
        obtain ⟨rfl,rfl⟩ := List.cons.inj h
        exact absurd rfl (noMinus' _)
      · rename_i h
        obtain ⟨rfl,rfl⟩ := List.cons.inj h
        exact absurd rfl (noPlus' _)
      · rw [← List.cons_append,takeWhile_stop noDigit]

theorem atoi_stop (noSpace : isSpace c = false) (noDigit : c.isDigit = false) (noMinus : c ≠ '-')
    (noPlus : c ≠ '+') : atoi (s ++ c :: q) = atoi s := by
  rw [atoi,leadingInt_stop noSpace noDigit noMinus noPlus,← atoi]

end Library
