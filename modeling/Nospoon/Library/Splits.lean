import Mathlib.Data.List.InsertIdx
import Mathlib.Tactic

/-! Where the last entry of a kind stands in a list, and what insertions by index do to it. -/
namespace Library

variable {α : Type*}

/-! ### The last match -/

/-- A loop over `l` from index `i` on that keeps the index of the last match. -/
def lastMatch (p : α → Bool) (i : Nat) (found : Option Nat) : List α → Option Nat
  | [] => found
  | a :: l => lastMatch p (i + 1) (if p a then some i else found) l

/-- `l` with its last match at `a`. -/
structure LastSplit (p : α → Bool) (l front : List α) (a : α) (back : List α) : Prop where
  whole : l = front ++ a :: back
  here : p a = true
  none : ∀ b ∈ back, p b = false

theorem lastMatch_cases (p : α → Bool) (i : Nat) (found : Option Nat) (l : List α) :
    ((∀ a ∈ l, p a = false) ∧ lastMatch p i found l = found) ∨
      ∃ front a back, LastSplit p l front a back ∧ lastMatch p i found l = some (i + front.length) := by
  induction l generalizing i found with
  | nil => exact .inl ⟨by simp,rfl⟩
  | cons x l ih =>
    rw [lastMatch]
    rcases ih (i + 1) (if p x then some i else found) with ⟨absent,eq⟩ | ⟨front,a,back,⟨rfl,here,none⟩,eq⟩
    · rw [eq]
      cases first : p x with
      | true => exact .inr ⟨[],x,l,⟨rfl,first,absent⟩,by simp⟩
      | false => exact .inl ⟨List.forall_mem_cons.mpr ⟨first,absent⟩,by simp⟩
    · refine .inr ⟨x :: front,a,back,⟨rfl,here,none⟩,?_⟩
      rw [eq,List.length_cons]
      congr 1
      omega

/-- An entry with `p` stands no later than the last one. -/
theorem LastSplit.prefix_of {p : α → Bool} {l front back before after : List α} {a b : α} (split : LastSplit p l front a back)
    (whole : l = before ++ b :: after) (match' : p b = true) : ∃ rest, front ++ [a] = before ++ b :: rest ∧ after = rest ++ back := by
  obtain ⟨same,-,none⟩ := split
  have parts : (front ++ [a]) ++ back = before ++ b :: after := by rw [← whole,same]; simp
  rcases List.append_eq_append_iff.mp parts with ⟨rest,-,later⟩ | ⟨rest,here,later⟩
  · have inside : b ∈ back := by
      rw [later]
      simp
    exact absurd match' (by simp [none b inside])
  · cases rest with
    | nil =>
      have inside : b ∈ back := by
        rw [show back = b :: after from later.symm]
        exact List.mem_cons_self
      exact absurd match' (by simp [none b inside])
    | cons c rest =>
      obtain ⟨rfl,same⟩ := List.cons.inj later
      exact ⟨rest,here,same⟩

/-! ### Insertions -/

/-- A loop that copies `l` from index `i` on and puts `new` behind the entry at `at'`. -/
def copyWith (new : α) (at' : Option Nat) : Nat → List α → List α
  | _, [] => []
  | i, a :: l => if at' = some i then a :: new :: copyWith new at' (i + 1) l else a :: copyWith new at' (i + 1) l

theorem copyWith_outside {new : α} {at' : Option Nat} (outside : ∀ j, at' = some j → j < i) (l : List α) :
    copyWith new at' i l = l := by
  induction l generalizing i with
  | nil => rfl
  | cons a l ih =>
    have other : at' ≠ some i := fun same => Nat.lt_irrefl i (outside i same)
    rw [copyWith,if_neg other,ih fun j same => Nat.lt_succ_of_lt (outside j same)]

theorem copyWith_split (new : α) (i : Nat) (front : List α) (a : α) (back : List α) :
    copyWith new (some (i + front.length)) i (front ++ a :: back) = front ++ a :: new :: back := by
  induction front generalizing i with
  | nil =>
    have behind : copyWith new (some i) (i + 1) back = back := by
      refine copyWith_outside (fun j same => ?_) back
      rw [← Option.some.inj same]
      exact Nat.lt_succ_self i
    rw [List.length_nil,Nat.add_zero,List.nil_append,copyWith,if_pos rfl,behind,List.nil_append]
  | cons x front ih =>
    have other : some (i + (x :: front).length) ≠ some i := by simp
    have index : i + (x :: front).length = i + 1 + front.length := by
      rw [List.length_cons]
      omega
    rw [List.cons_append,copyWith,if_neg other,index,ih (i + 1)]
    rfl

theorem insertIdx_append (front back : List α) (a : α) : (front ++ back).insertIdx front.length a = front ++ a :: back := by
  induction front with
  | nil => rfl
  | cons x front ih =>
    rw [List.cons_append,List.length_cons,List.insertIdx_succ_cons,ih]
    rfl

/-- Two insertions next to each other. -/
theorem insertIdx_two (front back : List α) (a b : α) :
    ((front ++ back).insertIdx front.length a).insertIdx (front.length + 1) b = front ++ a :: b :: back := by
  have second := insertIdx_append (front ++ [a]) back b
  rw [List.length_append,List.length_singleton] at second
  rw [insertIdx_append]
  simpa using second

end Library
