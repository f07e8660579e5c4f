import Mathlib.Data.BitVec
import Mathlib.Tactic

/-! Masks of leading ones. A word under such a mask is the start of its block of `2 ^ k`
words, and the mask's complement leads from there to the last word of the block. -/
namespace Library

variable {w : Nat}

/-- All bits set but the lowest `k`. -/
def leadingOnes (w k : Nat) : BitVec w := BitVec.allOnes w <<< k

theorem and_leadingOnes (x : BitVec w) (k : Nat) : x &&& leadingOnes w k = (x >>> k) <<< k := by
  apply BitVec.eq_of_getLsbD_eq
  intro i inside
  simp only [leadingOnes,BitVec.getLsbD_and,BitVec.getLsbD_shiftLeft,BitVec.getLsbD_allOnes,
    BitVec.getLsbD_ushiftRight]
  by_cases low : i < k
  · simp [low]
  · have same : k + (i - k) = i := by omega
    simp [low,same,inside]
    omega

theorem toNat_and_leadingOnes (x : BitVec w) (k : Nat) :
    (x &&& leadingOnes w k).toNat = x.toNat / 2 ^ k * 2 ^ k := by
  have below : x.toNat / 2 ^ k * 2 ^ k < 2 ^ w := lt_of_le_of_lt (Nat.div_mul_le_self _ _) x.isLt
  rw [and_leadingOnes,BitVec.toNat_shiftLeft,BitVec.toNat_ushiftRight,Nat.shiftRight_eq_div_pow,
    Nat.shiftLeft_eq,Nat.mod_eq_of_lt below]

/-- Two words agree under the mask when they lie in one block. -/
theorem and_leadingOnes_eq_iff (x y : BitVec w) (k : Nat) :
    x &&& leadingOnes w k = y &&& leadingOnes w k ↔ x.toNat / 2 ^ k = y.toNat / 2 ^ k := by
  rw [← BitVec.toNat_inj,toNat_and_leadingOnes,toNat_and_leadingOnes]
  exact Nat.mul_left_inj (Nat.two_pow_pos k).ne'

theorem toNat_not_leadingOnes (small : k ≤ w) : (~~~leadingOnes w k).toNat = 2 ^ k - 1 := by
  have ones := toNat_and_leadingOnes (BitVec.allOnes w) k
  rw [BitVec.allOnes_and,BitVec.toNat_allOnes] at ones
  have power : 2 ^ w = 2 ^ (w - k) * 2 ^ k := by rw [← Nat.pow_add,Nat.sub_add_cancel small]
  have positive := Nat.two_pow_pos k
  have blocks := Nat.two_pow_pos (w - k)
  have quotient : (2 ^ w - 1) / 2 ^ k = 2 ^ (w - k) - 1 := by
    rw [power]
    apply Nat.div_eq_of_lt_le
    · rw [Nat.sub_mul,Nat.one_mul]
      omega
    · rw [Nat.sub_add_cancel blocks]
      have : 0 < 2 ^ (w - k) * 2 ^ k := Nat.mul_pos blocks positive
      omega
  have least : 2 ^ k ≤ 2 ^ w := Nat.pow_le_pow_right (by decide) small
  rw [quotient,Nat.sub_mul,Nat.one_mul,← power] at ones
  rw [BitVec.toNat_not,ones]
  omega

/-- The last word of the block of `x`. -/
theorem toNat_or_not_leadingOnes (x : BitVec w) (small : k ≤ w) :
    (x &&& leadingOnes w k ||| ~~~leadingOnes w k).toNat = x.toNat / 2 ^ k * 2 ^ k + (2 ^ k - 1) := by
  have positive := Nat.two_pow_pos k
  rw [BitVec.toNat_or,toNat_and_leadingOnes,toNat_not_leadingOnes small,← Nat.shiftLeft_eq,
    ← Nat.shiftLeft_add_eq_or_of_lt (by omega)]

/-! ### Blocks -/

/-- The `2 ^ k` numbers around `x` that share all bits but the lowest `k`. -/
def blockOf (k x : Nat) : Set Nat := {y | y / 2 ^ k = x / 2 ^ k}

theorem mem_block : y ∈ blockOf k x ↔ y / 2 ^ k = x / 2 ^ k := Iff.rfl

theorem block_bounds (inside : y ∈ blockOf k x) : x / 2 ^ k * 2 ^ k ≤ y ∧ y ≤ x / 2 ^ k * 2 ^ k + (2 ^ k - 1) := by
  have positive := Nat.two_pow_pos k
  rw [← mem_block.mp inside]
  have split : y / 2 ^ k * 2 ^ k + y % 2 ^ k = y := Nat.div_add_mod' y (2 ^ k)
  have small := Nat.mod_lt y positive
  omega

theorem first_mem_block (k x : Nat) : x / 2 ^ k * 2 ^ k ∈ blockOf k x := Nat.mul_div_cancel _ (Nat.two_pow_pos k)

theorem last_mem_block (k x : Nat) : x / 2 ^ k * 2 ^ k + (2 ^ k - 1) ∈ blockOf k x := by
  have positive := Nat.two_pow_pos k
  have small : (2 ^ k - 1) / 2 ^ k = 0 := Nat.div_eq_of_lt (by omega)
  rw [mem_block,Nat.mul_comm,Nat.mul_add_div positive,small,Nat.add_zero]

theorem isLeast_block : IsLeast (blockOf k x) y ↔ y = x / 2 ^ k * 2 ^ k := by
  have first : IsLeast (blockOf k x) (x / 2 ^ k * 2 ^ k) := ⟨first_mem_block k x,fun _ inside => (block_bounds inside).1⟩
  exact ⟨fun least => least.unique first,fun same => same ▸ first⟩

theorem isGreatest_block : IsGreatest (blockOf k x) y ↔ y = x / 2 ^ k * 2 ^ k + (2 ^ k - 1) := by
  have last : IsGreatest (blockOf k x) (x / 2 ^ k * 2 ^ k + (2 ^ k - 1)) :=
    ⟨last_mem_block k x,fun _ inside => (block_bounds inside).2⟩
  exact ⟨fun greatest => greatest.unique last,fun same => same ▸ last⟩

/-- Blocks are the same when they share a number. -/
theorem block_eq_iff : blockOf k x = blockOf k y ↔ x / 2 ^ k = y / 2 ^ k := by
  constructor
  · intro same
    have inside : x ∈ blockOf k y := same ▸ mem_block.mpr rfl
    exact inside
  · intro same
    rw [blockOf,blockOf,same]

/-- Clearing the lowest `m` bits stays in the block when the block is that large, or the
cleared number below its size. -/
theorem blockOf_cleared (small : d < 2 ^ m) : blockOf k (n * 2 ^ m) = blockOf k (n * 2 ^ m + d) ↔ m ≤ k ∨ d < 2 ^ k := by
  have positive := Nat.two_pow_pos k
  rw [block_eq_iff]
  rcases Nat.le_total m k with large | fine
  · have power : 2 ^ k = 2 ^ m * 2 ^ (k - m) := by rw [← Nat.pow_add,Nat.add_sub_cancel' large]
    have whole : n * 2 ^ m / 2 ^ m = n := Nat.mul_div_cancel n (Nat.two_pow_pos m)
    have rest : (n * 2 ^ m + d) / 2 ^ m = n := by
      rw [Nat.mul_comm,Nat.mul_add_div (Nat.two_pow_pos m),Nat.div_eq_of_lt small,Nat.add_zero]
    rw [power,← Nat.div_div_eq_div_mul,← Nat.div_div_eq_div_mul,whole,rest]
    exact iff_of_true rfl (.inl large)
  · have power : n * 2 ^ m = 2 ^ k * (n * 2 ^ (m - k)) := by
      rw [Nat.mul_left_comm,← Nat.pow_add,Nat.add_sub_cancel' fine]
    have split : (n * 2 ^ m + d) / 2 ^ k = n * 2 ^ m / 2 ^ k + d / 2 ^ k := by
      rw [power,Nat.mul_add_div positive,Nat.mul_div_cancel_left _ positive]
    have inside : d / 2 ^ k = 0 ↔ d < 2 ^ k := Nat.div_eq_zero_iff_lt positive
    rw [split]
    constructor
    · intro same
      exact .inr (inside.mp (by omega))
    · rintro (large | below)
      · have equal : k = m := Nat.le_antisymm fine large
        rw [inside.mpr (equal ▸ small),Nat.add_zero]
      · rw [inside.mpr below,Nat.add_zero]

end Library
