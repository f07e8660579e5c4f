import Mathlib.Data.List.Basic

/-! Runs of one value in a list, and the first of the longest of them. A run is given by
where it starts and how long it is; what one more element does to the runs is said once. -/
namespace Library

variable {α : Type*} {a b : α} {s : List α}

/-- `len` positions from `start` on hold `a`. -/
structure Run (a : α) (s : List α) (start len : Nat) : Prop where
  inside : start + len ≤ s.length
  holds : ∀ i, start ≤ i → i < start + len → s[i]? = some a

structure FirstLongest (a : α) (s : List α) (start len : Nat) : Prop where
  run : Run a s start len
  longest : ∀ other l, Run a s other l → l ≤ len
  first : ∀ other, Run a s other len → start ≤ other

theorem Run.nil (h : Run a [] start len) : len = 0 := by
  have inside := h.inside
  simp only [List.length_nil] at inside
  omega

theorem Run.empty (inside : start ≤ s.length) : Run a s start 0 := ⟨inside,fun i low high => by omega⟩

/-- A run of a longer list either was there or reaches to its end. -/
theorem run_concat : Run a (s ++ [b]) start (len + 1) ↔
    Run a s start (len + 1) ∨ (start + len = s.length ∧ b = a ∧ Run a s start len) := by
  constructor
  · rintro ⟨inside,holds⟩
    rw [List.length_append,List.length_singleton] at inside
    have earlier (i : Nat) (low : start ≤ i) (high : i < start + (len + 1)) (before : i < s.length) : s[i]? = some a := by
      rw [← holds i low high,List.getElem?_append_left before]
    rcases Nat.lt_or_ge (start + len) s.length with within | reaches
    · exact .inl ⟨within,fun i low high => earlier i low high (by omega)⟩
    · have last : start + len = s.length := by omega
      refine .inr ⟨last,?_,by omega,fun i low high => earlier i low (by omega) (by omega)⟩
      have here := holds s.length (by omega) (by omega)
      rw [List.getElem?_concat_length] at here
      exact Option.some.inj here
  · rintro (⟨inside,holds⟩ | ⟨last,rfl,inside,holds⟩)
    · refine ⟨by rw [List.length_append]; omega,fun i low high => ?_⟩
      rw [List.getElem?_append_left (by omega)]
      exact holds i low high
    · refine ⟨by rw [List.length_append,List.length_singleton]; omega,fun i low high => ?_⟩
      rcases Nat.lt_or_ge i s.length with before | at'
      · rw [List.getElem?_append_left before]
        exact holds i low (by omega)
      · have here : i = s.length := by omega
        rw [here,List.getElem?_concat_length]

/-- What stands around a run. -/
theorem Run.split (run : Run a s start len) :
    s = s.take start ++ List.replicate len a ++ s.drop (start + len) := by
  have inside := run.inside
  have middle : (s.drop start).take len = List.replicate len a := by
    apply List.ext_getElem
    · simp only [List.length_take,List.length_drop,List.length_replicate]
      omega
    · intro i low high
      rw [List.length_replicate] at high
      have here := run.holds (start + i) (by omega) (by omega)
      rw [List.getElem_take,List.getElem_drop,List.getElem_replicate]
      exact (List.getElem?_eq_some_iff.mp here).2
  rw [← middle,List.append_assoc,← List.drop_drop,List.take_append_drop,List.take_append_drop]

theorem FirstLongest.unique (h : FirstLongest a s start len) (h' : FirstLongest a s start' len') :
    start = start' ∧ len = len' := by
  have same : len = len' := Nat.le_antisymm (h'.longest _ _ h.run) (h.longest _ _ h'.run)
  subst same
  exact ⟨Nat.le_antisymm (h.first _ h'.run) (h'.first _ h.run),rfl⟩

end Library
