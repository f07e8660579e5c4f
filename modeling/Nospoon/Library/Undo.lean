import Mathlib.Data.List.Basic

/-! Changes pushed on a list and taken back one by one. Each change `b` puts `put b` in
front and is taken back by erasing the first entry it `hits`. Changes that hit no other
change's entry come out in any order and leave what was there before. -/
namespace Library

section Undo

variable {α β : Type*} (put : β → α) (hits : β → α → Bool) {hit : α → Bool} {bs : List β} {s : List α}

def putAll (s : List α) (bs : List β) : List α := bs.foldl (fun s b => put b :: s) s

def takeBack (s : List α) (bs : List β) : List α := bs.foldl (fun s b => s.eraseP (hits b)) s

@[simp] theorem putAll_nil : putAll put s [] = s := rfl
@[simp] theorem putAll_cons : putAll put s (b :: bs) = putAll put (put b :: s) bs := rfl
@[simp] theorem takeBack_nil : takeBack hits s [] = s := rfl
@[simp] theorem takeBack_cons : takeBack hits s (b :: bs) = takeBack hits (s.eraseP (hits b)) bs := rfl

/-- Erasing passes the entries it misses. -/
theorem eraseP_putAll (misses : ∀ b ∈ bs, hit (put b) = false) :
    (putAll put s bs).eraseP hit = putAll put (s.eraseP hit) bs := by
  induction bs generalizing s with
  | nil => rfl
  | cons b bs ih =>
    rw [List.forall_mem_cons] at misses
    have past : (put b :: s).eraseP hit = put b :: s.eraseP hit := List.eraseP_cons_of_neg (by simp [misses.1])
    rw [putAll_cons,ih misses.2,past]
    rfl

/-- Everything put is taken back, oldest first. -/
theorem takeBack_putAll (own : ∀ b, hits b (put b) = true) (apart : ∀ a b, hits a (put b) = true → a = b)
    (distinct : bs.Nodup) : takeBack hits (putAll put s bs) bs = s := by
  induction bs generalizing s with
  | nil => rfl
  | cons b bs ih =>
    obtain ⟨fresh,rest⟩ := List.nodup_cons.mp distinct
    have misses (c : β) (member : c ∈ bs) : hits b (put c) = false :=
      Bool.eq_false_iff.mpr fun hit => fresh (apart b c hit ▸ member)
    rw [putAll_cons,takeBack_cons,eraseP_putAll put misses,List.eraseP_cons_of_pos (own b)]
    exact ih rest

section More

variable {hits} (apart : ∀ a b x, hits a x = true → hits b x = true → a = b)

include apart in
/-- What other changes erase leaves a change's own entries. -/
theorem countP_takeBack {b : β} (other : b ∉ bs) (s : List α) : (takeBack hits s bs).countP (hits b) = s.countP (hits b) := by
  induction bs generalizing s with
  | nil => rfl
  | cons c bs ih =>
    obtain ⟨differ,later⟩ := not_or.mp (mt List.mem_cons.mpr other)
    rw [takeBack_cons,ih later]
    rcases List.exists_or_eq_self_of_eraseP (hits c) s with same | ⟨x,front,back,-,erased,split,rest⟩
    · rw [same]
    · have missed : ¬hits b x = true := fun hit => differ (apart b c x hit erased)
      rw [rest,split,List.countP_append,List.countP_append,List.countP_cons_of_neg missed]

/-- An entry that is erased is no longer counted. -/
theorem countP_eraseP_lt {a : α} (member : a ∈ s) (here : hit a = true) : (s.eraseP hit).countP hit < s.countP hit := by
  obtain ⟨x,front,back,-,erased,split,rest⟩ := List.exists_of_eraseP member here
  rw [rest,split,List.countP_append,List.countP_append,List.countP_cons_of_pos erased]
  omega

include apart in
/-- Taking more back comes to the same exactly if nothing more is there to be hit. -/
theorem takeBack_more {fewer : List β} (part : List.Sublist fewer bs) (distinct : bs.Nodup) (s : List α) :
    takeBack hits s bs = takeBack hits s fewer ↔ ∀ b ∈ bs, b ∉ fewer → ∀ a ∈ s, hits b a = false := by
  induction part generalizing s with
  | slnil => simp
  | @cons fewer bs b part ih =>
    obtain ⟨fresh,rest⟩ := List.nodup_cons.mp distinct
    have absent : b ∉ fewer := fun member => fresh (part.subset member)
    rw [takeBack_cons]
    constructor
    · intro same
      have none (a : α) (member : a ∈ s) : hits b a = false := by
        rw [Bool.eq_false_iff]
        intro hit
        have less := countP_eraseP_lt member hit
        have count := congrArg (List.countP (hits b)) same
        rw [countP_takeBack apart fresh,countP_takeBack apart absent] at count
        omega
      have whole : s.eraseP (hits b) = s := List.eraseP_of_forall_not fun a member => by simp [none a member]
      rw [whole] at same
      intro c member missing
      rcases List.mem_cons.mp member with rfl | later
      · exact none
      · exact (ih rest s).mp same c later missing
    · intro none
      have whole : s.eraseP (hits b) = s :=
        List.eraseP_of_forall_not fun a member => by simp [none b List.mem_cons_self absent a member]
      rw [whole]
      exact (ih rest s).mpr fun c member => none c (List.mem_cons_of_mem b member)
  | @cons_cons fewer bs b part ih =>
    obtain ⟨fresh,rest⟩ := List.nodup_cons.mp distinct
    rw [takeBack_cons,takeBack_cons,ih rest]
    constructor
    · intro none c member missing a inside
      obtain ⟨differ,absent⟩ := not_or.mp (mt List.mem_cons.mpr missing)
      have later : c ∈ bs := (List.mem_cons.mp member).resolve_left differ
      by_cases erased : hits b a = true
      · exact Bool.eq_false_iff.mpr fun hit => differ (apart c b a hit erased)
      · exact none c later absent a ((List.mem_eraseP_of_neg erased).mpr inside)
    · intro none c member missing a inside
      have differ : c ≠ b := fun same => fresh (same ▸ member)
      apply none c (List.mem_cons_of_mem b member)
      · exact fun there => (List.mem_cons.mp there).elim differ missing
      · exact List.mem_of_mem_eraseP inside

end More

end Undo

end Library
