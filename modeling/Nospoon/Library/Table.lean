import Mathlib.Data.List.AList

/-! Tables built by inserting pairs one after the other: the last pair of a key stands. -/
namespace Library

variable {α α' β β' : Type*} [DecidableEq α] [DecidableEq α']

abbrev Table (α β : Type*) := AList fun _ : α => β

def insertAll (m : Table α β) (pairs : List (α × β)) : Table α β :=
  pairs.foldl (fun m p => m.insert p.1 p.2) m

theorem insertAll_cons (m : Table α β) (p : α × β) (pairs : List (α × β)) :
    insertAll m (p :: pairs) = insertAll (m.insert p.1 p.2) pairs := rfl

theorem insertAll_append (m : Table α β) (first second : List (α × β)) :
    insertAll m (first ++ second) = insertAll (insertAll m first) second := List.foldl_append

/-- Without repeated keys every pair is an entry, the latest first. -/
theorem insertAll_entries (m : Table α β) (pairs : List (α × β)) (fresh : ∀ p ∈ pairs, p.1 ∉ m)
    (distinct : (pairs.map Prod.fst).Nodup) :
    (insertAll m pairs).entries = (pairs.map fun p => ⟨p.1,p.2⟩).reverse ++ m.entries := by
  induction pairs generalizing m with
  | nil => rfl
  | cons p pairs ih =>
    obtain ⟨absent,distinct⟩ := List.nodup_cons.mp distinct
    obtain ⟨here,later⟩ := List.forall_mem_cons.mp fresh
    have apart : ∀ q ∈ pairs, q.1 ∉ m.insert p.1 p.2 := by
      intro q member inside
      rcases (AList.mem_insert m).mp inside with same | old
      · exact absent (List.mem_map.mpr ⟨q,member,same⟩)
      · exact later q member old
    have step := ih (m.insert p.1 p.2) apart distinct
    rw [AList.entries_insert_of_notMem here] at step
    rw [insertAll_cons,step,List.map_cons,List.reverse_cons,List.append_assoc]
    rfl

theorem insertAll_eq_empty (m : Table α β) (pairs : List (α × β)) :
    insertAll m pairs = ∅ ↔ m = ∅ ∧ pairs = [] := by
  induction pairs generalizing m with
  | nil => simp [insertAll]
  | cons p pairs ih =>
    have nonempty : m.insert p.1 p.2 ≠ ∅ := by
      intro empty
      have found := AList.lookup_insert (a := p.1) (b := p.2) m
      rw [empty] at found
      contradiction
    have later := ih (m.insert p.1 p.2)
    simp only [nonempty,false_and,iff_false] at later
    simpa [insertAll] using later

theorem mem_insertAll {m : Table α β} {pairs : List (α × β)} (h : k ∈ insertAll m pairs) :
    k ∈ m ∨ ∃ value, (k,value) ∈ pairs := by
  induction pairs generalizing m with
  | nil => exact .inl h
  | cons p pairs ih =>
    rcases ih (show k ∈ insertAll (m.insert p.1 p.2) pairs from h) with inside | ⟨value,member⟩
    · rcases (AList.mem_insert m).mp inside with rfl | old
      · exact .inr ⟨p.2,List.mem_cons_self⟩
      · exact .inl old
    · exact .inr ⟨value,List.mem_cons_of_mem _ member⟩

/-- What the pairs do not name is as it was before. -/
theorem lookup_insertAll_or (m : Table α β) (pairs : List (α × β)) (k : α) :
    (insertAll m pairs).lookup k = ((insertAll ∅ pairs).lookup k).or (m.lookup k) := by
  induction pairs generalizing m with
  | nil => rfl
  | cons p pairs ih =>
    rw [insertAll_cons,insertAll_cons,ih (m.insert p.1 p.2),ih ((∅ : Table α β).insert p.1 p.2),Option.or_assoc]
    by_cases here : k = p.1
    · subst here
      rw [AList.lookup_insert,AList.lookup_insert]
      rfl
    · rw [AList.lookup_insert_ne here,AList.lookup_insert_ne here]
      rfl

theorem lookup_insertAll_absent {pairs : List (α × β)} (m : Table α β) (absent : k ∉ pairs.map Prod.fst) :
    (insertAll m pairs).lookup k = m.lookup k := by
  induction pairs generalizing m with
  | nil => rfl
  | cons p pairs ih =>
    obtain ⟨differs,later⟩ := not_or.mp (List.mem_cons.not.mp absent)
    rw [insertAll_cons,ih _ later,AList.lookup_insert_ne differs]

/-- Without repeated keys every pair stands. -/
theorem lookup_insertAll_member {pairs : List (α × β)} (m : Table α β) (distinct : (pairs.map Prod.fst).Nodup)
    (member : (k,v) ∈ pairs) : (insertAll m pairs).lookup k = some v := by
  induction pairs generalizing m with
  | nil => contradiction
  | cons p pairs ih =>
    obtain ⟨absent,distinct⟩ := List.nodup_cons.mp distinct
    rw [insertAll_cons]
    rcases List.mem_cons.mp member with rfl | later
    · rw [lookup_insertAll_absent _ absent,AList.lookup_insert]
    · exact ih _ distinct later

/-- Every key of the pairs is in the table. -/
theorem lookup_insertAll_key {pairs : List (α × β)} (m : Table α β) (member : k ∈ pairs.map Prod.fst) :
    ∃ v, (k,v) ∈ pairs ∧ (insertAll m pairs).lookup k = some v := by
  induction pairs generalizing m with
  | nil => contradiction
  | cons p pairs ih =>
    rw [insertAll_cons]
    by_cases later : k ∈ pairs.map Prod.fst
    · obtain ⟨v,inside,found⟩ := ih (m.insert p.1 p.2) later
      exact ⟨v,List.mem_cons_of_mem _ inside,found⟩
    · obtain rfl : k = p.1 := by
        rcases List.mem_cons.mp member with here | there
        · exact here
        · exact absurd there later
      exact ⟨p.2,List.mem_cons_self,by rw [lookup_insertAll_absent _ later,AList.lookup_insert]⟩

/-- What is found comes from the pairs, if it was not there before. -/
theorem mem_of_lookup_insertAll {pairs : List (α × β)} (found : (insertAll ∅ pairs).lookup k = some v) :
    (k,v) ∈ pairs := by
  by_cases key : k ∈ pairs.map Prod.fst
  · obtain ⟨v',inside,found'⟩ := lookup_insertAll_key ∅ key
    obtain rfl := Option.some.inj (found.symm.trans found')
    exact inside
  · rw [lookup_insertAll_absent ∅ key] at found
    contradiction

/-- Without repeated keys the pairs are what is found. -/
theorem lookup_insertAll_iff {pairs : List (α × β)} (distinct : (pairs.map Prod.fst).Nodup) :
    (insertAll ∅ pairs).lookup k = some v ↔ (k,v) ∈ pairs :=
  ⟨mem_of_lookup_insertAll,lookup_insertAll_member ∅ distinct⟩

theorem eq_empty_of_lookup {m : Table α β} (nothing : ∀ k, m.lookup k = none) : m = ∅ := by
  apply AList.ext
  refine List.eq_nil_iff_forall_not_mem.mpr fun e member => ?_
  have found : m.lookup e.1 = some e.2 := AList.mem_lookup_iff.mpr member
  rw [nothing] at found
  contradiction

/-- The same pairs under other names for keys and values make corresponding tables. -/
theorem lookup_insertAll_image {items : List γ} {key : γ → α} {key' : γ → α'} {value : γ → β} {value' : γ → β'}
    {f : α → α'} {g : β' → β} (injective : f.Injective) (keys : ∀ e ∈ items, f (key e) = key' e)
    (values : ∀ e ∈ items, g (value' e) = value e) {m : Table α β} {m' : Table α' β'}
    (start : ∀ k, m.lookup k = (m'.lookup (f k)).map g) (k : α) :
    (insertAll m (items.map fun e => (key e,value e))).lookup k =
      ((insertAll m' (items.map fun e => (key' e,value' e))).lookup (f k)).map g := by
  induction items generalizing m m' with
  | nil => exact start k
  | cons e items ih =>
    obtain ⟨key_e,keys⟩ := List.forall_mem_cons.mp keys
    obtain ⟨value_e,values⟩ := List.forall_mem_cons.mp values
    refine ih keys values fun k => ?_
    change (m.insert (key e) (value e)).lookup k = ((m'.insert (key' e) (value' e)).lookup (f k)).map g
    by_cases here : k = key e
    · rw [here,AList.lookup_insert,← key_e,AList.lookup_insert,← value_e]
      rfl
    · have apart : f k ≠ key' e := fun same => here (injective (same.trans key_e.symm))
      rw [AList.lookup_insert_ne here,AList.lookup_insert_ne apart]
      exact start k

theorem mem_pairs_iff {m : Table α β} : (k,v) ∈ m.entries.map (fun e => (e.1,e.2)) ↔ m.lookup k = some v := by
  rw [← Option.mem_def,AList.mem_lookup_iff]
  simp

end Library
