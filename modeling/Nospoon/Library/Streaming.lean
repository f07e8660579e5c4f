import Mathlib.Data.List.Basic

/-! Decoding a byte stream that arrives in arbitrary chunks. A reader cuts items off
the front of a buffer; a self-delimiting code fixes what it must do on whole frames
and on proper prefixes of frames. Under those two facts the chunk borders vanish. -/
namespace Library

/-- `next` consumes something from the buffer, with or without yielding an item, or
answers `none` when the buffer must wait for more input. -/
structure Reader (α γ : Type*) where
  next : List α → Option (Option γ × List α)
  progress : ∀ {buf item rest}, next buf = some (item,rest) → rest.length < buf.length

namespace Reader

variable {α β γ : Type*} (r : Reader α γ)

/-- At most `fuel` rounds of the reading loop: items in order, and what is left. -/
def rounds : Nat → List α → List γ × List α
  | 0, buf => ([],buf)
  | fuel + 1, buf =>
    match r.next buf with
    | none => ([],buf)
    | some (item,rest) => (item.toList ++ (rounds fuel rest).1,(rounds fuel rest).2)

/-- The whole loop. Every round shortens the buffer, so its length bounds the rounds. -/
def drain (buf : List α) : List γ × List α := r.rounds buf.length buf

theorem rounds_enough (buf : List α) (fuel more : Nat) (enough : buf.length ≤ fuel)
    (also : buf.length ≤ more) : r.rounds fuel buf = r.rounds more buf := by
  induction fuel generalizing buf more with
  | zero =>
    have empty : buf = [] := List.eq_nil_of_length_eq_zero (by omega)
    subst empty
    cases more with
    | zero => rfl
    | succ more =>
      cases h : r.next [] with
      | none => simp [rounds,h]
      | some p => exact absurd (r.progress h) (by simp)
  | succ fuel ih =>
    cases more with
    | zero =>
      have empty : buf = [] := List.eq_nil_of_length_eq_zero (by omega)
      subst empty
      cases h : r.next [] with
      | none => simp [rounds,h]
      | some p => exact absurd (r.progress h) (by simp)
    | succ more =>
      cases h : r.next buf with
      | none => simp [rounds,h]
      | some p =>
        obtain ⟨item,rest⟩ := p
        have shorter := r.progress h
        simp only [rounds,h,ih rest more (by omega) (by omega)]

theorem drain_wait {buf : List α} (h : r.next buf = none) : r.drain buf = ([],buf) := by
  cases buf with
  | nil => rfl
  | cons a buf => simp [drain,rounds,h]

theorem drain_next {buf rest : List α} {item : Option γ} (h : r.next buf = some (item,rest)) :
    r.drain buf = (item.toList ++ (r.drain rest).1,(r.drain rest).2) := by
  have shorter := r.progress h
  cases buf with
  | nil => simp at shorter
  | cons a buf =>
    have same : r.rounds buf.length rest = r.rounds rest.length rest :=
      r.rounds_enough rest _ _ (by simpa using Nat.le_of_lt_succ shorter) (Nat.le_refl _)
    simp only [drain,List.length_cons,rounds,h,same]

/-- Readers that cut alike drain alike. -/
theorem drain_congr {r r' : Reader α γ} (alike : ∀ buf, r.next buf = r'.next buf) (buf : List α) :
    r.drain buf = r'.drain buf := by
  have rounds (fuel : Nat) : ∀ buf, r.rounds fuel buf = r'.rounds fuel buf := by
    induction fuel with
    | zero => intro buf; rfl
    | succ fuel ih =>
      intro buf
      simp only [Reader.rounds,alike buf,ih]
  exact rounds buf.length buf

/-- The buffers the loop comes to from `buf`. -/
inductive Reaches (buf : List α) : List α → Prop
  | start : Reaches buf buf
  | round {mid rest : List α} {item : Option γ} (come : Reaches buf mid) (cut : r.next mid = some (item,rest)) :
    Reaches buf rest

/-- From wherever the loop is, it ends with the same rest. -/
theorem Reaches.drain {r : Reader α γ} {buf mid : List α} (come : r.Reaches buf mid) :
    (r.drain mid).2 = (r.drain buf).2 := by
  induction come with
  | start => rfl
  | round _ cut ih =>
    have step := congrArg Prod.snd (r.drain_next cut)
    exact step.symm.trans ih

/-- What holds of the buffer and is kept by every round holds where the loop waits, and
every item is cut from such a buffer. -/
theorem drain_induction {p : List α → Prop} {buf : List α}
    (kept : ∀ {mid item rest}, p mid → r.next mid = some (item,rest) → p rest) (start : p buf) :
    (p (r.drain buf).2 ∧ r.next (r.drain buf).2 = none) ∧
      ∀ item ∈ (r.drain buf).1, ∃ mid rest, p mid ∧ r.next mid = some (some item,rest) := by
  induction length : buf.length using Nat.strongRecOn generalizing buf with
  | ind n ih =>
    cases cut : r.next buf with
    | none =>
      rw [r.drain_wait cut]
      exact ⟨⟨start,cut⟩,by simp⟩
    | some next =>
      obtain ⟨item,rest⟩ := next
      obtain ⟨ends,items⟩ := ih rest.length (length ▸ r.progress cut) (kept start cut) rfl
      rw [r.drain_next cut]
      refine ⟨ends,fun found member => ?_⟩
      rcases List.mem_append.mp member with here | later
      · obtain rfl : item = some found := Option.mem_toList.mp here
        exact ⟨buf,rest,start,cut⟩
      · exact items found later

end Reader

/-- A code whose frames the reader recognises wherever they start, and on whose
proper prefixes it waits. -/
structure Code {α γ : Type*} (r : Reader α γ) (β : Type*) where
  enc : β → List α
  value : β → Option γ
  whole : ∀ frame more, r.next (enc frame ++ more) = some (value frame,more)
  short : ∀ frame front, front <+: enc frame → front ≠ enc frame → r.next front = none

namespace Code

variable {α β γ : Type*} {r : Reader α γ} (c : Code r β)

def wire (frames : List β) : List α := frames.flatMap c.enc
def values (frames : List β) : List γ := frames.filterMap c.value

@[simp] theorem wire_nil : c.wire [] = [] := rfl
@[simp] theorem wire_cons : c.wire (f :: fs) = c.enc f ++ c.wire fs := rfl
@[simp] theorem values_nil : c.values [] = [] := rfl
theorem values_cons : c.values (f :: fs) = (c.value f).toList ++ c.values fs := by
  cases h : c.value f <;> simp [values,h]

theorem wire_append : c.wire (fs ++ gs) = c.wire fs ++ c.wire gs := List.flatMap_append
theorem values_append : c.values (fs ++ gs) = c.values fs ++ c.values gs :=
  List.filterMap_append

/-- Whole frames at the front are emitted, whatever follows them. -/
theorem drain_wire (frames : List β) (more : List α) :
    r.drain (c.wire frames ++ more) = (c.values frames ++ (r.drain more).1,(r.drain more).2) := by
  induction frames with
  | nil => simp
  | cons frame frames ih =>
    rw [wire_cons,List.append_assoc,r.drain_next (c.whole frame _),ih,values_cons,List.append_assoc]

/-- A buffer in mid-stream: `tail` is what waits of the first frame of `todo`. -/
def Waiting (todo : List β) (tail : List α) : Prop :=
  tail <+: c.wire todo ∧ r.next tail = none

/-- Every prefix of a stream of frames splits into whole frames and a waiting tail. -/
theorem split_front (frames : List β) (front : List α) (h : front <+: c.wire frames)
    (idle : r.next [] = none) :
    ∃ past todo tail, frames = past ++ todo ∧ front = c.wire past ++ tail ∧ c.Waiting todo tail := by
  induction frames generalizing front with
  | nil =>
    have empty : front = [] := List.prefix_nil.mp h
    exact ⟨[],[],[],rfl,by simp [empty],List.nil_prefix,idle⟩
  | cons frame frames ih =>
    obtain ⟨back,eq⟩ := h
    rw [wire_cons] at eq
    rcases List.append_eq_append_iff.mp eq with ⟨gap,whole,-⟩ | ⟨rest,rfl,tail⟩
    · by_cases full : front = c.enc frame
      · obtain ⟨past,todo,left,hf,hp,waiting⟩ := ih [] List.nil_prefix
        refine ⟨frame :: past,todo,left,by simp [hf],?_,waiting⟩
        rw [wire_cons,List.append_assoc,← hp,full,List.append_nil]
      · have inside : front <+: c.enc frame := ⟨gap,whole.symm⟩
        exact ⟨[],frame :: frames,front,rfl,by simp,
          inside.trans (List.prefix_append _ _),c.short frame front inside full⟩
    · obtain ⟨past,todo,left,hf,hp,waiting⟩ := ih rest ⟨back,tail.symm⟩
      exact ⟨frame :: past,todo,left,by simp [hf],by simp [hp],waiting⟩

/-- One more chunk: a waiting buffer extended inside the stream drains into exactly
the frames it completes, and waits again. -/
theorem drain_waiting {todo : List β} {tail chunk : List α}
    (h : tail ++ chunk <+: c.wire todo) (idle : r.next [] = none) :
    ∃ past rest left, todo = past ++ rest ∧ tail ++ chunk = c.wire past ++ left ∧
      r.drain (tail ++ chunk) = (c.values past,left) ∧ c.Waiting rest left := by
  obtain ⟨past,rest,left,hf,hp,waiting⟩ := c.split_front todo (tail ++ chunk) h idle
  refine ⟨past,rest,left,hf,hp,?_,waiting⟩
  rw [hp,c.drain_wire,r.drain_wait waiting.2]
  simp

end Code

end Library
