import Mathlib.Logic.Function.Basic

/-! Event machines: an environment decides which event may occur (`enabled`), the
program answers it (`next`, `emits`). The rules below carry one step to every run:
an invariant, an invariant read off a single emission, and the exact class of runs
that keep a property which some events may break. -/
namespace Library

/-- States `S`, events `E` and emissions `O`. `enabled` holds what is assumed of the
environment; `next` and `emits` are the program's own reaction. -/
structure Machine (S E O : Type*) where
  enabled : S → E → Prop
  next : S → E → S
  emits : S → E → List O

namespace Machine

variable {S E O : Type*} {m : Machine S E O} {s : S}

def run (m : Machine S E O) : S → List E → S
  | s, [] => s
  | s, e :: es => run m (m.next s e) es

def log (m : Machine S E O) : S → List E → List O
  | _, [] => []
  | s, e :: es => m.emits s e ++ log m (m.next s e) es

/-- Every event of the run meets `p` in the state where it occurs. -/
def Along (m : Machine S E O) (p : S → E → Prop) : S → List E → Prop
  | _, [] => True
  | s, e :: es => p s e ∧ Along m p (m.next s e) es

/-- `p` holds in the first state of the run and after each of its events. -/
def Throughout (m : Machine S E O) (p : S → Prop) : S → List E → Prop
  | s, [] => p s
  | s, e :: es => p s ∧ Throughout m p (m.next s e) es

/-- The environment can produce these events in this order. -/
def Admits (m : Machine S E O) : S → List E → Prop := m.Along m.enabled

@[simp] theorem run_nil : m.run s [] = s := rfl
@[simp] theorem run_cons : m.run s (e :: es) = m.run (m.next s e) es := rfl
@[simp] theorem log_nil : m.log s [] = [] := rfl
@[simp] theorem log_cons : m.log s (e :: es) = m.emits s e ++ m.log (m.next s e) es := rfl
@[simp] theorem along_nil : m.Along p s [] := trivial
@[simp] theorem along_cons :
    m.Along p s (e :: es) ↔ p s e ∧ m.Along p (m.next s e) es := Iff.rfl
@[simp] theorem throughout_nil {p : S → Prop} : m.Throughout p s [] ↔ p s := Iff.rfl
@[simp] theorem throughout_cons {p : S → Prop} :
    m.Throughout p s (e :: es) ↔ p s ∧ m.Throughout p (m.next s e) es := Iff.rfl
@[simp] theorem admits_nil : m.Admits s [] := trivial
@[simp] theorem admits_cons :
    m.Admits s (e :: es) ↔ m.enabled s e ∧ m.Admits (m.next s e) es := Iff.rfl

instance decidableAlong (p : S → E → Prop) [∀ s e, Decidable (p s e)] :
    ∀ s es, Decidable (m.Along p s es)
  | _, [] => isTrue trivial
  | s, e :: es => @instDecidableAnd _ _ _ (decidableAlong p (m.next s e) es)

instance [∀ s e, Decidable (m.enabled s e)] : Decidable (m.Admits s es) :=
  decidableAlong m.enabled s es

theorem run_append (m : Machine S E O) (s : S) (es es' : List E) : m.run s (es ++ es') = m.run (m.run s es) es' := by
  induction es generalizing s with
  | nil => rfl
  | cons e es ih => exact ih (m.next s e)

theorem Throughout.first {p : S → Prop} (h : m.Throughout p s es) : p s := by
  cases es with
  | nil => exact h
  | cons e es => exact h.1

theorem Throughout.last {p : S → Prop} (h : m.Throughout p s es) : p (m.run s es) := by
  induction es generalizing s with
  | nil => exact h
  | cons e es ih => exact ih h.2

/-- The induction for every safety argument: what the environment's admissible events
preserve holds after each of them, and so does what follows from it. -/
theorem throughout_of_invariant (inv : S → Prop) {p : S → Prop}
    (step : ∀ s e, inv s → m.enabled s e → inv (m.next s e)) (implies : ∀ s, inv s → p s)
    (start : inv s) (admitted : m.Admits s es) : m.Throughout p s es := by
  induction es generalizing s with
  | nil => exact implies s start
  | cons e es ih => exact ⟨implies s start,ih (step s e start admitted.1) admitted.2⟩

/-- What an invariant gives at each event holds along the run. -/
theorem along_of_invariant {inv : S → Prop} {p : S → E → Prop} (step : ∀ s e, inv s → m.enabled s e → inv (m.next s e))
    (event : ∀ s e, inv s → m.enabled s e → p s e) (start : inv s) (admitted : m.Admits s es) : m.Along p s es := by
  induction es generalizing s with
  | nil => trivial
  | cons e es ih => exact ⟨event s e start admitted.1,ih (step s e start admitted.1) admitted.2⟩

/-- What every single reaction emits under an invariant is all a run ever emits. -/
theorem log_forall (inv : S → Prop) (good : O → Prop)
    (step : ∀ s e, inv s → m.enabled s e → inv (m.next s e))
    (emit : ∀ s e, inv s → m.enabled s e → ∀ o ∈ m.emits s e, good o)
    (start : inv s) (admitted : m.Admits s es) : ∀ o ∈ m.log s es, good o := by
  induction es generalizing s with
  | nil => simp
  | cons e es ih =>
    intro o member
    rcases List.mem_append.mp member with now | later
    · exact emit s e start admitted.1 o now
    · exact ih (step s e start admitted.1) admitted.2 o later

/-- Exactness: when an event keeps `p` precisely if it meets `ok`, the runs that
keep `p` in every state are precisely those all of whose events meet `ok`. The
auxiliary `inv` may itself rely on `p`. -/
theorem throughout_iff_along (inv : S → Prop) {p : S → Prop} {ok : S → E → Prop}
    (step : ∀ s e, inv s → p s → m.enabled s e → inv (m.next s e))
    (exact_step : ∀ s e, inv s → p s → m.enabled s e → (p (m.next s e) ↔ ok s e))
    (start : inv s) (holds : p s) (admitted : m.Admits s es) :
    m.Throughout p s es ↔ m.Along ok s es := by
  induction es generalizing s with
  | nil => simp [holds]
  | cons e es ih =>
    have now := exact_step s e start holds admitted.1
    constructor
    · rintro ⟨-,later⟩
      have kept := later.first
      exact ⟨now.mp kept,(ih (step s e start holds admitted.1) kept admitted.2).mp later⟩
    · rintro ⟨meets,later⟩
      have kept := now.mpr meets
      exact ⟨holds,(ih (step s e start holds admitted.1) kept admitted.2).mpr later⟩

/-- The same machine carrying its own log, for properties that mention the past. -/
def withLog (m : Machine S E O) : Machine (S × List O) E O where
  enabled s e := m.enabled s.1 e
  next s e := (m.next s.1 e,s.2 ++ m.emits s.1 e)
  emits s e := m.emits s.1 e

theorem withLog_admits : m.withLog.Admits (s,past) es ↔ m.Admits s es := by
  induction es generalizing s past with
  | nil => simp
  | cons e es ih =>
    rw [admits_cons,admits_cons]
    exact and_congr Iff.rfl ih

end Machine

end Library
