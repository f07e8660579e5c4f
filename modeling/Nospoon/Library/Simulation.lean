import Nospoon.Library.Machine

/-! Forward simulation between event machines. Every event of the one is answered by
a run of the other that emits the same, so whatever holds of all logs of the second
holds of all logs of the first. -/
namespace Library

namespace Machine

variable {S S' E E' O : Type*} {m : Machine S E O} {m' : Machine S' E' O} {s : S} {t : S'}

theorem log_append (m : Machine S E O) (s : S) (es es' : List E) :
    m.log s (es ++ es') = m.log s es ++ m.log (m.run s es) es' := by
  induction es generalizing s with
  | nil => rfl
  | cons e es ih => rw [List.cons_append,log_cons,log_cons,ih,List.append_assoc,run_cons]

theorem admits_append : m.Admits s (es ++ es') ↔ m.Admits s es ∧ m.Admits (m.run s es) es' := by
  induction es generalizing s with
  | nil => simp
  | cons e es ih => rw [List.cons_append,admits_cons,admits_cons,ih,run_cons,and_assoc]

/-- `r` relates a state of `m` to states of `m'` that can follow it step by step. -/
def Simulates (m : Machine S E O) (m' : Machine S' E' O) (r : S → S' → Prop) : Prop :=
  ∀ s t e, r s t → m.enabled s e →
    ∃ es, m'.Admits t es ∧ m'.log t es = m.emits s e ∧ r (m.next s e) (m'.run t es)

theorem Simulates.run {r : S → S' → Prop} (simulates : m.Simulates m' r) (start : r s t)
    (admitted : m.Admits s es) :
    ∃ es', m'.Admits t es' ∧ m'.log t es' = m.log s es ∧ r (m.run s es) (m'.run t es') := by
  induction es generalizing s t with
  | nil => exact ⟨[],trivial,rfl,start⟩
  | cons e es ih =>
    obtain ⟨now,can,same,related⟩ := simulates s t e start admitted.1
    obtain ⟨later,canLater,sameLater,ends⟩ := ih related admitted.2
    refine ⟨now ++ later,admits_append.mpr ⟨can,canLater⟩,?_,?_⟩
    · rw [log_append,same,sameLater,log_cons]
    · rw [run_append]
      exact ends

/-- The log beside the state is the log of the run. -/
theorem withLog_run (m : Machine S E O) (s : S) (past : List O) (es : List E) :
    m.withLog.run (s,past) es = (m.run s es,past ++ m.log s es) := by
  induction es generalizing s past with
  | nil => rw [log_nil,List.append_nil]; rfl
  | cons e es ih =>
    have step := ih (m.next s e) (past ++ m.emits s e)
    rw [List.append_assoc] at step
    exact step

/-- An invariant over states with their logs holds at the end of every run. -/
theorem run_invariant {inv : S × List O → Prop}
    (step : ∀ s past e, inv (s,past) → m.enabled s e → inv (m.next s e,past ++ m.emits s e))
    (start : inv (s,[])) (admitted : m.Admits s es) : inv (m.run s es,m.log s es) := by
  have kept : m.withLog.Throughout inv (s,[]) es :=
    throughout_of_invariant inv (fun s e holds enabled => step s.1 s.2 e holds enabled)
      (fun _ holds => holds) start (withLog_admits.mpr admitted)
  have ends := kept.last
  rw [withLog_run,List.nil_append] at ends
  exact ends

end Machine

end Library
