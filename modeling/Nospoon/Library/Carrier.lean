import Nospoon.Library.Streaming

/-! Frames on their way. A writer appends whole frames to a byte stream, the reader is
handed any front of what is left, and what it has not yielded is exactly what is still
on the way. -/
namespace Library

namespace Code

variable {α β γ : Type*} {r : Reader α γ} (c : Code r β)

/-- The reader's buffer and the bytes behind it are the rest of a stream of frames, and
`items` is what that rest will yield. -/
def InFlight (buf bytes : List α) (items : List γ) : Prop :=
  ∃ todo, buf ++ bytes = c.wire todo ∧ c.Waiting todo buf ∧ c.values todo = items

variable {c} {buf bytes chunk more : List α} {items : List γ}

theorem inFlight_nil (idle : r.next [] = none) : c.InFlight [] [] [] := ⟨[],rfl,⟨List.nil_prefix,idle⟩,rfl⟩

theorem InFlight.write (h : c.InFlight buf bytes items) (frame : β) :
    c.InFlight buf (bytes ++ c.enc frame) (items ++ (c.value frame).toList) := by
  obtain ⟨todo,eq,⟨inside,waits⟩,rfl⟩ := h
  have last : c.wire [frame] = c.enc frame := List.append_nil _
  refine ⟨todo ++ [frame],?_,⟨?_,waits⟩,?_⟩
  · rw [← List.append_assoc,eq,c.wire_append,last]
  · rw [c.wire_append]
    exact inside.trans (List.prefix_append _ _)
  · rw [c.values_append,c.values_cons,c.values_nil,List.append_nil]

/-- A chunk yields the items it completes, and the others are still on their way. -/
theorem InFlight.deliver (h : c.InFlight buf (chunk ++ more) items) (idle : r.next [] = none) :
    ∃ rest, items = (r.drain (buf ++ chunk)).1 ++ rest ∧ c.InFlight (r.drain (buf ++ chunk)).2 more rest := by
  obtain ⟨todo,eq,-,rfl⟩ := h
  rw [← List.append_assoc] at eq
  obtain ⟨past,later,left,rfl,front,drained,waits⟩ :=
    c.drain_waiting (eq ▸ List.prefix_append _ _ : buf ++ chunk <+: _) idle
  rw [drained,c.values_append]
  refine ⟨c.values later,rfl,later,?_,waits,rfl⟩
  rw [front,c.wire_append,List.append_assoc] at eq
  exact List.append_cancel_left eq

/-- With no byte on the way nothing is left to yield, not even in the buffer. -/
theorem InFlight.done (h : c.InFlight buf [] items) : items = [] ∧ buf = [] := by
  obtain ⟨todo,eq,⟨-,waits⟩,rfl⟩ := h
  rw [List.append_nil] at eq
  cases todo with
  | nil => exact ⟨rfl,eq⟩
  | cons frame todo =>
    have cut := c.whole frame (c.wire todo)
    rw [← Code.wire_cons,← eq,waits] at cut
    contradiction

end Code

end Library
