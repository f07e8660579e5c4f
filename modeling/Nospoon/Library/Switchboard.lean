import Mathlib.Logic.Function.Basic

/-! What a tunnel server keeps: for each key at most one port and the address its
holder has, if any; and for each address the port packets for it go to. The two maps
are changed by different events and have to stay inverse to each other. Over
arbitrary keys `K`, ports `D` and addresses `A`. -/
namespace Library

@[ext] structure Switchboard (K D A : Type*) where
  slots : K → Option (D × Option A)
  routes : A → Option D

namespace Switchboard

variable {K D A : Type*} {b : Switchboard K D A} {k k' : K} {d d' : D} {a : A} {held : Option A}

/-- No port belongs to two keys. -/
def Distinct (b : Switchboard K D A) : Prop :=
  ∀ k k' d held held', b.slots k = some (d,held) → b.slots k' = some (d,held') → k = k'

/-- Every holder of an address is reached at it. -/
def Complete (b : Switchboard K D A) : Prop :=
  ∀ k d a, b.slots k = some (d,some a) → b.routes a = some d

/-- Every route leads to the holder of its address. -/
def Sound (b : Switchboard K D A) : Prop :=
  ∀ a d, b.routes a = some d → ∃ k, b.slots k = some (d,some a)

/-- Two keys cannot hold one address: its route leads to both. -/
theorem holder_unique (distinct : b.Distinct) (complete : b.Complete)
    (first : b.slots k = some (d,some a)) (second : b.slots k' = some (d',some a)) : k = k' := by
  have same : d = d' := Option.some.inj ((complete k d a first).symm.trans (complete k' d' a second))
  subst same
  exact distinct k k' d _ _ first second

section Updates

variable [DecidableEq K] [DecidableEq A]

/-- Key `k` gets port `d`, with an address when one is known. What its slot held
before is gone, but a route to it only goes when the address is the same. A holder's
address is learned by attaching its own port again. -/
def attach (b : Switchboard K D A) (k : K) (d : D) (held : Option A) : Switchboard K D A where
  slots := Function.update b.slots k (some (d,held))
  routes := match held with
    | none => b.routes
    | some a => Function.update b.routes a (some d)

def detach (b : Switchboard K D A) (k : K) : Switchboard K D A where
  slots := Function.update b.slots k none
  routes := match b.slots k with
    | some (_,some a) => Function.update b.routes a none
    | _ => b.routes

theorem attach_slot : (b.attach k d held).slots k' = if k' = k then some (d,held) else b.slots k' :=
  Function.update_apply _ _ _ _

theorem detach_slot : (b.detach k).slots k' = if k' = k then none else b.slots k' :=
  Function.update_apply _ _ _ _

theorem attach_route_some {a' : A} :
    (b.attach k d (some a)).routes a' = if a' = a then some d else b.routes a' :=
  Function.update_apply _ _ _ _

/-- Detaching takes exactly the route at the address the slot held. -/
theorem detach_route {a' : A} {e : D} : (b.detach k).routes a' = some e ↔
    b.routes a' = some e ∧ ∀ d, b.slots k ≠ some (d,some a') := by
  unfold detach
  cases h : b.slots k with
  | none => simp
  | some slot =>
    obtain ⟨d,held⟩ := slot
    cases held with
    | none => simp
    | some a =>
      by_cases same : a' = a
      · simp [same]
      · simp [same,Ne.symm same]

theorem attach_distinct (distinct : b.Distinct) (fresh : ∀ k' held, k' ≠ k → b.slots k' ≠ some (d,held)) :
    (b.attach k d held).Distinct := by
  intro k1 k2 e h1 h2 first second
  rw [attach_slot] at first second
  split at first <;> split at second
  · rename_i eq1 eq2; exact eq1.trans eq2.symm
  · rename_i eq1 ne2
    obtain ⟨rfl,-⟩ := Prod.mk.inj (Option.some.inj first)
    exact absurd second (fresh k2 _ ne2)
  · rename_i ne1 eq2
    obtain ⟨rfl,-⟩ := Prod.mk.inj (Option.some.inj second)
    exact absurd first (fresh k1 _ ne1)
  · exact distinct k1 k2 e h1 h2 first second

theorem detach_distinct (distinct : b.Distinct) : (b.detach k).Distinct := by
  intro k1 k2 e h1 h2 first second
  rw [detach_slot] at first second
  split at first
  · contradiction
  · split at second
    · contradiction
    · exact distinct k1 k2 e h1 h2 first second

/-- Attaching keeps every holder reached, provided no other key holds the address. -/
theorem attach_complete (complete : b.Complete)
    (free : ∀ a k' d', held = some a → k' ≠ k → b.slots k' ≠ some (d',some a)) :
    (b.attach k d held).Complete := by
  intro k1 e a slot
  rw [attach_slot] at slot
  split at slot
  · obtain ⟨rfl,rfl⟩ := Prod.mk.inj (Option.some.inj slot)
    rw [attach_route_some,if_pos rfl]
  · rename_i other
    have old := complete k1 e a slot
    cases held with
    | none => exact old
    | some a' =>
      rw [attach_route_some,if_neg]
      · exact old
      · rintro rfl
        exact free a k1 e rfl other slot

/-- Detaching leaves every other holder reached. -/
theorem detach_complete (distinct : b.Distinct) (complete : b.Complete) : (b.detach k).Complete := by
  intro k1 e a slot
  rw [detach_slot] at slot
  split at slot
  · contradiction
  · rename_i other
    refine detach_route.mpr ⟨complete k1 e a slot,fun d own => other ?_⟩
    exact holder_unique distinct complete slot own

theorem detach_sound (sound : b.Sound) : (b.detach k).Sound := by
  intro a e route
  obtain ⟨route,notOwn⟩ := detach_route.mp route
  obtain ⟨k1,slot⟩ := sound a e route
  refine ⟨k1,?_⟩
  rw [detach_slot,if_neg]
  · exact slot
  · rintro rfl
    exact notOwn e slot

/-- Attaching keeps every route owned exactly when the slot gives up no address: it
had none, or has the same again. -/
theorem attach_sound_iff (distinct : b.Distinct) (complete : b.Complete) (sound : b.Sound) :
    (b.attach k d held).Sound ↔ ∀ d' a, b.slots k = some (d',some a) → held = some a := by
  constructor
  · intro kept d' a old
    by_contra lost
    have route : (b.attach k d held).routes a = some d' := by
      cases held with
      | none => exact complete k d' a old
      | some a' =>
        rw [attach_route_some,if_neg (fun same => lost (congrArg some same.symm))]
        exact complete k d' a old
    obtain ⟨k1,slot⟩ := kept a d' route
    rw [attach_slot] at slot
    split at slot
    · exact lost (Prod.mk.inj (Option.some.inj slot)).2
    · rename_i other
      exact other (distinct k1 k d' _ _ slot old)
  · intro keeps a e route
    by_cases here : held = some a
    · subst here
      rw [attach_route_some,if_pos rfl] at route
      exact ⟨k,by rw [attach_slot,if_pos rfl,Option.some.inj route]⟩
    · have old : b.routes a = some e := by
        cases held with
        | none => exact route
        | some a' =>
          rw [attach_route_some,if_neg (fun same => here (congrArg some same.symm))] at route
          exact route
      obtain ⟨k1,slot⟩ := sound a e old
      refine ⟨k1,?_⟩
      rw [attach_slot,if_neg]
      · exact slot
      · rintro rfl
        exact here (keeps e a slot)

end Updates

end Switchboard

end Library
