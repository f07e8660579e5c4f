import Nospoon.Library.Simulation
import Mathlib.Data.List.Basic

/-! A hub and its spokes. Each spoke has a queue to the hub and one from it; the hub
takes items off the front of the first and puts them at the back of the second, or
hands them out. What is watched is the log of sends, takes, puts and arrivals, and the
queues account for it exactly: nothing is lost, doubled or reordered. -/
namespace Library

/-- One thing watched. An item put to a spoke carries the spoke it was taken from, or
none when the hub's own interface gave it. -/
inductive Seen (P : Type*) where
  | sent (d : Nat) (p : P)
  | took (d : Nat) (p : P)
  | put (e : Nat) (origin : Option Nat) (p : P)
  | out (d : Nat) (p : P)
  | issued (p : P)
  | arrived (e : Nat) (p : P)
  deriving DecidableEq, Repr

namespace Seen

variable {P : Type*}

def sentOn (d : Nat) : List (Seen P) → List P :=
  List.filterMap fun
    | .sent d' p => if d' = d then some p else none
    | _ => none

def tookOn (d : Nat) : List (Seen P) → List P :=
  List.filterMap fun
    | .took d' p => if d' = d then some p else none
    | _ => none

def putOn (e : Nat) : List (Seen P) → List (Option Nat × P) :=
  List.filterMap fun
    | .put e' origin p => if e' = e then some (origin,p) else none
    | _ => none

def arrivedOn (e : Nat) : List (Seen P) → List P :=
  List.filterMap fun
    | .arrived e' p => if e' = e then some p else none
    | _ => none

def issuedIn : List (Seen P) → List P :=
  List.filterMap fun
    | .issued p => some p
    | _ => none

/-- What reached spoke `e` from one origin, as it was put there. -/
def putFrom (origin : Option Nat) (e : Nat) (log : List (Seen P)) : List P :=
  ((putOn e log).filter fun x => x.1 = origin).map Prod.snd

end Seen

/-- The two queues of a spoke. As long as it is `steady`, the hub takes from it what the
spoke sent and nothing else. -/
structure Spoke (K P : Type*) where
  key : K
  up : List P := []
  down : List (Option Nat × P) := []
  steady : Bool := true

namespace Spoke

variable {K P : Type*} (spoke : Spoke K P)

def send (p : P) : Spoke K P := { spoke with up := spoke.up ++ [p] }
def take : Spoke K P := { spoke with up := spoke.up.tail }
def put (origin : Option Nat) (p : P) : Spoke K P := { spoke with down := spoke.down ++ [(origin,p)] }
def arrive : Spoke K P := { spoke with down := spoke.down.tail }
def loosen : Spoke K P := { spoke with steady := false }

/-- After `n` items have arrived. -/
def arrivals (n : Nat) : Spoke K P := { spoke with down := spoke.down.drop n }

end Spoke

/-- Who may send from and to which address. -/
structure Addressing (K P A : Type*) where
  addr : K → Option A
  src : P → A
  dst : P → A

theorem modify_eq_some {α : Type*} {l : List α} {f : α → α} {a' : α} (h : (l.modify d f)[k]? = some a') :
    ∃ a, l[k]? = some a ∧ a' = if d = k then f a else a := by
  rw [List.getElem?_modify] at h
  obtain ⟨a,found,same⟩ := Option.map_eq_some_iff.mp h
  exact ⟨a,found,same.symm⟩

theorem exists_modify {α : Type*} {l : List α} {f : α → α} {p : α → Prop} {k : Nat} (d : Nat) (keep : ∀ a, p a → p (f a))
    (h : ∃ a, l[k]? = some a ∧ p a) : ∃ a, (l.modify d f)[k]? = some a ∧ p a := by
  obtain ⟨a,found,holds⟩ := h
  by_cases here : d = k
  · exact ⟨f a,by simp [found,here],keep a holds⟩
  · exact ⟨a,by simp [found,here],holds⟩

/-- Two lists changed at the same place. -/
theorem modify_both {α β : Type*} {l : List α} {l' : List β} {f : α → α} {g : β → β} {a' : α} {b' : β} {d k : Nat}
    (found : (l.modify d f)[k]? = some a') (found' : (l'.modify d g)[k]? = some b') :
    ∃ a b, l[k]? = some a ∧ l'[k]? = some b ∧
      ((d = k ∧ a' = f a ∧ b' = g b) ∨ (d ≠ k ∧ a' = a ∧ b' = b)) := by
  obtain ⟨a,at_k,rfl⟩ := modify_eq_some found
  obtain ⟨b,at_k',rfl⟩ := modify_eq_some found'
  refine ⟨a,b,at_k,at_k',?_⟩
  by_cases here : d = k
  · exact .inl ⟨here,if_pos here,if_pos here⟩
  · exact .inr ⟨here,if_neg here,if_neg here⟩

namespace Hub

variable {K P A : Type*}

/-- What the hub does with an item it took. -/
inductive Move where
  | drop
  | out
  | pass (e : Nat)

inductive Event (K P : Type*) where
  | join (key : K)
  | loosen (d : Nat)
  | send (d : Nat) (p : P)
  | relay (d : Nat) (p : P) (move : Move)
  | issue (p : P) (target : Option Nat)
  | arrive (e : Nat) (p : P)

/-- A spoke whose address is `a`. -/
def Holds (g : Addressing K P A) (spokes : List (Spoke K P)) (d : Nat) (a : A) : Prop :=
  ∃ spoke, spokes[d]? = some spoke ∧ g.addr spoke.key = some a

/-- The hub passes on only under the sender's own address and to the destination's. -/
def Move.Proper (g : Addressing K P A) (spokes : List (Spoke K P)) (d : Nat) (p : P) : Move → Prop
  | .drop => True
  | .out => Holds g spokes d (g.src p)
  | .pass e => Holds g spokes d (g.src p) ∧ Holds g spokes e (g.dst p)

def Enabled (g : Addressing K P A) (spokes : List (Spoke K P)) : Event K P → Prop
  | .join _ | .loosen _ => True
  | .send d _ => d < spokes.length
  | .relay d p move =>
    (∃ spoke, spokes[d]? = some spoke ∧ (spoke.steady = true → spoke.up.head? = some p)) ∧
      move.Proper g spokes d p
  | .issue p target => ∀ e ∈ target, Holds g spokes e (g.dst p)
  | .arrive e p => ∃ spoke, spokes[e]? = some spoke ∧ (spoke.down.map Prod.snd).head? = some p

def Move.apply (d : Nat) (p : P) (spokes : List (Spoke K P)) : Move → List (Spoke K P)
  | .drop | .out => spokes
  | .pass e => spokes.modify e fun spoke => spoke.put (some d) p

def next (spokes : List (Spoke K P)) : Event K P → List (Spoke K P)
  | .join key => spokes ++ [{ key }]
  | .loosen d => spokes.modify d Spoke.loosen
  | .send d p => spokes.modify d fun spoke => spoke.send p
  | .relay d p move => move.apply d p (spokes.modify d Spoke.take)
  | .issue _ none => spokes
  | .issue p (some e) => spokes.modify e fun spoke => spoke.put none p
  | .arrive e _ => spokes.modify e Spoke.arrive

def Move.seen (d : Nat) (p : P) : Move → List (Seen P)
  | .drop => []
  | .out => [.out d p]
  | .pass e => [.put e (some d) p]

def emits : Event K P → List (Seen P)
  | .join _ | .loosen _ => []
  | .send d p => [.sent d p]
  | .relay d p move => .took d p :: move.seen d p
  | .issue p none => [.issued p]
  | .issue p (some e) => [.issued p,.put e none p]
  | .arrive e p => [.arrived e p]

end Hub

/-- The hub as a machine, with no spoke at the start. -/
def hub {K P A : Type*} (g : Addressing K P A) : Machine (List (Spoke K P)) (Hub.Event K P) (Seen P) :=
  ⟨Hub.Enabled g,Hub.next,fun _ => Hub.emits⟩

namespace Seen

variable {P : Type*} {log now : List (Seen P)}

theorem sentOn_append (d : Nat) : sentOn d (log ++ now) = sentOn d log ++ sentOn d now := List.filterMap_append
theorem tookOn_append (d : Nat) : tookOn d (log ++ now) = tookOn d log ++ tookOn d now := List.filterMap_append
theorem putOn_append (e : Nat) : putOn e (log ++ now) = putOn e log ++ putOn e now := List.filterMap_append
theorem arrivedOn_append (e : Nat) : arrivedOn e (log ++ now) = arrivedOn e log ++ arrivedOn e now :=
  List.filterMap_append
theorem issuedIn_append : issuedIn (log ++ now) = issuedIn log ++ issuedIn now := List.filterMap_append

theorem putFrom_append (origin : Option Nat) (e : Nat) :
    putFrom origin e (log ++ now) = putFrom origin e log ++ putFrom origin e now := by
  simp only [putFrom,putOn_append,List.filter_append,List.map_append]

end Seen

namespace Hub

open Seen

variable {K P A : Type*} {g : Addressing K P A} {spokes : List (Spoke K P)} {log : List (Seen P)}

/-- What the queues and the log say of each other. -/
structure Queues (s : List (Spoke K P) × List (Seen P)) : Prop where
  up : ∀ d spoke, s.1[d]? = some spoke → spoke.steady = true → tookOn d s.2 ++ spoke.up = sentOn d s.2
  down : ∀ d spoke, s.1[d]? = some spoke →
    arrivedOn d s.2 ++ spoke.down.map Prod.snd = (putOn d s.2).map Prod.snd
  /-- Nothing has been watched on a spoke that is yet to join. -/
  fresh : ∀ d, s.1.length ≤ d → tookOn d s.2 = [] ∧ sentOn d s.2 = [] ∧ arrivedOn d s.2 = [] ∧ putOn d s.2 = []

/-- Where the items that were put came from, and under which addresses. -/
structure Provenance (g : Addressing K P A) (s : List (Spoke K P) × List (Seen P)) : Prop where
  relayed : ∀ d e, (putFrom (some d) e s.2).Sublist (tookOn d s.2)
  issued : ∀ e, (putFrom none e s.2).Sublist (issuedIn s.2)
  addressed : ∀ e origin p, (origin,p) ∈ putOn e s.2 →
    Holds g s.1 e (g.dst p) ∧ ∀ d ∈ origin, Holds g s.1 d (g.src p)

theorem queues_empty : Queues (([],[]) : List (Spoke K P) × List (Seen P)) where
  up := by simp
  down := by simp
  fresh := fun _ _ => ⟨rfl,rfl,rfl,rfl⟩

theorem provenance_empty (g : Addressing K P A) : Provenance g ([],[]) where
  relayed := fun _ _ => List.Sublist.refl _
  issued := fun _ => List.Sublist.refl _
  addressed := by simp [putOn]

/-! ### Keys are never changed -/

theorem holds_modify {f : Spoke K P → Spoke K P} (keep : ∀ spoke, (f spoke).key = spoke.key) (k : Nat)
    (h : Holds g spokes e a) : Holds g (spokes.modify k f) e a :=
  exists_modify k (fun spoke held => (keep spoke).symm ▸ held) h

theorem holds_next (event : Event K P) (h : Holds g spokes e a) : Holds g (next spokes event) e a := by
  cases event with
  | join key =>
    obtain ⟨spoke,found,held⟩ := h
    have inside : e < spokes.length := (List.getElem?_eq_some_iff.mp found).1
    exact ⟨spoke,(List.getElem?_append_left inside).trans found,held⟩
  | loosen d => exact holds_modify (f := Spoke.loosen) (fun _ => rfl) d h
  | send d p => exact holds_modify (f := fun spoke => spoke.send p) (fun _ => rfl) d h
  | relay d p move =>
    have taken := holds_modify (f := Spoke.take) (fun _ => rfl) d h
    cases move with
    | drop | out => exact taken
    | pass e' => exact holds_modify (f := fun spoke => spoke.put (some d) p) (fun _ => rfl) e' taken
  | issue p target =>
    cases target with
    | none => exact h
    | some e' => exact holds_modify (f := fun spoke => spoke.put none p) (fun _ => rfl) e' h
  | arrive e' p => exact holds_modify (f := Spoke.arrive) (fun _ => rfl) e' h

/-! ### One step -/

/-- An event puts to a spoke what it takes from another. -/
theorem emits_relayed (event : Event K P) (d e : Nat) :
    (putFrom (some d) e (emits event)).Sublist (tookOn d (emits event)) := by
  cases event with
  | relay d' p move =>
    cases move with
    | drop | out => simp [emits,Move.seen,putFrom,putOn,tookOn]
    | pass e' =>
      by_cases here : d' = d <;> by_cases there : e' = e <;>
        simp [emits,Move.seen,putFrom,putOn,tookOn,here,there]
  | issue p target =>
    cases target with
    | none => simp [emits,putFrom,putOn,tookOn]
    | some e' => by_cases there : e' = e <;> simp [emits,putFrom,putOn,tookOn,there]
  | join | loosen | send | arrive => simp [emits,putFrom,putOn,tookOn]

/-- What has no origin is what the hub's interface gives. -/
theorem emits_issued (event : Event K P) (e : Nat) :
    (putFrom none e (emits event)).Sublist (issuedIn (emits event)) := by
  cases event with
  | relay d p move =>
    cases move with
    | drop | out => simp [emits,Move.seen,putFrom,putOn,issuedIn]
    | pass e' => by_cases there : e' = e <;> simp [emits,Move.seen,putFrom,putOn,issuedIn,there]
  | issue p target =>
    cases target with
    | none => simp [emits,putFrom,putOn,issuedIn]
    | some e' => by_cases there : e' = e <;> simp [emits,putFrom,putOn,issuedIn,there]
  | join | loosen | send | arrive => simp [emits,putFrom,putOn,issuedIn]

theorem emits_addressed (event : Event K P) (enabled : Enabled g spokes event) (put : (origin,p) ∈ putOn e (emits event)) :
    Holds g spokes e (g.dst p) ∧ ∀ d ∈ origin, Holds g spokes d (g.src p) := by
  cases event with
  | relay d p' move =>
    cases move with
    | drop | out => simp [emits,Move.seen,putOn] at put
    | pass e' =>
      obtain ⟨rfl,rfl,rfl⟩ : e' = e ∧ some d = origin ∧ p' = p := by simpa [emits,Move.seen,putOn] using put
      obtain ⟨-,sender,receiver⟩ := enabled
      exact ⟨receiver,fun d' same => Option.some.inj same ▸ sender⟩
  | issue p' target =>
    cases target with
    | none => simp [emits,putOn] at put
    | some e' =>
      obtain ⟨rfl,rfl,rfl⟩ : e' = e ∧ none = origin ∧ p' = p := by simpa [emits,putOn] using put
      exact ⟨enabled e' rfl,by simp⟩
  | join | loosen | send | arrive => simp [emits,putOn] at put

theorem next_provenance (spokes : List (Spoke K P)) (log : List (Seen P)) (event : Event K P)
    (inv : Provenance g (spokes,log)) (enabled : Enabled g spokes event) :
    Provenance g (next spokes event,log ++ emits event) where
  relayed d e := by
    rw [putFrom_append,tookOn_append]
    exact (inv.relayed d e).append (emits_relayed event d e)
  issued e := by
    rw [putFrom_append,issuedIn_append]
    exact (inv.issued e).append (emits_issued event e)
  addressed e origin p put := by
    rw [putOn_append] at put
    have before : Holds g spokes e (g.dst p) ∧ ∀ d ∈ origin, Holds g spokes d (g.src p) := by
      rcases List.mem_append.mp put with earlier | now
      · exact inv.addressed e origin p earlier
      · exact emits_addressed event enabled now
    exact ⟨holds_next event before.1,fun d member => holds_next event (before.2 d member)⟩

/-! ### The queues -/

/-- Nothing is watched on a spoke that is not there. -/
theorem emits_inside (event : Event K P) (enabled : Enabled g spokes event) (beyond : spokes.length ≤ d) :
    tookOn d (emits event) = [] ∧ sentOn d (emits event) = [] ∧ arrivedOn d (emits event) = [] ∧
      putOn d (emits event) = [] := by
  have other {k : Nat} {spoke : Spoke K P} (found : spokes[k]? = some spoke) : k ≠ d := by
    have := (List.getElem?_eq_some_iff.mp found).1
    omega
  cases event with
  | join | loosen => exact ⟨rfl,rfl,rfl,rfl⟩
  | send k p =>
    have apart : k ≠ d := Nat.ne_of_lt (Nat.lt_of_lt_of_le enabled beyond)
    simp [emits,tookOn,sentOn,arrivedOn,putOn,apart]
  | relay k p move =>
    obtain ⟨⟨spoke,found,-⟩,proper⟩ := enabled
    cases move with
    | drop | out => simp [emits,Move.seen,tookOn,sentOn,arrivedOn,putOn,other found]
    | pass e =>
      obtain ⟨-,spoke',found',-⟩ := proper
      simp [emits,Move.seen,tookOn,sentOn,arrivedOn,putOn,other found,other found']
  | issue p target =>
    cases target with
    | none => exact ⟨rfl,rfl,rfl,rfl⟩
    | some e =>
      obtain ⟨spoke,found,-⟩ := enabled e rfl
      simp [emits,tookOn,sentOn,arrivedOn,putOn,other found]
  | arrive e p =>
    obtain ⟨spoke,found,-⟩ := enabled
    simp [emits,tookOn,sentOn,arrivedOn,putOn,other found]

theorem next_length (event : Event K P) : spokes.length ≤ (next spokes event).length := by
  cases event with
  | join => simp [next]
  | relay d p move => cases move <;> simp [next,Move.apply]
  | issue p target => cases target <;> simp [next]
  | loosen | send | arrive => simp [next]

/-- From `spoke` to `spoke'` the queues of spoke `k` change by what was watched on it. -/
structure Balanced (k : Nat) (now : List (Seen P)) (spoke spoke' : Spoke K P) : Prop where
  steady : spoke'.steady = true → spoke.steady = true
  up : spoke'.steady = true → tookOn k now ++ spoke'.up = spoke.up ++ sentOn k now
  down : arrivedOn k now ++ spoke'.down.map Prod.snd = spoke.down.map Prod.snd ++ (putOn k now).map Prod.snd

theorem balanced_refl (k : Nat) (spoke : Spoke K P) : Balanced k [] spoke spoke :=
  ⟨id,fun _ => (List.append_nil _).symm,(List.append_nil _).symm⟩

theorem Balanced.trans {spoke spoke' spoke'' : Spoke K P} (first : Balanced k now spoke spoke')
    (second : Balanced k later spoke' spoke'') : Balanced k (now ++ later) spoke spoke'' where
  steady := fun ends => first.steady (second.steady ends)
  up := fun ends => by
    rw [tookOn_append,sentOn_append,List.append_assoc,second.up ends,← List.append_assoc,
      first.up (second.steady ends),List.append_assoc]
  down := by
    rw [arrivedOn_append,putOn_append,List.map_append,List.append_assoc,second.down,← List.append_assoc,
      first.down,List.append_assoc]

/-- Changing one spoke balances all of them, if nothing is watched on the others. -/
theorem balanced_modify {f : Spoke K P → Spoke K P} {spoke' : Spoke K P}
    (here : ∀ spoke, spokes[d]? = some spoke → Balanced d now spoke (f spoke))
    (elsewhere : ∀ k spoke, d ≠ k → Balanced k now spoke (spoke : Spoke K P))
    (found' : (spokes.modify d f)[k]? = some spoke') :
    ∃ spoke, spokes[k]? = some spoke ∧ Balanced k now spoke spoke' := by
  obtain ⟨spoke,found,rfl⟩ := modify_eq_some found'
  refine ⟨spoke,found,?_⟩
  by_cases same : d = k
  · subst same
    rw [if_pos rfl]
    exact here spoke found
  · rw [if_neg same]
    exact elsewhere k spoke same

theorem balanced_put (origin : Option Nat) (p : P)
    (found' : (spokes.modify e fun spoke => spoke.put origin p)[k]? = some spoke') :
    ∃ spoke, spokes[k]? = some spoke ∧ Balanced k [.put e origin p] spoke spoke' := by
  apply balanced_modify (f := fun spoke => spoke.put origin p) ?_ ?_ found'
  · intro spoke _
    refine ⟨id,fun _ => ?_,?_⟩ <;> simp [Spoke.put,tookOn,sentOn,arrivedOn,putOn]
  · intro k spoke other
    refine ⟨id,fun _ => ?_,?_⟩ <;> simp [tookOn,sentOn,arrivedOn,putOn,other]

/-- The hub takes what is at the front, or anything from a spoke that is not steady. -/
theorem balanced_take (p : P) (front : ∃ spoke, spokes[d]? = some spoke ∧ (spoke.steady = true → spoke.up.head? = some p))
    (found' : (spokes.modify d Spoke.take)[k]? = some spoke') :
    ∃ spoke, spokes[k]? = some spoke ∧ Balanced k [.took d p] spoke spoke' := by
  obtain ⟨owner,at_d,first⟩ := front
  apply balanced_modify (f := Spoke.take) ?_ ?_ found'
  · intro spoke found
    obtain rfl : owner = spoke := Option.some.inj (at_d.symm.trans found)
    refine ⟨id,fun steady => ?_,by simp [Spoke.take,arrivedOn,putOn]⟩
    obtain ⟨rest,eq⟩ : ∃ rest, owner.up = p :: rest := List.head?_eq_some_iff.mp (first steady)
    simp [Spoke.take,tookOn,sentOn,eq]
  · intro k spoke other
    refine ⟨id,fun _ => ?_,?_⟩ <;> simp [tookOn,sentOn,arrivedOn,putOn,other]

theorem balanced_silent (quiet : tookOn k now = [] ∧ sentOn k now = [] ∧ arrivedOn k now = [] ∧ putOn k now = [])
    (spoke : Spoke K P) : Balanced k now spoke spoke := by
  obtain ⟨took,sent,arrived,put⟩ := quiet
  exact ⟨id,fun _ => by simp [took,sent],by simp [arrived,put]⟩

/-- Each spoke of the next state was there before, balanced by the event, or has just
joined with empty queues. -/
theorem next_balanced (event : Event K P) (enabled : Enabled g spokes event)
    (found' : (next spokes event)[k]? = some spoke') :
    (∃ spoke, spokes[k]? = some spoke ∧ Balanced k (emits event) spoke spoke') ∨
      (k = spokes.length ∧ emits event = [] ∧ spoke'.up = [] ∧ spoke'.down = []) := by
  cases event with
  | join key =>
    rcases Nat.lt_or_ge k spokes.length with inside | beyond
    · have found := (List.getElem?_append_left inside).symm.trans found'
      exact .inl ⟨spoke',found,balanced_refl k spoke'⟩
    · have last := (List.getElem?_append_right beyond).symm.trans found'
      obtain ⟨eq,rfl⟩ : k - spokes.length = 0 ∧ { key } = spoke' := by simpa [List.getElem?_singleton] using last
      exact .inr ⟨by omega,rfl,rfl,rfl⟩
  | loosen d =>
    left
    apply balanced_modify (f := Spoke.loosen) ?_ (fun k spoke _ => balanced_refl k spoke) found'
    intro spoke _
    exact ⟨by simp [Spoke.loosen],by simp [Spoke.loosen],by simp [Spoke.loosen,arrivedOn,putOn]⟩
  | send d p =>
    left
    apply balanced_modify (f := fun spoke => spoke.send p) ?_ ?_ found'
    · intro spoke _
      refine ⟨id,fun _ => ?_,?_⟩ <;> simp [Spoke.send,emits,tookOn,sentOn,arrivedOn,putOn]
    · intro k spoke other
      refine ⟨id,fun _ => ?_,?_⟩ <;> simp [emits,tookOn,sentOn,arrivedOn,putOn,other]
  | relay d p move =>
    left
    cases move with
    | drop => exact balanced_take p enabled.1 found'
    | out =>
      obtain ⟨spoke,found,taken⟩ := balanced_take p enabled.1 found'
      exact ⟨spoke,found,taken.trans (balanced_silent ⟨rfl,rfl,rfl,rfl⟩ spoke')⟩
    | pass e =>
      obtain ⟨mid,between,put⟩ := balanced_put (some d) p found'
      obtain ⟨spoke,found,taken⟩ := balanced_take p enabled.1 between
      exact ⟨spoke,found,taken.trans put⟩
  | issue p target =>
    left
    cases target with
    | none => exact ⟨spoke',found',balanced_silent ⟨rfl,rfl,rfl,rfl⟩ spoke'⟩
    | some e =>
      obtain ⟨spoke,found,put⟩ := balanced_put none p found'
      exact ⟨spoke,found,(balanced_silent ⟨rfl,rfl,rfl,rfl⟩ spoke : Balanced k [.issued p] spoke spoke).trans put⟩
  | arrive e p =>
    left
    obtain ⟨owner,at_e,first⟩ := enabled
    apply balanced_modify (f := Spoke.arrive) ?_ ?_ found'
    · intro spoke found
      obtain rfl : owner = spoke := Option.some.inj (at_e.symm.trans found)
      obtain ⟨rest,eq⟩ := List.head?_eq_some_iff.mp first
      refine ⟨id,fun _ => ?_,?_⟩
      · simp [Spoke.arrive,emits,tookOn,sentOn]
      · simp [Spoke.arrive,emits,arrivedOn,putOn,List.map_tail,eq]
    · intro k spoke other
      refine ⟨id,fun _ => ?_,?_⟩ <;> simp [emits,tookOn,sentOn,arrivedOn,putOn,other]

theorem next_queues (spokes : List (Spoke K P)) (log : List (Seen P)) (event : Event K P)
    (inv : Queues (spokes,log)) (enabled : Enabled g spokes event) :
    Queues (next spokes event,log ++ emits event) := by
  refine ⟨fun d spoke' found' steady => ?_,fun d spoke' found' => ?_,fun d beyond => ?_⟩
  · rw [tookOn_append,sentOn_append]
    rcases next_balanced event enabled found' with ⟨spoke,found,balanced⟩ | ⟨rfl,silent,up,-⟩
    · rw [List.append_assoc,balanced.up steady,← List.append_assoc,inv.up d spoke found (balanced.steady steady)]
    · obtain ⟨took,sent,-,-⟩ := inv.fresh spokes.length (Nat.le_refl _)
      dsimp only at took sent
      rw [took,sent,silent,up]
      rfl
  · rw [arrivedOn_append,putOn_append]
    rcases next_balanced event enabled found' with ⟨spoke,found,balanced⟩ | ⟨rfl,silent,-,down⟩
    · rw [List.append_assoc,balanced.down,← List.append_assoc,inv.down d spoke found,List.map_append]
    · obtain ⟨-,-,arrived,put⟩ := inv.fresh spokes.length (Nat.le_refl _)
      dsimp only at arrived put
      rw [arrived,put,silent,down]
      rfl
  · have inside : spokes.length ≤ d := Nat.le_trans (next_length event) beyond
    obtain ⟨took,sent,arrived,put⟩ := inv.fresh d inside
    obtain ⟨took',sent',arrived',put'⟩ := emits_inside event enabled inside
    simp only [tookOn_append,sentOn_append,arrivedOn_append,putOn_append,took,sent,arrived,put,took',sent',arrived',
      put',List.append_nil,and_self]

/-- In every run of the hub the queues account for everything watched. -/
theorem run_queues (events : List (Event K P)) (admitted : (hub g).Admits [] events) :
    Queues ((hub g).run [] events,(hub g).log [] events) :=
  Machine.run_invariant (fun spokes log event inv enabled => next_queues spokes log event inv enabled)
    queues_empty admitted

theorem run_provenance (events : List (Event K P)) (admitted : (hub g).Admits [] events) :
    Provenance g ((hub g).run [] events,(hub g).log [] events) :=
  Machine.run_invariant (fun spokes log event inv enabled => next_provenance spokes log event inv enabled)
    (provenance_empty g) admitted

/-- The front of a queue arrives item by item. -/
theorem run_arrives (g : Addressing K P A) (d : Nat) (items : List P) {spoke : Spoke K P} (found : spokes[d]? = some spoke)
    (queue : spoke.down.map Prod.snd = items ++ rest) :
    (hub g).Admits spokes (items.map (.arrive d)) ∧ (hub g).log spokes (items.map (.arrive d)) = items.map (.arrived d) ∧
      (hub g).run spokes (items.map (.arrive d)) = spokes.modify d fun spoke => spoke.arrivals items.length := by
  induction items generalizing spokes spoke with
  | nil =>
    refine ⟨trivial,rfl,?_⟩
    have same : (fun spoke : Spoke K P => spoke.arrivals 0) = id := rfl
    rw [List.length_nil,same,List.modify_id]
    rfl
  | cons p items ih =>
    have found' : (next spokes (.arrive d p))[d]? = some spoke.arrive := by simp [next,found]
    have queue' : spoke.arrive.down.map Prod.snd = items ++ rest := by
      rw [Spoke.arrive,List.map_tail,queue]
      rfl
    obtain ⟨can,shows,ends⟩ := ih found' queue'
    refine ⟨⟨⟨spoke,found,by rw [queue]; rfl⟩,can⟩,?_,?_⟩
    · rw [List.map_cons,Machine.log_cons]
      exact congrArg _ shows
    · rw [List.map_cons,Machine.run_cons]
      refine ends.trans ?_
      change (spokes.modify d Spoke.arrive).modify d _ = _
      rw [List.modify_modify_eq]
      congr 1
      funext s
      simp [Spoke.arrivals,Spoke.arrive,List.drop_tail]

/-- What arrived at spoke `e`, each item with the spoke it came from: every item was on
its way to `e` and under its sender's address, from a steady spoke come only items it
sent, from the hub's interface only items it gave, each at most once and in order. -/
structure Delivered (g : Addressing K P A) (spokes : List (Spoke K P)) (log : List (Seen P)) (e : Nat)
    (items : List (Option Nat × P)) : Prop where
  arrived : items.map Prod.snd = arrivedOn e log
  addressed : ∀ origin p, (origin,p) ∈ items → Holds g spokes e (g.dst p) ∧ ∀ d ∈ origin, Holds g spokes d (g.src p)
  relayed : ∀ d spoke, spokes[d]? = some spoke → spoke.steady = true →
    ((items.filter fun x => x.1 = some d).map Prod.snd).Sublist (sentOn d log)
  issued : ((items.filter fun x => x.1 = none).map Prod.snd).Sublist (issuedIn log)

theorem delivered {spoke : Spoke K P} (queues : Queues (spokes,log)) (provenance : Provenance g (spokes,log))
    (found : spokes[e]? = some spoke) : ∃ items, items <+: putOn e log ∧ Delivered g spokes log e items := by
  have account : arrivedOn e log ++ spoke.down.map Prod.snd = (putOn e log).map Prod.snd := queues.down e spoke found
  have front : (putOn e log).take (arrivedOn e log).length <+: putOn e log := List.take_prefix _ _
  have fromOrigin (origin : Option Nat) :
      ((((putOn e log).take (arrivedOn e log).length).filter fun x => x.1 = origin).map Prod.snd).Sublist
        (putFrom origin e log) := (front.sublist.filter _).map Prod.snd
  refine ⟨_,front,?_,fun origin p member => ?_,fun d owner at_d steady => ?_,?_⟩
  · rw [List.map_take,← account,List.take_left' rfl]
  · exact provenance.addressed e origin p (front.subset member)
  · have taken : (putFrom (some d) e log).Sublist (tookOn d log) := provenance.relayed d e
    have prior : tookOn d log <+: sentOn d log := ⟨owner.up,queues.up d owner at_d steady⟩
    exact ((fromOrigin (some d)).trans taken).trans prior.sublist
  · exact (fromOrigin none).trans (provenance.issued e)

end Hub

end Library
