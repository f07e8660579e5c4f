import Nospoon.Library.Hub
import Nospoon.Library.Carrier

/-! Spokes over bytes. A link carries one stream of bytes in each direction, with a reader
at the end of each, and its two streams are the two queues of a spoke. What the ends have
buffered is given as a relation: an end may go, and a reader that is not there accounts for
nothing. -/
namespace Library

/-- The bytes written at one end and not yet handed to the other. -/
structure Link (K α : Type*) where
  key : K
  up : List α := []
  down : List α := []
  /-- The hub's end has met the link. -/
  accepted : Bool := false
  /-- The spoke's end has met it. -/
  attached : Bool := false
  /-- The hub's end met it with nothing buffered. -/
  clean : Bool := false

namespace Link

variable {K α : Type*}

def writeUp (bytes : List α) (link : Link K α) : Link K α := { link with up := link.up ++ bytes }
def writeDown (bytes : List α) (link : Link K α) : Link K α := { link with down := link.down ++ bytes }
def readUp (n : Nat) (link : Link K α) : Link K α := { link with up := link.up.drop n }
def readDown (n : Nat) (link : Link K α) : Link K α := { link with down := link.down.drop n }
def accept (clean : Bool) (link : Link K α) : Link K α := { link with accepted := true,clean }
def attach (link : Link K α) : Link K α := { link with attached := true }

/-- What the hub's end decodes on this link is what an honest key sent. -/
def Faithful (honest : K → Bool) (link : Link K α) : Prop :=
  honest link.key = true ∧ (link.accepted = true → link.clean = true)

end Link

/-- What the readers at the two ends of each link have buffered. -/
structure LinkEnds (α : Type*) where
  up : Nat → List α → Prop
  down : Nat → List α → Prop

namespace LinkEnds

variable {K α : Type*}

/-- An end that has not met the link counts as an empty reader. -/
def Up (ends : LinkEnds α) (d : Nat) (link : Link K α) (buf : List α) : Prop :=
  (link.accepted = false ∧ buf = []) ∨ ends.up d buf

def Down (ends : LinkEnds α) (d : Nat) (link : Link K α) (buf : List α) : Prop :=
  (link.attached = false ∧ buf = []) ∨ ends.down d buf

/-- The ends of link `d` are as they were or gone. -/
def Within (ends' ends : LinkEnds α) (d : Nat) : Prop :=
  (∀ buf, ends'.up d buf → ends.up d buf) ∧ ∀ buf, ends'.down d buf → ends.down d buf

theorem within_refl (ends : LinkEnds α) (d : Nat) : ends.Within ends d := ⟨fun _ => id,fun _ => id⟩

end LinkEnds

variable {K α β γ A : Type*} {r : Reader α γ} {c : Code r β} {honest : K → Bool} {ends ends' : LinkEnds α}

/-- Link `d` and its spoke. `ahead` is what the reader has already cut out of the link while
the hub has yet to take it. -/
structure Paired (c : Code r β) (honest : K → Bool) (ends : LinkEnds α) (d : Nat) (ahead : List γ) (link : Link K α)
    (spoke : Spoke K γ) : Prop where
  key : spoke.key = link.key
  steady : spoke.steady = true ↔ (link.accepted = true → link.Faithful honest)
  up : link.Faithful honest → ∀ buf, ends.Up d link buf →
    ∃ rest, spoke.up = ahead ++ rest ∧ c.InFlight buf link.up rest
  down : ∀ buf, ends.Down d link buf → c.InFlight buf link.down (spoke.down.map Prod.snd)

namespace Paired

variable {d : Nat} {ahead frames rest : List γ} {link : Link K α} {spoke spoke' : Spoke K γ} {buf buf' : List α} {n : Nat}

theorem within (paired : Paired c honest ends d ahead link spoke) (fewer : ends'.Within ends d) :
    Paired c honest ends' d ahead link spoke :=
  ⟨paired.key,paired.steady,fun faithful buf held => paired.up faithful buf (held.imp_right (fewer.1 buf)),
    fun buf held => paired.down buf (held.imp_right (fewer.2 buf))⟩

/-- A writer at the hub's end. -/
theorem writeDown (paired : Paired c honest ends d ahead link spoke) (bytes : List α)
    (same : spoke'.key = spoke.key ∧ spoke'.up = spoke.up ∧ spoke'.steady = spoke.steady)
    (written : ∀ buf, c.InFlight buf link.down (spoke.down.map Prod.snd) →
      c.InFlight buf (link.down ++ bytes) (spoke'.down.map Prod.snd)) :
    Paired c honest ends d ahead (link.writeDown bytes) spoke' := by
  obtain ⟨key,up,steady⟩ := same
  refine ⟨key.trans paired.key,steady ▸ paired.steady,fun faithful buf held => ?_,fun buf held => ?_⟩
  · rw [up]
    exact paired.up faithful buf held
  · exact written buf (paired.down buf held)

/-- A writer at the spoke's end. -/
theorem writeUp (paired : Paired c honest ends d ahead link spoke) (bytes : List α)
    (same : spoke'.key = spoke.key ∧ spoke'.down = spoke.down ∧ spoke'.steady = spoke.steady)
    (written : honest link.key = true → ∀ buf rest, spoke.up = ahead ++ rest → c.InFlight buf link.up rest →
      ∃ rest', spoke'.up = ahead ++ rest' ∧ c.InFlight buf (link.up ++ bytes) rest') :
    Paired c honest ends d ahead (link.writeUp bytes) spoke' := by
  obtain ⟨key,down,steady⟩ := same
  refine ⟨key.trans paired.key,steady ▸ paired.steady,fun faithful buf held => ?_,fun buf held => ?_⟩
  · obtain ⟨rest,queue,flight⟩ := paired.up faithful buf held
    exact written faithful.1 buf rest queue flight
  · rw [down]
    exact paired.down buf held

/-- The spoke's end meets the link, with an empty reader unless it already had it. -/
theorem attach (paired : Paired c honest ends d ahead link spoke) (up : ∀ buf, ends'.up d buf → ends.up d buf)
    (down : ∀ buf, ends'.down d buf → ends.Down d link buf) : Paired c honest ends' d ahead link.attach spoke := by
  refine ⟨paired.key,paired.steady,fun faithful buf held => ?_,fun buf held => ?_⟩
  · exact paired.up faithful buf (held.imp_right (up buf))
  · rcases held with ⟨never,-⟩ | held
    · exact Bool.noConfusion never
    · exact paired.down buf (down buf held)

/-- The hub's end meets the link. An honest key's stays steady if nothing is buffered, any
other is let loose. -/
theorem accept (paired : Paired c honest ends d [] link spoke) (waiting : link.accepted = false) {clean : Bool}
    (up : clean = true → ∀ buf, ends'.up d buf → buf = []) (down : ∀ buf, ends'.down d buf → ends.down d buf)
    (same : spoke'.key = spoke.key ∧ spoke'.up = spoke.up ∧ spoke'.down = spoke.down)
    (steady : spoke'.steady = true ↔ honest link.key = true ∧ clean = true) :
    Paired c honest ends' d [] (link.accept clean) spoke' := by
  obtain ⟨key,queue,back⟩ := same
  refine ⟨key.trans paired.key,?_,fun faithful buf held => ?_,fun buf held => ?_⟩
  · rw [steady]
    constructor
    · rintro ⟨trusted,isClean⟩ -
      exact ⟨trusted,fun _ => isClean⟩
    · intro faithful
      exact ⟨(faithful rfl).1,(faithful rfl).2 rfl⟩
  · have isClean : clean = true := faithful.2 rfl
    have empty : buf = [] := by
      rcases held with ⟨never,-⟩ | held
      · exact Bool.noConfusion never
      · exact up isClean buf held
    rw [queue]
    refine paired.up ⟨faithful.1,fun accepted => ?_⟩ buf (.inl ⟨waiting,empty⟩)
    exact absurd (waiting.symm.trans accepted) Bool.false_ne_true
  · rw [back]
    exact paired.down buf (held.imp_right (down buf))

/-- The hub's end reads a chunk: what it completes is ahead. -/
theorem readUp (paired : Paired c honest ends d [] link spoke) (accepted : link.accepted = true) (held : ends.up d buf)
    (read : link.Faithful honest → ∀ items, c.InFlight buf link.up items →
      ∃ rest, items = frames ++ rest ∧ c.InFlight buf' (link.up.drop n) rest)
    (up : ∀ b, ends'.up d b → b = buf') (down : ∀ b, ends'.down d b → ends.down d b) :
    Paired c honest ends' d frames (link.readUp n) spoke := by
  refine ⟨paired.key,paired.steady,fun faithful b now => ?_,fun b now => paired.down b (now.imp_right (down b))⟩
  have here : b = buf' := by
    rcases now with ⟨never,-⟩ | now
    · exact absurd (never.symm.trans accepted) Bool.false_ne_true
    · exact up b now
  obtain ⟨queue,whole,flight⟩ := paired.up faithful buf (.inr held)
  obtain ⟨rest,split,later⟩ := read faithful queue flight
  exact ⟨rest,whole.trans split,here ▸ later⟩

/-- The spoke's end reads a chunk: what it completes has arrived. -/
theorem readDown (paired : Paired c honest ends d ahead link spoke) (attached : link.attached = true)
    (queue : spoke.down.map Prod.snd = frames ++ rest) (flight : c.InFlight buf' (link.down.drop n) rest)
    (up : ∀ b, ends'.up d b → ends.up d b) (down : ∀ b, ends'.down d b → b = buf') :
    Paired c honest ends' d ahead (link.readDown n) (spoke.arrivals frames.length) := by
  refine ⟨paired.key,paired.steady,fun faithful b now => paired.up faithful b (now.imp_right (up b)),fun b now => ?_⟩
  rcases now with ⟨never,-⟩ | now
  · exact absurd (never.symm.trans attached) Bool.false_ne_true
  · rw [down b now,Spoke.arrivals,List.map_drop,queue,List.drop_left]
    exact flight

/-- The hub takes the first item that is ahead. -/
theorem take (paired : Paired c honest ends d (p :: ahead) link spoke) :
    Paired c honest ends d ahead link spoke.take := by
  refine ⟨paired.key,paired.steady,fun faithful buf held => ?_,paired.down⟩
  obtain ⟨rest,queue,flight⟩ := paired.up faithful buf held
  exact ⟨rest,by simp [Spoke.take,queue],flight⟩

end Paired

/-- Links and spokes in pairs, link `d` with `ahead d`. -/
structure Wired (c : Code r β) (honest : K → Bool) (ends : LinkEnds α) (ahead : Nat → List γ) (links : List (Link K α))
    (spokes : List (Spoke K γ)) : Prop where
  length : links.length = spokes.length
  paired : ∀ d link spoke, links[d]? = some link → spokes[d]? = some spoke →
    Paired c honest ends d (ahead d) link spoke

/-- No reader is ahead of the hub. -/
def level : Nat → List γ := fun _ => []

/-- Links keep their keys, and no end ever unlearns a link. -/
def Onward (links links' : List (Link K α)) : Prop :=
  ∀ (d : Nat) (link : Link K α), links[d]? = some link → ∃ link', links'[d]? = some link' ∧ link'.key = link.key ∧
    (link.accepted = true → link'.accepted = true) ∧ (link.attached = true → link'.attached = true)

namespace Onward

variable {links links' links'' : List (Link K α)}

theorem refl (links : List (Link K α)) : Onward links links := fun _ link found => ⟨link,found,rfl,id,id⟩

theorem trans (first : Onward links links') (second : Onward links' links'') : Onward links links'' := by
  intro d link found
  obtain ⟨link',found',key,accepted,attached⟩ := first d link found
  obtain ⟨link'',found'',key',accepted',attached'⟩ := second d link' found'
  exact ⟨link'',found'',key'.trans key,accepted' ∘ accepted,attached' ∘ attached⟩

theorem modify {f : Link K α → Link K α} (e : Nat)
    (keep : ∀ link, (f link).key = link.key ∧ (link.accepted = true → (f link).accepted = true) ∧
      (link.attached = true → (f link).attached = true)) (links : List (Link K α)) : Onward links (links.modify e f) := by
  intro d link found
  by_cases here : e = d
  · exact ⟨f link,by simp [found,here],keep link⟩
  · exact ⟨link,by simp [found,here],rfl,id,id⟩

theorem append (more : List (Link K α)) (links : List (Link K α)) : Onward links (links ++ more) := fun _ link found =>
  ⟨link,(List.getElem?_append_left (List.getElem?_eq_some_iff.mp found).1).trans found,rfl,id,id⟩

theorem writeUp (e : Nat) (bytes : List α) (links : List (Link K α)) :
    Onward links (links.modify e fun link => link.writeUp bytes) :=
  modify (f := fun link => link.writeUp bytes) e (fun _ => ⟨rfl,id,id⟩) links

theorem writeDown (e : Nat) (bytes : List α) (links : List (Link K α)) :
    Onward links (links.modify e fun link => link.writeDown bytes) :=
  modify (f := fun link => link.writeDown bytes) e (fun _ => ⟨rfl,id,id⟩) links

end Onward

/-- Link `d` is of a key whose address is `a`. -/
def Addressed (g : Addressing K γ A) (links : List (Link K α)) (d : Nat) (a : A) : Prop :=
  ∃ link, links[d]? = some link ∧ g.addr link.key = some a

theorem Addressed.onward {g : Addressing K γ A} {links links' : List (Link K α)} {d : Nat} {a : A}
    (addressed : Addressed g links d a) (onward : Onward links links') : Addressed g links' d a := by
  obtain ⟨link,found,held⟩ := addressed
  obtain ⟨link',found',key,-⟩ := onward d link found
  exact ⟨link',found',key ▸ held⟩

namespace Hub.Move

/-- What the hub may do with an item it took from link `d`. -/
def Lawful (g : Addressing K γ A) (links : List (Link K α)) (d : Nat) (p : γ) : Move → Prop
  | .drop => True
  | .out => Addressed g links d (g.src p)
  | .pass e => Addressed g links d (g.src p) ∧ Addressed g links e (g.dst p)

/-- An item that is passed on is written to the link it goes to. -/
def carry (bytes : List α) (links : List (Link K α)) : Move → List (Link K α)
  | .drop | .out => links
  | .pass e => links.modify e fun link => link.writeDown bytes

theorem carry_onward (bytes : List α) (links : List (Link K α)) (move : Move) : Onward links (move.carry bytes links) := by
  cases move with
  | drop | out => exact .refl links
  | pass e => exact .writeDown e bytes links

theorem Lawful.onward {g : Addressing K γ A} {links links' : List (Link K α)} {d : Nat} {p : γ} {move : Move}
    (lawful : move.Lawful g links d p) (onward : Onward links links') : move.Lawful g links' d p := by
  cases move with
  | drop => trivial
  | out => exact Addressed.onward lawful onward
  | pass e => exact ⟨lawful.1.onward onward,lawful.2.onward onward⟩

end Hub.Move

namespace Wired

variable {ahead ahead' : Nat → List γ} {links : List (Link K α)} {spokes : List (Spoke K γ)} {d e : Nat} {p : γ}
  {g : Addressing K γ A} {buf : List α}

/-- One link and its spoke change, the others at most lose an end. -/
theorem modify {f : Link K α → Link K α} {h : Spoke K γ → Spoke K γ} (wired : Wired c honest ends ahead links spokes) (e : Nat)
    (here : ∀ link spoke, links[e]? = some link → spokes[e]? = some spoke →
      Paired c honest ends e (ahead e) link spoke → Paired c honest ends' e (ahead' e) (f link) (h spoke))
    (elsewhere : ∀ d, d ≠ e → ahead' d = ahead d ∧ ends'.Within ends d) :
    Wired c honest ends' ahead' (links.modify e f) (spokes.modify e h) := by
  refine ⟨by simp [wired.length],fun d link' spoke' found found' => ?_⟩
  obtain ⟨link,spoke,at_d,at_d',cases⟩ := modify_both found found'
  have paired := wired.paired d link spoke at_d at_d'
  rcases cases with ⟨rfl,rfl,rfl⟩ | ⟨other,rfl,rfl⟩
  · exact here link spoke at_d at_d' paired
  · obtain ⟨same,fewer⟩ := elsewhere d (Ne.symm other)
    rw [same]
    exact paired.within fewer

theorem within (wired : Wired c honest ends ahead links spokes) (fewer : ∀ d, ends'.Within ends d) :
    Wired c honest ends' ahead links spokes :=
  ⟨wired.length,fun d link spoke found found' => (wired.paired d link spoke found found').within (fewer d)⟩

/-- Only the link changes. -/
theorem relink {f : Link K α → Link K α} (wired : Wired c honest ends ahead links spokes) (e : Nat)
    (here : ∀ link spoke, links[e]? = some link → spokes[e]? = some spoke →
      Paired c honest ends e (ahead e) link spoke → Paired c honest ends' e (ahead' e) (f link) spoke)
    (elsewhere : ∀ d, d ≠ e → ahead' d = ahead d ∧ ends'.Within ends d) :
    Wired c honest ends' ahead' (links.modify e f) spokes := by
  rw [← List.modify_id e spokes]
  exact wired.modify e here elsewhere

theorem join (wired : Wired c honest ends ahead links spokes) {link : Link K α} (idle : r.next [] = none)
    (fresh : link.accepted = false ∧ link.up = [] ∧ link.down = []) (nothing : ahead links.length = [])
    (new : ∀ buf, ends'.up links.length buf ∨ ends'.down links.length buf → buf = [])
    (old : ∀ d < links.length, ends'.Within ends d) :
    Wired c honest ends' ahead (links ++ [link]) (spokes ++ [{ key := link.key }]) := by
  refine ⟨by simp [wired.length],fun d link' spoke' found found' => ?_⟩
  rcases Nat.lt_or_ge d links.length with inside | beyond
  · rw [List.getElem?_append_left inside] at found
    rw [List.getElem?_append_left (wired.length ▸ inside)] at found'
    exact (wired.paired d link' spoke' found found').within (old d inside)
  · rw [List.getElem?_append_right beyond,List.getElem?_singleton] at found
    rw [List.getElem?_append_right (wired.length ▸ beyond),List.getElem?_singleton] at found'
    split_ifs at found found' with last
    obtain rfl := Option.some.inj found
    obtain rfl := Option.some.inj found'
    obtain rfl : d = links.length := by omega
    obtain ⟨waiting,up,down⟩ := fresh
    refine ⟨rfl,iff_of_true rfl (fun accepted => absurd (waiting.symm.trans accepted) Bool.false_ne_true),
      fun _ buf held => ?_,fun buf held => ?_⟩
    · obtain rfl : buf = [] := held.elim And.right fun held => new buf (.inl held)
      rw [nothing,up]
      exact ⟨[],rfl,Code.inFlight_nil idle⟩
    · obtain rfl : buf = [] := held.elim And.right fun held => new buf (.inr held)
      rw [down]
      exact Code.inFlight_nil idle

theorem spoke (wired : Wired c honest ends ahead links spokes) (found : links[d]? = some link) :
    ∃ spoke, spokes[d]? = some spoke ∧ Paired c honest ends d (ahead d) link spoke := by
  have inside : d < spokes.length := wired.length ▸ (List.getElem?_eq_some_iff.mp found).1
  have found' : spokes[d]? = some spokes[d] := List.getElem?_eq_getElem inside
  exact ⟨_,found',wired.paired d link _ found found'⟩

theorem holds (wired : Wired c honest ends ahead links spokes) (addressed : Addressed g links d a) :
    Hub.Holds g spokes d a := by
  obtain ⟨link,found,held⟩ := addressed
  obtain ⟨spoke,found',paired⟩ := wired.spoke found
  exact ⟨spoke,found',paired.key ▸ held⟩

/-- Spokes are read off the links. -/
theorem addressed (wired : Wired c honest ends ahead links spokes) (holds : Hub.Holds g spokes d a) :
    Addressed g links d a := by
  obtain ⟨spoke,found,held⟩ := holds
  have inside : d < links.length := wired.length ▸ (List.getElem?_eq_some_iff.mp found).1
  have found' : links[d]? = some links[d] := List.getElem?_eq_getElem inside
  exact ⟨_,found',(wired.paired d _ spoke found' found).key ▸ held⟩

/-! ### Writing -/

/-- Frames without an item may be written to either end. -/
theorem idleDown (wired : Wired c honest ends ahead links spokes) (e : Nat) (frame : β) (silent : c.value frame = none) :
    Wired c honest ends ahead (links.modify e fun link => link.writeDown (c.enc frame)) spokes := by
  refine wired.relink e (fun link spoke _ _ paired => ?_) fun d _ => ⟨rfl,ends.within_refl d⟩
  refine paired.writeDown _ ⟨rfl,rfl,rfl⟩ fun buf flight => ?_
  have written := flight.write frame
  rwa [silent,Option.toList_none,List.append_nil] at written

theorem idleUp (wired : Wired c honest ends ahead links spokes) (e : Nat) (frame : β) (silent : c.value frame = none) :
    Wired c honest ends ahead (links.modify e fun link => link.writeUp (c.enc frame)) spokes := by
  refine wired.relink e (fun link spoke _ _ paired => ?_) fun d _ => ⟨rfl,ends.within_refl d⟩
  refine paired.writeUp _ ⟨rfl,rfl,rfl⟩ fun _ buf rest queue flight => ⟨rest,queue,?_⟩
  have written := flight.write frame
  rwa [silent,Option.toList_none,List.append_nil] at written

/-- A key that is not honest may write anything. -/
theorem inject (wired : Wired c honest ends ahead links spokes) (e : Nat) (bytes : List α)
    (hostile : ∀ link ∈ links[e]?, honest link.key = false) :
    Wired c honest ends ahead (links.modify e fun link => link.writeUp bytes) spokes := by
  refine wired.relink e (fun link spoke found _ paired => ?_) fun d _ => ⟨rfl,ends.within_refl d⟩
  refine paired.writeUp _ ⟨rfl,rfl,rfl⟩ fun trusted => ?_
  exact absurd ((hostile link found).symm.trans trusted) Bool.false_ne_true

theorem send (wired : Wired c honest ends ahead links spokes) (e : Nat) (frame : β) (carries : c.value frame = some p) :
    Wired c honest ends ahead (links.modify e fun link => link.writeUp (c.enc frame))
      (spokes.modify e fun spoke => spoke.send p) := by
  refine wired.modify e (fun link spoke _ _ paired => ?_) fun d _ => ⟨rfl,ends.within_refl d⟩
  refine paired.writeUp _ ⟨rfl,rfl,rfl⟩ fun _ buf rest queue flight => ⟨rest ++ [p],?_,?_⟩
  · rw [Spoke.send,queue,List.append_assoc]
  · have written := flight.write frame
    rwa [carries] at written

theorem put (wired : Wired c honest ends ahead links spokes) (e : Nat) (origin : Option Nat) (frame : β)
    (carries : c.value frame = some p) :
    Wired c honest ends ahead (links.modify e fun link => link.writeDown (c.enc frame))
      (spokes.modify e fun spoke => spoke.put origin p) := by
  refine wired.modify e (fun link spoke _ _ paired => ?_) fun d _ => ⟨rfl,ends.within_refl d⟩
  refine paired.writeDown _ ⟨rfl,rfl,rfl⟩ fun buf flight => ?_
  have written := flight.write frame
  rw [carries] at written
  simpa [Spoke.put] using written

/-! ### The hub's end at work -/

theorem take (wired : Wired c honest ends ahead links spokes) (first : ahead d = p :: rest) (rests : ahead' d = rest)
    (elsewhere : ∀ k, k ≠ d → ahead' k = ahead k) : Wired c honest ends ahead' links (spokes.modify d Spoke.take) := by
  rw [← List.modify_id d links]
  refine wired.modify d (fun link spoke _ _ paired => ?_) fun k other => ⟨elsewhere k other,ends.within_refl k⟩
  rw [first] at paired
  rw [rests]
  exact paired.take

/-- The hub deals with the first item that is ahead on link `d`. -/
theorem relay (wired : Wired c honest ends ahead links spokes) (first : ahead d = p :: rest) (rests : ahead' d = rest)
    (elsewhere : ∀ k, k ≠ d → ahead' k = ahead k) (at_d : links[d]? = some link) (accepted : link.accepted = true)
    (reader : ends.up d buf) {frame : β} (carries : c.value frame = some p) {move : Hub.Move} (lawful : move.Lawful g links d p) :
    Hub.Enabled g spokes (.relay d p move) ∧
      Wired c honest ends ahead' (move.carry (c.enc frame) links) (Hub.next spokes (.relay d p move)) := by
  obtain ⟨spoke,found,paired⟩ := wired.spoke at_d
  rw [first] at paired
  have front : ∃ spoke, spokes[d]? = some spoke ∧ (spoke.steady = true → spoke.up.head? = some p) := by
    refine ⟨spoke,found,fun steady => ?_⟩
    obtain ⟨rest,queue,-⟩ := paired.up (paired.steady.mp steady accepted) buf (.inr reader)
    rw [queue]
    rfl
  have taken := wired.take first rests elsewhere
  cases move with
  | drop => exact ⟨⟨front,trivial⟩,taken⟩
  | out => exact ⟨⟨front,wired.holds lawful⟩,taken⟩
  | pass e => exact ⟨⟨front,wired.holds lawful.1,wired.holds lawful.2⟩,taken.put e (some d) frame carries⟩

/-- All items of one chunk, in order. The invariant is that the rest is still ahead. -/
theorem relays (frames : List γ) (move : γ → Hub.Move) (enc : γ → List α) (wired : Wired c honest ends ahead links spokes)
    (front : ahead d = frames) (others : ∀ k, k ≠ d → ahead k = []) (at_d : ∃ link, links[d]? = some link ∧ link.accepted = true)
    (reader : ends.up d buf) (coded : ∀ p ∈ frames, ∃ frame, c.enc frame = enc p ∧ c.value frame = some p)
    (lawful : ∀ p ∈ frames, (move p).Lawful g links d p) :
    ∃ es, (hub g).Admits spokes es ∧ (hub g).log spokes es = frames.flatMap (fun p => .took d p :: (move p).seen d p) ∧
      Wired c honest ends level (frames.foldl (fun links p => (move p).carry (enc p) links) links) ((hub g).run spokes es) := by
  induction frames generalizing links spokes ahead with
  | nil =>
    refine ⟨[],trivial,rfl,?_⟩
    have nothing : ahead = level := funext fun k => if h : k = d then h ▸ front else others k h
    exact nothing ▸ wired
  | cons p rest ih =>
    obtain ⟨link,found,accepted⟩ := at_d
    obtain ⟨frame,encoded,carries⟩ := coded p List.mem_cons_self
    let later : Nat → List γ := fun k => if k = d then rest else []
    have elsewhere (k : Nat) (other : k ≠ d) : later k = ahead k := (if_neg other).trans (others k other).symm
    obtain ⟨can,after⟩ := wired.relay front (if_pos rfl : later d = rest) elsewhere found accepted reader carries
      (lawful p List.mem_cons_self)
    rw [encoded] at after
    have onward := (move p).carry_onward (enc p) links
    obtain ⟨link',found',-,stays,-⟩ := onward d link found
    obtain ⟨es,canLater,showsLater,ends⟩ := ih after (if_pos rfl) (fun k other => if_neg other) ⟨link',found',stays accepted⟩
      (fun q member => coded q (List.mem_cons_of_mem _ member))
      fun q member => (lawful q (List.mem_cons_of_mem _ member)).onward onward
    refine ⟨.relay d p (move p) :: es,⟨can,canLater⟩,?_,ends⟩
    rw [Machine.log_cons,List.flatMap_cons]
    exact congrArg _ showsLater

end Wired

end Library
