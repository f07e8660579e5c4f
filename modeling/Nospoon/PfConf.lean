import Nospoon.Validation
import Nospoon.Library.Splits

/-! The server's forwarding rules on macOS (`full_tunnel_macos.cpp`). They are put into the lines
of `/etc/pf.conf`: the nat rule behind the last nat-anchor line, the pass rules in front of the
last load anchor line. -/
namespace Nospoon.MacOs

open Library

/-! ### enable_server_forwarding -/

/-- `word` and a blank at the beginning of a line. -/
def opens (word line : Text) : Bool :=
  match afterPrefix word line with
  | some (c :: _) => isSpace c
  | _ => false

/-- `^nat-anchor\s`. -/
def natAnchor : Text → Bool := opens "nat-anchor".toList

/-- `^load anchor\s`. -/
def loadAnchor : Text → Bool := opens "load anchor".toList

structure Rules where
  natRule : Text
  passIn : Text
  passOut : Text

def rulesOf (tunName source iface : Text) : Rules where
  natRule := "nat on ".toList ++ iface ++ " from ".toList ++ source ++ " to any -> (".toList ++ iface ++ ")".toList
  passIn := "pass in quick on ".toList ++ tunName ++ " all".toList
  passOut := "pass out quick on ".toList ++ iface ++ " all".toList

/-- The rule list made of the lines. -/
def inject (rules : Rules) (lines : List Text) : List Text :=
  let lastNatAnchor := lastMatch natAnchor 0 none lines
  let lastLoadAnchor := lastMatch loadAnchor 0 none lines
  let result := copyWith rules.natRule lastNatAnchor 0 lines
  let insertAt : Int := match lastLoadAnchor with
    | some i => (result.length : Int) - ((lines.length : Int) - i)
    | none => result.length
  let insertAt := if insertAt < 0 then (result.length : Int) else insertAt
  (result.insertIdx insertAt.toNat rules.passIn).insertIdx (insertAt.toNat + 1) rules.passOut

/-- What the host decides: the device of the default route, the lines of `/etc/pf.conf` if it
can be read, whether the temporary file can be written, and which strict commands succeed. -/
structure Pf where
  device : Text
  conf : Option (List Text)
  writable : Bool
  ok : Nat → Bool

/-- `enable_server_forwarding`: the rule list that is written for `pfctl`, and whether NAT is
reported as enabled. -/
def enableServerForwarding (pf : Pf) (tunNameArg subnetArg outIfaceArg : Text) : Option (List Text) × Bool :=
  let iface := if outIfaceArg = [] then pf.device else outIfaceArg
  if iface = [] then (none,false)
  else
    let tunName := if tunNameArg = [] then "utun0".toList else tunNameArg
    let source := if subnetArg = [] then "10.0.0.0/24".toList else subnetArg
    if pf.ok 0 = false then (none,false)
    else match pf.conf with
      | none => (none,false)
      | some lines =>
        if pf.writable = false then (none,false)
        else (some (inject (rulesOf tunName source iface) lines),pf.ok 1)

/-! ### The property -/

/-- The pass rules stand next to each other, with a load anchor line somewhere behind them if
there is one at all. -/
def PassesPlaced (rules : Rules) (result : List Text) : Prop :=
  ∃ front back, result = front ++ rules.passIn :: rules.passOut :: back ∧
    ((∃ line ∈ result, loadAnchor line = true) → ∃ line ∈ back, loadAnchor line = true)

/-- The lines with the rules in their places. -/
structure Injected (rules : Rules) (lines result : List Text) : Prop where
  ordered : List.Sublist lines result
  nothingElse : ∃ added, (∀ line ∈ added, line ∈ [rules.natRule,rules.passIn,rules.passOut]) ∧ result.Perm (lines ++ added)
  once : result.count rules.natRule = 1
  behindAnchors : ∃ front back, result = front ++ rules.natRule :: back ∧ ∀ line ∈ back, natAnchor line = false
  passes : PassesPlaced rules result

/-- The file gives the rules their places: it has a nat-anchor line, or the nat rule itself
already, and its last load anchor line stands behind its nat-anchor lines, or behind pass
rules that were there before. -/
structure Places (rules : Rules) (lines : List Text) : Prop where
  nat : lines.count rules.natRule = if lines.any natAnchor then 0 else 1
  passes : (∀ line ∈ lines, loadAnchor line = false) ∨
    (∃ front line back, lines = front ++ line :: back ∧ loadAnchor line = true ∧ ∀ l ∈ back, natAnchor l = false) ∨
    ∃ front back, lines = front ++ rules.passIn :: rules.passOut :: back ∧ ∃ line ∈ back, loadAnchor line = true

/-! ### The rules are no anchors -/

theorem opens_append {word line : Text} (opened : opens word line = true) : ∃ c rest, line = word ++ c :: rest := by
  unfold opens at opened
  split at opened
  · rename_i c rest found
    exact ⟨c,rest,afterPrefix_eq_some.mp found⟩
  · contradiction

theorem anchors_apart (line : Text) (nat : natAnchor line = true) : loadAnchor line = false := by
  obtain ⟨c,rest,rfl⟩ := opens_append nat
  rfl

/-- Three lines of which none is an anchor, and no pass rule is the nat rule. -/
structure Rules.Plain (rules : Rules) : Prop where
  noNat : ∀ line ∈ [rules.natRule,rules.passIn,rules.passOut], natAnchor line = false
  noLoad : ∀ line ∈ [rules.natRule,rules.passIn,rules.passOut], loadAnchor line = false
  inApart : rules.passIn ≠ rules.natRule
  outApart : rules.passOut ≠ rules.natRule

theorem rulesOf_plain (tunName source iface : Text) : (rulesOf tunName source iface).Plain := by
  refine ⟨?_,?_,?_,?_⟩
  · simp only [List.forall_mem_cons,List.not_mem_nil,false_implies,implies_true,and_true]
    exact ⟨rfl,rfl,rfl⟩
  · simp only [List.forall_mem_cons,List.not_mem_nil,false_implies,implies_true,and_true]
    exact ⟨rfl,rfl,rfl⟩
  · intro same
    have first : some 'p' = some 'n' := congrArg List.head? same
    exact absurd first (by decide)
  · intro same
    have first : some 'p' = some 'n' := congrArg List.head? same
    exact absurd first (by decide)

/-! ### The shape of the rule list -/

section

variable {rules : Rules} {lines : List Text}

theorem lastMatch_none {p : Text → Bool} (absent : ∀ line ∈ lines, p line = false) : lastMatch p 0 none lines = none := by
  rcases lastMatch_cases p 0 none lines with ⟨-,eq⟩ | ⟨front,line,back,⟨rfl,here,-⟩,-⟩
  · exact eq
  · exact absurd here (by simp [absent line])

/-- Without an anchor the nat rule is left out, else it stands behind the last one. -/
theorem copied_cases (rules : Rules) (lines : List Text) :
    ((∀ line ∈ lines, natAnchor line = false) ∧
      copyWith rules.natRule (lastMatch natAnchor 0 none lines) 0 lines = lines) ∨
    ∃ front anchor back, LastSplit natAnchor lines front anchor back ∧
      copyWith rules.natRule (lastMatch natAnchor 0 none lines) 0 lines = front ++ anchor :: rules.natRule :: back := by
  rcases lastMatch_cases natAnchor 0 none lines with ⟨absent,eq⟩ | ⟨front,anchor,back,split,eq⟩
  · refine .inl ⟨absent,?_⟩
    rw [eq]
    exact copyWith_outside (fun j same => by simp at same) lines
  · refine .inr ⟨front,anchor,back,split,?_⟩
    rw [eq]
    conv_lhs => rw [split.whole]
    exact copyWith_split rules.natRule 0 front anchor back

/-- Where the load anchor line is counted from the end, the insertion is as far from the end
of the copied lines. -/
theorem inject_at {front back : List Text} (copied : copyWith rules.natRule (lastMatch natAnchor 0 none lines) 0 lines = front ++ back)
    (index : (match lastMatch loadAnchor 0 none lines with
      | some i => ((front ++ back).length : Int) - ((lines.length : Int) - i)
      | none => ((front ++ back).length : Int)) = (front.length : Int)) :
    inject rules lines = front ++ rules.passIn :: rules.passOut :: back := by
  have positive : ¬((front.length : Int) < 0) := by omega
  rw [inject,copied,index,if_neg positive,Int.toNat_natCast]
  exact insertIdx_two front back rules.passIn rules.passOut

theorem inject_noLoad (absent : ∀ line ∈ lines, loadAnchor line = false)
    (copied : copyWith rules.natRule (lastMatch natAnchor 0 none lines) 0 lines = result) :
    inject rules lines = result ++ [rules.passIn,rules.passOut] := by
  apply inject_at (copied.trans (List.append_nil result).symm)
  rw [lastMatch_none absent,List.append_nil]

/-- The lines with the last load anchor, and as many lines behind it as before. -/
theorem inject_load (split : LastSplit loadAnchor lines before line after)
    (copied : copyWith rules.natRule (lastMatch natAnchor 0 none lines) 0 lines = front ++ back)
    (same : back.length = after.length + 1) : inject rules lines = front ++ rules.passIn :: rules.passOut :: back := by
  apply inject_at copied
  rcases lastMatch_cases loadAnchor 0 none lines with ⟨absent,-⟩ | ⟨before',line',after',split',eq⟩
  · have inside : line ∈ lines := by simp [split.whole]
    exact absurd split.here (by simp [absent line inside])
  · have place : before'.length = before.length := by
      obtain ⟨rest,first,-⟩ := split.prefix_of split'.whole split'.here
      obtain ⟨rest',second,-⟩ := split'.prefix_of split.whole split.here
      have first := congrArg List.length first
      have second := congrArg List.length second
      simp only [List.length_append,List.length_cons,List.length_nil] at first second
      omega
    have length := congrArg List.length split.whole
    rw [eq]
    simp only [List.length_append,List.length_cons,Nat.zero_add] at length ⊢
    omega

/-- Everything the injection can do to the lines. -/
theorem inject_cases (rules : Rules) (lines : List Text) :
    ((∀ line ∈ lines, natAnchor line = false) ∧ ∃ front back, lines = front ++ back ∧
      inject rules lines = front ++ rules.passIn :: rules.passOut :: back ∧
      ((∀ line ∈ lines, loadAnchor line = false) ∨ ∃ line rest, back = line :: rest ∧ loadAnchor line = true)) ∨
    (∃ front anchor middle back, LastSplit natAnchor lines front anchor (middle ++ back) ∧
      inject rules lines = front ++ anchor :: rules.natRule :: middle ++ rules.passIn :: rules.passOut :: back ∧
      ((∀ line ∈ lines, loadAnchor line = false) ∨ ∃ line rest, back = line :: rest ∧ loadAnchor line = true)) ∨
    ∃ front load middle anchor back, LastSplit natAnchor lines (front ++ load :: middle) anchor back ∧
      LastSplit loadAnchor lines front load (middle ++ anchor :: back) ∧ inject rules lines =
        front ++ load :: rules.passIn :: rules.passOut :: middle ++ anchor :: rules.natRule :: back := by
  rcases copied_cases rules lines with ⟨noNat,copied⟩ | ⟨front,anchor,back,nat,copied⟩
  · refine .inl ⟨noNat,?_⟩
    rcases lastMatch_cases loadAnchor 0 none lines with ⟨absent,-⟩ | ⟨before,line,after,split,-⟩
    · exact ⟨lines,[],by simp,inject_noLoad absent copied,.inl absent⟩
    · exact ⟨before,line :: after,split.whole,inject_load split (copied.trans split.whole) rfl,.inr ⟨line,after,rfl,split.here⟩⟩
  · right
    rcases lastMatch_cases loadAnchor 0 none lines with ⟨absent,-⟩ | ⟨before,line,after,split,-⟩
    · refine .inl ⟨front,anchor,back,[],by simpa using nat,?_,.inl absent⟩
      exact inject_noLoad absent copied
    · have other : line ≠ anchor := by
        rintro rfl
        exact absurd split.here (by simp [anchors_apart line nat.here])
      have parts : front ++ anchor :: back = before ++ line :: after := nat.whole.symm.trans split.whole
      rcases List.append_eq_append_iff.mp parts with ⟨rest,rfl,later⟩ | ⟨rest,rfl,later⟩
      · -- the load anchor stands behind the last nat-anchor
        cases rest with
        | nil => exact absurd (List.cons.inj later).1.symm other
        | cons x middle =>
          obtain ⟨rfl,rfl⟩ := List.cons.inj later
          refine .inl ⟨front,anchor,middle,line :: after,nat,?_,.inr ⟨line,after,rfl,split.here⟩⟩
          have copied' : copyWith rules.natRule (lastMatch natAnchor 0 none lines) 0 lines =
              (front ++ anchor :: rules.natRule :: middle) ++ line :: after := by rw [copied]; simp
          exact inject_load split copied' rfl
      · -- the last nat-anchor stands behind the load anchor: the insertion comes one line late
        cases rest with
        | nil => exact absurd (List.cons.inj later).1 other
        | cons x middle =>
          obtain ⟨rfl,rfl⟩ := List.cons.inj later
          refine .inr ⟨before,line,middle,anchor,back,nat,split,?_⟩
          have copied' : copyWith rules.natRule (lastMatch natAnchor 0 none lines) 0 lines =
              (before ++ [line]) ++ (middle ++ anchor :: rules.natRule :: back) := by rw [copied]; simp
          rw [inject_load split copied' (by simp; omega)]
          simp

/-! ### Where the property holds -/

/-- Two lines in front of some load anchor line. -/
def PairAhead (a b : Text) (lines : List Text) : Prop :=
  ∃ front back, lines = front ++ a :: b :: back ∧ ∃ line ∈ back, loadAnchor line = true

/-- What stands ahead of the last load anchor does not depend on what stands behind it. -/
theorem pairAhead_of_same {lines' : List Text} (split : LastSplit loadAnchor lines front load back)
    (split' : LastSplit loadAnchor lines' front load back') (ahead : PairAhead a b lines) : PairAhead a b lines' := by
  obtain ⟨before,after,whole,line,inside,isLoad⟩ := ahead
  obtain ⟨middle,rest,rfl⟩ := List.append_of_mem inside
  have parts : lines = (before ++ a :: b :: middle) ++ line :: rest := by rw [whole]; simp
  obtain ⟨more,same,-⟩ := split.prefix_of parts isLoad
  refine ⟨before,middle ++ line :: more ++ back',?_,line,by simp,isLoad⟩
  rw [split'.whole,List.append_cons,same]
  simp

theorem injected_ordered (rules : Rules) (lines : List Text) : List.Sublist lines (inject rules lines) ∧
    ∃ added, (∀ line ∈ added, line ∈ [rules.natRule,rules.passIn,rules.passOut]) ∧ (inject rules lines).Perm (lines ++ added) := by
  rcases inject_cases rules lines with ⟨-,front,back,whole,eq,-⟩ | ⟨front,anchor,middle,back,split,eq,-⟩ |
    ⟨front,load,middle,anchor,back,split,-,eq⟩
  · rw [eq,whole]
    refine ⟨?_,[rules.passIn,rules.passOut],by simp,?_⟩
    · exact List.Sublist.append_left (.cons _ (.cons _ (List.Sublist.refl back))) front
    · rw [List.append_assoc]
      refine List.Perm.append_left front ?_
      exact @List.perm_append_comm _ [rules.passIn,rules.passOut] back
  · rw [eq,split.whole]
    constructor
    · have rest : List.Sublist (middle ++ back) (rules.natRule :: (middle ++ rules.passIn :: rules.passOut :: back)) :=
        .cons _ (.append_left (.cons _ (.cons _ (.refl back))) middle)
      simpa using (rest.append_left [anchor]).append_left front
    · refine ⟨[rules.natRule,rules.passIn,rules.passOut],by simp,?_⟩
      grind
  · rw [eq,split.whole]
    constructor
    · have rest : List.Sublist (middle ++ anchor :: back)
          (rules.passIn :: rules.passOut :: (middle ++ anchor :: rules.natRule :: back)) :=
        .cons _ (.cons _ (.append_left (.append_left (.cons _ (.refl back)) [anchor]) middle))
      simpa using (rest.append_left [load]).append_left front
    · refine ⟨[rules.natRule,rules.passIn,rules.passOut],by simp,?_⟩
      grind

theorem any_anchor (split : LastSplit natAnchor lines front anchor back) : lines.any natAnchor = true :=
  List.any_eq_true.mpr ⟨anchor,by simp [split.whole],split.here⟩

/-- The nat rule comes once more than before, if there is an anchor for it. -/
theorem count_inject (plain : rules.Plain) (lines : List Text) : (inject rules lines).count rules.natRule =
    lines.count rules.natRule + if lines.any natAnchor then 1 else 0 := by
  obtain ⟨-,-,inApart,outApart⟩ := plain
  rcases inject_cases rules lines with ⟨absent,front,back,whole,eq,-⟩ | ⟨front,anchor,middle,back,split,eq,-⟩ |
    ⟨front,load,middle,anchor,back,split,-,eq⟩
  · have none : lines.any natAnchor = false := List.any_eq_false.mpr fun line inside => by simp [absent line inside]
    rw [eq,none,whole]
    simp [List.count_append,inApart,outApart]
  · rw [eq,any_anchor split,split.whole]
    simp only [List.count_append,List.count_cons,inApart,outApart,beq_iff_eq]
    simp
    omega
  · rw [eq,any_anchor split,split.whole]
    simp only [List.count_append,List.count_cons,inApart,outApart,beq_iff_eq]
    simp
    omega

/-- No nat-anchor line comes behind the rule that was put in. -/
theorem inject_behind (plain : rules.Plain) (lines : List Text) (present : rules.natRule ∈ inject rules lines) :
    ∃ front back, inject rules lines = front ++ rules.natRule :: back ∧ ∀ line ∈ back, natAnchor line = false := by
  have noNat := plain.noNat
  simp only [List.forall_mem_cons,List.not_mem_nil,false_implies,implies_true,and_true] at noNat
  obtain ⟨-,noIn,noOut⟩ := noNat
  rcases inject_cases rules lines with ⟨absent,front,back,whole,eq,-⟩ | ⟨front,anchor,middle,back,split,eq,-⟩ |
    ⟨front,load,middle,anchor,back,split,-,eq⟩
  · obtain ⟨before,after,same⟩ := List.append_of_mem present
    refine ⟨before,after,same,fun line inside => ?_⟩
    have among : line ∈ inject rules lines := by
      rw [same]
      exact List.mem_append_right _ (List.mem_cons_of_mem _ inside)
    rw [eq,List.mem_append,List.mem_cons,List.mem_cons] at among
    rcases among with early | rfl | rfl | late
    · exact absent line (whole ▸ List.mem_append_left _ early)
    · exact noIn
    · exact noOut
    · exact absent line (whole ▸ List.mem_append_right _ late)
  · refine ⟨front ++ [anchor],middle ++ rules.passIn :: rules.passOut :: back,by rw [eq]; simp,fun line inside => ?_⟩
    rw [List.mem_append,List.mem_cons,List.mem_cons] at inside
    rcases inside with early | rfl | rfl | late
    · exact split.none line (List.mem_append_left _ early)
    · exact noIn
    · exact noOut
    · exact split.none line (List.mem_append_right _ late)
  · exact ⟨front ++ load :: rules.passIn :: rules.passOut :: middle ++ [anchor],back,by rw [eq]; simp,split.none⟩

/-- The pass rules are in their place where the file gives them one. -/
theorem inject_passes (plain : rules.Plain) (lines : List Text) : PassesPlaced rules (inject rules lines) ↔
    (∀ line ∈ lines, loadAnchor line = false) ∨
      (∃ front line back, lines = front ++ line :: back ∧ loadAnchor line = true ∧ ∀ l ∈ back, natAnchor l = false) ∨
      PairAhead rules.passIn rules.passOut lines := by
  have noLoad := plain.noLoad
  simp only [List.forall_mem_cons,List.not_mem_nil,false_implies,implies_true,and_true] at noLoad
  obtain ⟨natApart,inApart,outApart⟩ := noLoad
  have ordinary (absent : ∀ line ∈ lines, loadAnchor line = false) : ∀ line ∈ inject rules lines, loadAnchor line = false := by
    obtain ⟨-,added,known,perm⟩ := injected_ordered rules lines
    intro line inside
    rcases List.mem_append.mp (perm.mem_iff.mp inside) with old | new
    · exact absent line old
    · exact plain.noLoad line (known line new)
  have placed (front back : List Text) (eq : inject rules lines = front ++ rules.passIn :: rules.passOut :: back)
      (either : (∀ line ∈ lines, loadAnchor line = false) ∨ ∃ line rest, back = line :: rest ∧ loadAnchor line = true) :
      PassesPlaced rules (inject rules lines) := by
    refine ⟨front,back,eq,fun ⟨line,inside,isLoad⟩ => ?_⟩
    rcases either with absent | ⟨first,rest,rfl,isLoad⟩
    · exact absurd isLoad (by simp [ordinary absent line inside])
    · exact ⟨first,List.mem_cons_self,isLoad⟩
  rcases inject_cases rules lines with ⟨absent,front,back,whole,eq,either⟩ | ⟨front,anchor,middle,back,split,eq,either⟩ |
    ⟨front,load,middle,anchor,back,split,last,eq⟩
  · refine iff_of_true (placed front back eq either) (either.imp_right fun ⟨line,rest,same,isLoad⟩ => .inl ?_)
    refine ⟨front,line,rest,same ▸ whole,isLoad,fun l inside => absent l ?_⟩
    rw [whole,same]
    exact List.mem_append_right _ (List.mem_cons_of_mem _ inside)
  · refine iff_of_true (placed _ back eq either) (either.imp_right fun ⟨line,rest,same,isLoad⟩ => .inl ?_)
    refine ⟨front ++ anchor :: middle,line,rest,by rw [split.whole,same]; simp,isLoad,fun l inside => split.none l ?_⟩
    rw [same]
    exact List.mem_append_right _ (List.mem_cons_of_mem _ inside)
  · -- the insertion is behind the last load anchor
    have last' : LastSplit loadAnchor (inject rules lines) front load
        (rules.passIn :: rules.passOut :: middle ++ anchor :: rules.natRule :: back) := by
      refine ⟨by rw [eq]; simp,last.here,?_⟩
      have behind := last.none
      simp only [List.forall_mem_append,List.forall_mem_cons] at behind ⊢
      exact ⟨⟨inApart,outApart,behind.1⟩,behind.2.1,natApart,behind.2.2⟩
    have present : load ∈ lines := by simp [last.whole]
    constructor
    · rintro ⟨before,after,same,ahead⟩
      have pair : PairAhead rules.passIn rules.passOut (inject rules lines) :=
        ⟨before,after,same,ahead ⟨load,by simp [eq],last.here⟩⟩
      exact .inr (.inr (pairAhead_of_same last' last pair))
    · rintro (absent | ⟨before,line,after,whole,isLoad,noAnchor⟩ | pair)
      · exact absurd last.here (by simp [absent load present])
      · obtain ⟨rest,-,rfl⟩ := last.prefix_of whole isLoad
        exact absurd split.here (by simp [noAnchor anchor (by simp)])
      · obtain ⟨before,after,same,ahead⟩ := pairAhead_of_same last last' pair
        exact ⟨before,after,same,fun _ => ahead⟩

theorem injected_iff (plain : rules.Plain) (lines : List Text) : Injected rules lines (inject rules lines) ↔ Places rules lines := by
  obtain ⟨ordered,nothingElse⟩ := injected_ordered rules lines
  have counted := count_inject plain lines
  have once : (inject rules lines).count rules.natRule = 1 ↔
      lines.count rules.natRule = if lines.any natAnchor then 0 else 1 := by
    rw [counted]
    split_ifs <;> omega
  constructor
  · intro injected
    exact ⟨once.mp injected.once,(inject_passes plain lines).mp injected.passes⟩
  · intro places
    have one := once.mpr places.nat
    have present : rules.natRule ∈ inject rules lines := List.count_pos_iff.mp (by omega)
    exact ⟨ordered,nothingElse,one,inject_behind plain lines present,(inject_passes plain lines).mpr places.passes⟩

end

/-- What is written for `pfctl` has the rules in their places, and NAT is never reported on a
list without the nat rule, exactly if the file gives the rules places. -/
theorem pfConf_injected_iff (pf : Pf) (tunNameArg subnetArg outIfaceArg : Text) (lines written : List Text)
    (conf : pf.conf = some lines)
    (writes : (enableServerForwarding pf tunNameArg subnetArg outIfaceArg).1 = some written) :
    let rules := rulesOf (if tunNameArg = [] then "utun0".toList else tunNameArg)
      (if subnetArg = [] then "10.0.0.0/24".toList else subnetArg) (if outIfaceArg = [] then pf.device else outIfaceArg)
    (Injected rules lines written ∧
      ((enableServerForwarding pf tunNameArg subnetArg outIfaceArg).2 = true → rules.natRule ∈ written)) ↔
      Places rules lines := by
  intro rules
  have same : written = inject rules lines := by
    rw [enableServerForwarding] at writes
    by_cases noIface : (if outIfaceArg = [] then pf.device else outIfaceArg) = []
    · rw [if_pos noIface] at writes
      contradiction
    · rw [if_neg noIface,conf] at writes
      by_cases forwards : pf.ok 0 = false
      · rw [if_pos forwards] at writes
        contradiction
      · rw [if_neg forwards] at writes
        dsimp only at writes
        by_cases closed : pf.writable = false
        · simp [closed] at writes
        · rw [if_neg closed] at writes
          exact (Option.some.inj writes).symm
  have iff := injected_iff (rulesOf_plain _ _ _ : rules.Plain) lines
  rw [← same] at iff
  constructor
  · intro ⟨injected,_⟩
    exact iff.mp injected
  · intro places
    have injected := iff.mpr places
    refine ⟨injected,fun _ => List.count_pos_iff.mp ?_⟩
    rw [injected.once]
    exact Nat.one_pos

/-- The file as it is delivered. -/
def delivered : List Text :=
  ["scrub-anchor \"com.apple/*\"".toList,"nat-anchor \"com.apple/*\"".toList,"rdr-anchor \"com.apple/*\"".toList,
    "anchor \"com.apple/*\"".toList,"load anchor \"com.apple\" from \"/etc/pf.anchors/com.apple\"".toList]

theorem pfConf_injected_delivered : ∃ written,
    (enableServerForwarding ⟨"en0".toList,some delivered,true,fun _ => true⟩ [] [] []).1 = some written ∧
      Injected (rulesOf "utun0".toList "10.0.0.0/24".toList "en0".toList) delivered written := by
  refine ⟨_,rfl,?_⟩
  refine ((pfConf_injected_iff ⟨"en0".toList,some delivered,true,fun _ => true⟩ [] [] [] delivered _ rfl rfl).mpr ?_).1
  refine ⟨by decide,.inr (.inl ⟨delivered.take 4,_,[],rfl,rfl,?_⟩)⟩
  exact List.forall_mem_nil _

/-- Without a nat-anchor line the nat rule is left out, and NAT is reported as enabled. -/
theorem pfConf_lost : ¬∀ (pf : Pf) (tunNameArg subnetArg outIfaceArg : Text) (lines written : List Text),
    pf.conf = some lines → (enableServerForwarding pf tunNameArg subnetArg outIfaceArg).1 = some written →
    let rules := rulesOf (if tunNameArg = [] then "utun0".toList else tunNameArg)
      (if subnetArg = [] then "10.0.0.0/24".toList else subnetArg) (if outIfaceArg = [] then pf.device else outIfaceArg)
    Injected rules lines written ∧
      ((enableServerForwarding pf tunNameArg subnetArg outIfaceArg).2 = true → rules.natRule ∈ written) := by
  intro placed
  let pf : Pf := ⟨"en0".toList,some ["pass all".toList],true,fun _ => true⟩
  have reported := (placed pf [] [] [] ["pass all".toList] _ rfl rfl).2 rfl
  exact absurd reported (by decide)

end Nospoon.MacOs
