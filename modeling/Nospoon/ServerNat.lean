import Mathlib.Data.Multiset.AddSub
import Nospoon.ShellLines

/-! What the server's forwarding commands (`full_tunnel_linux.cpp`) do to the host: the
iptables rules, a multiset, and ip_forward. The strict commands stop at the first failure. -/
namespace Nospoon

open Library

/-! ### The host -/

structure Rule where
  table : Text
  chain : Text
  spec : List Text
  deriving DecidableEq

structure Netfilter where
  rules : Multiset Rule
  ipForward : Int

/-- `iptables` on a chain: `-A` appends a rule, `-D` removes an identical one. -/
def Netfilter.change (host : Netfilter) (action : Text) (rule : Rule) : Netfilter :=
  if action = "-A".toList then { host with rules := rule ::ₘ host.rules }
  else if action = "-D".toList then { host with rules := host.rules.erase rule }
  else host

/-- A command that succeeds. -/
def Command.act (c : Command) (host : Netfilter) : Netfilter :=
  match c.words with
  | program :: flag :: first :: rest =>
    if program = "sysctl".toList then
      if flag = "-w".toList ∧ first = "net.ipv4.ip_forward=1".toList then { host with ipForward := 1 } else host
    else if program = "iptables".toList then
      if flag = "-t".toList then
        match rest with
        | action :: chain :: spec => host.change action ⟨first,chain,spec⟩
        | _ => host
      else host.change flag ⟨"filter".toList,first,rest⟩
    else host
  | _ => host

/-- All of the commands succeed. -/
def actAll (cs : List Command) (host : Netfilter) : Netfilter := cs.foldl (fun host c => c.act host) host

/-- Of the commands that `enable_server_forwarding` issues only the last can have failed,
and it has if no state was recorded. -/
def serverForwardingEnabled (ok : Nat → Bool) (n : Nat) (device : Text) (tunNameArg subnetArg outIfaceArg : Text)
    (host : Netfilter) : Netfilter × Option ForwardingState :=
  let (issued,active) := enableServerForwarding ok n device tunNameArg subnetArg outIfaceArg
  (actAll (if active.isSome then issued else issued.dropLast) host,active)

/-- Nothing is left: at once if the enable fails, else after the disable. -/
def Undone (host : Netfilter) (result : Netfilter × Option ForwardingState) : Prop :=
  match result.2 with
  | none => result.1 = host
  | some state => actAll (disableServerForwarding state) result.1 = host

/-! ### The commands -/

def natRule (source iface : Text) : Rule :=
  ⟨"nat".toList,"POSTROUTING".toList,["-s".toList,source,"-o".toList,iface,"-j".toList,"MASQUERADE".toList]⟩

def outRule (tunName iface : Text) : Rule :=
  ⟨"filter".toList,"FORWARD".toList,["-i".toList,tunName,"-o".toList,iface,"-j".toList,"ACCEPT".toList]⟩

def inRule (tunName iface : Text) : Rule :=
  ⟨"filter".toList,"FORWARD".toList,["-i".toList,iface,"-o".toList,tunName,"-m".toList,"state".toList,
    "--state".toList,"RELATED,ESTABLISHED".toList,"-j".toList,"ACCEPT".toList]⟩

section

variable (host : Netfilter) (action source tunName iface : Text)

/-- `iptables` on a named table, and on the filter table. -/
theorem act_table (line table chain : Text) (spec : List Text) (redirects : List Shell.Token) :
    Command.act ⟨line,"iptables".toList :: "-t".toList :: table :: action :: chain :: spec,redirects⟩ host =
      host.change action ⟨table,chain,spec⟩ := by
  have program : ("iptables".toList : Text) ≠ "sysctl".toList := by simp
  dsimp only [Command.act]
  rw [if_neg program,if_pos rfl,if_pos rfl]

theorem act_filter (line chain : Text) (spec : List Text) (redirects : List Shell.Token) (apart : action ≠ "-t".toList) :
    Command.act ⟨line,"iptables".toList :: action :: chain :: spec,redirects⟩ host =
      host.change action ⟨"filter".toList,chain,spec⟩ := by
  have program : ("iptables".toList : Text) ≠ "sysctl".toList := by simp
  dsimp only [Command.act]
  rw [if_neg program,if_pos rfl,if_neg apart]

theorem showDefault_act : showDefault.act host = host := by
  have program : ("ip".toList : Text) ≠ "sysctl".toList ∧ ("ip".toList : Text) ≠ "iptables".toList := by simp
  dsimp only [showDefault,Command.act]
  rw [if_neg program.1,if_neg program.2]

theorem enableForwarding_act : enableForwarding.act host = { host with ipForward := 1 } := by
  dsimp only [enableForwarding,silent,Command.act]
  rw [if_pos rfl,if_pos ⟨rfl,rfl⟩]

theorem masquerade_act : (masquerade action source iface).act host = host.change action (natRule source iface) :=
  act_table host action _ _ _ _ _

theorem forwardOut_act (apart : action ≠ "-t".toList) :
    (forwardOut action tunName iface).act host = host.change action (outRule tunName iface) :=
  act_filter host action _ _ _ _ apart

theorem forwardIn_act (apart : action ≠ "-t".toList) :
    (forwardIn action tunName iface).act host = host.change action (inRule tunName iface) :=
  act_filter host action _ _ _ _ apart

end

theorem change_delete (host : Netfilter) (rule : Rule) :
    host.change "-D".toList rule = { host with rules := host.rules.erase rule } := rfl

@[simp] theorem actAll_nil (host : Netfilter) : actAll [] host = host := rfl

@[simp] theorem actAll_cons (c : Command) (cs : List Command) (host : Netfilter) :
    actAll (c :: cs) host = actAll cs (c.act host) := rfl

/-- The strict commands go on behind one that succeeds, and end at one that fails. -/
theorem runStrict_goes {ok : Nat → Bool} {n : Nat} (succeeds : ok n = true) (c : Command) (cs : List Command) :
    runStrict ok n (c :: cs) = (c :: (runStrict ok (n + 1) cs).1,(runStrict ok (n + 1) cs).2) := by
  rw [runStrict,if_neg (by simp [succeeds])]

theorem runStrict_stops {ok : Nat → Bool} {n : Nat} (fails : ok n = false) (c : Command) (cs : List Command) :
    runStrict ok n (c :: cs) = ([c],false) := by
  rw [runStrict,if_pos fails]

/-- Asking for the default route changes nothing. -/
theorem actAll_detecting (outIfaceArg : Text) (cs : List Command) (host : Netfilter) :
    actAll ((if outIfaceArg = [] then [showDefault] else []) ++ cs) host = actAll cs host := by
  split_ifs
  · rw [List.singleton_append,actAll_cons,showDefault_act]
  · rfl

/-! ### Undoing -/

section

variable (host : Netfilter) (source tunName iface : Text)

theorem masquerade_adds : (masquerade "-A".toList source iface).act host =
    { host with rules := natRule source iface ::ₘ host.rules } := masquerade_act host _ source iface

theorem forwardOut_adds : (forwardOut "-A".toList tunName iface).act host =
    { host with rules := outRule tunName iface ::ₘ host.rules } := forwardOut_act host _ tunName iface (by decide)

theorem forwardIn_adds : (forwardIn "-A".toList tunName iface).act host =
    { host with rules := inRule tunName iface ::ₘ host.rules } := forwardIn_act host _ tunName iface (by decide)

/-- The disable takes the three rules out again, one of each. -/
theorem disable_acts (rules : Multiset Rule) (ipForward : Int) : actAll (disableServerForwarding ⟨iface,source,tunName⟩)
    ⟨inRule tunName iface ::ₘ outRule tunName iface ::ₘ natRule source iface ::ₘ rules,ipForward⟩ = ⟨rules,ipForward⟩ := by
  have removed : (((inRule tunName iface ::ₘ outRule tunName iface ::ₘ natRule source iface ::ₘ rules).erase
      (natRule source iface)).erase (outRule tunName iface)).erase (inRule tunName iface) = rules := by
    rw [Multiset.cons_swap (outRule tunName iface),Multiset.cons_swap (inRule tunName iface),Multiset.erase_cons_head,
      Multiset.cons_swap,Multiset.erase_cons_head,Multiset.erase_cons_head]
  rw [disableServerForwarding,actAll_cons,masquerade_act,change_delete,actAll_cons,forwardOut_act _ _ _ _ (by decide),
    change_delete,actAll_cons,forwardIn_act _ _ _ _ (by decide),change_delete,actAll_nil]
  exact congrArg (fun rules => (⟨rules,ipForward⟩ : Netfilter)) removed

theorem forwards_iff : (⟨host.rules,1⟩ : Netfilter) = host ↔ host.ipForward = 1 := by
  constructor
  · intro same
    exact (congrArg Netfilter.ipForward same).symm
  · intro one
    rw [← one]

theorem rules_differ (more : Multiset.card host.rules < Multiset.card rules) (forward : Int) :
    (⟨rules,forward⟩ : Netfilter) ≠ host := by
  intro same
  exact Nat.ne_of_gt more (congrArg (fun h : Netfilter => Multiset.card h.rules) same)

end

/-- The forwarding is undone exactly where nothing was done; or ip_forward was set before,
and the first iptables command failed or none did. -/
theorem serverForwarding_undone_iff (ok : Nat → Bool) (n : Nat) (device tunNameArg subnetArg outIfaceArg : Text)
    (host : Netfilter) :
    Undone host (serverForwardingEnabled ok n device tunNameArg subnetArg outIfaceArg host) ↔
      (if outIfaceArg = [] then device else outIfaceArg) = [] ∨ ok n = false ∨
      (host.ipForward = 1 ∧ (ok (n + 1) = false ∨ (ok (n + 2) = true ∧ ok (n + 3) = true))) := by
  rw [serverForwardingEnabled,enableServerForwarding]
  dsimp only
  generalize (if outIfaceArg = [] then device else outIfaceArg) = iface
  generalize (if tunNameArg = [] then "tun0".toList else tunNameArg) = tunName
  generalize (if subnetArg = [] then "10.0.0.0/24".toList else subnetArg) = source
  by_cases noIface : iface = []
  · rw [if_pos noIface]
    refine iff_of_true ?_ (.inl noIface)
    show actAll (if outIfaceArg = [] then [showDefault] else []).dropLast host = host
    split_ifs <;> rfl
  · rw [if_neg noIface,or_iff_right noIface]
    have stopped (issued : List Command) (c : Command) : Undone host (actAll ((if outIfaceArg = [] then [showDefault] else []) ++
        (issued ++ [c])).dropLast host,none) ↔ actAll issued host = host := by
      rw [← List.append_assoc,List.dropLast_concat,actAll_detecting]
      rfl
    cases first : ok n with
    | false =>
      rw [runStrict_stops first]
      exact iff_of_true ((stopped [] _).mpr rfl) (.inl rfl)
    | true =>
      rw [runStrict_goes first]
      cases second : ok (n + 1) with
      | false =>
        rw [runStrict_stops second]
        refine (stopped [_] _).trans ?_
        rw [actAll_cons,enableForwarding_act,actAll_nil,forwards_iff]
        simp
      | true =>
        rw [runStrict_goes second]
        cases third : ok (n + 2) with
        | false =>
          rw [runStrict_stops third]
          refine (stopped [_,_] _).trans ?_
          rw [actAll_cons,enableForwarding_act,actAll_cons,masquerade_adds,actAll_nil]
          exact iff_of_false (rules_differ host (by simp) 1) (by simp)
        | true =>
          rw [runStrict_goes third]
          cases fourth : ok (n + 3) with
          | false =>
            rw [runStrict_stops fourth]
            refine (stopped [_,_,_] _).trans ?_
            rw [actAll_cons,enableForwarding_act,actAll_cons,masquerade_adds,actAll_cons,forwardOut_adds,actAll_nil]
            exact iff_of_false (rules_differ host (by simp) 1) (by simp)
          | true =>
            rw [runStrict_goes fourth,runStrict]
            show actAll (disableServerForwarding _) (actAll (_ ++ _) host) = host ↔ _
            rw [actAll_detecting,actAll_cons,enableForwarding_act,actAll_cons,masquerade_adds,actAll_cons,forwardOut_adds,
              actAll_cons,forwardIn_adds,actAll_nil,disable_acts]
            refine (forwards_iff host).trans ?_
            simp

/-- The rules are refused on a host that does not forward: it is left forwarding. -/
theorem serverForwarding_left : ¬∀ (ok : Nat → Bool) (n : Nat) (device tunNameArg subnetArg outIfaceArg : Text)
    (host : Netfilter), Undone host (serverForwardingEnabled ok n device tunNameArg subnetArg outIfaceArg host) := by
  intro claim
  have same := claim (fun n => n = 0) 0 "eth0".toList "tun0".toList "10.0.0.0/24".toList [] ⟨0,0⟩
  exact absurd (congrArg Netfilter.ipForward same) (by decide)

end Nospoon
