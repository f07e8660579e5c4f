import Nospoon.ShellLines
import Nospoon.Js.PeerArithmetic

/-! The network that the servers masquerade. Both clear the last octet of the server's address
and keep the prefix length, which is the server's subnet only where the two fit together. -/
namespace Nospoon

open Library

/-- The network that `startServer` masquerades. -/
def Js.natSubnet (ip : Text) : Text :=
  let ipParts := ip.splitOn '/'
  let octets := (ipParts.getD 0 []).splitOn '.'
  let octet (i : Nat) : Text := octets.getD i "undefined".toList
  let length := ipParts.getD 1 []
  octet 0 ++ '.' :: octet 1 ++ '.' :: octet 2 ++ ".0/".toList ++ (if length = [] then "24".toList else length)

/-- The addresses that a source `a.b.c.d/p` of a rule selects; bits behind the prefix do not count. -/
def selected (source : Text) : Set Nat :=
  {x | ∃ octets length, matchCidr source = some (octets,length) ∧ x ∈ Js.subnetOf (natOf length) (addressValue (octets.map natOf))}

theorem selected_eq (found : matchCidr source = some (octets,length)) :
    selected source = Js.subnetOf (natOf length) (addressValue (octets.map natOf)) := by
  ext x
  constructor
  · rintro ⟨octets',length',found',inside⟩
    obtain ⟨rfl,rfl⟩ := Prod.mk.inj (Option.some.inj (found.symm.trans found'))
    exact inside
  · exact fun inside => ⟨octets,length,found,inside⟩

/-- The rules of both servers cover the subnet of the server's address and nothing else. -/
def NatCovers (ip : Text) : Prop := selected (serverSubnet ip) = selected ip ∧ selected (Js.natSubnet ip) = selected ip

/-- The prefix leaves the last octet out, or there is nothing of it in the network part. -/
def LastOctetHosts (ip : Text) : Prop :=
  ∃ a b c d length, matchCidr ip = some ([a,b,c,d],length) ∧ (natOf length ≤ 24 ∨ natOf d < 2 ^ (32 - natOf length))

/-- An accepted address with its last octet cleared. -/
theorem matchCidr_cleared (found : matchCidr ip = some ([a,b,c,d],length)) :
    serverSubnet ip = a ++ '.' :: b ++ '.' :: c ++ ".0".toList ++ '/' :: length ∧ Js.natSubnet ip = serverSubnet ip ∧
      matchCidr (serverSubnet ip) = some ([a,b,c,['0']],length) := by
  obtain ⟨a',b',c',d',same,whole,shape,digits,long⟩ := matchCidr_eq_some found
  obtain ⟨rfl,rfl,rfl,rfl⟩ : a' = a ∧ b' = b ∧ c' = c ∧ d' = d := by simpa using same.symm
  simp only [List.forall_mem_cons,List.not_mem_nil,false_implies,implies_true,and_true] at shape
  obtain ⟨sa,sb,sc,sd⟩ := shape
  have noChar (s : Text) (numeral : ∀ x ∈ s, x.isDigit = true) (c : Char) (other : c.isDigit = false) : c ∉ s :=
    fun member => absurd ((numeral c member).symm.trans other) (by decide)
  have noSlash : '/' ∉ a' ++ '.' :: b' ++ '.' :: c' ++ '.' :: d' := by
    simp [noChar _ sa.1 '/' rfl,noChar _ sb.1 '/' rfl,noChar _ sc.1 '/' rfl,noChar _ sd.1 '/' rfl]
  have subnet : serverSubnet ip = a' ++ '.' :: b' ++ '.' :: c' ++ ".0".toList ++ '/' :: length := by
    have address : splitFirst '/' ip = some (a' ++ '.' :: b' ++ '.' :: c' ++ '.' :: d',length) := by
      rw [whole]
      exact splitFirst_append noSlash
    have network : splitLast '.' (a' ++ '.' :: b' ++ '.' :: c' ++ '.' :: d') = some (a' ++ '.' :: b' ++ '.' :: c',d') :=
      splitLast_eq_some.mpr ⟨by simp,noChar _ sd.1 '.' rfl⟩
    rw [serverSubnet,address]
    dsimp only
    rw [network]
  refine ⟨subnet,?_,?_⟩
  · have parts : ip.splitOn '/' = [a' ++ '.' :: b' ++ '.' :: c' ++ '.' :: d',length] := by
      have apart : ∀ s ∈ [a' ++ '.' :: b' ++ '.' :: c' ++ '.' :: d',length], '/' ∉ s := by
        rw [List.forall_mem_cons,List.forall_mem_singleton]
        exact ⟨noSlash,noChar length digits '/' rfl⟩
      have joined := List.splitOn_intercalate '/' apart (List.cons_ne_nil _ _)
      simpa [List.intercalate,whole] using joined
    have octets : (a' ++ '.' :: b' ++ '.' :: c' ++ '.' :: d').splitOn '.' = [a',b',c',d'] := by
      apply Js.splitOn_dotted
      simp only [List.forall_mem_cons,List.not_mem_nil,false_implies,implies_true,and_true]
      exact ⟨noChar _ sa.1 '.' rfl,noChar _ sb.1 '.' rfl,noChar _ sc.1 '.' rfl,noChar _ sd.1 '.' rfl⟩
    have written : length ≠ [] := List.ne_nil_of_length_pos long.1
    rw [subnet,Js.natSubnet,parts]
    simp only [List.getD_cons_zero,List.getD_cons_succ]
    rw [octets,if_neg written]
    simp
  · have dot (t : Text) : EndsDigits ('.' :: t) := fun x here => Option.some.inj here ▸ rfl
    have slash (t : Text) : EndsDigits ('/' :: t) := fun x here => Option.some.inj here ▸ rfl
    have none : EndsDigits [] := by simp [EndsDigits]
    have zero : matchDigits 3 ('0' :: '/' :: length) = some (['0'],'/' :: length) := rfl
    have last : matchDigits 2 (length ++ []) = some (length,[]) := matchDigits_append digits long none
    rw [List.append_nil] at last
    rw [subnet]
    show matchCidr (a' ++ '.' :: b' ++ '.' :: c' ++ ['.','0'] ++ '/' :: length) = _
    simp only [matchCidr,List.append_assoc,List.cons_append,List.nil_append,bind]
    rw [matchDigits_append sa.1 sa.2 (dot _),Option.bind_some,afterPrefix_head,Option.bind_some,
      matchDigits_append sb.1 sb.2 (dot _),Option.bind_some,afterPrefix_head,Option.bind_some,
      matchDigits_append sc.1 sc.2 (dot _),Option.bind_some,afterPrefix_head,Option.bind_some,
      zero,Option.bind_some,afterPrefix_head,Option.bind_some,last,Option.bind_some]
    rfl

/-- The rules cover the server's subnet exactly if its prefix is at most 24 bits long, or the
last octet lies behind the prefix. -/
theorem natCovers_iff (ip label : Text) (accepted : validateCidr ip label = .ok ()) : NatCovers ip ↔ LastOctetHosts ip := by
  obtain ⟨octets,length,found,short,small⟩ := validateCidr_ok.mp accepted
  obtain ⟨a,b,c,d,rfl,-,-⟩ := matchCidr_eq_some found
  obtain ⟨-,js,cleared⟩ := matchCidr_cleared found
  have low : natOf d < 2 ^ 8 := Nat.lt_succ_of_le (small d (by simp))
  let front := 65536 * natOf a + 256 * natOf b + natOf c
  have host : addressValue ([a,b,c,d].map natOf) = front * 2 ^ 8 + natOf d := by
    simp only [addressValue,List.map_cons,List.map_nil,List.foldl_cons,List.foldl_nil,front]
    omega
  have network : addressValue ([a,b,c,['0']].map natOf) = front * 2 ^ 8 := by
    have zero : natOf ['0'] = 0 := rfl
    simp only [addressValue,List.map_cons,List.map_nil,List.foldl_cons,List.foldl_nil,front,zero]
    omega
  have same : selected (serverSubnet ip) = selected ip ↔ 8 ≤ 32 - natOf length ∨ natOf d < 2 ^ (32 - natOf length) := by
    rw [selected_eq found,selected_eq cleared,host,network]
    exact blockOf_cleared low
  have bits : 8 ≤ 32 - natOf length ↔ natOf length ≤ 24 := by omega
  rw [bits] at same
  constructor
  · rintro ⟨cpp,-⟩
    exact ⟨a,b,c,d,length,found,same.mp cpp⟩
  · rintro ⟨a',b',c',d',length',found',hosts⟩
    obtain ⟨octets,rfl⟩ := Prod.mk.inj (Option.some.inj (found.symm.trans found'))
    obtain ⟨rfl,rfl,rfl,rfl⟩ : a = a' ∧ b = b' ∧ c = c' ∧ d = d' := by simpa using octets
    exact ⟨same.mpr hosts,js ▸ same.mpr hosts⟩

/-- The default address of a server. -/
theorem natCovers_default : NatCovers "10.0.0.1/24".toList :=
  (natCovers_iff "10.0.0.1/24".toList "ip".toList rfl).mpr
    ⟨"10".toList,"0".toList,"0".toList,"1".toList,"24".toList,rfl,.inl (by decide)⟩

/-- The server 10.0.0.129/25 masquerades 10.0.0.0/25, which has none of its clients. -/
theorem nat_foreign : ¬∀ ip label : Text, validateCidr ip label = .ok () → NatCovers ip := by
  intro claim
  have found : matchCidr "10.0.0.129/25".toList =
      some (["10".toList,"0".toList,"0".toList,"129".toList],"25".toList) := by decide
  have cleared : matchCidr (serverSubnet "10.0.0.129/25".toList) =
      some (["10".toList,"0".toList,"0".toList,"0".toList],"25".toList) := by decide
  have covers := (claim "10.0.0.129/25".toList [] rfl).1
  rw [selected_eq found,selected_eq cleared] at covers
  exact absurd (block_eq_iff.mp covers) (by decide)

end Nospoon
