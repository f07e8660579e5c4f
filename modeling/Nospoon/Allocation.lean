import Nospoon.Commands

/-! Addresses as the commands take them apart and put them together, and the hosts they
hand out. -/
namespace Nospoon

open Library

/-! ### Numbers -/

theorem decimal_length (small : n ≤ 255) : 1 ≤ (decimal n).length ∧ (decimal n).length ≤ 3 := by
  constructor
  · exact Nat.length_toDigits_pos
  · exact (Nat.length_toDigits_le_iff (by decide) (by decide)).mpr (by omega)

/-! ### Addresses -/

/-- An octet as the CIDR pattern reads it. -/
structure Octet (s : Text) : Prop where
  digits : ∀ c ∈ s, c.isDigit = true
  length : 1 ≤ s.length ∧ s.length ≤ 3
  value : natOf s ≤ 255

theorem octet_decimal (small : n ≤ 255) : Octet (decimal n) :=
  ⟨decimal_isDigit n,decimal_length small,by rw [natOf_decimal]; exact small⟩

/-- The first three octets of an address. -/
def Base (base : Text) : Prop :=
  ∃ a b c, Octet a ∧ Octet b ∧ Octet c ∧ base = a ++ '.' :: b ++ '.' :: c

/-- `base.h`. -/
def hostIp (base : Text) (h : Nat) : Text := base ++ '.' :: decimal h

theorem matchDigits_append (digits : ∀ c ∈ s, c.isDigit = true) (length : 1 ≤ s.length ∧ s.length ≤ limit)
    (ends : EndsDigits rest) : matchDigits limit (s ++ rest) = some (s,rest) := by
  obtain ⟨taken,left⟩ := takeWhile_digits digits ends
  simp only [matchDigits,taken,left]
  rw [if_pos length]

theorem matchDigits_eq_some (h : matchDigits limit value = some (s,rest)) :
    value = s ++ rest ∧ (∀ c ∈ s, c.isDigit = true) ∧ 1 ≤ s.length ∧ s.length ≤ limit := by
  simp only [matchDigits,Option.ite_none_right_eq_some,Option.some.injEq,Prod.mk.injEq] at h
  obtain ⟨⟨low,high⟩,rfl,rfl⟩ := h
  exact ⟨List.takeWhile_append_dropWhile.symm,fun c member => List.mem_takeWhile_imp member,low,high⟩

theorem matchCidr_eq_some (h : matchCidr value = some (octets,length)) :
    ∃ a b c d, octets = [a,b,c,d] ∧ value = a ++ '.' :: b ++ '.' :: c ++ '.' :: d ++ '/' :: length ∧
      (∀ s ∈ [a,b,c,d], (∀ x ∈ s, x.isDigit = true) ∧ 1 ≤ s.length ∧ s.length ≤ 3) ∧
      (∀ x ∈ length, x.isDigit = true) ∧ 1 ≤ length.length ∧ length.length ≤ 2 := by
  simp only [matchCidr,bind,Option.bind_eq_some_iff,Prod.exists,afterPrefix_eq_some,
    Option.ite_none_right_eq_some,Option.some.injEq,Prod.mk.injEq] at h
  obtain ⟨a,_,ha,_,rfl,b,_,hb,_,rfl,c,_,hc,_,rfl,d,_,hd,_,rfl,l,_,hl,rfl,rfl,rfl⟩ := h
  obtain ⟨rfl,da,la⟩ := matchDigits_eq_some ha
  obtain ⟨rb,db,lb⟩ := matchDigits_eq_some hb
  obtain ⟨rc,dc,lc⟩ := matchDigits_eq_some hc
  obtain ⟨rd,dd,ld⟩ := matchDigits_eq_some hd
  obtain ⟨rl,dl,ll⟩ := matchDigits_eq_some hl
  refine ⟨a,b,c,d,rfl,?_,?_,dl,ll⟩
  · rw [rb,rc,rd,rl]
    simp
  · simp only [List.forall_mem_cons,List.not_mem_nil,false_implies,implies_true,and_true]
    exact ⟨⟨da,la⟩,⟨db,lb⟩,⟨dc,lc⟩,⟨dd,ld⟩⟩

/-- An address in CIDR form, with the base it is built on. -/
theorem validateCidr_base (h : validateCidr value label = .ok ()) :
    ∃ base d length, Base base ∧ Octet d ∧ (∀ c ∈ length, c.isDigit = true) ∧ length ≠ [] ∧ value = base ++ '.' :: d ++ '/' :: length := by
  obtain ⟨octets,length,found,-,values⟩ := validateCidr_ok.mp h
  obtain ⟨a,b,c,d,rfl,rfl,shape,digits,long⟩ := matchCidr_eq_some found
  simp only [List.forall_mem_cons,List.not_mem_nil,false_implies,implies_true,and_true] at shape values
  obtain ⟨sa,sb,sc,sd⟩ := shape
  refine ⟨a ++ '.' :: b ++ '.' :: c,d,length,⟨a,b,c,⟨sa.1,sa.2,values.1⟩,⟨sb.1,sb.2,values.2.1⟩,
    ⟨sc.1,sc.2,values.2.2.1⟩,rfl⟩,⟨sd.1,sd.2,values.2.2.2⟩,digits,?_,rfl⟩
  exact List.ne_nil_of_length_pos long.1

theorem octet_char (octet : Octet s) (c : Char) (absent : c.isDigit = false) : c ∉ s := by
  intro member
  rw [octet.digits c member] at absent
  contradiction

theorem Base.noSlash (h : Base base) : '/' ∉ base := by
  obtain ⟨a,b,c,ha,hb,hc,rfl⟩ := h
  simp [octet_char ha '/' rfl,octet_char hb '/' rfl,octet_char hc '/' rfl]

/-- Every address of a /24 is accepted. -/
theorem validateCidr_host (h : Base base) (small : n ≤ 255) (label : Text) :
    validateCidr (hostIp base n ++ "/24".toList) label = .ok () := by
  obtain ⟨a,b,c,ha,hb,hc,rfl⟩ := h
  have hd := octet_decimal small
  have dot (t : Text) : EndsDigits ('.' :: t) := fun x here => Option.some.inj here ▸ rfl
  have slash (t : Text) : EndsDigits ('/' :: t) := fun x here => Option.some.inj here ▸ rfl
  refine validateCidr_ok.mpr ⟨[a,b,c,decimal n],"24".toList,?_,by decide,?_⟩
  · change matchCidr (_ ++ '/' :: "24".toList) = _
    simp only [matchCidr,hostIp,List.append_assoc,List.cons_append,bind]
    rw [matchDigits_append ha.digits ha.length (dot _),Option.bind_some,
      afterPrefix_head,Option.bind_some,
      matchDigits_append hb.digits hb.length (dot _),Option.bind_some,
      afterPrefix_head,Option.bind_some,
      matchDigits_append hc.digits hc.length (dot _),Option.bind_some,
      afterPrefix_head,Option.bind_some,
      matchDigits_append hd.digits hd.length (slash _),Option.bind_some,
      afterPrefix_head,Option.bind_some]
    rfl
  · simp only [List.forall_mem_cons,List.not_mem_nil,false_implies,implies_true,and_true]
    exact ⟨ha.value,hb.value,hc.value,hd.value⟩

/-- Taking an address apart that is put together from a base and a number. -/
theorem parseSubnet_octet (h : Base base) (octet : Octet d) (length : Text) :
    parseSubnet (base ++ '.' :: d ++ '/' :: length) = .ok ⟨base,atoi length,[(natOf d : Int)]⟩ := by
  have noSlash : '/' ∉ base ++ '.' :: d := by
    intro member
    simp only [List.mem_append,List.mem_cons,Char.reduceEq,false_or] at member
    rcases member with here | there
    · exact h.noSlash here
    · exact octet_char octet '/' rfl there
  have noDot : '.' ∉ d := octet_char octet '.' rfl
  have small := octet.value
  have value : atoi (d ++ []) = natOf d :=
    atoi_digits octet.digits (List.ne_nil_of_length_pos octet.length.1) (by simp [EndsDigits]) (by omega)
  rw [List.append_nil] at value
  simp only [parseSubnet,splitFirst_append noSlash,splitLast_eq_some.mpr ⟨rfl,noDot⟩,value]

theorem parseSubnet_base (valid : validateCidr ip label = .ok ()) (parsed : parseSubnet ip = .ok net) :
    Base net.base := by
  obtain ⟨base,d,_,shape,octet,-,-,rfl⟩ := validateCidr_base valid
  rw [parseSubnet_octet shape octet] at parsed
  obtain rfl := Except.ok.inj parsed
  exact shape

theorem parseSubnet_host (h : Base base) (small : n ≤ 255) :
    parseSubnet (hostIp base n ++ "/24".toList) = .ok ⟨base,24,[(n : Int)]⟩ := by
  have parsed := parseSubnet_octet h (octet_decimal small) "24".toList
  rw [natOf_decimal] at parsed
  exact parsed

theorem hostOctet_host (base : Text) (small : n ≤ 255) : hostOctet (hostIp base n) = some (n : Int) := by
  have value : atoi (decimal n ++ []) = n := atoi_decimal n (by simp [EndsDigits]) (by omega)
  rw [List.append_nil] at value
  rw [hostOctet,hostIp,splitLast_eq_some.mpr ⟨rfl,decimal_noChar n '.' rfl⟩,Option.map_some,value]

theorem hostIp_injective (same : hostIp base m = hostIp base n) : m = n := by
  have octets := congrArg natOf (List.cons.inj (List.append_cancel_left same)).2
  rwa [natOf_decimal,natOf_decimal] at octets

/-! ### Reserved hosts -/

theorem nextHost_eq_some (h : nextHost net = some (host,net')) :
    2 ≤ host ∧ host ≤ 254 ∧ (host : Int) ∉ net.used ∧
      net' = { net with used := (host : Int) :: net.used } := by
  simp only [nextHost,Option.map_eq_some_iff,Prod.mk.injEq] at h
  obtain ⟨first,found,rfl,rfl⟩ := h
  have free := List.find?_some found
  have range := List.mem_range'_1.mp (List.mem_of_find?_eq_some found)
  refine ⟨range.1,by omega,by simpa using free,rfl⟩

/-- Reserved octets are host octets, free before and different from each other. -/
theorem reserveHosts_spec (n : Nat) (net : Subnet) :
    (∀ h ∈ reserveHosts n net, 2 ≤ h ∧ h ≤ 254 ∧ (h : Int) ∉ net.used) ∧ (reserveHosts n net).Nodup := by
  induction n generalizing net with
  | zero => simp [reserveHosts]
  | succ n ih =>
    unfold reserveHosts
    cases found : nextHost net with
    | none => simp
    | some r =>
      obtain ⟨low,high,free,next⟩ := nextHost_eq_some (show nextHost net = some (r.1,r.2) from found)
      obtain ⟨later,distinct⟩ := ih r.2
      simp only [List.forall_mem_cons,List.nodup_cons]
      refine ⟨⟨⟨low,high,free⟩,fun h member => ?_⟩,fun member => ?_,distinct⟩
      · obtain ⟨low',high',free'⟩ := later h member
        rw [next] at free'
        exact ⟨low',high',fun used => free' (List.mem_cons_of_mem _ used)⟩
      · obtain ⟨-,-,free'⟩ := later r.1 member
        rw [next] at free'
        exact free' List.mem_cons_self

end Nospoon
