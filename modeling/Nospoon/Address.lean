import Nospoon.Hex

/-! Internet addresses by value. Configurations name addresses by text, packets carry
their bytes; here are the standard textual forms (what `net.isIPv4` and `net.isIPv6`
accept, without a zone) and the bytes each denotes. -/
namespace Nospoon

open Library

/-- The bytes of an address, four or sixteen. -/
abbrev Address := List UInt8

/-- The decimal numeral of a byte, without leading zeros. -/
def readOctet (t : Text) : Option UInt8 :=
  if natOf t ≤ 255 ∧ decimal (natOf t) = t then some (UInt8.ofNat (natOf t)) else none

def parseIpv4 (t : Text) : Option Address := do
  let (a,rest) ← splitFirst '.' t
  let (b,rest) ← splitFirst '.' rest
  let (c,d) ← splitFirst '.' rest
  return [← readOctet a,← readOctet b,← readOctet c,← readOctet d]

/-- One to four hexadecimal digits of either case. -/
def readGroup (t : Text) : Option Address :=
  if (1 ≤ t.length ∧ t.length ≤ 4) ∧ t.all isXDigit then
    let value := t.foldl (fun acc c => 16 * acc + hexValue c) 0
    some [UInt8.ofNat (value / 256),UInt8.ofNat value]
  else none

def readGroups : List Text → Option Address
  | [] => some []
  | g :: gs => do return (← readGroup g) ++ (← readGroups gs)

/-- The last piece of an address may be written as a dotted IPv4 address. -/
def readTail : List Text → Option Address
  | [] => some []
  | [g] => (readGroup g).or (parseIpv4 g)
  | g :: gs => do return (← readGroup g) ++ (← readTail gs)

/-- The pieces of one side of `::`, none when nothing is written there. -/
def pieces (t : Text) : List Text := if t = [] then [] else t.splitOn ':'

/-- Eight groups, or fewer around one `::` that stands for the missing zeros. -/
def parseIpv6 (t : Text) : Option Address :=
  match splitSub [':',':'] t with
  | none => (readTail (t.splitOn ':')).filter fun bytes => bytes.length = 16
  | some (front,rest) => do
    let high ← readGroups (pieces front)
    let low ← readTail (pieces (rest.drop 2))
    if high.length + low.length ≤ 14 then
      some (high ++ List.replicate (16 - (high.length + low.length)) 0 ++ low)
    else none

def isIPv4 (t : Text) : Bool := (parseIpv4 t).isSome
def isIPv6 (t : Text) : Bool := (parseIpv6 t).isSome

/-- The address a text denotes. -/
def parseIp (t : Text) : Option Address := (parseIpv4 t).or (parseIpv6 t)

/-! ### IPv4 texts are unique -/

theorem readOctet_eq_some : readOctet t = some b ↔ t = decimal b.toNat := by
  have bound := b.toNat_lt
  unfold readOctet
  constructor
  · intro h
    split_ifs at h with numeral
    obtain ⟨small,same⟩ := numeral
    rw [← Option.some.inj h,UInt8.toNat_ofNat',Nat.mod_eq_of_lt (by omega),same]
  · rintro rfl
    rw [natOf_decimal,if_pos ⟨by omega,rfl⟩,UInt8.ofNat_toNat]

/-- Only the spelling of `formatIpv4` denotes an IPv4 address. -/
theorem parseIpv4_eq_some : parseIpv4 t = some bytes ↔ bytes.length = 4 ∧ t = formatIpv4 bytes 0 := by
  simp only [parseIpv4,bind,Option.bind_eq_some_iff,Prod.exists,splitFirst_eq_some,readOctet_eq_some,pure,
    Option.some.injEq]
  constructor
  · rintro ⟨_,_,⟨rfl,-⟩,_,_,⟨rfl,-⟩,_,_,⟨rfl,-⟩,w,rfl,x,rfl,y,rfl,z,rfl,rfl⟩
    exact ⟨rfl,by simp [formatIpv4,byteAt]⟩
  · rintro ⟨sized,rfl⟩
    obtain ⟨w,x,y,z,rfl⟩ := List.length_eq_four.mp sized
    have noDot (n : Nat) : '.' ∉ decimal n := decimal_noChar n '.' rfl
    exact ⟨decimal w.toNat,decimal x.toNat ++ '.' :: decimal y.toNat ++ '.' :: decimal z.toNat,
      ⟨by simp [formatIpv4,byteAt],noDot _⟩,decimal x.toNat,decimal y.toNat ++ '.' :: decimal z.toNat,
      ⟨by simp,noDot _⟩,decimal y.toNat,decimal z.toNat,⟨rfl,noDot _⟩,
      w,rfl,x,rfl,y,rfl,z,rfl,rfl⟩

theorem formatIpv4_noColon (bytes : Packet) (off : Nat) : ':' ∉ formatIpv4 bytes off := by
  simp [formatIpv4,decimal_noChar _ ':' rfl]

/-! ### IPv6 texts have a colon -/

theorem readGroup_length (h : readGroup t = some bytes) : bytes.length = 2 := by
  unfold readGroup at h
  split_ifs at h
  rw [← Option.some.inj h]
  rfl

theorem parseIpv6_eq_some (h : parseIpv6 t = some bytes) : bytes.length = 16 ∧ ':' ∈ t := by
  unfold parseIpv6 at h
  split at h
  · rename_i absent
    obtain ⟨read,sized⟩ := Option.filter_eq_some_iff.mp h
    refine ⟨of_decide_eq_true sized,?_⟩
    by_contra noColon
    rw [List.splitOn_eq_singleton noColon,readTail,Option.or_eq_some_iff] at read
    have sized : bytes.length = 16 := of_decide_eq_true sized
    rcases read with group | ⟨-,dotted⟩
    · rw [readGroup_length group] at sized
      contradiction
    · rw [(parseIpv4_eq_some.mp dotted).1] at sized
      contradiction
  · rename_i front rest found
    obtain ⟨rfl,⟨more,rfl⟩⟩ := splitSub_found found
    simp only [bind,Option.bind_eq_some_iff] at h
    obtain ⟨high,-,low,-,h⟩ := h
    split_ifs at h with fits
    refine ⟨?_,by simp⟩
    rw [← Option.some.inj h,List.length_append,List.length_append,List.length_replicate]
    omega

/-- An accepted text denotes an address, of the length of its family. -/
theorem parseIp_eq_some : parseIp t = some bytes ↔
    (bytes.length = 4 ∧ parseIpv4 t = some bytes) ∨ (bytes.length = 16 ∧ parseIpv6 t = some bytes) := by
  rw [parseIp,Option.or_eq_some_iff]
  constructor
  · rintro (four | ⟨-,six⟩)
    · exact .inl ⟨(parseIpv4_eq_some.mp four).1,four⟩
    · exact .inr ⟨(parseIpv6_eq_some six).1,six⟩
  · rintro (⟨-,four⟩ | ⟨-,six⟩)
    · exact .inl four
    · refine .inr ⟨?_,six⟩
      rw [Option.eq_none_iff_forall_ne_some]
      intro other four
      have colon := (parseIpv6_eq_some six).2
      rw [(parseIpv4_eq_some.mp four).2] at colon
      exact formatIpv4_noColon other 0 colon

theorem parseIp_ne_nil (h : (parseIp t).isSome = true) : t ≠ [] := by
  obtain ⟨bytes,read⟩ := Option.isSome_iff_exists.mp h
  rcases parseIp_eq_some.mp read with ⟨-,four⟩ | ⟨-,six⟩
  · rw [(parseIpv4_eq_some.mp four).2]
    exact formatIpv4_ne_nil bytes 0
  · exact List.ne_nil_of_mem (parseIpv6_eq_some six).2

theorem isSome_parseIp : (parseIp t).isSome = (isIPv4 t || isIPv6 t) := by
  rw [parseIp,Option.isSome_or]
  rfl

/-! ### The characters of an address -/

theorem mem_splitOn {a c : Char} (t : Text) (member : c ∈ t) : c = a ∨ ∃ piece ∈ t.splitOn a, c ∈ piece := by
  have joined {pieces : List Text} (inside : c ∈ [a].intercalate pieces) : c = a ∨ ∃ piece ∈ pieces, c ∈ piece := by
    induction pieces with
    | nil => contradiction
    | cons piece pieces ih =>
      cases pieces with
      | nil => exact .inr ⟨piece,List.mem_cons_self,by simpa using inside⟩
      | cons next pieces =>
        rw [List.intercalate_cons_cons,List.mem_append,List.mem_append] at inside
        rcases inside with (here | mark) | later
        · exact .inr ⟨piece,List.mem_cons_self,here⟩
        · exact .inl (List.mem_singleton.mp mark)
        · exact (ih later).imp_right fun ⟨p,among,there⟩ => ⟨p,List.mem_cons_of_mem _ among,there⟩
  have whole : [a].intercalate (t.splitOn a) = t := List.intercalate_splitOn a
  rw [← whole] at member
  exact joined member

/-- A character of an address. -/
def AddressChar (c : Char) : Prop := isXDigit c = true ∨ c = '.' ∨ c = ':'

theorem isIPv4_chars (h : isIPv4 t = true) : ∀ c ∈ t, AddressChar c := by
  obtain ⟨bytes,read⟩ := Option.isSome_iff_exists.mp h
  rw [(parseIpv4_eq_some.mp read).2]
  have digit (n : Nat) (c : Char) (member : c ∈ decimal n) : AddressChar c :=
    .inl (digit_char (decimal_isDigit n c member)).2.2.2.2.2.2
  intro c member
  simp only [formatIpv4,List.mem_append,List.mem_cons] at member
  rcases member with ((here | rfl | here) | rfl | here) | rfl | here
  · exact digit _ c here
  · exact .inr (.inl rfl)
  · exact digit _ c here
  · exact .inr (.inl rfl)
  · exact digit _ c here
  · exact .inr (.inl rfl)
  · exact digit _ c here

theorem readGroup_chars (h : (readGroup t).isSome = true) : ∀ c ∈ t, AddressChar c := by
  unfold readGroup at h
  split_ifs at h with fits
  · exact fun c member => .inl (List.all_eq_true.mp fits.2 c member)
  · contradiction

theorem readGroups_chars {parts : List Text} (h : readGroups parts = some bytes) : ∀ piece ∈ parts, ∀ c ∈ piece, AddressChar c := by
  induction parts generalizing bytes with
  | nil => nofun
  | cons g gs ih =>
    simp only [readGroups,bind,Option.bind_eq_some_iff] at h
    obtain ⟨first,here,rest,later,-⟩ := h
    exact List.forall_mem_cons.mpr ⟨readGroup_chars (by rw [here]; rfl),ih later⟩

theorem readTail_chars {parts : List Text} (h : readTail parts = some bytes) : ∀ piece ∈ parts, ∀ c ∈ piece, AddressChar c := by
  induction parts using readTail.induct generalizing bytes with
  | case1 => nofun
  | case2 g =>
    rw [readTail,Option.or_eq_some_iff] at h
    refine List.forall_mem_singleton.mpr ?_
    rcases h with group | ⟨-,dotted⟩
    · exact readGroup_chars (by rw [group]; rfl)
    · exact isIPv4_chars (by rw [isIPv4,dotted]; rfl)
  | case3 g gs more ih =>
    rw [readTail] at h
    · simp only [bind,Option.bind_eq_some_iff] at h
      obtain ⟨first,here,rest,later,-⟩ := h
      exact List.forall_mem_cons.mpr ⟨readGroup_chars (by rw [here]; rfl),ih later⟩
    · exact more

theorem isIPv6_chars (h : isIPv6 t = true) : ∀ c ∈ t, AddressChar c := by
  have colons {t : Text} (pieces : ∀ piece ∈ t.splitOn ':', ∀ c ∈ piece, AddressChar c) : ∀ c ∈ t, AddressChar c := by
    intro c member
    rcases mem_splitOn t member with colon | ⟨piece,among,here⟩
    · exact .inr (.inr colon)
    · exact pieces piece among c here
  have side {t : Text} (chars : ∀ piece ∈ pieces t, ∀ c ∈ piece, AddressChar c) : ∀ c ∈ t, AddressChar c := by
    unfold pieces at chars
    split_ifs at chars with empty
    · rw [empty]
      nofun
    · exact colons chars
  obtain ⟨bytes,read⟩ := Option.isSome_iff_exists.mp h
  unfold parseIpv6 at read
  split at read
  · exact colons (readTail_chars (Option.filter_eq_some_iff.mp read).1)
  · rename_i front rest found
    obtain ⟨rfl,⟨more,rfl⟩⟩ := splitSub_found found
    simp only [bind,Option.bind_eq_some_iff] at read
    obtain ⟨high,first,low,second,-⟩ := read
    have before := side (readGroups_chars first)
    have behind := side (readTail_chars second)
    intro c member
    simp only [List.mem_append,List.mem_cons,List.not_mem_nil,or_false] at member
    rcases member with here | (rfl | rfl) | there
    · exact before c here
    · exact .inr (.inr rfl)
    · exact .inr (.inr rfl)
    · exact behind c there

end Nospoon
