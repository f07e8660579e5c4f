import Nospoon.Js.Peers
import Nospoon.Js.Wire

/-! The two header parsers side by side. They print an IPv4 address alike and an IPv6
address each in its own way, but never one that looks like an IPv4 address. -/
namespace Nospoon.Js

open Library

theorem encode_eq (packet : Packet) : encode packet = frameEncode packet := by
  have byte (n : Nat) : UInt8.ofNat (n &&& 0xFF) = UInt8.ofNat n := by
    apply UInt8.toNat_inj.mp
    rw [headerByte_toNat,UInt8.toNat_ofNat']
  simp only [encode,frameEncode,writeUInt32BE,frameHeader,byte,Nat.shiftRight_eq_div_pow]

/-! ### No dots in IPv6 texts -/

theorem hexDigits_noDot (n : Nat) : '.' ∉ Nat.toDigits 16 n := by
  induction n using Nat.strong_induction_on with
  | _ n ih =>
    have digit (small : n % 16 < 16) : '.' ∉ [Nat.digitChar (n % 16)] := by
      generalize n % 16 = d at small
      interval_cases d <;> decide
    have last := digit (Nat.mod_lt _ (by decide))
    by_cases small : n < 16
    · rw [Nat.toDigits_of_lt_base small,← Nat.mod_eq_of_lt small]
      exact last
    · rw [Nat.toDigits_of_base_le (by decide) (by omega),List.mem_append,not_or]
      exact ⟨ih (n / 16) (by omega),last⟩

theorem writeGroups_noDot (bestStart : Option Nat) (bestLen i skip : Nat) (groups : List Nat) (out : Text)
    (clean : '.' ∉ out) : '.' ∉ writeGroups bestStart bestLen i skip groups out := by
  induction groups generalizing i skip out with
  | nil => exact clean
  | cons group groups ih =>
    cases skip with
    | succ skip => exact ih _ _ _ clean
    | zero =>
      simp only [writeGroups]
      split_ifs
      · exact ih _ _ _ (by simp [clean])
      · exact ih _ _ _ (by simp [clean,hexDigits_noDot])
      · exact ih _ _ _ (by simp [clean,hexDigits_noDot])

theorem cpp_formatIpv6_noDot (pkt : Packet) (off : Nat) : '.' ∉ Nospoon.formatIpv6 pkt off := by
  have written (bestStart : Option Nat) (bestLen : Nat) (groups : List Nat) :
      '.' ∉ writeGroups bestStart bestLen 0 0 groups [] := writeGroups_noDot _ _ _ _ _ _ List.not_mem_nil
  simp only [Nospoon.formatIpv6]
  split_ifs
  · decide
  · exact written _ _ _
  · decide
  · exact written _ _ _

theorem join_noDot (groups : List Text) (clean : ∀ g ∈ groups, '.' ∉ g) : '.' ∉ join groups := by
  induction groups with
  | nil => exact List.not_mem_nil
  | cons g groups ih =>
    rw [List.forall_mem_cons] at clean
    by_cases last : groups = []
    · subst last
      simpa [join] using clean.1
    · have later : '.' ∉ [':'].intercalate groups := ih clean.2
      rw [join,List.intercalate_cons_of_ne_nil last]
      simp [clean.1,later]

theorem formatIpv6_noDot (packet : Packet) (offset : Nat) : '.' ∉ formatIpv6 packet offset := by
  have clean : ∀ g ∈ (ipv6Groups packet offset).map (Nat.toDigits 16), '.' ∉ g := by
    intro g member
    obtain ⟨n,-,rfl⟩ := List.mem_map.mp member
    exact hexDigits_noDot n
  have before (n : Nat) := join_noDot _ fun g member => clean g (List.mem_of_mem_take (i := n) member)
  have after (n : Nat) := join_noDot _ fun g member => clean g (List.mem_of_mem_drop (i := n) member)
  simp only [formatIpv6]
  split_ifs
  · simp [before,after]
  · simp [before,after]
  · exact join_noDot _ clean

theorem formatIpv4_dot (packet : Packet) (offset : Nat) : '.' ∈ formatIpv4 packet offset := by
  simp [formatIpv4]

theorem isIPv4_dot (h : isIPv4 t = true) : '.' ∈ t := by
  obtain ⟨bytes,read⟩ := Option.isSome_iff_exists.mp h
  rw [(parseIpv4_eq_some.mp read).2]
  exact formatIpv4_dot bytes 0

/-! ### One reading -/

/-- Both parsers read the same IPv4 address, or both some IPv6 address, or neither any. -/
theorem readIp_cases (v4 v6 : Nat) (packet : Packet) :
    (∃ ip, Nospoon.readIp v4 v6 packet = ip ∧ readIp v4 v6 packet = some ip ∧ ip ≠ []) ∨
    (∃ ip ip', Nospoon.readIp v4 v6 packet = ip ∧ readIp v4 v6 packet = some ip' ∧ '.' ∉ ip ∧ '.' ∉ ip') ∨
    (Nospoon.readIp v4 v6 packet = [] ∧ readIp v4 v6 packet = none) := by
  cases packet with
  | nil => exact .inr (.inr ⟨rfl,rfl⟩)
  | cons first rest =>
    simp only [Nospoon.readIp,readIp]
    by_cases four : first >>> 4 &&& 0x0f = 4
    · by_cases short : (first :: rest).length < 20
      · refine .inr (.inr ⟨by rw [if_pos four,if_pos short],?_⟩)
        rw [if_neg fun h => absurd h.2 (Nat.not_le.mpr short),if_neg fun h => ?_]
        rw [four] at h
        exact absurd h.1 (by decide)
      · refine .inl ⟨_,by rw [if_pos four,if_neg short],?_,formatIpv4_ne_nil _ _⟩
        rw [if_pos ⟨four,Nat.not_lt.mp short⟩]
    · by_cases six : first >>> 4 &&& 0x0f = 6
      · by_cases short : (first :: rest).length < 40
        · refine .inr (.inr ⟨by rw [if_neg four,if_pos six,if_pos short],?_⟩)
          rw [if_neg fun h => four h.1,if_neg fun h => absurd h.2 (Nat.not_le.mpr short)]
        · refine .inr (.inl ⟨_,_,by rw [if_neg four,if_pos six,if_neg short],?_,
            cpp_formatIpv6_noDot _ _,formatIpv6_noDot (first :: rest) v6⟩)
          rw [if_neg fun h => four h.1,if_pos ⟨six,Nat.not_lt.mp short⟩]
      · refine .inr (.inr ⟨by rw [if_neg four,if_neg six],?_⟩)
        rw [if_neg fun h => four h.1,if_neg fun h => six h.1]

/-- Whether a packet comes from an IPv4 address, both servers decide alike. -/
theorem readSource_iff (dotted : '.' ∈ ip) (packet : Packet) :
    readSrcIp packet = ip ↔ readSourceIp packet = some ip := by
  rcases readIp_cases 12 8 packet with ⟨t,cpp,js,-⟩ | ⟨t,t',cpp,js,noDot,noDot'⟩ | ⟨cpp,js⟩
  · rw [readSrcIp,readSourceIp,cpp,js,Option.some.injEq]
  · rw [readSrcIp,readSourceIp,cpp,js,Option.some.injEq]
    exact iff_of_false (fun same => noDot (same ▸ dotted)) fun same => noDot' (same ▸ dotted)
  · rw [readSrcIp,readSourceIp,cpp,js]
    exact iff_of_false (fun same => by rw [← same] at dotted; contradiction) nofun

end Nospoon.Js
