import Nospoon.Ipv6Text
import Nospoon.Js.Wire

/-! The two IPv6 formatters side by side. They find the same run of zeros; where it touches
an end of the address, `formatIpv6` joins around it with a third colon. -/
namespace Nospoon.Js

open Library

/-! ### The property -/

/-- Both formatters print one text, and it denotes the address. -/
def FormattersAgree (packet : Packet) (offset : Nat) : Prop :=
  formatIpv6 packet offset = Nospoon.formatIpv6 packet offset ∧
    parseIpv6 (formatIpv6 packet offset) = some (addressAt packet offset 16)

/-- A run that is written as `::` has a group on either side. -/
def GapInside (groups : List Nat) : Prop :=
  ∀ start len, 2 ≤ len → FirstLongest 0 groups start len → 0 < start ∧ start + len < 8

/-! ### The joined text -/

theorem formatIpv6_whole (none : ∀ start len, Run 0 (ipv6Groups packet offset) start len → len < 2) :
    formatIpv6 packet offset = colons ((ipv6Groups packet offset).map (Nat.toDigits 16)) := by
  have tracks := zeroRuns_groups (ipv6Groups packet offset)
  have short : ¬1 < (zeroRuns 0 (ipv6Groups packet offset) {}).bestLen := by
    intro two
    obtain ⟨start,-,first⟩ := tracks.best (by omega)
    have two' := none _ _ first.run
    omega
  rw [formatIpv6]
  exact if_neg short

theorem formatIpv6_gap (two : 2 ≤ len) (longest : FirstLongest 0 (ipv6Groups packet offset) start len) :
    formatIpv6 packet offset = colons (((ipv6Groups packet offset).take start).map (Nat.toDigits 16)) ++ [':',':'] ++
      (if start = 0 ∨ start + len = 8 then [':'] else []) ++
      colons (((ipv6Groups packet offset).drop (start + len)).map (Nat.toDigits 16)) := by
  have tracks := zeroRuns_groups (ipv6Groups packet offset)
  have long := tracks.longest _ _ longest.run
  obtain ⟨start',here,first⟩ := tracks.best (by omega)
  obtain ⟨rfl,same⟩ := first.unique longest
  have long : 1 < (zeroRuns 0 (ipv6Groups packet offset) {}).bestLen := by omega
  rw [formatIpv6]
  dsimp only
  rw [if_pos long,here,same,Option.getD_some,← List.map_take,← List.map_drop]
  rfl

theorem formattersAgree_iff (packet : Packet) (offset : Nat) (inside : offset + 16 ≤ packet.length) :
    FormattersAgree packet offset ↔ GapInside (groupsOf (addressAt packet offset 16)) := by
  have back := parseIpv6_formatIpv6 packet offset
  rw [← addressAt_eq inside] at back
  have eight : (ipv6Groups packet offset).length = 8 := by simp [ipv6Groups]
  have agree : FormattersAgree packet offset ↔ formatIpv6 packet offset = Nospoon.formatIpv6 packet offset :=
    and_iff_left_of_imp fun same => by rw [same,back]
  rw [agree,← ipv6Groups_eq inside]
  rcases groups_cases (ipv6Groups packet offset) with none | ⟨start,len,two,longest⟩
  · rw [formatIpv6_whole none,Nospoon.formatIpv6_whole none]
    refine iff_of_true rfl fun start len two longest => ?_
    have short := none _ _ longest.run
    omega
  · have within := longest.run.inside
    rw [formatIpv6_gap two longest,Nospoon.formatIpv6_gap two longest]
    have only : GapInside (ipv6Groups packet offset) ↔ 0 < start ∧ start + len < 8 := by
      constructor
      · exact fun all => all start len two longest
      · intro within start' len' _ longest'
        obtain ⟨rfl,rfl⟩ := longest.unique longest'
        exact within
    rw [only]
    by_cases edge : start = 0 ∨ start + len = 8
    · rw [if_pos edge]
      refine iff_of_false (fun same => ?_) (by omega)
      have lengths := congrArg List.length same
      simp only [List.length_append,List.length_cons,List.length_nil] at lengths
      omega
    · rw [if_neg edge]
      exact iff_of_true (by simp) (by omega)

/-- The address of the tests, a run in its middle. -/
theorem formattersAgree_middle : FormattersAgree ([0xfd,0] ++ List.replicate 13 0 ++ [1]) 0 := by
  apply (formattersAgree_iff ([0xfd,0] ++ List.replicate 13 0 ++ [1]) 0 (by decide)).mpr
  intro start len two longest
  have within := longest.run.inside
  rw [show (groupsOf (addressAt ([0xfd,0] ++ List.replicate 13 0 ++ [1]) 0 16)).length = 8 by decide] at within
  constructor
  · rcases Nat.eq_zero_or_pos start with rfl | positive
    · exact absurd (longest.run.holds 0 (by omega) (by omega)) (by decide)
    · exact positive
  · rcases Nat.lt_or_ge (start + len) 8 with before | reaches
    · exact before
    · exact absurd (longest.run.holds 7 (by omega) (by omega)) (by decide)

/-- The loopback address gets three colons, and the text denotes nothing. -/
theorem formatters_loopback : ¬FormattersAgree (List.replicate 15 0 ++ [1]) 0 := by
  intro claim
  exact absurd claim.1 (by decide)

end Nospoon.Js
