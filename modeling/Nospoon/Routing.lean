import Mathlib.Data.List.AList
import Nospoon.Framing

/-! The routing table and the packet header parsers of `routing.hpp`. A byte string
is a list of characters: the program only ever compares its strings and joins them. -/
namespace Nospoon

/-- `std::string`, one character for a byte. -/
abbrev Text := List Char

/-- A `SecretStreamDuplex*`. Only its identity matters: it is stored and compared. -/
abbrev Duplex := Nat

/-- `std::unordered_map<std::string, void*>`. -/
abbrev RoutingTable := AList (fun _ : Text => Duplex)

namespace RoutingTable

def add (routes : RoutingTable) (ip : Text) (stream : Duplex) : RoutingTable :=
  AList.insert ip stream routes

def remove (routes : RoutingTable) (ip : Text) : RoutingTable := AList.erase ip routes

/-- A null pointer is `none`. -/
def lookup (routes : RoutingTable) (ip : Text) : Option Duplex := AList.lookup ip routes

@[simp] theorem lookup_empty (ip : Text) : lookup ∅ ip = none := rfl

@[simp] theorem lookup_add_self (routes : RoutingTable) (ip : Text) (stream : Duplex) :
    (routes.add ip stream).lookup ip = some stream := AList.lookup_insert routes

@[simp] theorem lookup_add_ne (routes : RoutingTable) (stream : Duplex) (h : other ≠ ip) :
    (routes.add ip stream).lookup other = routes.lookup other := AList.lookup_insert_ne h

theorem lookup_add (routes : RoutingTable) (ip other : Text) (stream : Duplex) :
    (routes.add ip stream).lookup other = if other = ip then some stream else routes.lookup other := by
  by_cases h : other = ip
  · subst h; simp
  · simp [h]

@[simp] theorem lookup_remove_self (routes : RoutingTable) (ip : Text) :
    (routes.remove ip).lookup ip = none := AList.lookup_erase ip routes

@[simp] theorem lookup_remove_ne (routes : RoutingTable) (h : other ≠ ip) :
    (routes.remove ip).lookup other = routes.lookup other := AList.lookup_erase_ne h

theorem lookup_remove (routes : RoutingTable) (ip other : Text) :
    (routes.remove ip).lookup other = if other = ip then none else routes.lookup other := by
  by_cases h : other = ip
  · subst h; simp
  · simp [h]

end RoutingTable

/-- `pkt[off]`; the header parsers check the length before they read. -/
def byteAt (pkt : Packet) (off : Nat) : Nat := (pkt.getD off 0).toNat

/-- `%u`. -/
def decimal (n : Nat) : Text := Nat.toDigits 10 n

def formatIpv4 (pkt : Packet) (off : Nat) : Text :=
  decimal (byteAt pkt off) ++ '.' :: decimal (byteAt pkt (off + 1)) ++
    '.' :: decimal (byteAt pkt (off + 2)) ++ '.' :: decimal (byteAt pkt (off + 3))

/-- The two runs of zero groups the first loop of `format_ipv6` tracks; a start of
-1 is `none`. -/
structure ZeroRuns where
  bestStart : Option Nat := none
  bestLen : Nat := 0
  curStart : Option Nat := none
  curLen : Nat := 0
  deriving DecidableEq, Repr

def ZeroRuns.step (z : ZeroRuns) (i group : Nat) : ZeroRuns :=
  if group = 0 then
    let curStart := z.curStart.getD i
    let curLen := z.curLen + 1
    if z.bestLen < curLen then ⟨some curStart,curLen,some curStart,curLen⟩
    else ⟨z.bestStart,z.bestLen,some curStart,curLen⟩
  else ⟨z.bestStart,z.bestLen,none,0⟩

def zeroRuns : Nat → List Nat → ZeroRuns → ZeroRuns
  | _, [], z => z
  | i, group :: groups, z => zeroRuns (i + 1) groups (z.step i group)

/-- The second loop of `format_ipv6` at index `i`; `skip` counts the groups that
`i += best_len - 1` jumps over. -/
def writeGroups (bestStart : Option Nat) (bestLen : Nat) : Nat → Nat → List Nat → Text → Text
  | _, _, [], out => out
  | i, skip + 1, _ :: groups, out => writeGroups bestStart bestLen (i + 1) skip groups out
  | i, 0, group :: groups, out =>
    if bestStart = some i then
      writeGroups bestStart bestLen (i + 1) (bestLen - 1) groups (out ++ [':',':'])
    else
      let out := if out ≠ [] ∧ out.getLast? ≠ some ':' then out ++ [':'] else out
      writeGroups bestStart bestLen (i + 1) 0 groups (out ++ Nat.toDigits 16 group)

def ipv6Groups (pkt : Packet) (off : Nat) : List Nat :=
  (List.range 8).map fun i => byteAt pkt (off + i * 2) <<< 8 ||| byteAt pkt (off + i * 2 + 1)

def formatIpv6 (pkt : Packet) (off : Nat) : Text :=
  let groups := ipv6Groups pkt off
  let z := zeroRuns 0 groups {}
  let out := if z.bestLen < 2 then writeGroups none 0 0 0 groups []
    else writeGroups z.bestStart z.bestLen 0 0 groups []
  if out = [] then [':',':'] else out

/-- The version nibble decides the length a header must have and the offset of the
address; the text is empty when there is no readable header. -/
def readIp (v4 v6 : Nat) : Packet → Text
  | [] => []
  | first :: rest =>
    let pkt := first :: rest
    let version := (first >>> 4) &&& 0x0f
    if version = 4 then
      if pkt.length < 20 then [] else formatIpv4 pkt v4
    else if version = 6 then
      if pkt.length < 40 then [] else formatIpv6 pkt v6
    else []

def readDestIp : Packet → Text := readIp 16 24
def readSrcIp : Packet → Text := readIp 12 8

/-- An IPv4 header without options around the two addresses. -/
def ipv4Packet (src dst : List UInt8) : Packet := 0x45 :: List.replicate 11 0 ++ src ++ dst

/-! ### The bytes an address is printed from -/

theorem byteAt_slice (pkt : Packet) (a : Nat) (inside : i < n) :
    byteAt ((pkt.drop a).take n) i = byteAt pkt (a + i) := by
  simp [byteAt,List.getD_eq_getElem?_getD,inside]

theorem formatIpv4_slice (pkt : Packet) (a : Nat) :
    formatIpv4 ((pkt.drop a).take 4) 0 = formatIpv4 pkt a := by
  simp [formatIpv4,byteAt_slice]

theorem ipv6Groups_slice (pkt : Packet) (a : Nat) : ipv6Groups ((pkt.drop a).take 16) 0 = ipv6Groups pkt a := by
  apply List.map_congr_left
  intro i member
  have small : i < 8 := List.mem_range.mp member
  rw [Nat.zero_add,byteAt_slice _ _ (by omega),byteAt_slice _ _ (by omega)]
  rfl

theorem formatIpv4_ne_nil (pkt : Packet) (off : Nat) : formatIpv4 pkt off ≠ [] := by
  simp [formatIpv4]

theorem formatIpv6_ne_nil (pkt : Packet) (off : Nat) : formatIpv6 pkt off ≠ [] := by
  simp only [formatIpv6]
  split_ifs <;> simp_all

/-- Whether there is an address to read depends on the header, not on which address. -/
theorem readIp_readable (pkt : Packet) (v4 v6 w4 w6 : Nat) (h : readIp v4 v6 pkt ≠ []) :
    readIp w4 w6 pkt ≠ [] := by
  cases pkt with
  | nil => exact absurd rfl h
  | cons first rest =>
    simp only [readIp] at h ⊢
    split_ifs at h ⊢
    · exact absurd rfl h
    · exact formatIpv4_ne_nil _ _
    · exact absurd rfl h
    · exact formatIpv6_ne_nil _ _
    · exact absurd rfl h

theorem readDestIp_readable (pkt : Packet) (h : readSrcIp pkt ≠ []) : readDestIp pkt ≠ [] :=
  readIp_readable pkt _ _ _ _ h

end Nospoon
