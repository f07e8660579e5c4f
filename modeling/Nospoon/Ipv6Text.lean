import Nospoon.Address
import Nospoon.Library.Runs

/-! The text `format_ipv6` prints: canonical, and undone by reading it. Packets whose
addresses print alike are packets between the same addresses. -/
namespace Nospoon

open Library

/-! ### Canonical text -/

/-- `n` in lower-case hexadecimal without leading zeros. -/
structure Numeral (n : Nat) (t : Text) : Prop where
  nonempty : t ≠ []
  digits : ∀ c ∈ t, c ∈ "0123456789abcdef".toList
  noZeros : t.head? = some '0' → t = ['0']
  value : t.foldl (fun acc c => 16 * acc + hexValue c) 0 = n

def colons (texts : List Text) : Text := [':'].intercalate texts

/-- Eight numerals between colons; `::` stands for the first longest run of at least two
zeros, if there is one. -/
def Canonical (groups : List Nat) (t : Text) : Prop :=
  ∃ texts, List.Forall₂ Numeral groups texts ∧
    ((∃ start len, 2 ≤ len ∧ FirstLongest 0 groups start len ∧
      t = colons (texts.take start) ++ ':' :: ':' :: colons (texts.drop (start + len))) ∨
    ((∀ start len, Run 0 groups start len → len < 2) ∧ t = colons texts))

/-- The groups of an address, its bytes in pairs. -/
def groupsOf : Address → List Nat
  | a :: b :: rest => (256 * a.toNat + b.toNat) :: groupsOf rest
  | _ => []

/-- `::` occurs once at most. -/
def OneGap (t : Text) : Prop :=
  ∀ p q p' q', t = p ++ ':' :: ':' :: q → t = p' ++ ':' :: ':' :: q' → p = p'

/-- The bytes of an address of a packet. -/
def addressAt (pkt : Packet) (off len : Nat) : Address := (pkt.drop off).take len

def version : Packet → UInt8
  | [] => 0
  | first :: _ => (first >>> 4) &&& 0x0f

/-- The header is there to its end. -/
def Readable (pkt : Packet) : Prop := (version pkt = 4 ∧ 20 ≤ pkt.length) ∨ (version pkt = 6 ∧ 40 ≤ pkt.length)

instance (pkt : Packet) : Decidable (Readable pkt) := inferInstanceAs (Decidable (_ ∨ _))

def ipBytes (v4 v6 : Nat) (pkt : Packet) : Address :=
  if version pkt = 4 then addressAt pkt v4 4 else addressAt pkt v6 16

def destBytes : Packet → Address := ipBytes 16 24
def srcBytes : Packet → Address := ipBytes 12 8

/-! ### Numerals -/

theorem digitChar_lower (small : n < 16) : Nat.digitChar n ∈ "0123456789abcdef".toList ∧ (Nat.digitChar n = '0' → n = 0) := by
  interval_cases n <;> exact ⟨by decide,by decide⟩

theorem numeral_toDigits (n : Nat) : Numeral n (Nat.toDigits 16 n) := by
  induction n using Nat.strongRecOn with
  | ind n ih =>
    by_cases small : n < 16
    · rw [Nat.toDigits_of_lt_base small]
      refine ⟨by simp,?_,?_,?_⟩
      · simpa using (digitChar_lower small).1
      · intro zero
        rw [Option.some.inj zero]
      · exact (Nat.zero_add _).trans (digitChar_hex n small).2
    · have before := ih (n / 16) (by omega)
      have low : n % 16 < 16 := Nat.mod_lt _ (by omega)
      rw [Nat.toDigits_of_base_le (by omega) (by omega)]
      refine ⟨by simp,?_,?_,?_⟩
      · intro c member
        rcases List.mem_append.mp member with high | last
        · exact before.digits c high
        · rw [List.mem_singleton.mp last]
          exact (digitChar_lower low).1
      · intro zero
        rw [List.head?_append_of_ne_nil _ before.nonempty] at zero
        have alone := before.noZeros zero
        have value := before.value
        rw [alone] at value
        have none : n / 16 = 0 := value.symm
        omega
      · rw [List.foldl_append,before.value]
        show 16 * (n / 16) + hexValue (Nat.digitChar (n % 16)) = n
        rw [(digitChar_hex _ low).2]
        omega

theorem numeral_noColon (h : Numeral n t) : ':' ∉ t := fun colon => absurd (h.digits _ colon) (by decide)

/-! ### Between colons -/

theorem colons_cons (t : Text) (texts : List Text) :
    colons (t :: texts) = t ++ texts.flatMap fun t => ':' :: t := by
  induction texts generalizing t with
  | nil => simp [colons]
  | cons next texts ih =>
    have step : colons (t :: next :: texts) = t ++ [':'] ++ colons (next :: texts) := by
      simp [colons,List.intercalate_cons_cons]
    rw [step,ih,List.flatMap_cons]
    simp

/-- A text of the kind that stands between colons. -/
def Piece (t : Text) : Prop := t ≠ [] ∧ ':' ∉ t

theorem Numeral.piece (h : Numeral n t) : Piece t := ⟨h.nonempty,numeral_noColon h⟩

theorem colons_head {texts : List Text} (pieces : ∀ t ∈ texts, Piece t) (rest : Text) : colons texts ≠ ':' :: rest := by
  cases texts with
  | nil => simp [colons]
  | cons t texts =>
    obtain ⟨nonempty,noColon⟩ := pieces t List.mem_cons_self
    rw [colons_cons]
    cases t with
    | nil => contradiction
    | cons c t =>
      intro same
      exact noColon ((List.cons.inj same).1 ▸ List.mem_cons_self)

/-- Behind the first piece there is a colon and the rest, or nothing. -/
theorem colons_cons_cons (t next : Text) (texts : List Text) :
    colons (t :: next :: texts) = t ++ ':' :: colons (next :: texts) := by
  rw [colons_cons,colons_cons,List.flatMap_cons]
  rfl

theorem colons_last {texts : List Text} (pieces : ∀ t ∈ texts, Piece t) (front : Text) : colons texts ≠ front ++ [':'] := by
  induction texts generalizing front with
  | nil => simp [colons]
  | cons t texts ih =>
    obtain ⟨⟨nonempty,noColon⟩,later⟩ := List.forall_mem_cons.mp pieces
    cases texts with
    | nil =>
      intro same
      rw [colons_cons,List.flatMap_nil,List.append_nil] at same
      exact noColon (same ▸ by simp)
    | cons next texts =>
      have more : colons (next :: texts) ≠ [] := by
        rw [colons_cons]
        simp [(later next List.mem_cons_self).1]
      intro same
      rw [colons_cons_cons] at same
      rcases List.append_eq_append_iff.mp same with ⟨x,-,tail⟩ | ⟨x,-,tail⟩
      · cases x with
        | nil => exact more (List.cons.inj tail).2
        | cons c x => exact ih later x (List.cons.inj tail).2
      · cases x with
        | nil => exact more (List.cons.inj tail).2.symm
        | cons c x => simp at tail

theorem colons_noGap {texts : List Text} (pieces : ∀ t ∈ texts, Piece t) (p q : Text) :
    colons texts ≠ p ++ ':' :: ':' :: q := by
  induction texts generalizing p with
  | nil => simp [colons]
  | cons t texts ih =>
    obtain ⟨⟨-,noColon⟩,later⟩ := List.forall_mem_cons.mp pieces
    cases texts with
    | nil =>
      intro same
      rw [colons_cons,List.flatMap_nil,List.append_nil] at same
      exact noColon (same ▸ by simp)
    | cons next texts =>
      intro same
      rw [colons_cons_cons] at same
      rcases List.append_eq_append_iff.mp same with ⟨x,rfl,tail⟩ | ⟨x,rfl,tail⟩
      · cases x with
        | nil => exact colons_head later _ (List.cons.inj tail).2
        | cons c x => exact ih later x (List.cons.inj tail).2
      · cases x with
        | nil => exact colons_head later _ (List.cons.inj tail).2.symm
        | cons c x =>
          obtain ⟨rfl,-⟩ := List.cons.inj tail
          exact noColon (by simp)

theorem colons_oneGap {texts : List Text} (pieces : ∀ t ∈ texts, Piece t) : OneGap (colons texts) :=
  fun p q _ _ same _ => absurd same (colons_noGap pieces p q)

/-- Between two such texts a gap is the only one. -/
theorem gap_unique {texts texts' : List Text} (pieces : ∀ t ∈ texts, Piece t) (pieces' : ∀ t ∈ texts', Piece t)
    {p q : Text} (same : colons texts ++ ':' :: ':' :: colons texts' = p ++ ':' :: ':' :: q) : p = colons texts := by
  rcases List.append_eq_append_iff.mp same with ⟨x,rfl,tail⟩ | ⟨x,front,tail⟩
  · match x with
    | [] => simp
    | [c] => exact absurd (List.cons.inj (List.cons.inj tail).2).2 (colons_head pieces' q)
    | c :: d :: x => exact absurd (List.cons.inj (List.cons.inj tail).2).2 (colons_noGap pieces' x q)
  · match x with
    | [] => rw [front,List.append_nil]
    | [c] =>
      obtain ⟨rfl,-⟩ := List.cons.inj tail
      exact absurd front (colons_last pieces p)
    | c :: d :: x =>
      have first : ':' = c := (List.cons.inj tail).1
      have second : ':' = d := (List.cons.inj (List.cons.inj tail).2).1
      rw [← first,← second] at front
      exact absurd front (colons_noGap pieces p x)

theorem gap_oneGap {texts texts' : List Text} (pieces : ∀ t ∈ texts, Piece t) (pieces' : ∀ t ∈ texts', Piece t) :
    OneGap (colons texts ++ ':' :: ':' :: colons texts') := fun _ _ _ _ here there =>
  (gap_unique pieces pieces' here).trans (gap_unique pieces pieces' there).symm

/-! ### Reading it back -/

/-- The two bytes of a group. -/
def groupBytes (n : Nat) : Address := [UInt8.ofNat (n / 256),UInt8.ofNat n]

theorem groupBytes_length (groups : List Nat) : (groups.flatMap groupBytes).length = 2 * groups.length := by
  induction groups with
  | nil => rfl
  | cons n groups ih =>
    rw [List.flatMap_cons,List.length_append,ih,groupBytes,List.length_cons,List.length_cons,List.length_cons]
    simp only [List.length_nil]
    omega

theorem readGroup_toDigits (small : n < 65536) : readGroup (Nat.toDigits 16 n) = some (groupBytes n) := by
  have numeral := numeral_toDigits n
  have sized : (Nat.toDigits 16 n).length ≤ 4 := (Nat.length_toDigits_le_iff (by omega) (by omega)).mpr small
  have hex : (Nat.toDigits 16 n).all isXDigit = true := by
    apply List.all_eq_true.mpr
    intro c member
    have known : "0123456789abcdef".toList.all isXDigit = true := by decide
    exact List.all_eq_true.mp known c (numeral.digits c member)
  unfold readGroup
  rw [if_pos ⟨⟨List.length_pos_iff.mpr numeral.nonempty,sized⟩,hex⟩,numeral.value]
  rfl

theorem readGroups_toDigits {groups : List Nat} (small : ∀ n ∈ groups, n < 65536) :
    readGroups (groups.map (Nat.toDigits 16)) = some (groups.flatMap groupBytes) := by
  induction groups with
  | nil => rfl
  | cons n groups ih =>
    obtain ⟨here,later⟩ := List.forall_mem_cons.mp small
    rw [List.map_cons,readGroups,readGroup_toDigits here,ih later]
    rfl

theorem readTail_toDigits {groups : List Nat} (small : ∀ n ∈ groups, n < 65536) :
    readTail (groups.map (Nat.toDigits 16)) = some (groups.flatMap groupBytes) := by
  induction groups with
  | nil => rfl
  | cons n groups ih =>
    obtain ⟨here,later⟩ := List.forall_mem_cons.mp small
    cases groups with
    | nil =>
      rw [List.map_cons,List.map_nil,readTail,readGroup_toDigits here]
      rfl
    | cons next groups =>
      rw [List.map_cons,List.map_cons,readTail.eq_3 _ _ (by simp),← List.map_cons,readGroup_toDigits here,ih later]
      rfl

theorem pieces_colons {texts : List Text} (plain : ∀ t ∈ texts, Piece t) : pieces (colons texts) = texts := by
  cases texts with
  | nil => rfl
  | cons t texts =>
    have nonempty : colons (t :: texts) ≠ [] := by
      rw [colons_cons]
      simp [(plain t List.mem_cons_self).1]
    rw [pieces,if_neg nonempty]
    exact List.splitOn_intercalate ':' (fun t member => (plain t member).2) (by simp)

theorem toDigits_piece {groups : List Nat} : ∀ t ∈ groups.map (Nat.toDigits 16), Piece t := by
  intro t member
  obtain ⟨n,-,rfl⟩ := List.mem_map.mp member
  exact (numeral_toDigits n).piece

theorem parseIpv6_whole {groups : List Nat} (eight : groups.length = 8) (small : ∀ n ∈ groups, n < 65536) :
    parseIpv6 (colons (groups.map (Nat.toDigits 16))) = some (groups.flatMap groupBytes) := by
  have noGap : splitSub [':',':'] (colons (groups.map (Nat.toDigits 16))) = none := by
    rw [splitSub_eq_none]
    rintro ⟨p,q,same⟩
    exact colons_noGap toDigits_piece p q (by rw [← same]; simp)
  have nonempty : groups.map (Nat.toDigits 16) ≠ [] := by
    intro empty
    rw [List.map_eq_nil_iff] at empty
    rw [empty] at eight
    contradiction
  have split : (colons (groups.map (Nat.toDigits 16))).splitOn ':' = groups.map (Nat.toDigits 16) :=
    List.splitOn_intercalate ':' (fun t member => (toDigits_piece t member).2) nonempty
  have sized : (groups.flatMap groupBytes).length = 16 := by rw [groupBytes_length,eight]
  rw [parseIpv6,noGap]
  dsimp only
  rw [split,readTail_toDigits small,Option.filter_some,if_pos (decide_eq_true sized)]

theorem parseIpv6_gap {front back : List Nat} (room : front.length + back.length ≤ 7)
    (small : ∀ n ∈ front ++ back, n < 65536) :
    parseIpv6 (colons (front.map (Nat.toDigits 16)) ++ ':' :: ':' :: colons (back.map (Nat.toDigits 16))) =
      some (front.flatMap groupBytes ++ List.replicate (16 - 2 * (front.length + back.length)) 0 ++
        back.flatMap groupBytes) := by
  obtain ⟨before,behind⟩ := List.forall_mem_append.mp small
  generalize whole : colons (front.map (Nat.toDigits 16)) ++ ':' :: ':' :: colons (back.map (Nat.toDigits 16)) = t
  have gap : ∃ p q, splitSub [':',':'] t = some (p,q) := by
    cases found : splitSub [':',':'] t with
    | none =>
      refine absurd ?_ (splitSub_eq_none.mp found)
      exact ⟨colons (front.map (Nat.toDigits 16)),colons (back.map (Nat.toDigits 16)),by simp [← whole]⟩
    | some r => exact ⟨r.1,r.2,rfl⟩
  obtain ⟨p,q,found⟩ := gap
  obtain ⟨same,⟨rest,rfl⟩⟩ := splitSub_found found
  rw [← whole] at same
  obtain rfl := gap_unique toDigits_piece toDigits_piece same
  obtain rfl : colons (back.map (Nat.toDigits 16)) = rest := by simpa using same
  rw [parseIpv6,found]
  simp only [List.cons_append,List.nil_append,List.drop_succ_cons,List.drop_zero,pieces_colons toDigits_piece,
    readGroups_toDigits before,readTail_toDigits behind,groupBytes_length,bind,Option.bind_some]
  rw [if_pos (by omega),Nat.mul_add]

/-! ### The longest run of zeros -/

/-- The first loop of `format_ipv6` has seen the groups `seen`. -/
structure ZeroRuns.Tracks (seen : List Nat) (z : ZeroRuns) : Prop where
  here : z.curLen ≤ seen.length ∧ Run 0 seen (seen.length - z.curLen) z.curLen
  reaching : ∀ start len, start + len = seen.length → Run 0 seen start len → len ≤ z.curLen
  started : z.curStart = if z.curLen = 0 then none else some (seen.length - z.curLen)
  longest : ∀ start len, Run 0 seen start len → len ≤ z.bestLen
  best : 0 < z.bestLen → ∃ start, z.bestStart = some start ∧ FirstLongest 0 seen start z.bestLen

theorem ZeroRuns.Tracks.step (tracks : ZeroRuns.Tracks seen z) (group : Nat) :
    ZeroRuns.Tracks (seen ++ [group]) (z.step seen.length group) := by
  obtain ⟨⟨inside,here⟩,reaching,started,longest,best⟩ := tracks
  have length : (seen ++ [group]).length = seen.length + 1 := by rw [List.length_append,List.length_singleton]
  by_cases zero : group = 0
  · subst zero
    have start : z.curStart.getD seen.length = seen.length - z.curLen := by
      rw [started]
      split_ifs with fresh
      · rw [fresh]
        rfl
      · rfl
    have shift : seen.length + 1 - (z.curLen + 1) = seen.length - z.curLen := by omega
    have here' : Run 0 (seen ++ [0]) (seen.length - z.curLen) (z.curLen + 1) :=
      run_concat.mpr (.inr ⟨by omega,rfl,here⟩)
    have grown (other l : Nat) (run : Run 0 (seen ++ [0]) other (l + 1)) :
        l + 1 ≤ z.bestLen ∨ (other + l = seen.length ∧ l ≤ z.curLen) := by
      rcases run_concat.mp run with old | ⟨last,-,old⟩
      · exact .inl (longest _ _ old)
      · exact .inr ⟨last,reaching _ _ last old⟩
    have reaching' (other len : Nat) (last : other + len = seen.length + 1) (run : Run 0 (seen ++ [0]) other len) :
        len ≤ z.curLen + 1 := by
      cases len with
      | zero => omega
      | succ l =>
        rcases run_concat.mp run with old | ⟨last,-,old⟩
        · have within := old.inside
          omega
        · exact Nat.succ_le_succ (reaching _ _ last old)
    by_cases better : z.bestLen < z.curLen + 1
    · rw [ZeroRuns.step,if_pos rfl,start]
      dsimp only
      rw [if_pos better]
      have longest' (other len : Nat) (run : Run 0 (seen ++ [0]) other len) : len ≤ z.curLen + 1 := by
        cases len with
        | zero => omega
        | succ l => rcases grown other l run with old | ⟨-,short⟩ <;> omega
      refine ⟨?_,?_,?_,longest',fun _ => ⟨_,rfl,here',longest',fun other run => ?_⟩⟩
      · dsimp only
        rw [length,shift]
        exact ⟨by omega,here'⟩
      · rw [length]
        exact reaching'
      · dsimp only
        rw [length,shift,if_neg (by omega)]
      · rcases run_concat.mp run with old | ⟨last,-⟩
        · have short := longest _ _ old
          omega
        · omega
    · rw [ZeroRuns.step,if_pos rfl,start]
      dsimp only
      rw [if_neg better]
      have longest' (other len : Nat) (run : Run 0 (seen ++ [0]) other len) : len ≤ z.bestLen := by
        cases len with
        | zero => omega
        | succ l => rcases grown other l run with old | ⟨-,short⟩ <;> omega
      refine ⟨?_,?_,?_,longest',fun positive => ?_⟩
      · dsimp only
        rw [length,shift]
        exact ⟨by omega,here'⟩
      · rw [length]
        exact reaching'
      · dsimp only
        rw [length,shift,if_neg (by omega)]
      · obtain ⟨s,same,run,-,first⟩ := best positive
        obtain ⟨b,size⟩ : ∃ b, z.bestLen = b + 1 := ⟨z.bestLen - 1,by omega⟩
        dsimp only at positive ⊢
        rw [size] at run first longest' ⊢
        refine ⟨s,same,run_concat.mpr (.inl run),longest',fun other later => ?_⟩
        rcases run_concat.mp later with old | ⟨last,-⟩
        · exact first _ old
        · have within := run.inside
          omega
  · rw [ZeroRuns.step,if_neg zero]
    have old (other l : Nat) : Run 0 (seen ++ [group]) other (l + 1) ↔ Run 0 seen other (l + 1) := by
      rw [run_concat]
      exact or_iff_left fun reaches => zero reaches.2.1
    have longest' (other len : Nat) (run : Run 0 (seen ++ [group]) other len) : len ≤ z.bestLen := by
      cases len with
      | zero => omega
      | succ l => exact longest _ _ ((old other l).mp run)
    refine ⟨⟨Nat.zero_le _,.empty (Nat.sub_le _ _)⟩,fun other len last run => ?_,rfl,longest',fun positive => ?_⟩
    · cases len with
      | zero => omega
      | succ l =>
        have within := ((old other l).mp run).inside
        omega
    · obtain ⟨s,same,run,-,first⟩ := best positive
      dsimp only at positive ⊢
      obtain ⟨b,size⟩ : ∃ b, z.bestLen = b + 1 := ⟨z.bestLen - 1,by omega⟩
      rw [size] at run first longest' ⊢
      exact ⟨s,same,(old s b).mpr run,longest',fun other later => first _ ((old other b).mp later)⟩

theorem zeroRuns_tracks (seen groups : List Nat) (tracks : ZeroRuns.Tracks seen z) :
    ZeroRuns.Tracks (seen ++ groups) (zeroRuns seen.length groups z) := by
  induction groups generalizing seen z with
  | nil => simpa [zeroRuns] using tracks
  | cons group groups ih =>
    have next := ih (seen ++ [group]) (tracks.step group)
    rw [List.append_assoc,List.length_append] at next
    exact next

/-! ### The second loop -/

/-- One group behind what is written. -/
def putGroup (out : Text) (group : Nat) : Text :=
  (if out ≠ [] ∧ out.getLast? ≠ some ':' then out ++ [':'] else out) ++ Nat.toDigits 16 group

theorem writeGroups_skip (bestStart : Option Nat) (bestLen i skip : Nat) (groups : List Nat) (out : Text) :
    writeGroups bestStart bestLen i skip groups out =
      writeGroups bestStart bestLen (i + skip) 0 (groups.drop skip) out := by
  induction skip generalizing i groups with
  | zero => rfl
  | succ skip ih =>
    cases groups with
    | nil => simp [writeGroups]
    | cons group groups =>
      rw [writeGroups,ih,List.drop_succ_cons]
      congr 1
      omega

theorem writeGroups_plain (bestLen : Nat) {groups : List Nat} (apart : ∀ j, i ≤ j → bestStart ≠ some j) (out : Text) :
    writeGroups bestStart bestLen i 0 groups out = groups.foldl putGroup out := by
  induction groups generalizing i out with
  | nil => rfl
  | cons group groups ih =>
    rw [writeGroups,if_neg (apart i (Nat.le_refl i)),List.foldl_cons]
    exact ih (fun j later => apart j (by omega)) _

theorem writeGroups_gap (before after : List Nat) (i len : Nat) (out : Text) :
    writeGroups (some (i + before.length)) len i 0 (before ++ 0 :: after) out =
      (after.drop (len - 1)).foldl putGroup (before.foldl putGroup out ++ [':',':']) := by
  induction before generalizing i out with
  | nil =>
    rw [List.nil_append,List.length_nil,Nat.add_zero,writeGroups,if_pos rfl,writeGroups_skip]
    apply writeGroups_plain
    intro j later same
    have here := Option.some.inj same
    omega
  | cons group before ih =>
    have start : i + (group :: before).length = i + 1 + before.length := by
      rw [List.length_cons]
      omega
    rw [start,List.cons_append,writeGroups,if_neg (by simp; omega),List.foldl_cons]
    exact ih (i + 1) _

theorem putGroup_last (out : Text) (group : Nat) : putGroup out group ≠ [] ∧ (putGroup out group).getLast? ≠ some ':' := by
  have numeral := numeral_toDigits group
  unfold putGroup
  constructor
  · simp
  · rw [List.getLast?_append_of_ne_nil _ numeral.nonempty]
    intro colon
    exact numeral_noColon numeral (List.mem_of_getLast? colon)

theorem foldl_putGroup_closed {groups : List Nat} (closed : out ≠ [] ∧ out.getLast? ≠ some ':') :
    groups.foldl putGroup out = out ++ (groups.map (Nat.toDigits 16)).flatMap fun t => ':' :: t := by
  induction groups generalizing out with
  | nil => simp
  | cons group groups ih =>
    rw [List.foldl_cons,ih (putGroup_last out group),putGroup,if_pos closed,List.map_cons,List.flatMap_cons]
    simp

/-- At the start and behind a gap the groups stand between colons. -/
theorem foldl_putGroup_open {groups : List Nat} (free : ¬(out ≠ [] ∧ out.getLast? ≠ some ':')) :
    groups.foldl putGroup out = out ++ colons (groups.map (Nat.toDigits 16)) := by
  cases groups with
  | nil => simp [colons]
  | cons group groups =>
    rw [List.foldl_cons,foldl_putGroup_closed (putGroup_last out group),putGroup,if_neg free,List.map_cons,colons_cons,
      List.append_assoc]

/-! ### The printed text -/

theorem zeroRuns_groups (groups : List Nat) : ZeroRuns.Tracks groups (zeroRuns 0 groups {}) := by
  refine zeroRuns_tracks [] groups ⟨⟨Nat.le_refl 0,.empty (Nat.le_refl 0)⟩,?_,rfl,?_,fun positive => absurd positive (by decide)⟩
  · intro start len last run
    rw [run.nil]
  · intro start len run
    rw [run.nil]

/-- Either there is a first longest run of at least two zeros, or none of two. -/
theorem groups_cases (groups : List Nat) :
    (∀ start len, Run 0 groups start len → len < 2) ∨ ∃ start len, 2 ≤ len ∧ FirstLongest 0 groups start len := by
  have tracks := zeroRuns_groups groups
  by_cases two : 2 ≤ (zeroRuns 0 groups {}).bestLen
  · obtain ⟨start,-,first⟩ := tracks.best (by omega)
    exact .inr ⟨start,_,two,first⟩
  · refine .inl fun start len run => ?_
    have short := tracks.longest start len run
    omega

section Text

variable {pkt : Packet} {off : Nat}

theorem formatIpv6_whole (none : ∀ start len, Run 0 (ipv6Groups pkt off) start len → len < 2) :
    formatIpv6 pkt off = colons ((ipv6Groups pkt off).map (Nat.toDigits 16)) := by
  have tracks := zeroRuns_groups (ipv6Groups pkt off)
  have short : (zeroRuns 0 (ipv6Groups pkt off) {}).bestLen < 2 := by
    by_contra two
    obtain ⟨start,-,first⟩ := tracks.best (by omega)
    exact two (none _ _ first.run)
  rw [formatIpv6]
  rw [if_pos short,writeGroups_plain 0 (fun j later => by simp),foldl_putGroup_open (by simp),List.nil_append]
  exact if_neg (by simp [ipv6Groups,List.range_succ,colons_cons])

theorem formatIpv6_gap (two : 2 ≤ len) (longest : FirstLongest 0 (ipv6Groups pkt off) start len) :
    formatIpv6 pkt off = colons (((ipv6Groups pkt off).take start).map (Nat.toDigits 16)) ++
      ':' :: ':' :: colons (((ipv6Groups pkt off).drop (start + len)).map (Nat.toDigits 16)) := by
  have tracks := zeroRuns_groups (ipv6Groups pkt off)
  have long := tracks.longest _ _ longest.run
  obtain ⟨start',here,first⟩ := tracks.best (by omega)
  obtain ⟨rfl,same⟩ := first.unique longest
  have inside := longest.run.inside
  have zero : (ipv6Groups pkt off)[start']? = some 0 := longest.run.holds start' (Nat.le_refl _) (by omega)
  obtain ⟨bound,value⟩ := List.getElem?_eq_some_iff.mp zero
  have split : ipv6Groups pkt off = (ipv6Groups pkt off).take start' ++ 0 :: (ipv6Groups pkt off).drop (start' + 1) := by
    rw [← value,← List.drop_eq_getElem_cons bound,List.take_append_drop]
  have before : 0 + ((ipv6Groups pkt off).take start').length = start' := by
    rw [List.length_take]
    omega
  have text : writeGroups (some start') len 0 0 (ipv6Groups pkt off) [] =
      colons (((ipv6Groups pkt off).take start').map (Nat.toDigits 16)) ++
        ':' :: ':' :: colons (((ipv6Groups pkt off).drop (start' + len)).map (Nat.toDigits 16)) := by
    have gap := writeGroups_gap ((ipv6Groups pkt off).take start') ((ipv6Groups pkt off).drop (start' + 1)) 0 len []
    rw [before,← split,List.drop_drop,foldl_putGroup_open (by simp),foldl_putGroup_open (by simp)] at gap
    have rest : start' + 1 + (len - 1) = start' + len := by omega
    rw [rest] at gap
    simpa using gap
  rw [formatIpv6]
  have long : ¬(zeroRuns 0 (ipv6Groups pkt off) {}).bestLen < 2 := by omega
  rw [if_neg long,here,same,text]
  exact if_neg (by simp)

theorem group_eq (a b : UInt8) : a.toNat <<< 8 ||| b.toNat = 256 * a.toNat + b.toNat := by
  have low : b.toNat < 2 ^ 8 := b.toNat_lt
  rw [← Nat.shiftLeft_add_eq_or_of_lt low,Nat.shiftLeft_eq]
  omega

theorem ipv6Groups_small (pkt : Packet) (off : Nat) : ∀ n ∈ ipv6Groups pkt off, n < 65536 := by
  intro n member
  obtain ⟨i,-,rfl⟩ := List.mem_map.mp member
  have high := (pkt.getD (off + i * 2) 0).toNat_lt
  have low := (pkt.getD (off + i * 2 + 1) 0).toNat_lt
  rw [byteAt,byteAt,group_eq]
  omega

theorem groupBytes_eq (a b : UInt8) : groupBytes (a.toNat <<< 8 ||| b.toNat) = [a,b] := by
  have low := b.toNat_lt
  have first : (256 * a.toNat + b.toNat) / 256 = a.toNat := by omega
  have second : UInt8.ofNat (256 * a.toNat + b.toNat) = b := by
    apply UInt8.toNat_inj.mp
    rw [UInt8.toNat_ofNat']
    omega
  rw [group_eq,groupBytes,first,second,UInt8.ofNat_toNat]

/-- The bytes of the address at an offset. -/
theorem ipv6Groups_bytes (pkt : Packet) (off : Nat) :
    (ipv6Groups pkt off).flatMap groupBytes = (List.range 16).map fun i => pkt.getD (off + i) 0 := by
  simp only [ipv6Groups,byteAt,List.range_succ,List.range_zero,List.nil_append,List.cons_append,List.map_cons,
    List.map_nil,List.flatMap_cons,List.flatMap_nil,groupBytes_eq]

theorem zeroBytes (len : Nat) : (List.replicate len 0).flatMap groupBytes = List.replicate (2 * len) 0 := by
  induction len with
  | zero => rfl
  | succ len ih =>
    rw [List.replicate_succ,List.flatMap_cons,ih,Nat.mul_succ]
    rfl

theorem parseIpv6_formatIpv6 (pkt : Packet) (off : Nat) :
    parseIpv6 (formatIpv6 pkt off) = some ((List.range 16).map fun i => pkt.getD (off + i) 0) := by
  have eight : (ipv6Groups pkt off).length = 8 := by simp [ipv6Groups]
  rw [← ipv6Groups_bytes]
  rcases groups_cases (ipv6Groups pkt off) with none | ⟨start,len,two,longest⟩
  · rw [formatIpv6_whole none,parseIpv6_whole eight (ipv6Groups_small pkt off)]
  · have inside := longest.run.inside
    have split := longest.run.split
    have sizes : ((ipv6Groups pkt off).take start).length + ((ipv6Groups pkt off).drop (start + len)).length = 8 - len := by
      rw [List.length_take,List.length_drop]
      omega
    have small : ∀ n ∈ (ipv6Groups pkt off).take start ++ (ipv6Groups pkt off).drop (start + len), n < 65536 := by
      intro n member
      rcases List.mem_append.mp member with front | back
      · exact ipv6Groups_small pkt off n (List.mem_of_mem_take front)
      · exact ipv6Groups_small pkt off n (List.mem_of_mem_drop back)
    rw [formatIpv6_gap two longest,parseIpv6_gap (by omega) small,sizes]
    conv_rhs => rw [split,List.flatMap_append,List.flatMap_append,zeroBytes]
    have zeros : 16 - 2 * (8 - len) = 2 * len := by omega
    rw [zeros]

theorem formatIpv6_canonical (pkt : Packet) (off : Nat) :
    Canonical (ipv6Groups pkt off) (formatIpv6 pkt off) ∧ OneGap (formatIpv6 pkt off) := by
  have numerals : List.Forall₂ Numeral (ipv6Groups pkt off) ((ipv6Groups pkt off).map (Nat.toDigits 16)) :=
    List.forall₂_map_right_iff.mpr (List.forall₂_same.mpr fun n _ => numeral_toDigits n)
  rcases groups_cases (ipv6Groups pkt off) with none | ⟨start,len,two,longest⟩
  · rw [formatIpv6_whole none]
    exact ⟨⟨_,numerals,.inr ⟨none,rfl⟩⟩,colons_oneGap toDigits_piece⟩
  · rw [formatIpv6_gap two longest]
    refine ⟨⟨_,numerals,.inl ⟨start,len,two,longest,?_⟩⟩,gap_oneGap toDigits_piece toDigits_piece⟩
    rw [← List.map_take,← List.map_drop]

theorem addressAt_length (inside : off + len ≤ pkt.length) : (addressAt pkt off len).length = len := by
  rw [addressAt,List.length_take,List.length_drop]
  omega

theorem addressAt_eq (inside : off + 16 ≤ pkt.length) :
    addressAt pkt off 16 = (List.range 16).map fun i => pkt.getD (off + i) 0 := by
  apply List.ext_getElem
  · rw [addressAt_length inside,List.length_map,List.length_range]
  · intro i low high
    have small : i < 16 := by simpa using high
    rw [List.getElem_map,List.getElem_range,List.getD_eq_getElem _ _ (by omega)]
    simp [addressAt]

theorem ipv6Groups_eq (inside : off + 16 ≤ pkt.length) : ipv6Groups pkt off = groupsOf (addressAt pkt off 16) := by
  rw [addressAt_eq inside]
  simp only [ipv6Groups,byteAt,List.range_succ,List.range_zero,List.nil_append,List.cons_append,List.map_cons,
    List.map_nil,group_eq,groupsOf]

end Text

/-! ### Equal texts, equal addresses -/

/-- The one text printed for an address. -/
def printed (bytes : Address) : Text := if bytes.length = 4 then formatIpv4 bytes 0 else formatIpv6 bytes 0

theorem readIp_of_readable {v4 v6 : Nat} (low : v4 + 4 ≤ 20) (high : v6 + 16 ≤ 40) {pkt : Packet} (readable : Readable pkt) :
    readIp v4 v6 pkt = printed (ipBytes v4 v6 pkt) ∧ parseIp (readIp v4 v6 pkt) = some (ipBytes v4 v6 pkt) ∧
      version pkt = if (ipBytes v4 v6 pkt).length = 4 then 4 else 6 := by
  cases pkt with
  | nil => exact absurd readable (by decide)
  | cons first rest =>
    have text : readIp v4 v6 (first :: rest) =
        if version (first :: rest) = 4 then
          if (first :: rest).length < 20 then [] else formatIpv4 (first :: rest) v4
        else if version (first :: rest) = 6 then
          if (first :: rest).length < 40 then [] else formatIpv6 (first :: rest) v6
        else [] := rfl
    generalize first :: rest = pkt at readable text
    rcases readable with ⟨four,sized⟩ | ⟨six,sized⟩
    · have length : (addressAt pkt v4 4).length = 4 := addressAt_length (by omega)
      have printing : formatIpv4 pkt v4 = printed (addressAt pkt v4 4) := by
        rw [printed,if_pos length,addressAt,formatIpv4_slice]
      rw [text,ipBytes,if_pos four,if_pos four,if_neg (by omega),printing,parseIp_eq_some,if_pos length]
      refine ⟨rfl,.inl ⟨length,parseIpv4_eq_some.mpr ⟨length,?_⟩⟩,four⟩
      rw [printed,if_pos length]
    · have inside : v6 + 16 ≤ pkt.length := by omega
      have length : (addressAt pkt v6 16).length = 16 := addressAt_length inside
      have notFour : version pkt ≠ 4 := by
        rw [six]
        decide
      have printing : formatIpv6 pkt v6 = printed (addressAt pkt v6 16) := by
        rw [printed,if_neg (by omega),formatIpv6,formatIpv6,addressAt,ipv6Groups_slice]
      rw [text,ipBytes,if_neg notFour,if_neg notFour,if_pos six,if_neg (by omega),parseIp_eq_some,if_neg (by omega)]
      refine ⟨printing,.inr ⟨length,?_⟩,six⟩
      rw [parseIpv6_formatIpv6,addressAt_eq inside]

/-- The text determines the bytes, and the bytes the text. -/
theorem readIp_eq_iff {v4 v6 w4 w6 : Nat} (v4Low : v4 + 4 ≤ 20) (v6Low : v6 + 16 ≤ 40) (w4Low : w4 + 4 ≤ 20)
    (w6Low : w6 + 16 ≤ 40) {p q : Packet} (readableP : Readable p) (readableQ : Readable q) :
    readIp v4 v6 p = readIp w4 w6 q ↔ version p = version q ∧ ipBytes v4 v6 p = ipBytes w4 w6 q := by
  obtain ⟨textP,parseP,versionP⟩ := readIp_of_readable v4Low v6Low readableP
  obtain ⟨textQ,parseQ,versionQ⟩ := readIp_of_readable w4Low w6Low readableQ
  constructor
  · intro same
    rw [same,parseQ] at parseP
    have bytes := (Option.some.inj parseP).symm
    exact ⟨by rw [versionP,versionQ,bytes],bytes⟩
  · rintro ⟨-,bytes⟩
    rw [textP,textQ,bytes]

/-- The text of an address is canonical and reads back as its bytes, so packets with equal
texts are packets of one version between equal addresses. -/
theorem formatIpv6_invertible (pkt : Packet) (off : Nat) (inside : off + 16 ≤ pkt.length) (p q : Packet)
    (readableP : Readable p) (readableQ : Readable q) :
    Canonical (groupsOf (addressAt pkt off 16)) (formatIpv6 pkt off) ∧ OneGap (formatIpv6 pkt off) ∧
    parseIpv6 (formatIpv6 pkt off) = some (addressAt pkt off 16) ∧
    (readDestIp p = readDestIp q ↔ version p = version q ∧ destBytes p = destBytes q) ∧
    (readSrcIp p = readSrcIp q ↔ version p = version q ∧ srcBytes p = srcBytes q) ∧
    (readSrcIp p = readDestIp q ↔ version p = version q ∧ srcBytes p = destBytes q) := by
  obtain ⟨canonical,once⟩ := formatIpv6_canonical pkt off
  rw [ipv6Groups_eq inside] at canonical
  have back := parseIpv6_formatIpv6 pkt off
  rw [← addressAt_eq inside] at back
  have read {v4 v6 w4 w6 : Nat} (v4Low : v4 + 4 ≤ 20) (v6Low : v6 + 16 ≤ 40) (w4Low : w4 + 4 ≤ 20) (w6Low : w6 + 16 ≤ 40) :=
    readIp_eq_iff v4Low v6Low w4Low w6Low readableP readableQ
  exact ⟨canonical,once,back,read (by omega) (by omega) (by omega) (by omega),
    read (by omega) (by omega) (by omega) (by omega),read (by omega) (by omega) (by omega) (by omega)⟩

/-- A header from `::1` to `fe80::1`. -/
def loopbackPacket : Packet :=
  0x60 :: List.replicate 22 0 ++ [1,0xfe,0x80] ++ List.replicate 13 0 ++ [1]

/-- The two addresses of one header do not print alike. -/
theorem formatIpv6_invertible_loopback : readSrcIp loopbackPacket ≠ readDestIp loopbackPacket ∧
    parseIpv6 (formatIpv6 loopbackPacket 8) = some (List.replicate 15 0 ++ [1]) := by
  obtain ⟨-,-,back,-,-,cross⟩ := formatIpv6_invertible loopbackPacket 8 (by decide) loopbackPacket loopbackPacket
    (by decide) (by decide)
  refine ⟨fun same => ?_,?_⟩
  · exact absurd (cross.mp same).2 (by decide)
  · rw [back]
    decide

end Nospoon
