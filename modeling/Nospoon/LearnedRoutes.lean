import Nospoon.OpenMode
import Nospoon.Js.ByValue
import Nospoon.Js.Formatters
import Nospoon.Js.Readers

/-! The addresses open mode learns. Both servers filter them by the text they print for a
packet's source; the classes an address may belong to are about its bytes. -/
namespace Nospoon

open Library

/-! ### Addresses a client may own -/

def IsAddress (bytes : Address) : Prop := bytes.length = 4 ∨ bytes.length = 16

def Unspecified (bytes : Address) : Prop := ∀ b ∈ bytes, b = 0

/-- 127.0.0.0/8 and ::1. -/
def Loopback (bytes : Address) : Prop :=
  if bytes.length = 4 then bytes.head? = some 127 else bytes = List.replicate 15 0 ++ [1]

/-- 224.0.0.0/4 and ff00::/8. -/
def Multicast (bytes : Address) : Prop :=
  if bytes.length = 4 then bytes.head?.map (· &&& 0xf0) = some 0xe0 else bytes.head? = some 0xff

/-- 169.254.0.0/16 and fe80::/10. -/
def LinkLocal (bytes : Address) : Prop :=
  if bytes.length = 4 then bytes.take 2 = [169,254]
  else bytes.head? = some 0xfe ∧ bytes[1]?.map (· &&& 0xc0) = some 0x80

structure MayOwn (own : List Address) (bytes : Address) : Prop where
  notOwn : bytes ∉ own
  notUnspecified : ¬Unspecified bytes
  notLoopback : ¬Loopback bytes
  notMulticast : ¬Multicast bytes
  notLinkLocal : ¬LinkLocal bytes

instance (bytes : Address) : Decidable (Unspecified bytes) := inferInstanceAs (Decidable (∀ b ∈ bytes, b = 0))
instance : DecidablePred Loopback := fun bytes =>
  inferInstanceAs (Decidable (if bytes.length = 4 then bytes.head? = some 127 else bytes = List.replicate 15 0 ++ [1]))
instance : DecidablePred Multicast := fun bytes => inferInstanceAs (Decidable
  (if bytes.length = 4 then bytes.head?.map (· &&& 0xf0) = some 0xe0 else bytes.head? = some 0xff))
instance : DecidablePred LinkLocal := fun bytes => inferInstanceAs (Decidable
  (if bytes.length = 4 then bytes.take 2 = [169,254]
    else bytes.head? = some 0xfe ∧ bytes[1]?.map (· &&& 0xc0) = some 0x80))

theorem mayOwn_iff : MayOwn own bytes ↔
    bytes ∉ own ∧ ¬Unspecified bytes ∧ ¬Loopback bytes ∧ ¬Multicast bytes ∧ ¬LinkLocal bytes :=
  ⟨fun ⟨a,b,c,d,e⟩ => ⟨a,b,c,d,e⟩,fun ⟨a,b,c,d,e⟩ => ⟨a,b,c,d,e⟩⟩

instance (own : List Address) (bytes : Address) : Decidable (MayOwn own bytes) := decidable_of_iff' _ mayOwn_iff

/-- The tunnel addresses of the server. -/
def Config.ownAddresses (cfg : Config) : List Address :=
  ((matchCidr cfg.ip).map fun found => found.1.map fun octet => UInt8.ofNat (natOf octet)).toList ++
    (parseIpv6 (cfg.ipv6.takeWhile (· ≠ '/'))).toList

/-- Only addresses that a client may own are routed, under the texts a server prints. -/
def Admissible (own : List Address) (text : Address → Text) (routes : RoutingTable) : Prop :=
  ∀ bytes, IsAddress bytes → routes.lookup (text bytes) ≠ none → MayOwn own bytes

section

variable {own : List Address} {text : Address → Text} {routes : RoutingTable}

/-- No two addresses share a text. -/
def Faithful (text : Address → Text) : Prop :=
  ∀ a b, IsAddress a → IsAddress b → text a = text b → a = b

theorem admissible_add (faithful : Faithful text) {bytes : Address} (isAddress : IsAddress bytes) (stream : Duplex) :
    Admissible own text (routes.add (text bytes) stream) ↔ Admissible own text routes ∧ MayOwn own bytes := by
  constructor
  · intro admissible
    refine ⟨fun other isOther routed => admissible other isOther ?_,admissible bytes isAddress (by simp)⟩
    rw [RoutingTable.lookup_add]
    split_ifs
    · simp
    · exact routed
  · intro ⟨admissible,mayOwn⟩ other isOther routed
    rw [RoutingTable.lookup_add] at routed
    split_ifs at routed with same
    · rw [faithful other bytes isOther isAddress same]
      exact mayOwn
    · exact admissible other isOther routed

theorem Admissible.remove (admissible : Admissible own text routes) (ip : Text) : Admissible own text (routes.remove ip) := by
  intro bytes isAddress routed
  rw [RoutingTable.lookup_remove] at routed
  split_ifs at routed
  · contradiction
  · exact admissible bytes isAddress routed

theorem admissible_empty : Admissible own text ∅ := fun _ _ routed => absurd (RoutingTable.lookup_empty _) routed

end

/-! ### The texts of the two servers -/

theorem readIp_eq (v4 v6 : Nat) (pkt : Packet) (low : v4 + 4 ≤ 20) (high : v6 + 16 ≤ 40) :
    readIp v4 v6 pkt = ((Js.addressBytes v4 v6 pkt).map printed).getD [] := by
  cases pkt with
  | nil => rfl
  | cons first rest =>
    have version : Js.readIpVersion (first :: rest) = some (first >>> 4 &&& 0x0f) := rfl
    have sized4 : 20 ≤ (first :: rest).length → ((List.drop v4 (first :: rest)).take 4).length = 4 := by
      intro enough
      rw [List.length_take,List.length_drop]
      omega
    have sized6 : 40 ≤ (first :: rest).length → ((List.drop v6 (first :: rest)).take 16).length ≠ 4 := by
      intro enough
      rw [List.length_take,List.length_drop]
      omega
    have four_six : ¬(4 : UInt8) = 6 := by decide
    have six_four : ¬(6 : UInt8) = 4 := by decide
    simp only [readIp,Js.addressBytes,version,Option.some.injEq]
    by_cases four : first >>> 4 &&& 0x0f = 4
    · by_cases short : (first :: rest).length < 20
      · have late : ¬20 ≤ (first :: rest).length := by omega
        simp only [four,short,late,four_six,if_true,and_false,false_and,if_false]
        rfl
      · have late : 20 ≤ (first :: rest).length := by omega
        simp only [four,short,late,if_true,and_true,if_false]
        rw [Option.map_some,Option.getD_some,printed,if_pos (sized4 late),formatIpv4_slice]
    · by_cases six : first >>> 4 &&& 0x0f = 6
      · by_cases short : (first :: rest).length < 40
        · have late : ¬40 ≤ (first :: rest).length := by omega
          simp only [six,six_four,short,late,if_true,and_false,false_and,if_false]
          rfl
        · have late : 40 ≤ (first :: rest).length := by omega
          simp only [six,six_four,short,late,if_true,and_true,false_and,if_false]
          rw [Option.map_some,Option.getD_some,printed,if_neg (sized6 late),formatIpv6,formatIpv6,ipv6Groups_slice]
      · simp only [four,six,false_and,if_false]
        rfl

theorem readSrcIp_eq (pkt : Packet) : readSrcIp pkt = ((Js.sourceBytes pkt).map printed).getD [] :=
  readIp_eq 12 8 pkt (by decide) (by decide)

theorem sourceBytes_isAddress (source : Js.sourceBytes pkt = some bytes) : IsAddress bytes := by
  unfold Js.sourceBytes Js.addressBytes at source
  split_ifs at source with four six
  · rw [← Option.some.inj source]
    left
    rw [List.length_take,List.length_drop]
    omega
  · rw [← Option.some.inj source]
    right
    rw [List.length_take,List.length_drop]
    omega

theorem parseIp_printed (isAddress : IsAddress bytes) : parseIp (printed bytes) = some bytes := by
  rw [parseIp_eq_some,printed]
  rcases isAddress with four | sixteen
  · rw [if_pos four]
    exact .inl ⟨four,parseIpv4_eq_some.mpr ⟨four,rfl⟩⟩
  · rw [if_neg (by omega),parseIpv6_formatIpv6,← addressAt_eq (by omega),addressAt,List.drop_zero,
      List.take_of_length_le (by omega)]
    exact .inr ⟨sixteen,rfl⟩

theorem printed_faithful : Faithful printed := by
  intro a b isA isB same
  have back := parseIp_printed isA
  rw [same,parseIp_printed isB] at back
  exact (Option.some.inj back).symm

/-! ### The filter -/

/-- fe80::/16. -/
def Skipped (bytes : Address) : Prop := bytes.length ≠ 4 ∧ bytes.take 2 = [0xfe,0x80]

instance (bytes : Address) : Decidable (Skipped bytes) := inferInstanceAs (Decidable (_ ∧ _))

/-- A text that begins as one of an address whose first group is `g`. -/
def StartsWith (g : Nat) (t : Text) : Prop :=
  (∃ rest, t = ':' :: rest ∧ g = 0) ∨ ∃ rest, t = Nat.toDigits 16 g ++ ':' :: rest

theorem startsWith_colons (g next : Nat) (groups : List Nat) (rest : Text) :
    StartsWith g (colons ((g :: next :: groups).map (Nat.toDigits 16)) ++ rest) := by
  rw [List.map_cons,List.map_cons,colons_cons_cons,List.append_assoc]
  exact .inr ⟨_,rfl⟩

theorem formatIpv6_startsWith (first : ipv6Groups pkt off = g :: groups) : StartsWith g (formatIpv6 pkt off) := by
  have eight : (ipv6Groups pkt off).length = 8 := by simp [ipv6Groups]
  rcases groups_cases (ipv6Groups pkt off) with none | ⟨start,len,two,longest⟩
  · rw [formatIpv6_whole none,first]
    cases groups with
    | nil => simp [first] at eight
    | cons next groups => simpa using startsWith_colons g next groups []
  · rw [formatIpv6_gap two longest]
    cases start with
    | zero =>
      refine .inl ⟨_,rfl,?_⟩
      have zero := longest.run.holds 0 (by omega) (by omega)
      rw [first] at zero
      exact Option.some.inj zero
    | succ start =>
      rw [first,List.take_succ_cons]
      cases groups.take start with
      | nil => exact .inr ⟨':' :: colons (((g :: groups).drop (start + 1 + len)).map (Nat.toDigits 16)),by simp [colons_cons]⟩
      | cons next groups' => exact startsWith_colons g next groups' _

theorem fe80_of_startsWith (starts : StartsWith g t) : "fe80:".toList <+: t ↔ g = 0xfe80 := by
  rcases starts with ⟨rest,rfl,rfl⟩ | ⟨rest,rfl⟩
  · refine iff_of_false (fun begins => ?_) (by decide)
    obtain ⟨_,same⟩ := begins
    exact absurd (List.cons.inj same).1 (by decide)
  · constructor
    · rintro ⟨more,same⟩
      have numeral := numeral_toDigits g
      have whole : "fe80".toList ++ ':' :: more = Nat.toDigits 16 g ++ ':' :: rest := same
      have pieces := congrArg (splitFirst ':') whole
      rw [splitFirst_append (by decide),splitFirst_append (numeral_noColon numeral)] at pieces
      rw [← numeral.value,← (Prod.mk.inj (Option.some.inj pieces)).1]
      rfl
    · rintro rfl
      exact ⟨rest,rfl⟩

namespace Js

/-- Where `formatIpv6` differs from `format_ipv6` the text begins or ends with three colons. -/
theorem formatIpv6_cases (packet : Packet) (offset : Nat) :
    formatIpv6 packet offset = Nospoon.formatIpv6 packet offset ∨
    ∃ texts, (∀ t ∈ texts, Piece t) ∧
      ((formatIpv6 packet offset = ':' :: ':' :: ':' :: colons texts ∧
        Nospoon.formatIpv6 packet offset = ':' :: ':' :: colons texts) ∨
      (formatIpv6 packet offset = colons texts ++ [':',':',':'] ∧
        Nospoon.formatIpv6 packet offset = colons texts ++ [':',':'])) := by
  have eight : (ipv6Groups packet offset).length = 8 := by simp [ipv6Groups]
  rcases groups_cases (ipv6Groups packet offset) with none | ⟨start,len,two,longest⟩
  · exact .inl ((formatIpv6_whole none).trans (Nospoon.formatIpv6_whole none).symm)
  · rw [formatIpv6_gap two longest,Nospoon.formatIpv6_gap two longest]
    by_cases first : start = 0
    · subst first
      refine .inr ⟨((ipv6Groups packet offset).drop (0 + len)).map (Nat.toDigits 16),toDigits_piece,.inl ⟨?_,?_⟩⟩
      · rw [if_pos (.inl rfl),List.take_zero]
        rfl
      · rw [List.take_zero]
        rfl
    · by_cases last : start + len = 8
      · have nothing : (ipv6Groups packet offset).drop (start + len) = [] := List.drop_eq_nil_of_le (by omega)
        refine .inr ⟨((ipv6Groups packet offset).take start).map (Nat.toDigits 16),toDigits_piece,.inr ⟨?_,?_⟩⟩
        · rw [if_pos (.inr last),nothing,List.map_nil,List.append_assoc,List.append_assoc]
          rfl
        · rw [nothing]
          rfl
      · rw [if_neg (by omega)]
        left
        simp

theorem noThree (t : Text) (once : OneGap t) (front rest : Text) : t ≠ front ++ ':' :: ':' :: ':' :: rest := by
  intro same
  have front' := once front (':' :: rest) (front ++ [':']) rest same (by rw [same]; simp)
  have lengths := congrArg List.length front'
  simp at lengths

theorem bothEnds {texts' : List Text} (pieces' : ∀ t ∈ texts', Piece t)
    (same : ':' :: ':' :: ':' :: rest = colons texts' ++ [':',':',':']) : rest = [] ∧ colons texts' = [] := by
  cases text : colons texts' with
  | nil => simpa [text] using same
  | cons c x =>
    rw [text,List.cons_append] at same
    obtain ⟨rfl,-⟩ := List.cons.inj same
    exact absurd text (colons_head pieces' x)

/-- The two formatters tell the same addresses apart. -/
theorem formatIpv6_same (same : formatIpv6 packet offset = formatIpv6 packet' offset') :
    Nospoon.formatIpv6 packet offset = Nospoon.formatIpv6 packet' offset' := by
  have once := (formatIpv6_canonical packet offset).2
  have once' := (formatIpv6_canonical packet' offset').2
  rcases formatIpv6_cases packet offset with eq | ⟨texts,pieces,⟨js,cpp⟩ | ⟨js,cpp⟩⟩ <;>
    rcases formatIpv6_cases packet' offset' with eq' | ⟨texts',pieces',⟨js',cpp'⟩ | ⟨js',cpp'⟩⟩
  · rw [← eq,← eq',same]
  · exact absurd (eq.symm.trans (same.trans js')) (noThree _ once [] _)
  · exact absurd (eq.symm.trans (same.trans js')) (noThree _ once _ [])
  · exact absurd (eq'.symm.trans (same.symm.trans js)) (noThree _ once' [] _)
  · have tails := js.symm.trans (same.trans js')
    rw [cpp,cpp']
    exact congrArg List.tail tails
  · obtain ⟨nothing,nothing'⟩ := bothEnds pieces' (js.symm.trans (same.trans js'))
    rw [cpp,cpp',nothing,nothing']
    rfl
  · exact absurd (eq'.symm.trans (same.symm.trans js)) (noThree _ once' _ [])
  · obtain ⟨nothing',nothing⟩ := bothEnds pieces (js'.symm.trans (same.symm.trans js))
    rw [cpp,cpp',nothing,nothing']
    rfl
  · have fronts := js.symm.trans (same.trans js')
    rw [cpp,cpp',List.append_cancel_right fronts]

theorem formatIpv6_startsWith (first : ipv6Groups packet offset = g :: groups) : StartsWith g (formatIpv6 packet offset) := by
  have starts := Nospoon.formatIpv6_startsWith first
  rcases formatIpv6_cases packet offset with eq | ⟨texts,pieces,⟨js,cpp⟩ | ⟨js,cpp⟩⟩
  · rw [eq]
    exact starts
  · rw [cpp] at starts
    rcases starts with ⟨-,-,zero⟩ | ⟨rest,same⟩
    · exact .inl ⟨_,js,zero⟩
    · refine absurd same ?_
      have numeral := numeral_toDigits g
      cases digits : Nat.toDigits 16 g with
      | nil => exact absurd digits numeral.nonempty
      | cons c t =>
        intro same
        obtain ⟨rfl,-⟩ := List.cons.inj same
        exact numeral_noColon numeral (digits ▸ List.mem_cons_self)
  · have longer : formatIpv6 packet offset = Nospoon.formatIpv6 packet offset ++ [':'] := by
      rw [js,cpp,List.append_assoc]
      rfl
    rw [longer]
    rcases starts with ⟨rest,same,zero⟩ | ⟨rest,same⟩
    · exact .inl ⟨rest ++ [':'],by rw [same]; rfl,zero⟩
    · exact .inr ⟨rest ++ [':'],by rw [same]; simp⟩

theorem formatAddress_faithful : Faithful formatAddress := by
  intro a b isA isB same
  apply printed_faithful a b isA isB
  rw [formatAddress,formatAddress] at same
  rw [printed,printed]
  split_ifs at same ⊢ with four four'
  · exact same
  · exact absurd (same ▸ formatIpv4_dot a 0) (formatIpv6_noDot b 0)
  · exact absurd (same ▸ formatIpv4_dot b 0) (formatIpv6_noDot a 0)
  · exact formatIpv6_same same

end Js

/-- Both servers skip the addresses of fe80::/16, by their texts. -/
theorem skipped_iff (isAddress : IsAddress bytes) :
    ("fe80:".toList <+: printed bytes ↔ Skipped bytes) ∧ ("fe80:".toList <+: Js.formatAddress bytes ↔ Skipped bytes) := by
  rcases isAddress with four | sixteen
  · obtain ⟨a,b,c,d,rfl⟩ := List.length_eq_four.mp four
    have noColon : ¬"fe80:".toList <+: formatIpv4 [a,b,c,d] 0 := by
      intro begins
      exact formatIpv4_noColon [a,b,c,d] 0 (begins.subset (by decide))
    have kept : ¬Skipped [a,b,c,d] := fun skipped => skipped.1 rfl
    exact ⟨iff_of_false noColon kept,iff_of_false noColon kept⟩
  · match bytes,sixteen with
    | x :: y :: z :: u :: v :: rest,sixteen =>
      have first : ipv6Groups (x :: y :: z :: u :: v :: rest) 0 = (x.toNat <<< 8 ||| y.toNat) ::
          (ipv6Groups (x :: y :: z :: u :: v :: rest) 0).tail := rfl
      have notFour : (x :: y :: z :: u :: v :: rest).length ≠ 4 := by omega
      have skipped : x.toNat <<< 8 ||| y.toNat = 0xfe80 ↔ Skipped (x :: y :: z :: u :: v :: rest) := by
        have low := y.toNat_lt
        rw [group_eq,Skipped,and_iff_right notFour]
        simp only [List.take_succ_cons,List.take_zero,List.cons.injEq,and_true]
        rw [← UInt8.toNat_inj,← UInt8.toNat_inj]
        show _ ↔ x.toNat = 254 ∧ y.toNat = 128
        omega
      rw [printed,Js.formatAddress,if_neg notFour,if_neg notFour,← skipped]
      exact ⟨fe80_of_startsWith (formatIpv6_startsWith first),fe80_of_startsWith (Js.formatIpv6_startsWith first)⟩

/-! ### The first packets of a client -/

/-- The source of a packet, where the servers read one and do not skip it, is an address
its sender may own. -/
def SourceFits (own : List Address) (pkt : Packet) : Prop :=
  ∀ bytes ∈ Js.sourceBytes pkt, ¬Skipped bytes → MayOwn own bytes

instance (own : List Address) (pkt : Packet) : Decidable (SourceFits own pkt) :=
  inferInstanceAs (Decidable (∀ _ ∈ _, _))

theorem readSrcIp_source (source : Js.sourceBytes pkt = some bytes) : readSrcIp pkt = printed bytes := by
  rw [readSrcIp_eq,source,Option.map_some,Option.getD_some]

theorem printed_ne_nil (bytes : Address) : printed bytes ≠ [] := by
  rw [printed]
  split_ifs
  · exact formatIpv4_ne_nil bytes 0
  · exact formatIpv6_ne_nil bytes 0

namespace ServerCtx

variable {ctx : ServerCtx} {own : List Address}

/-- A client without an address sends one it may own. -/
def FirstFits (own : List Address) (ctx : ServerCtx) (key : Text) (pkt : Packet) : Prop :=
  ∀ ps ∈ ctx.peers.lookup key, ps.assignedIp = [] → SourceFits own pkt

/-- Every packet of the event that comes from a client without an address. -/
def FirstPacketsFit (own : List Address) (ctx : ServerCtx) : Event → Prop
  | .message duplex data => ∀ h ∈ (ctx.onMessage duplex data).2, h.before.FirstFits own h.key h.pkt
  | _ => True

instance (own : List Address) (ctx : ServerCtx) (key : Text) (pkt : Packet) : Decidable (ctx.FirstFits own key pkt) :=
  inferInstanceAs (Decidable (∀ _ ∈ _, _))

instance (own : List Address) (ctx : ServerCtx) : ∀ e, Decidable (ctx.FirstPacketsFit own e)
  | .message .. => inferInstanceAs (Decidable (∀ _ ∈ _, _))
  | .connection .. | .close .. | .tunPacket _ => isTrue trivial

/-- One frame: the routes stay admissible exactly if its source fits. -/
theorem onFrame_admissible_iff (stored : ctx.peers.lookup key = some ps) (pkt : Packet) :
    Admissible own printed (ctx.onFrame key ps duplex pkt).1.routes ↔
      Admissible own printed ctx.routes ∧ ctx.FirstFits own key pkt := by
  have fits : ctx.FirstFits own key pkt ↔ (ps.assignedIp = [] → SourceFits own pkt) := by
    rw [FirstFits,stored]
    simp
  rw [fits]
  rcases ctx.onFrame_cases key ps duplex pkt with ⟨dropped,eq⟩ | ⟨kept,notLearned,eq⟩ | ⟨learns,eq⟩
  · rw [eq]
    refine (and_iff_left fun unassigned bytes source notSkipped => ?_).symm
    rcases dropped with ⟨assigned,-⟩ | ⟨-,-,linkLocal⟩
    · exact absurd unassigned assigned
    · rw [readSrcIp_source source,(skipped_iff (sourceBytes_isAddress source)).1] at linkLocal
      exact absurd linkLocal notSkipped
  · rw [eq]
    refine (and_iff_left_of_imp fun admissible unassigned bytes source notSkipped => ?_).symm
    apply admissible bytes (sourceBytes_isAddress source)
    intro free
    rw [← (skipped_iff (sourceBytes_isAddress source)).1,← readSrcIp_source source] at notSkipped
    rw [← readSrcIp_source source] at free
    exact notLearned ⟨unassigned,by rw [readSrcIp_source source]; exact printed_ne_nil bytes,notSkipped,free⟩
  · obtain ⟨unassigned,readable,notSkipped,-⟩ := learns
    rw [eq]
    cases source : Js.sourceBytes pkt with
    | none =>
      rw [readSrcIp_eq,source] at readable
      exact absurd rfl readable
    | some bytes =>
      have isAddress := sourceBytes_isAddress source
      rw [readSrcIp_source source,(skipped_iff isAddress).1] at notSkipped
      rw [learned,readSrcIp_source source,admissible_add printed_faithful isAddress]
      refine and_congr_right fun _ => ⟨fun mayOwn _ other same _ => ?_,fun fits => fits unassigned bytes source notSkipped⟩
      rw [source] at same
      obtain rfl := Option.some.inj same
      exact mayOwn

/-- All frames of one feed. -/
theorem onFrames_admissible_iff (stored : ctx.peers.lookup key = some ps) (frames : List Packet) :
    Admissible own printed (ctx.onFrames key duplex frames).1.routes ↔ Admissible own printed ctx.routes ∧
      ∀ h ∈ (ctx.onFrames key duplex frames).2, h.before.FirstFits own h.key h.pkt := by
  induction frames generalizing ctx ps with
  | nil => simp [onFrames]
  | cons pkt rest ih =>
    obtain ⟨ps',stored',-,-⟩ := onFrame_peer duplex stored pkt
    simp only [onFrames,stored]
    rw [ih stored',onFrame_admissible_iff stored,List.forall_mem_cons,and_assoc]

theorem next_admissible_iff (ctx : ServerCtx) (e : Event) (openMode : ctx.config.peers = ∅)
    (admissible : Admissible own printed ctx.routes) :
    Admissible own printed (ctx.next e).routes ↔ ctx.FirstPacketsFit own e := by
  cases e with
  | connection remotePk duplex =>
    have same : (ctx.setupPeerStream remotePk duplex).routes = ctx.routes := by simp [setupPeerStream,openMode]
    refine iff_of_true ?_ trivial
    rw [next,same]
    exact admissible
  | message duplex data =>
    simp only [next,FirstPacketsFit]
    cases owner : ctx.ownerOf duplex with
    | none => simpa [onMessage,owner] using admissible
    | some key =>
      obtain ⟨ps,stored,same⟩ := ownerOf_some owner
      rw [onMessage_owner stored owner,onFrames_admissible_iff (AList.lookup_insert _)]
      exact and_iff_right admissible
  | close duplex =>
    refine iff_of_true ?_ trivial
    rw [next]
    cases owner : ctx.ownerOf duplex with
    | none => exact admissible
    | some key =>
      obtain ⟨ps,stored,-⟩ := ownerOf_some owner
      simp only [onClose,stored]
      split_ifs
      · exact admissible
      · exact admissible.remove _
  | tunPacket data => exact iff_of_true admissible trivial

end ServerCtx

namespace Js.Server

variable {s : Server} {own : List Address}

/-- A connection without an address sends one it may own. -/
def FirstFits (own : List Address) (s : Server) (conn : Conn) (packet : Packet) : Prop :=
  ∀ c ∈ s.connections.lookup conn, truthy c.clientIp = none → SourceFits own packet

/-- Every packet of the event that comes from a connection without an address. -/
def FirstPacketsFit (own : List Address) (s : Server) : Event → Prop
  | .data conn chunk => ∀ h ∈ (s.onData conn chunk).2, h.before.FirstFits own h.conn h.packet
  | _ => True

instance (own : List Address) (s : Server) (conn : Conn) (packet : Packet) : Decidable (s.FirstFits own conn packet) :=
  inferInstanceAs (Decidable (∀ _ ∈ _, _))

instance (own : List Address) (s : Server) : ∀ e, Decidable (s.FirstPacketsFit own e)
  | .data .. => inferInstanceAs (Decidable (∀ _ ∈ _, _))
  | .connection .. | .destroy .. | .close .. | .tunData _ => isTrue trivial

theorem onPacket_handed (s : Server) (conn : Conn) (c : Connection) (packet : Packet) :
    (s.onPacket conn c packet).before = s ∧ (s.onPacket conn c packet).packet = packet := by
  unfold onPacket
  dsimp only
  split
  · split_ifs <;> exact ⟨rfl,rfl⟩
  · split
    · split_ifs <;> exact ⟨rfl,rfl⟩
    · exact ⟨rfl,rfl⟩
    · split_ifs <;> exact ⟨rfl,rfl⟩

theorem onPacket_mode (s : Server) (conn : Conn) (c : Connection) (packet : Packet) :
    (s.onPacket conn c packet).after.allowedPeers = s.allowedPeers := by
  rcases s.onPacket_cases conn c packet with ⟨after,-⟩ | ⟨src,-,-,-,-,after,-⟩
  · rw [after]
  · rw [after]
    rfl

theorem onPackets_mode (packets : List Packet) (found : s.connections.lookup conn = some c) :
    (s.onPackets conn packets).1.allowedPeers = s.allowedPeers := by
  induction packets generalizing s c with
  | nil => rfl
  | cons packet rest ih =>
    obtain ⟨c',found'⟩ := onPacket_found found packet
    simp only [onPackets,found]
    rw [ih found',onPacket_mode]

/-- No event changes the mode. -/
theorem next_mode (s : Server) (e : Event) : (s.next e).allowedPeers = s.allowedPeers := by
  cases e with
  | connection conn remotePublicKey => rfl
  | data conn chunk =>
    rw [next,onData]
    cases found : s.connections.lookup conn with
    | none => rfl
    | some c => exact onPackets_mode _ (AList.lookup_insert _)
  | destroy conn =>
    rw [next,onDestroy]
    cases s.connections.lookup conn <;> rfl
  | close conn =>
    rw [next,onClose]
    cases s.connections.lookup conn <;> rfl
  | tunData packet => rfl

/-- One packet: the routes stay admissible exactly if its source fits. -/
theorem onPacket_admissible_iff (openMode : s.allowedPeers = none) (found : s.connections.lookup conn = some c)
    (packet : Packet) : Admissible own formatAddress (s.onPacket conn c packet).after.router ↔
      Admissible own formatAddress s.router ∧ s.FirstFits own conn packet := by
  have fits : s.FirstFits own conn packet ↔ (truthy c.clientIp = none → SourceFits own packet) := by
    rw [FirstFits,found]
    simp
  rw [fits,onPacket,openMode]
  dsimp only
  split
  · rename_i src unlearned source
    rw [readSourceIp_eq] at source
    obtain ⟨bytes,read,rfl⟩ := Option.map_eq_some_iff.mp source
    have isAddress := sourceBytes_isAddress read
    have only : (truthy c.clientIp = none → SourceFits own packet) ↔ (¬Skipped bytes → MayOwn own bytes) := by
      simp [SourceFits,unlearned,read]
    rw [only]
    split_ifs with linkLocal taken
    · refine (and_iff_left fun notSkipped => ?_).symm
      exact absurd ((skipped_iff isAddress).2.mp linkLocal) notSkipped
    · refine (and_iff_left_of_imp fun admissible _ => admissible bytes isAddress fun free => ?_).symm
      rw [Router.getByIp,free] at taken
      contradiction
    · have notSkipped : ¬Skipped bytes := (skipped_iff isAddress).2.not.mp linkLocal
      rw [imp_iff_right notSkipped]
      exact admissible_add formatAddress_faithful isAddress conn
  · rename_i unlearned unreadable
    rw [readSourceIp_eq,Option.map_eq_none_iff] at unreadable
    exact (and_iff_left fun _ bytes source => by rw [unreadable] at source; contradiction).symm
  · rename_i ip learned
    have assigned : truthy c.clientIp ≠ none := by simp [learned]
    split_ifs
    · exact (and_iff_left fun unlearned => absurd unlearned assigned).symm
    · exact (and_iff_left fun unlearned => absurd unlearned assigned).symm

theorem onPackets_admissible_iff (openMode : s.allowedPeers = none) (found : s.connections.lookup conn = some c)
    (packets : List Packet) : Admissible own formatAddress (s.onPackets conn packets).1.router ↔
      Admissible own formatAddress s.router ∧ ∀ h ∈ (s.onPackets conn packets).2, h.before.FirstFits own h.conn h.packet := by
  induction packets generalizing s c with
  | nil => simp [onPackets]
  | cons packet rest ih =>
    obtain ⟨c',found'⟩ := onPacket_found found packet
    simp only [onPackets,found]
    obtain ⟨before,handed⟩ := s.onPacket_handed conn c packet
    rw [ih ((onPacket_mode s conn c packet).trans openMode) found',onPacket_admissible_iff openMode found,
      List.forall_mem_cons,and_assoc,onPacket_conn,before,handed]

theorem next_admissible_iff (s : Server) (e : Event) (openMode : s.allowedPeers = none)
    (admissible : Admissible own formatAddress s.router) :
    Admissible own formatAddress (s.next e).router ↔ s.FirstPacketsFit own e := by
  cases e with
  | connection conn remotePublicKey =>
    have same : (s.onConnection conn remotePublicKey).router = s.router := by simp [onConnection,givenIp,openMode,truthy]
    refine iff_of_true ?_ trivial
    rw [next,same]
    exact admissible
  | data conn chunk =>
    simp only [next,FirstPacketsFit,onData]
    cases found : s.connections.lookup conn with
    | none => exact iff_of_true admissible (by simp)
    | some c =>
      let stored : Server := { s with connections := s.connections.insert conn { c with buffer := (push c.buffer chunk).1 } }
      have mode : stored.allowedPeers = none := openMode
      exact (onPackets_admissible_iff mode (AList.lookup_insert s.connections) _).trans (and_iff_right admissible)
  | destroy conn =>
    refine iff_of_true ?_ trivial
    rw [next,onDestroy]
    cases s.connections.lookup conn <;> exact admissible
  | close conn =>
    refine iff_of_true ?_ trivial
    rw [next,onClose]
    cases s.connections.lookup conn with
    | none => exact admissible
    | some c =>
      dsimp only
      cases truthy c.clientIp with
      | none => exact admissible
      | some ip => exact admissible.remove ip
  | tunData packet => exact iff_of_true admissible trivial

end Js.Server

/-- In open mode the routes of both servers are admissible after every event of a run
exactly if every client without an address sends packets with a source it may own. -/
theorem learned_admissible_iff (config : Config) (openMode : config.peers = ∅) :
    (∀ events, server.Admits (.initial config) events →
      (server.Throughout (fun ctx => Admissible config.ownAddresses printed ctx.routes) (.initial config) events ↔
        server.Along (ServerCtx.FirstPacketsFit config.ownAddresses) (.initial config) events)) ∧
    ∀ events, Js.server.Admits (.initial none) events →
      (Js.server.Throughout (fun s => Admissible config.ownAddresses Js.formatAddress s.router) (.initial none) events ↔
        Js.server.Along (Js.Server.FirstPacketsFit config.ownAddresses) (.initial none) events) := by
  constructor
  · intro events admitted
    exact Machine.throughout_iff_along ServerCtx.OpenInvariant
      (fun ctx e inv _ enabled => ServerCtx.next_open ctx e inv enabled)
      (fun ctx e inv admissible _ => ServerCtx.next_admissible_iff ctx e inv.noPeers admissible)
      (ServerCtx.initial_open config openMode) admissible_empty admitted
  · intro events admitted
    exact Machine.throughout_iff_along (fun s : Js.Server => s.allowedPeers = none)
      (fun s e openMode _ _ => (s.next_mode e).trans openMode)
      (fun s e openMode admissible _ => s.next_admissible_iff e openMode admissible) rfl admissible_empty admitted

/-- The first client of each server sends as 10.0.0.2. -/
theorem learned_admissible_client :
    server.Throughout (fun ctx => Admissible (Config.ownAddresses { ip := "10.0.0.1/24".toList }) printed ctx.routes)
      (.initial { ip := "10.0.0.1/24".toList })
      [.connection (Vector.replicate 32 1) 0,.message 0 (frameEncode (ipv4Packet [10,0,0,2] [8,8,8,8]))] ∧
    Js.server.Throughout
      (fun s => Admissible (Config.ownAddresses { ip := "10.0.0.1/24".toList }) Js.formatAddress s.router)
      (.initial none) [.connection 0 (Vector.replicate 32 1),.data 0 (Js.encode (ipv4Packet [10,0,0,2] [8,8,8,8]))] :=
  ⟨((learned_admissible_iff { ip := "10.0.0.1/24".toList } rfl).1 _ (by decide +kernel)).mpr (by decide +kernel),
    ((learned_admissible_iff { ip := "10.0.0.1/24".toList } rfl).2 _ (by decide +kernel)).mpr (by decide +kernel)⟩

/-- A client that sends as the server takes over its address. -/
theorem learned_serverAddress :
    (¬∀ (config : Config) (events : List Event), config.peers = ∅ → server.Admits (.initial config) events →
      server.Throughout (fun ctx => Admissible config.ownAddresses printed ctx.routes) (.initial config) events) ∧
    ¬∀ (config : Config) (events : List Js.Event), config.peers = ∅ → Js.server.Admits (.initial none) events →
      Js.server.Throughout (fun s => Admissible config.ownAddresses Js.formatAddress s.router) (.initial none) events := by
  constructor
  · intro claim
    have admissible := (claim { ip := "10.0.0.1/24".toList } [.connection (Vector.replicate 32 1) 0,
      .message 0 (frameEncode (ipv4Packet [10,0,0,1] [8,8,8,8]))] rfl (by decide +kernel)).last
    exact absurd (admissible [10,0,0,1] (.inl rfl) (by decide +kernel)).notOwn (by decide +kernel)
  · intro claim
    have admissible := (claim { ip := "10.0.0.1/24".toList } [.connection 0 (Vector.replicate 32 1),
      .data 0 (Js.encode (ipv4Packet [10,0,0,1] [8,8,8,8]))] rfl (by decide +kernel)).last
    exact absurd (admissible [10,0,0,1] (.inl rfl) (by decide +kernel)).notOwn (by decide +kernel)

end Nospoon
