import Nospoon.ConfigText
import Nospoon.Js.LoadConfig
import Nospoon.Library.JsonComments

/-! What the two comment strippers do to JSON with comments. Each looks at one previous
character to tell whether a quote ends a string, so a string that ends in an escaped
backslash does not end for them. -/
namespace Nospoon

open Library Library.Json

/-! ### Strings -/

/-- The last part of the string is an escaped backslash; of an empty string, the part in
front of it. -/
def EndsEscaped (before : Prop) : Parts → Prop
  | [] => before
  | p :: s => EndsEscaped (p = .escape '\\') s

/-- A string that the strippers pass over. -/
def Closes (s : Parts) : Prop := s.getLast? ≠ some (.escape '\\')

theorem endsEscaped_iff (before : Prop) (s : Parts) : EndsEscaped before s ↔ s.getLast?.elim before (· = .escape '\\') := by
  induction s generalizing before with
  | nil => exact Iff.rfl
  | cons p s ih =>
    rw [EndsEscaped,ih]
    cases s with
    | nil => exact Iff.rfl
    | cons q s => rw [List.getLast?_cons_cons]; cases h : (q :: s).getLast? with
      | none => simp at h
      | some last => exact Iff.rfl

theorem endsEscaped_false {s : Parts} : EndsEscaped False s ↔ ¬Closes s := by
  rw [endsEscaped_iff,Closes,not_not]
  cases s.getLast? with
  | none => simp
  | some p => simp

/-- A scanner inside a string that knows the previous character. Quotes behind a backslash
do not stop it. -/
def ScansString (scan : Char → Text → Text) : Prop :=
  ∀ prev c r, 32 ≤ c.toNat → (c = '"' → prev = '\\') → scan prev (c :: r) = c :: scan c r

theorem scan_chars {scan : Char → Text → Text} (scans : ScansString scan) (plain : ∀ c ∈ x, 32 ≤ c.toNat ∧ c ≠ '"' ∧ c ≠ '\\')
    (prev : Char) (nonempty : x ≠ []) :
    ∃ last, last ≠ '\\' ∧ ∀ r, scan prev (x ++ r) = x ++ scan last r := by
  induction x generalizing prev with
  | nil => exact absurd rfl nonempty
  | cons c x ih =>
    obtain ⟨here,later⟩ := List.forall_mem_cons.mp plain
    have step (r : Text) : scan prev (c :: r) = c :: scan c r := scans prev c r here.1 fun quote => absurd quote here.2.1
    cases x with
    | nil => exact ⟨c,here.2.2,step⟩
    | cons d x =>
      obtain ⟨last,differs,eq⟩ := ih later c (List.cons_ne_nil _ _)
      refine ⟨last,differs,fun r => ?_⟩
      rw [List.cons_append,step,eq]
      rfl

theorem xdigit_char (hex : isXDigit c = true) : 32 ≤ c.toNat := by
  simp only [isXDigit,Bool.or_eq_true,Bool.and_eq_true,decide_eq_true_eq,Char.isDigit,Char.le_def] at hex
  rcases hex with (⟨low,-⟩ | ⟨low,-⟩) | ⟨low,-⟩
  all_goals
    have le := UInt32.le_iff_toNat_le.mp low
    exact le_trans (by decide) le

/-- One part of a string. -/
theorem scan_part {scan : Char → Text → Text} (scans : ScansString scan) {p : Part} (valid : p.Valid) (prev : Char) :
    ∃ last, (last = '\\' ↔ p = .escape '\\') ∧ ∀ r, scan prev (p.text ++ r) = p.text ++ scan last r := by
  cases p with
  | char c =>
    obtain ⟨last,differs,eq⟩ := scan_chars scans (x := [c]) (List.forall_mem_singleton.mpr valid) prev (List.cons_ne_nil _ _)
    exact ⟨last,iff_of_false differs (by simp),eq⟩
  | escape e =>
    have printed : 32 ≤ e.toNat := by
      have all : ∀ e ∈ simpleEscapes, 32 ≤ e.toNat := by
        unfold simpleEscapes
        simp only [List.forall_mem_cons,List.not_mem_nil,false_implies,implies_true,and_true]
        decide
      exact all e valid
    refine ⟨e,by simp,fun r => ?_⟩
    rw [Part.text,List.cons_append,List.cons_append,List.nil_append,scans prev '\\' _ (by decide) fun same => absurd same (by decide),
      scans '\\' e r printed fun _ => rfl]
    rfl
  | unit digits =>
    have plain : ∀ c ∈ 'u' :: digits, 32 ≤ c.toNat ∧ c ≠ '"' ∧ c ≠ '\\' := by
      refine List.forall_mem_cons.mpr ⟨by decide,fun c member => ?_⟩
      have hex := valid.2 c member
      refine ⟨xdigit_char hex,?_,?_⟩ <;> (rintro rfl; exact absurd hex (by decide))
    obtain ⟨last,differs,eq⟩ := scan_chars scans plain '\\' (List.cons_ne_nil _ _)
    refine ⟨last,iff_of_false differs (by simp),fun r => ?_⟩
    have text : Part.text (.unit digits) ++ r = '\\' :: ('u' :: digits ++ r) := rfl
    rw [text,scans prev '\\' _ (by decide) fun same => absurd same (by decide),eq]
    rfl

/-- The scanner goes through a string up to its closing quote. -/
theorem scan_spelled {scan : Char → Text → Text} (scans : ScansString scan) {s : Parts} (valid : ∀ p ∈ s, Part.Valid p)
    (prev : Char) : ∃ last, (last = '\\' ↔ EndsEscaped (prev = '\\') s) ∧
      ∀ r, scan prev (spelled s ++ r) = spelled s ++ scan last r := by
  induction s generalizing prev with
  | nil => exact ⟨prev,Iff.rfl,fun _ => rfl⟩
  | cons p s ih =>
    obtain ⟨here,later⟩ := List.forall_mem_cons.mp valid
    obtain ⟨mid,first,eq⟩ := scan_part scans here prev
    obtain ⟨last,second,eq'⟩ := ih later mid
    refine ⟨last,?_,fun r => ?_⟩
    · rw [EndsEscaped,← propext first]
      exact second
    · have front : spelled (p :: s) = p.text ++ spelled s := List.flatMap_cons
      rw [front,List.append_assoc,eq,eq',List.append_assoc]

/-! ### The C++ stripper -/

theorem scansString_cpp : ScansString fun prev t => stripFrom (.string prev) t := by
  intro prev c r _ escaped
  show stripFrom (.string prev) (c :: r) = c :: stripFrom (.string c) r
  rw [stripFrom,if_neg fun h => h.2 (escaped h.1)]

/-- Code stays code behind a string that closes; behind another the string goes on. -/
theorem stripFrom_str {s : Parts} (valid : ∀ p ∈ s, Part.Valid p) : ∃ mode, (mode = .code ↔ Closes s) ∧
    (mode = .code ∨ mode = .string '"') ∧
      ∀ r, stripFrom .code (Token.text (.str s) ++ r) = Token.text (.str s) ++ stripFrom mode r := by
  obtain ⟨last,ends,eq⟩ := scan_spelled scansString_cpp valid '"'
  have never : ('"' = '\\') = False := by decide
  rw [never,endsEscaped_false] at ends
  refine ⟨if last = '\\' then .string '"' else .code,?_,?_,fun r => ?_⟩
  · split_ifs with escaped
    · exact iff_of_false nofun (ends.mp escaped)
    · exact iff_of_true rfl (not_not.mp fun h => escaped (ends.mpr h))
  · split_ifs
    · exact .inr rfl
    · exact .inl rfl
  · have body := eq ('"' :: r)
    have text : Token.text (.str s) ++ r = '"' :: (spelled s ++ '"' :: r) := by simp [Token.text]
    rw [text,stripFrom]
    refine (congrArg ('"' :: ·) body).trans ?_
    have close : stripFrom (.string last) ('"' :: r) = '"' :: stripFrom (if last = '\\' then .string '"' else .code) r := by
      rw [stripFrom]
      split_ifs <;> simp_all
    show '"' :: (spelled s ++ stripFrom (.string last) ('"' :: r)) = _
    rw [close]
    simp [Token.text]

theorem strips_turns (strips : Strips g h) : Turns stripFrom (· = .code) g h := by
  rintro _ rfl
  exact ⟨.code,rfl,strips⟩

theorem stripFrom_block (more : ¬"*/".toList <+: c :: t) : stripFrom .block (c :: t) = stripFrom .block t := by
  rw [stripFrom]
  rintro rest rfl rfl
  exact more ⟨rest,rfl⟩

/-- A block comment goes up to its first end. -/
theorem strips_block (body : ¬"*/".toList <:+: c) : Strips ('/' :: '*' :: c ++ ['*','/']) [] := by
  have inside (r : Text) : stripFrom .block (c ++ '*' :: '/' :: r) = stripFrom .code r := by
    induction c with
    | nil => rfl
    | cons a c ih =>
      rw [List.infix_cons_iff,not_or] at body
      refine (stripFrom_block fun h => ?_).trans (ih body.2)
      obtain ⟨rest,same⟩ := h
      obtain ⟨rfl,tail⟩ := List.cons.inj same
      cases c with
      | nil => exact absurd (List.cons.inj tail).1 (by decide)
      | cons b c =>
        obtain ⟨rfl,-⟩ := List.cons.inj tail
        exact body.1 ⟨c,rfl⟩
  intro r
  have text : '/' :: '*' :: c ++ ['*','/'] ++ r = '/' :: '*' :: (c ++ '*' :: '/' :: r) := by simp
  rw [text,stripFrom]
  exact inside r

theorem stripFrom_line (body : '\n' ∉ c) : stripFrom .line c = [] := by
  induction c with
  | nil => rfl
  | cons a c ih =>
    obtain ⟨differs,later⟩ := not_or.mp (List.mem_cons.not.mp body)
    rw [stripFrom,if_neg (Ne.symm differs),ih later]

theorem layout_char (plain : isWhite c = true ∨ isMark c = true ∨ isWordChar c = true) : c ≠ '"' ∧ c ≠ '/' ∧ c ≠ '\\' := by
  refine ⟨?_,?_,?_⟩
  all_goals
    rintro rfl
    revert plain
    decide

theorem uncomments_cpp : Uncomments stripFrom (· = .code) true Closes where
  nil := by
    rintro _ rfl
    rfl
  plain c plain := strips_turns (strips_clean (List.forall_mem_singleton.mpr ⟨(layout_char plain).1,(layout_char plain).2.1⟩))
  str s valid closes := by
    rintro _ rfl
    obtain ⟨mode,code,-,eq⟩ := stripFrom_str valid
    exact ⟨mode,code.mpr closes,eq⟩
  line body inside := ⟨[],nofun,strips_turns (strips_comment inside)⟩
  lastLine := by
    rintro _ body rfl inside
    rw [stripFrom,stripFrom_line inside]
  block _ body inside := ⟨[],nofun,strips_turns (strips_block inside)⟩

theorem stuck_cpp (s : Parts) (valid : ∀ p ∈ s, Part.Valid p) (bad : ¬Closes s) (mode : StripMode) (code : mode = .code) (r : Text) :
    ∃ r', stripFrom mode (Token.text (.str s) ++ '/' :: r) = Token.text (.str s) ++ '/' :: r' := by
  subst code
  obtain ⟨mode,code,states,eq⟩ := stripFrom_str valid
  obtain rfl := states.resolve_left fun same => bad (code.mp same)
  refine ⟨stripFrom (.string '/') r,?_⟩
  rw [eq,stripFrom,if_neg fun h => absurd h.1 (by decide)]

/-! ### The JavaScript stripper -/

namespace Js

/-- The stripper in the middle of a line. -/
def cutText (inString : Bool) (prev : Option Char) (t : Text) : Text :=
  match splitFirst '\n' t with
  | none => cutLine inString prev t
  | some (line,rest) => cutLine inString prev line ++ '\n' :: stripComments rest

theorem stripComments_eq (t : Text) : stripComments t = cutText false none t := by
  unfold cutText
  cases h : splitFirst '\n' t with
  | none =>
    rw [stripComments,List.splitOn_eq_singleton (splitFirst_eq_none.mp h)]
    exact List.append_nil _
  | some r =>
    obtain ⟨rfl,absent⟩ := splitFirst_eq_some.mp (show splitFirst '\n' t = some (r.1,r.2) from h)
    rw [stripComments,List.splitOn_append_cons_self_of_not_mem absent,List.map_cons,
      List.intercalate_cons_of_ne_nil (by simp [List.splitOn_ne_nil]),List.append_assoc]
    rfl

theorem cutText_newline (inString : Bool) (prev : Option Char) (t : Text) :
    cutText inString prev ('\n' :: t) = '\n' :: cutText false none t := by
  rw [← stripComments_eq,cutText,splitFirst,if_pos rfl]
  rfl

def toggled (inString : Bool) (prev : Option Char) (c : Char) : Bool :=
  if c = '"' ∧ prev ≠ some '\\' then !inString else inString

/-- A character that starts no comment stays. -/
theorem cutText_keep (other : c ≠ '\n') (keeps : toggled inString prev c = true ∨ c ≠ '/' ∨ t.head? ≠ some '/') :
    cutText inString prev (c :: t) = c :: cutText (toggled inString prev c) (some c) t := by
  have keep {line : Text} (first : line.head? = some '/' → t.head? = some '/') :
      cutLine inString prev (c :: line) = c :: cutLine (toggled inString prev c) (some c) line := by
    have stays : ¬((!toggled inString prev c) = true ∧ c = '/' ∧ line.head? = some '/') := by
      rintro ⟨outside,slash,next⟩
      rcases keeps with inside | differs | alone
      · rw [inside] at outside
        contradiction
      · exact differs slash
      · exact alone (first next)
    rw [cutLine]
    exact if_neg stays
  unfold cutText
  rw [splitFirst,if_neg other]
  cases h : splitFirst '\n' t with
  | none => exact keep id
  | some r =>
    obtain ⟨rfl,-⟩ := splitFirst_eq_some.mp (show splitFirst '\n' t = some (r.1,r.2) from h)
    have first : r.1.head? = some '/' → (r.1 ++ '\n' :: r.2).head? = some '/' := by
      intro next
      rw [List.head?_append,next]
      rfl
    show cutLine inString prev (c :: r.1) ++ _ = _
    rw [keep first]
    rfl

/-- A comment is cut off its line. -/
theorem cutText_comment (prev : Option Char) (body : '\n' ∉ c) (r : Text) :
    cutText false prev ('/' :: '/' :: c ++ '\n' :: r) = '\n' :: cutText false none r := by
  have line : '\n' ∉ '/' :: '/' :: c := by simp [body]
  rw [cutText,splitFirst_append line,← stripComments_eq]
  rfl

theorem cutText_lastLine (prev : Option Char) (body : '\n' ∉ c) : cutText false prev ('/' :: '/' :: c) = [] := by
  have line : '\n' ∉ '/' :: '/' :: c := by simp [body]
  rw [cutText,splitFirst_eq_none.mpr line]
  rfl

theorem toggled_same (escaped : c = '"' → prev = some '\\') : toggled inString prev c = inString :=
  if_neg fun h => h.2 (escaped h.1)

theorem scansString_js : ScansString fun prev t => cutText true (some prev) t := by
  intro prev c r printed escaped
  have same : toggled true (some prev) c = true := toggled_same fun quote => congrArg some (escaped quote)
  have other : c ≠ '\n' := by
    rintro rfl
    exact absurd printed (by decide)
  have step := cutText_keep (t := r) other (.inl same)
  rw [same] at step
  exact step

/-- As for the other stripper: a string that does not close goes on. -/
theorem cutText_str {s : Parts} (valid : ∀ p ∈ s, Part.Valid p) (outside : prev ≠ some '\\') :
    ∃ inString, (inString = false ↔ Closes s) ∧
      ∀ r, cutText false prev (Token.text (.str s) ++ r) = Token.text (.str s) ++ cutText inString (some '"') r := by
  obtain ⟨last,ends,eq⟩ := scan_spelled scansString_js valid '"'
  have never : ('"' = '\\') = False := by decide
  rw [never,endsEscaped_false] at ends
  refine ⟨toggled true (some last) '"',?_,fun r => ?_⟩
  · unfold toggled
    split_ifs with closed
    · exact iff_of_true rfl (not_not.mp fun h => closed.2 (congrArg some (ends.mpr h)))
    · refine iff_of_false nofun (ends.mp ?_)
      by_contra differs
      exact closed ⟨rfl,fun same => differs (Option.some.inj same)⟩
  · have opened : toggled false prev '"' = true := if_pos ⟨rfl,outside⟩
    have opening := cutText_keep (t := spelled s ++ '"' :: r) (by decide) (.inl opened)
    have closing := cutText_keep (t := r) (by decide)
      (.inr (.inl (by decide)) : toggled true (some last) '"' = true ∨ '"' ≠ '/' ∨ _)
    have body : cutText true (some '"') (spelled s ++ '"' :: r) = spelled s ++ cutText true (some last) ('"' :: r) :=
      eq ('"' :: r)
    have text : Token.text (.str s) ++ r = '"' :: (spelled s ++ '"' :: r) := by simp [Token.text]
    rw [text,opening,opened,body,closing]
    simp [Token.text]

theorem uncomments_js : Uncomments (cutText false) (· ≠ some '\\') false Closes where
  nil _ _ := rfl
  plain c plain := by
    intro prev outside
    obtain ⟨noQuote,noSlash,noEscape⟩ := layout_char plain
    by_cases newline : c = '\n'
    · subst newline
      exact ⟨none,nofun,cutText_newline false prev⟩
    · have same : toggled false prev c = false := toggled_same fun quote => absurd quote noQuote
      refine ⟨some c,fun h => noEscape (Option.some.inj h),fun r => ?_⟩
      have step := cutText_keep (t := r) newline (.inr (.inl noSlash) : toggled false prev c = true ∨ _)
      rw [same] at step
      exact step
  str s valid closes := by
    intro prev outside
    obtain ⟨inString,closed,eq⟩ := cutText_str valid outside
    obtain rfl := closed.mpr closes
    exact ⟨some '"',by decide,eq⟩
  line body inside := by
    refine ⟨['\n'],List.forall_mem_singleton.mpr rfl,fun prev _ => ⟨none,nofun,fun r => ?_⟩⟩
    rw [List.append_assoc]
    exact cutText_comment prev inside r
  lastLine prev _ _ inside := cutText_lastLine prev inside
  block := nofun

theorem stuck_js (s : Parts) (valid : ∀ p ∈ s, Part.Valid p) (bad : ¬Closes s) (prev : Option Char) (outside : prev ≠ some '\\')
    (r : Text) : ∃ r', cutText false prev (Token.text (.str s) ++ '/' :: r) = Token.text (.str s) ++ '/' :: r' := by
  obtain ⟨inString,closed,eq⟩ := cutText_str valid outside
  have goes : inString = true := by
    cases inString with
    | true => rfl
    | false => exact absurd (closed.mp rfl) bad
  subst goes
  refine ⟨cutText true (some '/') r,?_⟩
  rw [eq,cutText_keep (by decide) (.inl rfl)]
  rfl

end Js

/-! ### Transparency -/

/-- Stripping leaves the tokens of a JSON text, whatever comments stand between them, for
both strippers exactly where no string ends in an escaped backslash. -/
theorem stripComments_transparent_iff (wellFormed : parse text = some v) (lexed : tokens text = some toks) :
    ((∀ t, Commented true toks t → tokens (stripComments t) = some toks) ↔ ∀ s, .str s ∈ toks → Closes s) ∧
      ((∀ t, Commented false toks t → tokens (Js.stripComments t) = some toks) ↔ ∀ s, .str s ∈ toks → Closes s) := by
  obtain ⟨toks',again,derives⟩ := derives_of_parse wellFormed
  obtain rfl := Option.some.inj (lexed.symm.trans again)
  refine ⟨uncomments_cpp.transparent_iff stuck_cpp rfl derives.separated lexed,?_⟩
  have js := Js.uncomments_js.transparent_iff Js.stuck_js (nofun : (none : Option Char) ≠ some '\\') derives.separated lexed
  simp only [← Js.stripComments_eq] at js
  exact js

/-- `{"a":true}`. -/
def flagTokens : List Token := [.mark '{',.str [.char 'a'],.mark ':',.word "true".toList,.mark '}']

theorem stripComments_transparent_flag :
    (∀ t, Commented true flagTokens t → tokens (stripComments t) = some flagTokens) ∧
      ∀ t, Commented false flagTokens t → tokens (Js.stripComments t) = some flagTokens := by
  have lexed : tokens "\x7b\"a\":true\x7d".toList = some flagTokens := by decide +kernel
  have yes : Spells "true".toList (.bool true) := (rfl : readBare "true".toList = some (.bool true,[]))
  have wellFormed := parse_of_derives lexed (.members (.lastMember (.word yes)))
  have closes : ∀ s, .str s ∈ flagTokens → Closes s := by
    intro s member
    simp only [flagTokens,List.mem_cons,List.not_mem_nil,or_false,reduceCtorEq,false_or,Token.str.injEq] at member
    rw [member]
    unfold Closes
    decide
  obtain ⟨cpp,js⟩ := stripComments_transparent_iff wellFormed lexed
  exact ⟨cpp.mpr closes,js.mpr closes⟩

/-- `{"a":"\\"}`. -/
def escapedTokens : List Token := [.mark '{',.str [.char 'a'],.mark ':',.str [.escape '\\'],.mark '}']

/-- The comment behind a string that ends in an escaped backslash stays in the text. -/
theorem stripComments_stuck :
    (∃ text v t, parse text = some v ∧ tokens text = some escapedTokens ∧ Commented true escapedTokens t ∧
      tokens (stripComments t) ≠ some escapedTokens) ∧
    ∃ text v t, parse text = some v ∧ tokens text = some escapedTokens ∧ Commented false escapedTokens t ∧
      tokens (Js.stripComments t) ≠ some escapedTokens := by
  have lexed : tokens "\x7b\"a\":\"\\\\\"\x7d".toList = some escapedTokens := by decide +kernel
  have wellFormed := parse_of_derives lexed (.members (.lastMember .str))
  have commented (blocks : Bool) : Commented blocks escapedTokens "\x7b\"a\":\"\\\\\"//\n\x7d".toList := by
    have name : Token.Valid (.str [.char 'a']) := List.forall_mem_singleton.mpr
      (show 32 ≤ 'a'.toNat ∧ 'a' ≠ '"' ∧ 'a' ≠ '\\' by decide)
    have value : Token.Valid (.str [.escape '\\']) := List.forall_mem_singleton.mpr (show '\\' ∈ simpleEscapes by decide)
    have mark (c : Char) (valid : isMark c = true) : Token.Valid (.mark c) := valid
    have empty : Gap blocks [] := .blank nofun
    have last : Commented blocks [.mark '}'] ('/' :: '/' :: '\n' :: ['}']) :=
      (Commented.token (t := []) empty (mark '}' rfl) trivial (.done empty)).remark
    exact .token (g := []) empty (mark '{' rfl) trivial (.token (g := []) empty name trivial
      (.token (g := []) empty (mark ':' rfl) trivial (.token (g := []) empty value trivial last)))
  exact ⟨⟨_,_,_,wellFormed,lexed,commented true,by decide +kernel⟩,
    _,_,_,wellFormed,lexed,commented false,by decide +kernel⟩

end Nospoon
