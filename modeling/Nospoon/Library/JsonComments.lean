import Nospoon.Library.JsonGrammar

/-! JSON with comments: a text has comments where it may have blanks, and a stripper that
passes over every token is transparent. -/
namespace Library.Json

/-- Blanks and comments; block comments only where the dialect has them. -/
inductive Gap (blocks : Bool) : List Char → Prop
  | blank (blank : Blank g) : Gap blocks g
  | line (before : Blank g) (body : '\n' ∉ c) (rest : Gap blocks g') :
    Gap blocks (g ++ ('/' :: '/' :: c ++ ['\n']) ++ g')
  | block (known : blocks = true) (before : Blank g) (body : ¬"*/".toList <:+: c) (rest : Gap blocks g') :
    Gap blocks (g ++ ('/' :: '*' :: c ++ ['*','/']) ++ g')

/-- The text has these tokens in order, with comments between them. The last line may be a
comment that no newline ends. -/
inductive Commented (blocks : Bool) : List Token → List Char → Prop
  | done (gap : Gap blocks g) : Commented blocks [] g
  | lastLine (gap : Gap blocks g) (body : '\n' ∉ c) : Commented blocks [] (g ++ '/' :: '/' :: c)
  | token (gap : Gap blocks g) (valid : tok.Valid) (ends : tok.EndsAt t) (rest : Commented blocks toks t) :
    Commented blocks (tok :: toks) (g ++ tok.text ++ t)

/-! ### Strippers -/

section

variable {σ : Type*} (run : σ → List Char → List Char) (code : σ → Prop)

/-- From outside strings and comments, `g` comes out as `h`, and the stripper is outside
again. -/
def Turns (g h : List Char) : Prop := ∀ s, code s → ∃ s', code s' ∧ ∀ r, run s (g ++ r) = h ++ run s' r

/-- What a stripper has to do with the parts of a text; `good` strings are those it passes
over. -/
structure Uncomments (blocks : Bool) (good : Parts → Prop) : Prop where
  nil : ∀ s, code s → run s [] = []
  plain : ∀ c, isWhite c = true ∨ isMark c = true ∨ isWordChar c = true → Turns run code [c] [c]
  str : ∀ s, (∀ p ∈ s, Part.Valid p) → good s → Turns run code (Token.text (.str s)) (Token.text (.str s))
  line : ∀ body, '\n' ∉ body → ∃ h, Blank h ∧ Turns run code ('/' :: '/' :: body ++ ['\n']) h
  lastLine : ∀ s body, code s → '\n' ∉ body → run s ('/' :: '/' :: body) = []
  block : blocks = true → ∀ body, ¬"*/".toList <:+: body → ∃ h, Blank h ∧ Turns run code ('/' :: '*' :: body ++ ['*','/']) h

end

section

variable {σ : Type*} {run : σ → List Char → List Char} {code : σ → Prop} {blocks : Bool} {good : Parts → Prop}

theorem Turns.refl : Turns run code [] [] := fun s inside => ⟨s,inside,fun _ => rfl⟩

theorem Turns.append (first : Turns run code g h) (second : Turns run code g' h') : Turns run code (g ++ g') (h ++ h') := by
  intro s inside
  obtain ⟨s',inside',eq⟩ := first s inside
  obtain ⟨s'',inside'',eq'⟩ := second s' inside'
  refine ⟨s'',inside'',fun r => ?_⟩
  rw [List.append_assoc,eq,eq',List.append_assoc]

variable (strips : Uncomments run code blocks good)

include strips

theorem Uncomments.chars (plain : ∀ c ∈ g, isWhite c = true ∨ isMark c = true ∨ isWordChar c = true) : Turns run code g g := by
  induction g with
  | nil => exact .refl
  | cons c g ih =>
    obtain ⟨here,later⟩ := List.forall_mem_cons.mp plain
    exact (strips.plain c here).append (ih later)

theorem Uncomments.blanks (blank : Blank g) : Turns run code g g := strips.chars fun c member => .inl (blank c member)

theorem Uncomments.gap (gap : Gap blocks g) : ∃ h, Blank h ∧ Turns run code g h := by
  induction gap with
  | blank blank => exact ⟨_,blank,strips.blanks blank⟩
  | line before body rest ih =>
    obtain ⟨h,blank,turns⟩ := strips.line _ body
    obtain ⟨h',blank',turns'⟩ := ih
    exact ⟨_,blank_append (blank_append before blank) blank',((strips.blanks before).append turns).append turns'⟩
  | block known before body rest ih =>
    obtain ⟨h,blank,turns⟩ := strips.block known _ body
    obtain ⟨h',blank',turns'⟩ := ih
    exact ⟨_,blank_append (blank_append before blank) blank',((strips.blanks before).append turns).append turns'⟩

theorem Uncomments.token {tok : Token} (valid : tok.Valid) (passes : ∀ s, tok = .str s → good s) :
    Turns run code tok.text tok.text := by
  cases tok with
  | mark c => exact strips.plain c (.inr (.inl valid))
  | str s => exact strips.str s valid (passes s rfl)
  | word w => exact strips.chars fun c member => .inr (.inr (valid.2 c member))

/-- A text without comments comes out as it went in. -/
theorem Uncomments.lays (lays : Lays toks t u) (passes : ∀ s, .str s ∈ toks → good s) :
    ∃ front, t = front ++ u ∧ Turns run code front front := by
  induction lays with
  | done => exact ⟨[],rfl,.refl⟩
  | token before valid ends rest ih =>
    obtain ⟨front,rfl,turns⟩ := ih fun s member => passes s (List.mem_cons_of_mem _ member)
    have token := strips.token valid fun s same => passes s (same ▸ List.mem_cons_self)
    exact ⟨_,(List.append_assoc ..).symm,((strips.blanks before).append token).append turns⟩

/-- A text with comments comes out with the same tokens and nothing else. -/
theorem Uncomments.commented (commented : Commented blocks toks t) (separated : Separated toks)
    (passes : ∀ s, .str s ∈ toks → good s) (inside : code s) : ∃ r, Lays toks (run s t) r ∧ Blank r := by
  induction commented generalizing s with
  | done gap =>
    obtain ⟨h,blank,turns⟩ := strips.gap gap
    obtain ⟨s',inside',eq⟩ := turns s inside
    have all := eq []
    rw [List.append_nil,strips.nil s' inside',List.append_nil] at all
    rw [all]
    exact ⟨h,.done,blank⟩
  | lastLine gap body =>
    obtain ⟨h,blank,turns⟩ := strips.gap gap
    obtain ⟨s',inside',eq⟩ := turns s inside
    rw [eq,strips.lastLine s' _ inside' body,List.append_nil]
    exact ⟨h,.done,blank⟩
  | token gap valid ends rest ih =>
    obtain ⟨h,blank,turns⟩ := strips.gap gap
    have token := strips.token valid fun s same => passes s (same ▸ List.mem_cons_self)
    obtain ⟨s',inside',eq⟩ := (turns.append token) s inside
    obtain ⟨r,lays,blanks⟩ := ih (List.isChain_of_isChain_cons separated)
      (fun s member => passes s (List.mem_cons_of_mem _ member)) inside'
    rw [eq]
    exact ⟨r,.token blank valid (separated.ends lays blanks) lays,blanks⟩

end

/-! ### A comment more -/

namespace Commented

theorem of_lays (lays : Lays toks t r) (blank : Blank r) : Commented blocks toks t := by
  induction lays with
  | done => exact .done (.blank blank)
  | token before valid ends rest ih => exact .token (.blank before) valid ends (ih blank)

/-- Tokens in front of a text with comments. -/
theorem lead (lays : Lays toks t u) (rest : Commented blocks more u) : Commented blocks (toks ++ more) t := by
  induction lays with
  | done => exact rest
  | token before valid ends _ ih => exact .token (.blank before) valid ends (ih rest)

/-- An empty comment in front of a text. -/
theorem remark (commented : Commented blocks toks t) : Commented blocks toks ('/' :: '/' :: '\n' :: t) := by
  have front {g : List Char} (gap : Gap blocks g) : Gap blocks ('/' :: '/' :: '\n' :: g) :=
    Gap.line (g := []) (c := []) nofun nofun gap
  cases commented with
  | done gap => exact .done (front gap)
  | lastLine gap body => exact .lastLine (front gap) body
  | token gap valid ends rest => exact .token (front gap) valid ends rest

end Commented

theorem tokens_slash (t : List Char) : tokens ('/' :: t) = none := by
  have nothing : nextToken ('/' :: t) = none := rfl
  rw [tokens_nothing nothing,finish]
  exact if_neg (List.cons_ne_nil _ _)

section

variable {σ : Type*} {run : σ → List Char → List Char} {code : σ → Prop} {blocks : Bool} {good : Parts → Prop}

/-- A stripper that is stuck in every string it does not pass over is transparent to
exactly the texts without such strings. -/
theorem Uncomments.transparent_iff (strips : Uncomments run code blocks good)
    (stuck : ∀ s, (∀ p ∈ s, Part.Valid p) → ¬good s → ∀ state, code state → ∀ r, ∃ r',
      run state (Token.text (.str s) ++ '/' :: r) = Token.text (.str s) ++ '/' :: r')
    (start : code state) (separated : Separated toks) (lexed : tokens text = some toks) :
    (∀ t, Commented blocks toks t → tokens (run state t) = some toks) ↔ ∀ s, .str s ∈ toks → good s := by
  classical
  constructor
  · intro transparent
    by_contra some
    -- a comment behind the first string that is not passed over
    obtain ⟨bad,first⟩ : ∃ tok, toks.find? (fun tok => ∃ s, tok = .str s ∧ ¬good s) = Option.some tok := by
      apply Option.isSome_iff_exists.mp
      rw [List.find?_isSome]
      simp only [not_forall] at some
      obtain ⟨s,member,bad⟩ := some
      exact ⟨.str s,member,by simpa using bad⟩
    obtain ⟨found,front,back,rfl,earlier⟩ := List.find?_eq_some_iff_append.mp first
    obtain ⟨s,rfl,bad⟩ := of_decide_eq_true found
    have passes : ∀ s', .str s' ∈ front → good s' := by
      intro s' member
      have none := earlier _ member
      simp only [Bool.not_eq_true',decide_eq_false_iff_not,not_exists,not_and,not_not] at none
      exact none s' rfl
    obtain ⟨r,lays,blank⟩ := tokens_eq_some.mp lexed
    obtain ⟨u,leading,rest⟩ := lays.split
    obtain ⟨t,next,trailing⟩ := rest.next
    obtain ⟨g,rfl,before,valid,-⟩ := nextToken_eq_some.mp next
    obtain ⟨f,rfl,follows⟩ := leading.follow
    have ends (t : List Char) : Ends (g ++ Token.text (.str s) ++ t) := by
      intro c head
      cases g with
      | nil =>
        obtain rfl := Option.some.inj head
        rfl
      | cons d g =>
        obtain rfl := Option.some.inj head
        exact (white_char (before d List.mem_cons_self)).2.1
    have laid (t : List Char) := follows (g ++ Token.text (.str s) ++ t) fun _ => ends t
    obtain ⟨f',same,turns⟩ := strips.lays leading passes
    obtain rfl := List.append_cancel_right same
    obtain ⟨state',inside,eq⟩ := (turns.append (strips.blanks before)) state start
    obtain ⟨r',out⟩ := stuck s valid bad state' inside ('/' :: '\n' :: t)
    have result := transparent _ (Commented.lead (laid _)
      (.token (.blank before) valid trivial (Commented.of_lays trailing blank).remark))
    have stripped : run state (f ++ (g ++ Token.text (.str s) ++ ('/' :: '/' :: '\n' :: t))) =
        f ++ (g ++ Token.text (.str s) ++ '/' :: r') := by
      have all := eq (Token.text (.str s) ++ '/' :: '/' :: '\n' :: t)
      rw [out] at all
      simpa only [List.append_assoc] using all
    rw [stripped,tokens_lead ((laid _).append (.token (t := '/' :: r') before valid trivial .done)),tokens_slash] at result
    contradiction
  · intro passes t commented
    obtain ⟨r,lays,blank⟩ := strips.commented commented separated passes start
    exact tokens_eq_some.mpr ⟨r,lays,blank⟩

end

end Library.Json
