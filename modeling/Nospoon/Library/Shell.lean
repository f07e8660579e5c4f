import Mathlib.Data.List.Basic

/-! How a POSIX shell recognises the tokens of a command line, for lines without
expansions. Where a line asks for one (a parameter, a command, a pattern, a home directory)
or ends inside quotes, there are no tokens. A word is given after quote removal. -/
namespace Library.Shell

inductive Token where
  | word (text : List Char)
  /-- The number of a file in front of a redirection. -/
  | io (number : List Char)
  | op (text : List Char)
  deriving DecidableEq

/-- Where the reader stands. A word is `bare` while nothing of it was quoted. -/
inductive Mode where
  | between
  | word (text : List Char) (bare : Bool)
  | escape (before : Option (List Char × Bool))
  | single (text : List Char)
  | double (text : List Char)
  | doubleEscape (text : List Char)
  | op (text : List Char)
  | comment
  deriving DecidableEq

structure State where
  done : List Token
  mode : Mode
  deriving DecidableEq

def isGap (c : Char) : Bool := c = ' ' || c = '\t'

def operators : List (List Char) :=
  ["&","&&","|","||",";",";;","<","<<","<<-","<&","<>",">",">>",">&",">|","(",")"].map String.toList

def startsOperator (c : Char) : Bool := c ∈ ['&','|',';','<','>','(',')']

/-- Parameters, commands and patterns. -/
def isExpansion (c : Char) : Bool := c ∈ ['$','\x60','*','?','[']

def isQuote (c : Char) : Bool := c ∈ ['\\','\x27','"']

/-- A character of a word that ends nothing. -/
def inWord (text : List Char) (bare : Bool) (c : Char) : Option Mode :=
  if c = '\\' then some (.escape (some (text,bare)))
  else if c = '\x27' then some (.single text)
  else if c = '"' then some (.double text)
  else if isExpansion c then none
  else some (.word (text ++ [c]) bare)

/-- A character where a token may start. -/
def start (done : List Token) (c : Char) : Option State :=
  if isGap c then some ⟨done,.between⟩
  else if c = '\n' then some ⟨done ++ [.op [c]],.between⟩
  else if startsOperator c then some ⟨done,.op [c]⟩
  else if c = '#' then some ⟨done,.comment⟩
  else if c = '~' then none
  else if c = '\\' then some ⟨done,.escape none⟩
  else (inWord [] true c).map fun mode => ⟨done,mode⟩

/-- A word in front of an operator; digits in front of a redirection are no word. -/
def endedBy (text : List Char) (bare : Bool) (c : Char) : Token :=
  if bare && text.all Char.isDigit && (c = '<' || c = '>') then .io text else .word text

def step (s : State) (c : Char) : Option State :=
  match s.mode with
  | .between => start s.done c
  | .word text bare =>
    if isGap c then some ⟨s.done ++ [.word text],.between⟩
    else if c = '\n' then some ⟨s.done ++ [.word text,.op [c]],.between⟩
    else if startsOperator c then some ⟨s.done ++ [endedBy text bare c],.op [c]⟩
    else (inWord text bare c).map fun mode => ⟨s.done,mode⟩
  | .escape before =>
    -- an escaped newline is no character at all
    if c = '\n' then some ⟨s.done,before.elim .between fun word => .word word.1 word.2⟩
    else some ⟨s.done,.word (before.elim [] Prod.fst ++ [c]) false⟩
  | .single text => some ⟨s.done,if c = '\x27' then .word text false else .single (text ++ [c])⟩
  | .double text =>
    if c = '"' then some ⟨s.done,.word text false⟩
    else if c = '\\' then some ⟨s.done,.doubleEscape text⟩
    else if c = '$' ∨ c = '\x60' then none
    else some ⟨s.done,.double (text ++ [c])⟩
  | .doubleEscape text =>
    if c = '\n' then some ⟨s.done,.double text⟩
    else if c ∈ ['$','\x60','"','\\'] then some ⟨s.done,.double (text ++ [c])⟩
    else some ⟨s.done,.double (text ++ ['\\',c])⟩
  | .op text =>
    if operators.contains (text ++ [c]) then some ⟨s.done,.op (text ++ [c])⟩
    else start (s.done ++ [.op text]) c
  | .comment => some (if c = '\n' then ⟨s.done ++ [.op [c]],.between⟩ else s)

def run (s : State) : List Char → Option State
  | [] => some s
  | c :: line => (step s c).bind fun s => run s line

/-- The tokens at the end of a line. -/
def State.finish (s : State) : Option (List Token) :=
  match s.mode with
  | .between | .comment => some s.done
  | .word text _ => some (s.done ++ [.word text])
  | .op text => some (s.done ++ [.op text])
  | .escape _ | .single _ | .double _ | .doubleEscape _ => none

def lex (line : List Char) : Option (List Token) := (run ⟨[],.between⟩ line).bind State.finish

theorem run_append (s : State) (front back : List Char) :
    run s (front ++ back) = (run s front).bind fun s => run s back := by
  induction front generalizing s with
  | nil => rfl
  | cons c front ih =>
    rw [List.cons_append,run,run,Option.bind_assoc]
    exact Option.bind_congr fun s _ => ih s

/-! ### PlainWord words -/

/-- A character that stands for itself inside a word. -/
def Ordinary (c : Char) : Prop :=
  isGap c = false ∧ c ≠ '\n' ∧ startsOperator c = false ∧ isQuote c = false ∧ isExpansion c = false

instance (c : Char) : Decidable (Ordinary c) := inferInstanceAs (Decidable (_ ∧ _))

/-- A text that reads as one word, itself. -/
structure PlainWord (text : List Char) : Prop where
  nonempty : text ≠ []
  ordinary : ∀ c ∈ text, Ordinary c
  head : text.head? ≠ some '#' ∧ text.head? ≠ some '~'

instance (text : List Char) : Decidable (PlainWord text) :=
  decidable_of_iff (text ≠ [] ∧ text.all (fun c => decide (Ordinary c)) = true ∧
      text.head? ≠ some '#' ∧ text.head? ≠ some '~')
    ⟨fun h => ⟨h.1,fun c member => of_decide_eq_true (List.all_eq_true.mp h.2.1 c member),h.2.2⟩,
      fun h => ⟨h.nonempty,List.all_eq_true.mpr fun c member => decide_eq_true (h.ordinary c member),h.head⟩⟩

theorem Ordinary.noQuote (h : Ordinary c) : c ≠ '\\' ∧ c ≠ '\x27' ∧ c ≠ '"' := by
  have quote := h.2.2.2.1
  refine ⟨?_,?_,?_⟩
  all_goals
    rintro rfl
    contradiction

theorem inWord_ordinary (h : Ordinary c) (text : List Char) (bare : Bool) :
    inWord text bare c = some (.word (text ++ [c]) bare) := by
  obtain ⟨noEscape,noSingle,noDouble⟩ := h.noQuote
  rw [inWord,if_neg noEscape,if_neg noSingle,if_neg noDouble,if_neg (by rw [h.2.2.2.2]; decide)]

theorem step_ordinary (h : Ordinary c) (done : List Token) (text : List Char) (bare : Bool) :
    step ⟨done,.word text bare⟩ c = some ⟨done,.word (text ++ [c]) bare⟩ := by
  have stays := inWord_ordinary h text bare
  obtain ⟨noGap,noLine,noOperator,-⟩ := h
  simp only [step,noGap,noLine,noOperator,stays,Option.map_some,Bool.false_eq_true,↓reduceIte]

theorem run_ordinary {word : List Char} (h : ∀ c ∈ word, Ordinary c) (done : List Token) (text : List Char) (bare : Bool) :
    run ⟨done,.word text bare⟩ word = some ⟨done,.word (text ++ word) bare⟩ := by
  induction word generalizing text with
  | nil => rw [run,List.append_nil]
  | cons c word ih =>
    obtain ⟨here,later⟩ := List.forall_mem_cons.mp h
    rw [run,step_ordinary here,Option.bind_some,ih later,List.append_assoc]
    rfl

theorem run_plain {word : List Char} (h : PlainWord word) (done : List Token) :
    run ⟨done,.between⟩ word = some ⟨done,.word word true⟩ := by
  obtain ⟨nonempty,ordinary,noComment,noHome⟩ := h
  cases word with
  | nil => contradiction
  | cons c word =>
    obtain ⟨here,later⟩ := List.forall_mem_cons.mp ordinary
    obtain ⟨noEscape,-⟩ := here.noQuote
    have begins := inWord_ordinary here [] true
    have first : step ⟨done,.between⟩ c = some ⟨done,.word [c] true⟩ := by
      have notComment : c ≠ '#' := fun same => noComment (congrArg some same)
      have notHome : c ≠ '~' := fun same => noHome (congrArg some same)
      obtain ⟨noGap,noLine,noOperator,-⟩ := here
      simp only [step,start,noGap,noLine,noOperator,notComment,notHome,noEscape,begins,Option.map_some,
        Bool.false_eq_true,↓reduceIte,List.nil_append]
    rw [run,first,Option.bind_some,run_ordinary later]
    rfl

/-! ### What a line can weigh

The characters of the words, and `k` for each finished word. A character of the line adds
at most one. -/

def Token.weight (k : Nat) : Token → Nat
  | .word text => text.length + k
  | .io _ | .op _ => 0

def Mode.weight : Mode → Nat
  | .word text _ | .single text | .double text => text.length
  | .escape before => before.elim 0 fun word => word.1.length
  -- the backslash may yet be a character of the word
  | .doubleEscape text => text.length + 1
  | .between | .op _ | .comment => 0

def weigh (k : Nat) : List Token → Nat
  | [] => 0
  | token :: tokens => token.weight k + weigh k tokens

def State.weight (k : Nat) (s : State) : Nat := weigh k s.done + s.mode.weight

theorem weigh_append (k : Nat) (front back : List Token) : weigh k (front ++ back) = weigh k front + weigh k back := by
  induction front with
  | nil => exact (Nat.zero_add _).symm
  | cons token front ih => rw [List.cons_append,weigh,weigh,ih,Nat.add_assoc]

@[simp] theorem weigh_singleton (k : Nat) (token : Token) : weigh k [token] = token.weight k := by simp [weigh]

/-- A character that stands in a word and ends nothing adds one, unless it quotes. -/
theorem inWord_weight (h : inWord text bare c = some mode) :
    mode.weight ≤ text.length + 1 ∧
      (mode.weight = text.length + 1 → isQuote c = false ∧ isExpansion c = false ∧ ∃ word bare, mode = .word word bare) := by
  unfold inWord at h
  split_ifs at h with escape single double expansion
  · obtain rfl := Option.some.inj h
    exact ⟨Nat.le_succ _,fun same => absurd same (Nat.ne_of_lt (Nat.lt_succ_self _))⟩
  · obtain rfl := Option.some.inj h
    exact ⟨Nat.le_succ _,fun same => absurd same (Nat.ne_of_lt (Nat.lt_succ_self _))⟩
  · obtain rfl := Option.some.inj h
    exact ⟨Nat.le_succ _,fun same => absurd same (Nat.ne_of_lt (Nat.lt_succ_self _))⟩
  · obtain rfl := Option.some.inj h
    refine ⟨by simp [Mode.weight],fun _ => ⟨?_,by simpa using expansion,_,_,rfl⟩⟩
    simp [isQuote,escape,single,double]

/-- Nothing but an ordinary character that starts a word adds to the weight. -/
theorem start_weight (k : Nat) (h : start done c = some s) :
    s.weight k ≤ weigh k done + 1 ∧ (s.weight k = weigh k done + 1 → Ordinary c ∧ c ≠ '#' ∧ c ≠ '~' ∧
      ∃ word bare, s.mode = .word word bare) := by
  unfold start at h
  split_ifs at h with gap line operator comment home escape
  · obtain rfl := Option.some.inj h
    exact ⟨Nat.le_succ _,fun same => absurd same (Nat.ne_of_lt (Nat.lt_succ_self _))⟩
  · obtain rfl := Option.some.inj h
    rw [State.weight,weigh_append]
    exact ⟨Nat.le_succ _,fun same => absurd same (Nat.ne_of_lt (Nat.lt_succ_self _))⟩
  · obtain rfl := Option.some.inj h
    exact ⟨Nat.le_succ _,fun same => absurd same (Nat.ne_of_lt (Nat.lt_succ_self _))⟩
  · obtain rfl := Option.some.inj h
    exact ⟨Nat.le_succ _,fun same => absurd same (Nat.ne_of_lt (Nat.lt_succ_self _))⟩
  · obtain rfl := Option.some.inj h
    exact ⟨Nat.le_succ _,fun same => absurd same (Nat.ne_of_lt (Nat.lt_succ_self _))⟩
  · obtain ⟨mode,stays,rfl⟩ := Option.map_eq_some_iff.mp h
    obtain ⟨most,full⟩ := inWord_weight stays
    rw [List.length_nil,Nat.zero_add] at most full
    refine ⟨Nat.add_le_add_left most _,fun same => ?_⟩
    obtain ⟨noQuote,noExpansion,word⟩ := full (Nat.add_left_cancel same)
    exact ⟨⟨by simpa using gap,line,by simpa using operator,noQuote,noExpansion⟩,comment,home,word⟩

theorem step_weight (small : k ≤ 1) (h : step s c = some s') : s'.weight k ≤ s.weight k + 1 := by
  obtain ⟨done,mode⟩ := s
  cases mode with
  | between => exact (start_weight k h).1
  | word text bare =>
    simp only [step] at h
    split_ifs at h with gap line operator
    · obtain rfl := Option.some.inj h
      simp only [State.weight,Mode.weight,weigh_append,weigh_singleton,Token.weight]
      omega
    · obtain rfl := Option.some.inj h
      simp only [State.weight,Mode.weight,weigh_append,weigh,Token.weight]
      omega
    · obtain rfl := Option.some.inj h
      have ended : (endedBy text bare c).weight k ≤ text.length + k := by
        unfold endedBy
        split_ifs
        · exact Nat.zero_le _
        · exact Nat.le_refl _
      simp only [State.weight,Mode.weight,weigh_append,weigh_singleton]
      omega
    · obtain ⟨mode,stays,rfl⟩ := Option.map_eq_some_iff.mp h
      have most := (inWord_weight stays).1
      show weigh k done + mode.weight ≤ weigh k done + text.length + 1
      omega
  | escape before =>
    simp only [step] at h
    split_ifs at h
    · obtain rfl := Option.some.inj h
      cases before with
      | none => exact Nat.le_succ _
      | some word => exact Nat.le_succ _
    · obtain rfl := Option.some.inj h
      cases before with
      | none => exact Nat.le_refl _
      | some word => simp [State.weight,Mode.weight,Nat.add_assoc]
  | single text =>
    obtain rfl := Option.some.inj h
    split_ifs
    · exact Nat.le_succ _
    · simp [State.weight,Mode.weight,Nat.add_assoc]
  | double text =>
    simp only [step] at h
    split_ifs at h
    · obtain rfl := Option.some.inj h
      exact Nat.le_succ _
    · obtain rfl := Option.some.inj h
      simp [State.weight,Mode.weight,Nat.add_assoc]
    · obtain rfl := Option.some.inj h
      simp [State.weight,Mode.weight,Nat.add_assoc]
  | doubleEscape text =>
    simp only [step] at h
    split_ifs at h
    · obtain rfl := Option.some.inj h
      simp only [State.weight,Mode.weight]
      omega
    · obtain rfl := Option.some.inj h
      simp [State.weight,Mode.weight,Nat.add_assoc]
    · obtain rfl := Option.some.inj h
      simp [State.weight,Mode.weight,Nat.add_assoc]
  | op text =>
    simp only [step] at h
    split_ifs at h
    · obtain rfl := Option.some.inj h
      exact Nat.le_succ _
    · have most := (start_weight k h).1
      rwa [weigh_append,weigh_singleton] at most
  | comment =>
    obtain rfl := Option.some.inj h
    split_ifs
    · rw [State.weight,weigh_append]
      exact Nat.le_succ _
    · exact Nat.le_succ _

theorem run_weight (small : k ≤ 1) (h : run s line = some s') : s'.weight k ≤ s.weight k + line.length := by
  induction line generalizing s with
  | nil => rw [Option.some.inj h]; exact Nat.le_refl _
  | cons c line ih =>
    obtain ⟨next,stepped,later⟩ := Option.bind_eq_some_iff.mp h
    have first := step_weight small stepped
    have rest := ih later
    rw [List.length_cons]
    omega

theorem finish_weight (h : State.finish s = some tokens) : weigh k tokens ≤ s.weight k + k := by
  obtain ⟨done,mode⟩ := s
  unfold State.finish at h
  cases mode with
  | between | comment =>
    obtain rfl := Option.some.inj h
    exact Nat.le_add_right _ _
  | word text bare =>
    obtain rfl := Option.some.inj h
    rw [weigh_append,weigh_singleton]
    exact Nat.le_of_eq (Nat.add_assoc _ _ _).symm
  | op text =>
    obtain rfl := Option.some.inj h
    rw [weigh_append,weigh_singleton]
    exact Nat.le_add_right _ _
  | escape _ | single _ | double _ | doubleEscape _ => contradiction

/-- The words of a line, each with a gap behind it, are no longer than the line and one gap. -/
theorem lex_weight (h : lex line = some tokens) : weigh 1 tokens ≤ line.length + 1 := by
  obtain ⟨s,ran,ended⟩ := Option.bind_eq_some_iff.mp h
  have weight := run_weight (Nat.le_refl 1) ran
  have last := finish_weight (k := 1) ended
  have empty : State.weight 1 ⟨[],.between⟩ = 0 := rfl
  omega

/-! ### A value in a line -/

/-- Modes in which only an ordinary character adds to a word. -/
def Mode.Ready : Mode → Prop
  | .between | .word .. | .op _ => True
  | _ => False

theorem step_full (ready : s.mode.Ready) (h : step s c = some s') (full : s'.weight 0 = s.weight 0 + 1) :
    Ordinary c ∧ ((∃ text bare, s.mode = .word text bare) ∨ (c ≠ '#' ∧ c ≠ '~')) ∧
      ∃ text bare, s'.mode = .word text bare := by
  obtain ⟨done,mode⟩ := s
  cases mode with
  | between =>
    obtain ⟨ordinary,comment,home,word⟩ := (start_weight 0 h).2 full
    exact ⟨ordinary,.inr ⟨comment,home⟩,word⟩
  | word text bare =>
    simp only [step] at h
    split_ifs at h with gap line operator
    · obtain rfl := Option.some.inj h
      simp only [State.weight,Mode.weight,weigh_append,weigh_singleton,Token.weight] at full
      omega
    · obtain rfl := Option.some.inj h
      simp only [State.weight,Mode.weight,weigh_append,weigh,Token.weight] at full
      omega
    · obtain rfl := Option.some.inj h
      have ended : (endedBy text bare c).weight 0 ≤ text.length := by
        unfold endedBy
        split_ifs
        · exact Nat.zero_le _
        · exact Nat.le_refl _
      simp only [State.weight,Mode.weight,weigh_append,weigh_singleton] at full
      omega
    · obtain ⟨mode,stays,rfl⟩ := Option.map_eq_some_iff.mp h
      have grown : weigh 0 done + mode.weight = weigh 0 done + text.length + 1 := full
      obtain ⟨noQuote,noExpansion,word⟩ := (inWord_weight stays).2 (by omega)
      exact ⟨⟨by simpa using gap,line,by simpa using operator,noQuote,noExpansion⟩,.inl ⟨text,bare,rfl⟩,word⟩
  | op text =>
    simp only [step] at h
    split_ifs at h
    · obtain rfl := Option.some.inj h
      exact absurd full (Nat.ne_of_lt (Nat.lt_succ_self _))
    · have all := (start_weight 0 h).2
      rw [weigh_append,weigh_singleton] at all
      obtain ⟨ordinary,comment,home,word⟩ := all full
      exact ⟨ordinary,.inr ⟨comment,home⟩,word⟩
  | escape _ | single _ | double _ | doubleEscape _ | comment => exact absurd ready id

/-- A text whose every character adds to a word has ordinary characters only. -/
theorem run_full (ready : s.mode.Ready) (h : run s line = some s') (full : s'.weight 0 = s.weight 0 + line.length) :
    (∀ c ∈ line, Ordinary c) ∧
      ((∃ text bare, s.mode = .word text bare) ∨ (line.head? ≠ some '#' ∧ line.head? ≠ some '~')) := by
  induction line generalizing s with
  | nil => exact ⟨by simp,.inr (by simp)⟩
  | cons c line ih =>
    obtain ⟨next,stepped,later⟩ := Option.bind_eq_some_iff.mp h
    have first := step_weight (k := 0) (by omega) stepped
    have rest := run_weight (k := 0) (by omega) later
    rw [List.length_cons] at full
    obtain ⟨ordinary,begins,text,bare,word⟩ := step_full ready stepped (by omega)
    have others := (ih (by rw [word]; trivial) later (by omega)).1
    refine ⟨List.forall_mem_cons.mpr ⟨ordinary,others⟩,begins.imp_right fun apart => ?_⟩
    exact ⟨fun same => apart.1 (Option.some.inj same),fun same => apart.2 (Option.some.inj same)⟩

/-- A text that closes no quotes and ends no comment. -/
def Calm (text : List Char) : Prop := ∀ c ∈ text, isQuote c = false ∧ c ≠ '\n' ∧ c ≠ '$' ∧ c ≠ '\x60'

instance (text : List Char) : Decidable (Calm text) :=
  decidable_of_iff (text.all (fun c => decide (isQuote c = false ∧ c ≠ '\n' ∧ c ≠ '$' ∧ c ≠ '\x60')) = true)
    ⟨fun h c member => of_decide_eq_true (List.all_eq_true.mp h c member),
      fun h => List.all_eq_true.mpr fun c member => decide_eq_true (h c member)⟩

theorem Calm.append {front back : List Char} (first : Calm front) (second : Calm back) : Calm (front ++ back) :=
  List.forall_mem_append.mpr ⟨first,second⟩

theorem PlainWord.calm {word : List Char} (plain : PlainWord word) : Calm word := by
  intro c member
  obtain ⟨-,noLine,-,noQuote,noExpansion⟩ := plain.ordinary c member
  refine ⟨noQuote,noLine,?_,?_⟩
  all_goals
    rintro rfl
    contradiction

theorem run_single {text : List Char} (calm : Calm text) (done : List Token) (inside : List Char) :
    run ⟨done,.single inside⟩ text = some ⟨done,.single (inside ++ text)⟩ := by
  induction text generalizing inside with
  | nil => rw [run,List.append_nil]
  | cons c text ih =>
    obtain ⟨⟨quote,-⟩,later⟩ := List.forall_mem_cons.mp calm
    have stays : c ≠ '\x27' := by
      rintro rfl
      contradiction
    have here : step ⟨done,.single inside⟩ c = some ⟨done,.single (inside ++ [c])⟩ := by simp [step,stays]
    rw [run,here,Option.bind_some,ih later,List.append_assoc]
    rfl

theorem run_double {text : List Char} (calm : Calm text) (done : List Token) (inside : List Char) :
    run ⟨done,.double inside⟩ text = some ⟨done,.double (inside ++ text)⟩ := by
  induction text generalizing inside with
  | nil => rw [run,List.append_nil]
  | cons c text ih =>
    obtain ⟨⟨quote,-,noParameter,noCommand⟩,later⟩ := List.forall_mem_cons.mp calm
    have noDouble : c ≠ '"' := by
      rintro rfl
      contradiction
    have noEscape : c ≠ '\\' := by
      rintro rfl
      contradiction
    have here : step ⟨done,.double inside⟩ c = some ⟨done,.double (inside ++ [c])⟩ := by
      simp [step,noDouble,noEscape,noParameter,noCommand]
    rw [run,here,Option.bind_some,ih later,List.append_assoc]
    rfl

theorem run_comment {text : List Char} (calm : Calm text) (done : List Token) :
    run ⟨done,.comment⟩ text = some ⟨done,.comment⟩ := by
  induction text with
  | nil => rfl
  | cons c text ih =>
    obtain ⟨⟨-,noLine,-⟩,later⟩ := List.forall_mem_cons.mp calm
    have here : step ⟨done,.comment⟩ c = some ⟨done,.comment⟩ := by simp [step,noLine]
    rw [run,here,Option.bind_some,ih later]

/-- `more` is read as `tokens` behind any word. -/
def Follows (more : List Char) (tokens : List Token) : Prop :=
  ∀ done text bare, (run ⟨done,.word text bare⟩ more).bind State.finish = some (done ++ .word text :: tokens)

/-- What stands in a line as a word of its own, in front of another word, is plain. -/
theorem plain_of_lex {front value next more : List Char} {before tokens : List Token}
    (starts : run ⟨[],.between⟩ front = some ⟨before,.between⟩) (plain : PlainWord next) (calm : Calm (next ++ more))
    (follows : Follows more tokens) (nonempty : value ≠ [])
    (h : lex (front ++ value ++ ' ' :: (next ++ more)) = some (before ++ .word value :: .word next :: tokens)) :
    PlainWord value := by
  rw [lex,List.append_assoc,run_append,starts,Option.bind_some,run_append,Option.bind_assoc] at h
  obtain ⟨s,ran,rest⟩ := Option.bind_eq_some_iff.mp h
  have weight := run_weight (k := 0) (by omega) ran
  have started : State.weight 0 ⟨before,.between⟩ = weigh 0 before := Nat.add_zero _
  have calmRest : Calm (' ' :: (next ++ more)) := Calm.append (by decide : Calm [' ']) calm
  -- where the word is complete the weights agree, so every character of it has counted
  have complete (done : List Token) (same : done = before ++ [.word value]) (heavy : s.weight 0 = weigh 0 done) :
      PlainWord value := by
    have full : s.weight 0 = State.weight 0 ⟨before,.between⟩ + value.length := by
      rw [heavy,same,started,weigh_append,weigh_singleton]
      rfl
    obtain ⟨ordinary,begins⟩ := run_full (s := ⟨before,.between⟩) trivial ran full
    refine ⟨nonempty,ordinary,begins.resolve_left ?_⟩
    rintro ⟨text,bare,word⟩
    contradiction
  have cut (done : List Token) (last : Token) (same : done ++ last :: tokens = before ++ .word value :: .word next :: tokens) :
      done = before ++ [.word value] ∧ last = .word next := by
    have left : done ++ [last] ++ tokens = before ++ [.word value] ++ [.word next] ++ tokens := by simpa using same
    have front := List.append_cancel_right left
    exact ⟨(List.append_inj' front rfl).1,List.singleton_inj.mp (List.append_inj' front rfl).2⟩
  have reads (done : List Token) : (run ⟨done,.between⟩ (next ++ more)).bind State.finish = some (done ++ .word next :: tokens) := by
    rw [run_append,run_plain plain,Option.bind_some]
    exact follows done next true
  obtain ⟨done,mode⟩ := s
  cases mode with
  | between =>
    have gap : step ⟨done,.between⟩ ' ' = some ⟨done,.between⟩ := rfl
    rw [run,gap,Option.bind_some,reads] at rest
    exact complete done (cut done _ (Option.some.inj rest)).1 rfl
  | word text bare =>
    have gap : step ⟨done,.word text bare⟩ ' ' = some ⟨done ++ [.word text],.between⟩ := rfl
    rw [run,gap,Option.bind_some,reads] at rest
    refine complete _ (cut _ _ (Option.some.inj rest)).1 ?_
    rw [weigh_append,weigh_singleton]
    rfl
  | op text =>
    have longest : operators.contains (text ++ [' ']) = false := by
      have noGap : ∀ op ∈ operators, op.getLast? ≠ some ' ' := by decide
      rw [← Bool.not_eq_true,List.contains_iff_mem]
      intro member
      exact noGap _ member List.getLast?_concat
    have gap : step ⟨done,.op text⟩ ' ' = some ⟨done ++ [.op text],.between⟩ := by
      simp only [step,longest,Bool.false_eq_true,↓reduceIte]
      rfl
    rw [run,gap,Option.bind_some,reads] at rest
    have last := (cut _ _ (Option.some.inj rest)).1
    exact absurd (List.singleton_inj.mp (List.append_inj' last rfl).2) (by simp)
  | escape word =>
    have gap : step ⟨done,.escape word⟩ ' ' = some ⟨done,.word (word.elim [] Prod.fst ++ [' ']) false⟩ := rfl
    rw [run,gap,Option.bind_some,run_append,run_ordinary plain.ordinary,Option.bind_some,follows] at rest
    have last := Token.word.inj (cut _ _ (Option.some.inj rest)).2
    have longer := congrArg List.length last
    simp only [List.length_append,List.length_singleton] at longer
    omega
  | single text =>
    rw [run_single calmRest] at rest
    contradiction
  | double text =>
    rw [run_double calmRest] at rest
    contradiction
  | doubleEscape text =>
    have gap : step ⟨done,.doubleEscape text⟩ ' ' = some ⟨done,.double (text ++ ['\\',' '])⟩ := rfl
    rw [run,gap,Option.bind_some,run_double calm] at rest
    contradiction
  | comment =>
    rw [run_comment calmRest,Option.bind_some] at rest
    obtain rfl : done = before ++ .word value :: .word next :: tokens := Option.some.inj rest
    have positive := List.length_pos_iff.mpr plain.nonempty
    simp only [State.weight,Mode.weight,weigh_append,weigh,Token.weight] at weight
    omega

/-! ### Lines of plain words -/

/-- The words with one blank between two of them. -/
def spaced (words : List (List Char)) : List Char := [' '].intercalate words

theorem spaced_cons (word : List Char) (words : List (List Char)) :
    spaced (word :: words) = word ++ words.flatMap fun word => ' ' :: word := by
  induction words generalizing word with
  | nil => simp [spaced]
  | cons next words ih =>
    have step : spaced (word :: next :: words) = word ++ [' '] ++ spaced (next :: words) := by
      simp [spaced,List.intercalate_cons_cons]
    rw [step,ih,List.flatMap_cons]
    simp

theorem run_words {words : List (List Char)} (plain : ∀ word ∈ words, PlainWord word) (done : List Token)
    (text : List Char) (bare : Bool) :
    run ⟨done,.word text bare⟩ ((words.flatMap fun word => ' ' :: word) ++ [' ']) =
      some ⟨done ++ .word text :: words.map .word,.between⟩ := by
  induction words generalizing done text bare with
  | nil => rfl
  | cons next words ih =>
    obtain ⟨here,later⟩ := List.forall_mem_cons.mp plain
    have gap : step ⟨done,.word text bare⟩ ' ' = some ⟨done ++ [.word text],.between⟩ := rfl
    rw [List.flatMap_cons,List.cons_append,List.cons_append,run,gap,Option.bind_some,List.append_assoc,run_append,
      run_plain here,Option.bind_some,ih later]
    simp

theorem run_spaced (words : List (List Char)) (nonempty : words ≠ []) (plain : ∀ word ∈ words, PlainWord word) :
    run ⟨[],.between⟩ (spaced words ++ [' ']) = some ⟨words.map .word,.between⟩ := by
  cases words with
  | nil => contradiction
  | cons word words =>
    obtain ⟨here,later⟩ := List.forall_mem_cons.mp plain
    rw [spaced_cons,List.append_assoc,run_append,run_plain here,Option.bind_some,run_words later]
    rfl

theorem follows_words (words : List (List Char)) (plain : ∀ word ∈ words, PlainWord word) (follows : Follows more tokens) :
    Follows ((words.flatMap fun word => ' ' :: word) ++ more) (words.map .word ++ tokens) := by
  induction words with
  | nil => exact follows
  | cons next words ih =>
    obtain ⟨here,later⟩ := List.forall_mem_cons.mp plain
    intro done text bare
    have gap : step ⟨done,.word text bare⟩ ' ' = some ⟨done ++ [.word text],.between⟩ := rfl
    rw [List.flatMap_cons,List.cons_append,List.cons_append,run,gap,Option.bind_some,List.append_assoc,run_append,
      run_plain here,Option.bind_some,ih later]
    simp

theorem follows_nil : Follows [] [] := fun _ _ _ => rfl

theorem lex_spaced {words : List (List Char)} (nonempty : words ≠ []) (plain : ∀ word ∈ words, PlainWord word)
    (follows : Follows more tokens) : lex (spaced words ++ more) = some (words.map .word ++ tokens) := by
  cases words with
  | nil => contradiction
  | cons word words =>
    obtain ⟨here,later⟩ := List.forall_mem_cons.mp plain
    rw [spaced_cons,List.append_assoc,lex,run_append,run_plain here,Option.bind_some]
    exact follows_words words later follows [] word true

end Library.Shell
