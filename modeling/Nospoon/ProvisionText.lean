import Nospoon.Allocation
import Nospoon.ConfigText

/-! The files that `init` and `addclient` write, read back by `load_config`, and the place
where `addclient` inserts. -/
namespace Nospoon

open Library

/-! ### The server file -/

/-- The layout between the fields and the peers key, and what stripping leaves of it. -/
def headNotes : Text := headComment ++ "  ".toList
def strippedNotes : Text := "      ".toList

theorem strippedNotes_eq : strippedNotes = "      ".toList := rfl

def mtuGap (mtu : Nat) (notes : Text) : Text := ": ".toList ++ decimal mtu ++ ",\n".toList ++ notes

/-- The strings in front of the peers key. -/
def fieldTokens (ip seed gap : Text) : List (Text × Text) :=
  [("mode".toList,": ".toList),("server".toList,",\n  ".toList),("ip".toList,": ".toList),
    (ip,",\n  ".toList),("seed".toList,": ".toList),(seed,",\n  ".toList),("mtu".toList,gap)]

def serverTokens (ip seed gap : Text) : List (Text × Text) :=
  fieldTokens ip seed gap ++ [("peers".toList,": \x7b".toList)]

def serverTail : Text := "  \x7d\n\x7d\n".toList

theorem serverTail_eq : serverTail = "  \x7d\n\x7d\n".toList := rfl

/-- A server file with the text `block` between the braces of its peers. -/
def serverText (ip seed gap block : Text) : Text :=
  "\x7b\n  ".toList ++ weave (serverTokens ip seed gap) (block ++ serverTail)

theorem serverConfig_eq (ip seed : Text) (mtu : Nat) (clients : List Created) :
    serverConfig (serverHead ip 24 seed mtu) clients =
      serverText (ip ++ "/24".toList) seed (mtuGap mtu headNotes) ('\n' :: initEntries clients) := by
  have number : decimalInt (mtu : Int) = decimal mtu := rfl
  have length : decimalInt 24 = "24".toList := by decide
  unfold serverConfig serverHead
  simp only [number,length,serverText,serverTokens,fieldTokens,mtuGap,headNotes,serverTail_eq]
  simp [weave]

theorem mtu_tidy (mtu : Nat) (bare : '"' ∉ rest) : Tidy ("mtu".toList,": ".toList ++ decimal mtu ++ rest) := by
  refine ⟨show '"' ∉ "mtu".toList by simp,?_,':',rfl,by simp [isBlank]⟩
  simp only [List.mem_append,not_or]
  exact ⟨⟨by simp,decimal_noChar mtu '"' rfl⟩,bare⟩

theorem serverTokens_tidy (ipBare : Bare ip) (seedBare : Bare seed) (mtu : Nat) (bare : '"' ∉ notes) :
    ∀ token ∈ serverTokens ip seed (mtuGap mtu notes), Tidy token := by
  have gap : Tidy ("mtu".toList,mtuGap mtu notes) := by
    have quoteFree : '"' ∉ ",\n".toList ++ notes := by
      rw [List.mem_append,not_or]
      exact ⟨by simp,bare⟩
    simpa only [mtuGap,List.append_assoc] using mtu_tidy mtu quoteFree
  simp only [serverTokens,fieldTokens,List.forall_mem_append,List.forall_mem_cons,List.not_mem_nil,
    false_implies,implies_true,and_true]
  exact ⟨⟨tidy_colon (by simp),tidy_comma (by simp),tidy_colon (by simp),tidy_comma ipBare.noQuote,
    tidy_colon (by simp),tidy_comma seedBare.noQuote,gap⟩,by simp,by simp,':',rfl,by simp [isBlank]⟩

theorem headNotes_strips : Strips headNotes strippedNotes := by
  have lines : headComment = "  ".toList ++
      ('/' :: '/' :: " Allowlist: only these public keys may connect. Remove the block".toList ++ ['\n']) ++
      ("  ".toList ++
        ('/' :: '/' :: " to accept any key (open mode). `nospoon addclient` appends here.".toList ++ ['\n'])) := by
    decide +kernel
  have blanks : Strips "  ".toList "  ".toList := strips_clean (by simp)
  have first : Strips ('/' :: '/' :: " Allowlist: only these public keys may connect. Remove the block".toList ++ ['\n']) [] :=
    strips_comment (by decide)
  have second : Strips
      ('/' :: '/' :: " to accept any key (open mode). `nospoon addclient` appends here.".toList ++ ['\n']) [] :=
    strips_comment (by decide)
  rw [headNotes,lines]
  exact ((blanks.append first).append (blanks.append second)).append blanks

theorem colon_strips : Strips ": ".toList ": ".toList := strips_clean (by simp)
theorem comma_strips : Strips ",\n  ".toList ",\n  ".toList := strips_clean (by simp)

theorem decimal_strips (n : Nat) : Strips (decimal n) (decimal n) := strips_clean fun c member =>
  have digit := digit_char (decimal_isDigit n c member)
  ⟨digit.2.2.2.1,digit.2.2.2.2.1⟩

/-- Stripping takes the comment out and nothing else. -/
theorem stripComments_serverText (ipBare : Bare ip) (seedBare : Bare seed) (mtu : Nat)
    (block : EntryText pairs t) :
    stripComments (serverText ip seed (mtuGap mtu headNotes) t) =
      serverText ip seed (mtuGap mtu strippedNotes) t := by
  have mtuGap : Strips (mtuGap mtu headNotes) (mtuGap mtu strippedNotes) :=
    ((colon_strips.append (decimal_strips mtu)).append (strips_clean (by simp))).append headNotes_strips
  have tail : Strips (t ++ serverTail) (t ++ serverTail) := block.strips.append (strips_clean (by simp [serverTail_eq]))
  have lead : Strips "\x7b\n  ".toList "\x7b\n  ".toList := strips_clean (by simp)
  have tokens : Strips (weave (serverTokens ip seed (Nospoon.mtuGap mtu headNotes)) (t ++ serverTail))
      (weave (serverTokens ip seed (Nospoon.mtuGap mtu strippedNotes)) (t ++ serverTail)) := strips_weave ?_ tail
  · exact (lead.append tokens).stripComments
  · simp only [serverTokens,fieldTokens,List.cons_append,List.nil_append,List.forall₂_cons,List.Forall₂.nil,
      true_and,and_true]
    exact ⟨⟨by simp [Bare],colon_strips⟩,⟨by simp [Bare],comma_strips⟩,⟨by simp [Bare],colon_strips⟩,⟨ipBare,comma_strips⟩,
      ⟨by simp [Bare],colon_strips⟩,⟨seedBare,comma_strips⟩,⟨by simp [Bare],mtuGap⟩,⟨by simp [Bare],strips_clean (by simp)⟩⟩

theorem jsonInt_decimal (h : findKey key json = some (' ' :: (decimal n ++ r))) (ends : EndsDigits r) (small : n < 2 ^ 31) :
    jsonInt json key fallback = n := by
  have digits := decimal_isDigit n
  have value := atoi_decimal n ends small
  cases number : decimal n with
  | nil => exact absurd number (decimal_ne_nil n)
  | cons d ds =>
    rw [number] at h digits value
    have noSpace := (digit_char (digits d List.mem_cons_self)).1
    have stays : skipSpaces (' ' :: (d :: ds ++ r)) = d :: ds ++ r := by
      rw [skipSpaces,List.dropWhile_cons_of_pos (by decide),List.cons_append,List.dropWhile_cons_of_neg]
      intro blank
      simp only [Bool.or_eq_true,decide_eq_true_eq] at blank
      rcases blank with rfl | rfl <;> exact absurd noSpace (by decide)
    rw [jsonInt,h]
    simp only [stays]
    exact value

/-- What the reader makes of a server file. -/
theorem extract_serverText (ipBare : Bare ip) (seedBare : Bare seed) {mtu : Nat} (small : mtu < 2 ^ 31)
    (block : EntryText pairs t) :
    extract (serverText ip seed (mtuGap mtu strippedNotes) t) =
      { mode := "server".toList,ip,seed,mtu,peers := insertPairs ∅ pairs } := by
  have tidy : ∀ token ∈ serverTokens ip seed (mtuGap mtu strippedNotes), Tidy token :=
    serverTokens_tidy ipBare seedBare mtu (by simp [strippedNotes_eq])
  have lead : '"' ∉ "\x7b\n  ".toList := by simp
  have search {key : Text} (member : key ∈ fieldNames) :
      findKey key (serverText ip seed (mtuGap mtu strippedNotes) t) =
        seek key (t ++ serverTail) (serverTokens ip seed (mtuGap mtu strippedNotes)) := by
    rw [serverText,findKey_gap lead,findKey_weave (isKey member) _ tidy]
  have absent {key : Text} (member : key ∈ fieldNames)
      (free : ∀ token ∈ serverTokens ip seed (mtuGap mtu strippedNotes),
        ¬(token.1 = key ∧ token.2.head? = some ':')) :
      findKey key (serverText ip seed (mtuGap mtu strippedNotes) t) = none := by
    have opens : Opens serverTail := by intro c here; obtain rfl := Option.some.inj here; rfl
    apply findKey_absent (isKey member) lead tidy free
    rw [block.findKey_eq (isKey member) (fieldNames_noWord key member) opens,findKey_none (by simp [serverTail_eq])]
  have mode : jsonString (serverText ip seed (mtuGap mtu strippedNotes) t) "mode".toList = "server".toList :=
    jsonString_member [] (isKey (by simp [fieldNames])) lead tidy (by simp) (by simp [Bare])
  have address : jsonString (serverText ip seed (mtuGap mtu strippedNotes) t) "ip".toList = ip :=
    jsonString_member ((serverTokens ip seed (mtuGap mtu strippedNotes)).take 2) (isKey (by simp [fieldNames])) lead tidy
      (by simp [serverTokens,fieldTokens]) ipBare
  have inlineSeed : jsonString (serverText ip seed (mtuGap mtu strippedNotes) t) "seed".toList = seed :=
    jsonString_member ((serverTokens ip seed (mtuGap mtu strippedNotes)).take 4) (isKey (by simp [fieldNames])) lead tidy
      (by simp [serverTokens,fieldTokens]) seedBare
  have mtuFound : findKey "mtu".toList (serverText ip seed (mtuGap mtu strippedNotes) t) =
      some (' ' :: (decimal mtu ++ ',' :: '\n' :: (strippedNotes ++
        weave [("peers".toList,": \x7b".toList)] (t ++ serverTail)))) := by
    rw [search (by simp [fieldNames])]
    simp [seek,serverTokens,fieldTokens,mtuGap]
  have peersFound : findKey "peers".toList (serverText ip seed (mtuGap mtu strippedNotes) t) =
      some (" ".toList ++ '{' :: (t ++ "  ".toList) ++ '}' :: "\n\x7d\n".toList) := by
    rw [search (by simp [fieldNames])]
    simp [seek,serverTokens,fieldTokens,weave,serverTail_eq]
  have number : jsonInt (serverText ip seed (mtuGap mtu strippedNotes) t) "mtu".toList 1400 = mtu :=
    jsonInt_decimal mtuFound (by intro c here; obtain rfl := Option.some.inj here; rfl) small
  have peers : jsonPeers (serverText ip seed (mtuGap mtu strippedNotes) t) = insertPairs ∅ pairs := by
    have closing : '}' ∉ t ++ "  ".toList := by
      intro member
      rcases List.mem_append.mp member with here | there
      · exact block.absent rfl (by simp [entryMarks]) here
      · revert there; simp
    have blanks : blockPairs ("  ".toList ++ []) = blockPairs [] := blockPairs_gap (by simp)
    have listed := block.blockPairs_append "  ".toList
    rw [← List.append_nil "  ".toList,blanks,blockPairs_nil,List.append_nil,List.append_nil] at listed
    rw [jsonPeers,peersBlock_eq_some.mpr ⟨_,_,peersFound,by simp,closing⟩]
    exact congrArg _ listed
  rw [extract,Config.mk.injEq]
  refine ⟨mode,address,?_,inlineSeed,?_,?_,number,peers,?_,?_⟩
  · exact jsonString_absent (absent (by simp [fieldNames]) (by simp [serverTokens,fieldTokens]))
  · exact jsonString_absent (absent (by simp [fieldNames]) (by simp [serverTokens,fieldTokens]))
  · exact jsonString_absent (absent (by simp [fieldNames]) (by simp [serverTokens,fieldTokens]))
  · exact jsonBool_absent (absent (by simp [fieldNames]) (by simp [serverTokens,fieldTokens]))
  · exact jsonString_absent (absent (by simp [fieldNames]) (by simp [serverTokens,fieldTokens]))

/-- In a server file `addclient` inserts right behind the brace of the peers block. -/
theorem insertionPoint_serverText (tidy : ∀ token ∈ fieldTokens ip seed gap, Tidy token)
    (others : ∀ token ∈ fieldTokens ip seed gap, token.1 ≠ "peers".toList) :
    ∃ front, insertionPoint (serverText ip seed gap t) = some (front,t ++ serverTail) ∧
      ∀ added, front ++ added ++ (t ++ serverTail) = serverText ip seed gap (added ++ t) := by
  have text (u : Text) : serverText ip seed gap u = "\x7b\n  ".toList ++
      weave (fieldTokens ip seed gap) (quoted "peers".toList ++ ": ".toList ++ '{' :: (u ++ serverTail)) := by
    rw [serverText,serverTokens,weave_tokens]
    simp [weave,quoted]
  have here : splitSub (quoted "peers".toList) (quoted "peers".toList ++ ": ".toList ++ '{' :: (t ++ serverTail)) =
      some ([],quoted "peers".toList ++ ": ".toList ++ '{' :: (t ++ serverTail)) :=
    splitSub_head (by rw [List.append_assoc]; exact List.prefix_append _ _)
  refine ⟨"\x7b\n  ".toList ++ weave (fieldTokens ip seed gap) [] ++ (quoted "peers".toList ++ ": ".toList) ++ ['{'],
    ?_,fun added => ?_⟩
  · rw [insertionPoint,text,splitSub_gap (by simp),splitSub_weave (isKey (by simp [fieldNames])) _ tidy others,here]
    simp only [Option.map_some,Option.bind_eq_bind,Option.bind_some]
    rw [splitFirst_append (by simp [quoted])]
    rfl
  · rw [text]
    simp only [List.append_assoc,List.cons_append,List.nil_append,weave_append]

/-! ### Entries -/

theorem EntryText.entryText {client : Created} (lead : Plain g) (key : Word client.pubkey) (value : Word client.ip)
    (rest : EntryText pairs t) :
    EntryText ((client.pubkey,client.ip) :: pairs) (g ++ (Nospoon.entryText client ++ t)) := by
  have whole := EntryText.entry lead key value rest
  simp only [Nospoon.entryText]
  simpa using whole

def pairsOf (clients : List Created) : List (Text × Text) := clients.map fun client => (client.pubkey,client.ip)

theorem initEntries_text {clients : List Created} (words : ∀ client ∈ clients, Word client.pubkey ∧ Word client.ip) :
    EntryText (pairsOf clients) ('\n' :: initEntries clients) := by
  have newline : Plain ['\n'] := by simp [Plain,isBlank]
  apply EntryText.indent newline
  induction clients using initEntries.induct with
  | case1 => exact .done (by simp [initEntries,Plain])
  | case2 client =>
    obtain ⟨key,value⟩ := words client List.mem_cons_self
    have line := EntryText.entryText (g := "    ".toList) (by simp [Plain,isBlank]) key value (.done newline)
    simpa [initEntries,pairsOf] using line
  | case3 client clients several ih =>
    obtain ⟨key,value⟩ := words client List.mem_cons_self
    have later := ih fun client' member => words client' (List.mem_cons_of_mem _ member)
    have line := EntryText.entryText (g := "    ".toList) (by simp [Plain,isBlank]) key value
      (later.indent (g := ",\n".toList) (by simp [Plain,isBlank]))
    rw [initEntries]
    · simpa [pairsOf] using line
    · exact several

theorem addEntries_text {clients : List Created} (words : ∀ client ∈ clients, Word client.pubkey ∧ Word client.ip)
    (block : EntryText pairs t) : EntryText (pairsOf clients ++ pairs) (addEntries clients ++ t) := by
  induction clients with
  | nil => exact block
  | cons client clients ih =>
    obtain ⟨key,value⟩ := words client List.mem_cons_self
    have later := ih fun client' member => words client' (List.mem_cons_of_mem _ member)
    have line := EntryText.entryText (g := "\n    ".toList) (by simp [Plain,isBlank]) key value
      (later.indent (g := [',']) (by simp [Plain,isBlank]))
    rw [addEntries,List.flatMap_cons]
    simpa [addEntries,pairsOf] using line

/-! ### A client file -/

def clientTokens (serverPk ip seed : Text) (mtu : Nat) : List (Text × Text) :=
  [("mode".toList,": ".toList),("client".toList,",\n  ".toList),("server".toList,": ".toList),
    (serverPk,",\n  ".toList),("ip".toList,": ".toList),(ip,",\n  ".toList),("seed".toList,": ".toList),
    (seed,",\n  ".toList),("mtu".toList,": ".toList ++ decimal mtu ++ "\n\x7d\n".toList)]

theorem clientConfig_eq (serverPk ip seed : Text) (mtu : Nat) : clientConfig serverPk ip 24 seed mtu =
    "\x7b\n  ".toList ++ weave (clientTokens serverPk (ip ++ "/24".toList) seed mtu) [] := by
  have number : decimalInt (mtu : Int) = decimal mtu := rfl
  have length : decimalInt 24 = "24".toList := by decide
  unfold clientConfig
  simp only [number,length,clientTokens]
  simp [weave]

/-- What the reader makes of a client file. -/
theorem extract_clientConfig (pkBare : Bare serverPk) (ipBare : Bare (ip ++ "/24".toList)) (seedBare : Bare seed)
    {mtu : Nat} (small : mtu < 2 ^ 31) : extract (stripComments (clientConfig serverPk ip 24 seed mtu)) =
      { mode := "client".toList,ip := ip ++ "/24".toList,seed,serverKey := serverPk,mtu } := by
  have stripped : stripComments (clientConfig serverPk ip 24 seed mtu) = clientConfig serverPk ip 24 seed mtu := by
    have gap : Strips (": ".toList ++ decimal mtu ++ "\n\x7d\n".toList) _ :=
      (colon_strips.append (decimal_strips mtu)).append (strips_clean (by simp))
    have lead : Strips "\x7b\n  ".toList "\x7b\n  ".toList := strips_clean (by simp)
    have tokens : Strips (weave (clientTokens serverPk (ip ++ "/24".toList) seed mtu) [])
        (weave (clientTokens serverPk (ip ++ "/24".toList) seed mtu) []) := strips_weave ?_ fun _ => rfl
    · rw [clientConfig_eq]
      exact (lead.append tokens).stripComments
    · simp only [clientTokens,List.forall₂_cons,List.Forall₂.nil,true_and,and_true]
      exact ⟨⟨by simp [Bare],colon_strips⟩,⟨by simp [Bare],comma_strips⟩,⟨by simp [Bare],colon_strips⟩,⟨pkBare,comma_strips⟩,
        ⟨by simp [Bare],colon_strips⟩,⟨ipBare,comma_strips⟩,⟨by simp [Bare],colon_strips⟩,⟨seedBare,comma_strips⟩,by simp [Bare],gap⟩
  have tidy : ∀ token ∈ clientTokens serverPk (ip ++ "/24".toList) seed mtu, Tidy token := by
    simp only [clientTokens,List.forall_mem_cons,List.not_mem_nil,false_implies,implies_true,and_true]
    exact ⟨tidy_colon (by simp),tidy_comma (by simp),tidy_colon (by simp),tidy_comma pkBare.noQuote,
      tidy_colon (by simp),tidy_comma ipBare.noQuote,tidy_colon (by simp),tidy_comma seedBare.noQuote,
      mtu_tidy mtu (by simp)⟩
  have lead : '"' ∉ "\x7b\n  ".toList := by simp
  rw [stripped,clientConfig_eq]
  generalize address : ip ++ "/24".toList = ip at *
  have absent {key : Text} (member : key ∈ fieldNames)
      (free : ∀ token ∈ clientTokens serverPk ip seed mtu, ¬(token.1 = key ∧ token.2.head? = some ':')) :
      findKey key ("\x7b\n  ".toList ++ weave (clientTokens serverPk ip seed mtu) []) = none :=
    findKey_absent (isKey member) lead tidy free rfl
  have mode : jsonString ("\x7b\n  ".toList ++ weave (clientTokens serverPk ip seed mtu) []) "mode".toList =
      "client".toList := jsonString_member [] (isKey (by simp [fieldNames])) lead tidy (by simp) (by simp [Bare])
  have server : jsonString ("\x7b\n  ".toList ++ weave (clientTokens serverPk ip seed mtu) []) "server".toList =
      serverPk := jsonString_member ((clientTokens serverPk ip seed mtu).take 2) (isKey (by simp [fieldNames])) lead tidy
        (by simp [clientTokens]) pkBare
  have address : jsonString ("\x7b\n  ".toList ++ weave (clientTokens serverPk ip seed mtu) []) "ip".toList = ip :=
    jsonString_member ((clientTokens serverPk ip seed mtu).take 4) (isKey (by simp [fieldNames])) lead tidy
      (by simp [clientTokens]) ipBare
  have inlineSeed : jsonString ("\x7b\n  ".toList ++ weave (clientTokens serverPk ip seed mtu) []) "seed".toList =
      seed := jsonString_member ((clientTokens serverPk ip seed mtu).take 6) (isKey (by simp [fieldNames])) lead tidy
        (by simp [clientTokens]) seedBare
  have mtuFound : findKey "mtu".toList ("\x7b\n  ".toList ++ weave (clientTokens serverPk ip seed mtu) []) =
      some (' ' :: (decimal mtu ++ "\n\x7d\n".toList)) := by
    rw [findKey_gap lead,findKey_weave (isKey (by simp [fieldNames])) _ tidy]
    simp [seek,clientTokens,weave]
  have number : jsonInt ("\x7b\n  ".toList ++ weave (clientTokens serverPk ip seed mtu) []) "mtu".toList 1400 = mtu :=
    jsonInt_decimal mtuFound (by intro c here; obtain rfl := Option.some.inj here; rfl) small
  have peers : jsonPeers ("\x7b\n  ".toList ++ weave (clientTokens serverPk ip seed mtu) []) = ∅ := by
    rw [jsonPeers,peersBlock,absent (by simp [fieldNames]) (by simp [clientTokens])]
    rfl
  rw [extract,Config.mk.injEq]
  refine ⟨mode,address,?_,inlineSeed,?_,server,number,peers,?_,?_⟩
  · exact jsonString_absent (absent (by simp [fieldNames]) (by simp [clientTokens]))
  · exact jsonString_absent (absent (by simp [fieldNames]) (by simp [clientTokens]))
  · exact jsonBool_absent (absent (by simp [fieldNames]) (by simp [clientTokens]))
  · exact jsonString_absent (absent (by simp [fieldNames]) (by simp [clientTokens]))

end Nospoon
