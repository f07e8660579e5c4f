import Nospoon.Server

/-! Whether a config file that names peers can still leave the server open. The block
scanner answers with an empty map whenever it does not find what it looks for, and an
empty map means that everyone may connect. -/
namespace Nospoon

open Library

/-! ### The block scanner -/

theorem nextPeer_eq_none : nextPeer block = none ↔ block.count '"' < 4 := by
  unfold nextPeer
  have stop (s : Text) (h : splitFirst '"' s = none) : s.count '"' = 0 :=
    List.count_eq_zero.mpr (splitFirst_eq_none.mp h)
  cases h₁ : splitFirst '"' block with
  | none => simp [stop block h₁]
  | some r₁ =>
    have count₁ := splitFirst_count (show splitFirst '"' block = some (r₁.1,r₁.2) from h₁)
    cases h₂ : splitFirst '"' r₁.2 with
    | none => simp [h₂,count₁,stop _ h₂]
    | some r₂ =>
      have count₂ := splitFirst_count (show splitFirst '"' r₁.2 = some (r₂.1,r₂.2) from h₂)
      cases h₃ : splitFirst '"' r₂.2 with
      | none => simp [h₂,h₃,count₁,count₂,stop _ h₃]
      | some r₃ =>
        have count₃ := splitFirst_count (show splitFirst '"' r₂.2 = some (r₃.1,r₃.2) from h₃)
        cases h₄ : splitFirst '"' r₃.2 with
        | none => simp [h₂,h₃,h₄,count₁,count₂,count₃,stop _ h₄]
        | some r₄ =>
          have count₄ := splitFirst_count (show splitFirst '"' r₃.2 = some (r₄.1,r₄.2) from h₄)
          simp only [Option.bind_eq_bind,Option.bind_some,h₂,h₃,h₄,Option.pure_def,reduceCtorEq,false_iff]
          omega

theorem blockPairs_eq_nil : blockPairs block = [] ↔ block.count '"' < 4 := by
  rw [← nextPeer_eq_none]
  cases found : nextPeer block with
  | none =>
    rw [blockPairs,peerReader.drain_wait (by simp [peerReader,found])]
    simp
  | some r =>
    have next : peerReader.next block = some (some r.1,r.2) := by simp [peerReader,found]
    rw [blockPairs,peerReader.drain_next next]
    simp

/-- The text has a block to read: after the first `"peers"` key a `{`, after it a `}`,
and between them the quotes of at least one entry. -/
def PeersReadable (json : Text) : Prop :=
  ∃ gap body tail, findKey "peers".toList json = some (gap ++ '{' :: body ++ '}' :: tail) ∧
    '{' ∉ gap ∧ '}' ∉ body ∧ 4 ≤ body.count '"'

theorem jsonPeers_ne_empty (json : Text) : jsonPeers json ≠ ∅ ↔ PeersReadable json := by
  unfold jsonPeers
  constructor
  · intro nonempty
    cases block : peersBlock json with
    | none => rw [block] at nonempty; exact absurd rfl nonempty
    | some body =>
      rw [block] at nonempty
      obtain ⟨gap,tail,found,hg,hb⟩ := peersBlock_eq_some.mp block
      refine ⟨gap,body,tail,found,hg,hb,Nat.le_of_not_lt fun few => nonempty ?_⟩
      exact (insertAll_eq_empty ∅ _).mpr ⟨rfl,blockPairs_eq_nil.mpr few⟩
  · rintro ⟨gap,body,tail,found,hg,hb,enough⟩
    rw [peersBlock_eq_some.mpr ⟨gap,tail,found,hg,hb⟩]
    intro empty
    have few := blockPairs_eq_nil.mp ((insertAll_eq_empty ∅ _).mp empty).2
    omega

/-! ### Failing closed -/

/-- Loading fails, or leaves the server with a peers map. -/
def FailsClosed (read : Text → Option Text) (path : Text) : Prop :=
  ∀ cfg, loadConfig read path = .ok cfg → cfg.peers ≠ ∅

/-- A server that loaded such a file lets in none but the keys of its map. -/
theorem FailsClosed.admits {read : Text → Option Text} (closed : FailsClosed read path)
    (loaded : loadConfig read path = .ok cfg) (passed : (ServerCtx.initial cfg).firewall remotePk = false) :
    bytesToHex remotePk.toList ∈ cfg.peers :=
  (ServerCtx.firewall_eq_false.mp passed).resolve_left (closed cfg loaded)

/-- A file fails closed exactly when a field is refused or there is a block to read. -/
theorem loadConfig_failsClosed_iff (read : Text → Option Text) (path raw : Text)
    (file : read path = some raw) :
    FailsClosed read path ↔
      ¬(extract (stripComments raw)).Accepted read ∨ PeersReadable (stripComments raw) := by
  rw [← jsonPeers_ne_empty]
  constructor
  · intro closed
    by_cases accepted : (extract (stripComments raw)).Accepted read
    · obtain ⟨cfg,resolved⟩ := resolveSeed_total accepted
      have nonempty := closed cfg ((loadConfig_ok read path cfg).mpr ⟨raw,file,accepted,resolved⟩)
      rw [resolveSeed_fields resolved] at nonempty
      exact .inr nonempty
    · exact .inl accepted
  · intro h cfg loaded
    obtain ⟨raw',file',accepted,resolved⟩ := (loadConfig_ok read path cfg).mp loaded
    obtain rfl := Option.some.inj (file.symm.trans file')
    rw [resolveSeed_fields resolved]
    exact h.resolve_left (not_not_intro accepted)

/-! ### Texts that declare peers -/

/-- Brackets open at a place of a JSON text, and whether the place is inside a string. -/
inductive Place where
  | code (depth : Nat)
  | string (depth : Nat)
  | escape (depth : Nat)
  deriving DecidableEq

def Place.step : Place → Char → Place
  | .code d, c =>
    if c = '"' then .string d
    else if c = '{' ∨ c = '[' then .code (d + 1)
    else if c = '}' ∨ c = ']' then .code (d - 1)
    else .code d
  | .string d, c => if c = '\\' then .escape d else if c = '"' then .code d else .string d
  | .escape d, _ => .string d

/-- The text has, outside comments, a member `"peers"` of its outermost object whose
value has begun and is neither `null` nor an empty object. What follows is free: the
value may be of any type, and the text may end inside it. -/
def DeclaresPeers (raw : Text) : Prop :=
  ∃ lead front gap space value,
    stripComments raw = lead ++ '{' :: front ++ quoted "peers".toList ++ gap ++ ':' :: space ++ value ∧
    front.foldl Place.step (.code 1) = .code 1 ∧ (∀ c ∈ lead ++ gap ++ space, isBlank c = true) ∧
    value ≠ [] ∧ (∀ c ∈ value.head?, isBlank c = false) ∧ ¬"null".toList <+: value ∧
    ¬∃ blanks rest, (∀ c ∈ blanks, isBlank c = true) ∧ value = '{' :: blanks ++ '}' :: rest

/-- The fields in front of the peers member of a server config. -/
def serverFields : Text := "\"mode\":\"server\",\"ip\":\"10.0.0.1/24\",".toList

def serverWith (value : Text) : Text := '{' :: serverFields ++ quoted "peers".toList ++ ':' :: value

/-- One key and its address. -/
def onePeerText : Text := '"' :: List.replicate 64 'a' ++ "\":\"10.0.0.2\"".toList

/-- Every path leads to the same text. -/
def holding (raw : Text) : Text → Option Text := fun _ => some raw

/-- A config with one peer loads, and with its peers. -/
theorem loadConfig_failsClosed_valid :
    FailsClosed (holding (serverWith ('{' :: onePeerText ++ "\x7d\x7d".toList))) [] ∧
    ∃ cfg, loadConfig (holding (serverWith ('{' :: onePeerText ++ "\x7d\x7d".toList))) [] = .ok cfg := by
  constructor
  · exact (loadConfig_failsClosed_iff (holding _) [] _ rfl).mpr
      (.inr ((jsonPeers_ne_empty _).mp (peers_ne_empty (by decide +kernel))))
  · obtain ⟨cfg,loaded,-⟩ := exists_loaded (holding (serverWith ('{' :: onePeerText ++ "\x7d\x7d".toList))) []
      (fun _ => true) (by decide +kernel)
    exact ⟨cfg,loaded⟩

theorem declaresPeers_with (value : Text) (nonempty : value ≠ [])
    (stripped : stripComments (serverWith value) = serverWith value)
    (begins : ∀ c ∈ value.head?, isBlank c = false) (notNull : ¬"null".toList <+: value)
    (notEmpty : ¬∃ blanks rest, (∀ c ∈ blanks, isBlank c = true) ∧ value = '{' :: blanks ++ '}' :: rest) :
    DeclaresPeers (serverWith value) :=
  ⟨[],serverFields,[],[],value,stripped.trans (by simp only [serverWith,List.nil_append,List.append_nil,
    List.append_assoc,List.cons_append]),by decide +kernel,by simp,nonempty,begins,notNull,notEmpty⟩

/-- Peers listed in an array instead of an object open the server, and so does a valid
file cut off inside its peers block. -/
theorem loadConfig_failsOpen :
    (¬∀ (read : Text → Option Text) (path raw : Text), read path = some raw → DeclaresPeers raw →
      FailsClosed read path) ∧
    ¬∀ (path full cut : Text) (cfg : Config), loadConfig (holding full) path = .ok cfg →
      cfg.mode = "server".toList → cfg.peers ≠ ∅ → cut <+: full → DeclaresPeers cut →
      FailsClosed (holding cut) path := by
  constructor
  · intro claim
    have declares : DeclaresPeers (serverWith ('[' :: quoted (List.replicate 64 'a') ++ "]\x7d".toList)) :=
      declaresPeers_with _ (by simp) (by decide +kernel) (by simp; decide) (by decide +kernel) (by simp)
    obtain ⟨cfg,loaded,empty⟩ := exists_loaded
      (holding (serverWith ('[' :: quoted (List.replicate 64 'a') ++ "]\x7d".toList))) []
      (fun cfg => cfg.peers.entries.isEmpty) (by decide +kernel)
    exact claim (holding _) [] _ rfl declares cfg loaded (peers_empty empty)
  · intro claim
    have declares : DeclaresPeers (serverWith ('{' :: onePeerText)) := by
      apply declaresPeers_with _ (by simp) (by decide +kernel) (by simp; decide) (by decide +kernel)
      rintro ⟨blanks,rest,blank,same⟩
      cases blanks with
      | nil => simp [onePeerText] at same
      | cons b blanks =>
        have first : '"' = b := (List.cons.inj (List.cons.inj same).2).1
        exact absurd (blank b List.mem_cons_self) (by rw [← first]; decide)
    obtain ⟨cfg,loaded,whole⟩ := exists_loaded (holding (serverWith ('{' :: onePeerText ++ "\x7d\x7d".toList))) []
      (fun cfg => cfg.mode = "server".toList && !cfg.peers.entries.isEmpty) (by decide +kernel)
    obtain ⟨cut,loadedCut,empty⟩ := exists_loaded (holding (serverWith ('{' :: onePeerText))) []
      (fun cfg => cfg.peers.entries.isEmpty) (by decide +kernel)
    simp only [Bool.and_eq_true,decide_eq_true_eq,Bool.not_eq_true'] at whole
    exact claim [] _ (serverWith ('{' :: onePeerText)) cfg loaded whole.1 (peers_ne_empty whole.2)
      ⟨"\x7d\x7d".toList,by simp only [serverWith,List.append_assoc,List.cons_append]⟩ declares cut loadedCut
      (peers_empty empty)

end Nospoon
