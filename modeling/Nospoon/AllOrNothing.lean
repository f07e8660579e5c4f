import Nospoon.Provisioning

/-! What a provisioning command leaves behind when it is refused in the middle. The client
files come first and stay, so from the first of them to the end of the run every refusal
leaves seeds behind that no server knows. -/
namespace Nospoon

open Library

/-! ### The property -/

/-- A config that loads has this seed. -/
def HoldsSeed (text : Text) (seed : Seed) : Prop :=
  jsonString (stripComments text) "seed".toList = bytesToHex seed.toList

/-- A server config has the key among its peers. -/
def ListsKey (config : Text) (key : PublicKey) : Prop := bytesToHex key.toList ∈ jsonPeers (stripComments config)

/-- Between `w` and `w'` no client file appeared whose seed the server config does not
know, and the server config that was there is still there. -/
structure AllOrNothing (env : Env) (dir server : Text) (w w' : World) : Prop where
  listed : ∀ k text seed, w.read (clientPath dir k) = none → w'.read (clientPath dir k) = some text →
    HoldsSeed text seed → ∃ config, w'.read server = some config ∧ ListsKey config (env.pubkey seed)
  kept : ∀ config, w.read server = some config → w'.read server = some config

/-- A run of `init` that is refused is as if it had not been. -/
def InitAllOrNothing (env : Env) (w : World) (dir : Text) (opts : List Text) : Prop :=
  ∀ refusal, (cmdInit env w (dir :: opts)).2 = .error refusal →
    AllOrNothing env dir (serverPath dir) w (cmdInit env w (dir :: opts)).1

/-- A run of `addclient` that is refused is as if it had not been. -/
def AddAllOrNothing (env : Env) (w : World) (path : Text) (opts : List Text) : Prop :=
  ∀ refusal, (cmdAddclient env w (path :: opts)).2 = .error refusal →
    AllOrNothing env (dirOf path) path w (cmdAddclient env w (path :: opts)).1

/-! ### What faults leave of a file -/

namespace Env

def Refused (env : Env) (op : Nat) : Prop := env.faults op = .refused

instance decidableRefused (env : Env) (op : Nat) : Decidable (env.Refused op) :=
  inferInstanceAs (Decidable (_ = _))

/-- What a write leaves of a text. -/
def written (env : Env) (op : Nat) (body : Text) : Text :=
  match env.faults op with
  | .short length => body.take length
  | .none | .refused => body

/-- The secret whose operations start at `op` is written: it is opened and its mode is set. -/
def Passes (env : Env) (op : Nat) : Prop := ¬env.Refused op ∧ ¬env.Refused (op + 2)

instance decidablePasses (env : Env) (op : Nat) : Decidable (env.Passes op) := inferInstanceAs (Decidable (_ ∧ _))

/-- What is at its path afterwards. A file whose mode cannot be set is removed, if that
is not refused too. -/
def secretLeft (env : Env) (op : Nat) (body : Text) (before : Option Text) : Option Text :=
  if env.Refused op then before
  else if env.Refused (op + 2) ∧ ¬env.Refused (op + 3) then none
  else some (env.written (op + 1) body)

end Env

theorem refused_ne {α : Type} (refusal : Text) (done : α) : (.error refusal : Except Text α) ≠ .ok done := by
  intro same
  contradiction

variable {env : Env} {w w' : World}

theorem World.read_did (w : World) (files : Files) (path : Text) :
    (w.did files).read path = (files.lookup path).map File.content := rfl

theorem World.attempt_cases (env : Env) (w : World) (files : Files) (refusal : Text) :
    (env.Refused w.ops ∧ w.attempt env files refusal = (w.did w.files,.error refusal)) ∨
      (¬env.Refused w.ops ∧ w.attempt env files refusal = (w.did files,.ok ())) := by
  unfold World.attempt Env.Refused
  split
  · rename_i refused
    exact .inl ⟨refused,rfl⟩
  · rename_i passes
    exact .inr ⟨by simp [passes],rfl⟩
  · rename_i passes
    exact .inr ⟨by simp [passes],rfl⟩

theorem World.write_eq (env : Env) (w : World) (path body : Text) : w.write env path body =
    w.did (w.files.insert path ⟨env.written w.ops body,w.modeOf env path⟩) := by
  unfold World.write Env.written
  cases env.faults w.ops with
  | none => rfl
  | refused => rfl
  | short length => rfl

theorem World.read_insert (files : Files) (file : File) (path other : Text) :
    ((files.insert path file).lookup other).map File.content =
      if other = path then some file.content else (files.lookup other).map File.content := by
  by_cases here : other = path
  · rw [if_pos here,here,AList.lookup_insert]
    rfl
  · rw [if_neg here,AList.lookup_insert_ne here]

theorem World.chmod_eq {file : File} (there : w.files.lookup path = some file) (mode : Nat) (refusal : Text) :
    w.chmod env path mode refusal = w.attempt env (w.files.insert path { file with mode }) refusal := by
  rw [World.chmod,there]

theorem World.read_remove (env : Env) (w : World) (path other : Text) :
    (w.remove env path).drawn = w.drawn ∧ (w.remove env path).read other =
      if other = path ∧ ¬env.Refused w.ops then none else w.read other := by
  rcases w.attempt_cases env (w.files.erase path) [] with ⟨refused,eq⟩ | ⟨passes,eq⟩
  · rw [World.remove,eq]
    exact ⟨rfl,(if_neg fun both => both.2 refused).symm⟩
  · rw [World.remove,eq]
    refine ⟨rfl,?_⟩
    rw [World.read_did]
    by_cases here : other = path
    · rw [if_pos ⟨here,passes⟩,here,AList.lookup_erase]
      rfl
    · rw [if_neg fun both => here both.1,AList.lookup_erase_ne here]
      rfl

/-- Everything a write of a secret can do. -/
theorem writeSecret_spec (env : Env) (w : World) (path body : Text) :
    ((writeSecret env w path body).2 = .ok () ↔ env.Passes w.ops) ∧
    (env.Passes w.ops → (writeSecret env w path body).1.ops = w.ops + 3) ∧
    (writeSecret env w path body).1.drawn = w.drawn ∧
    ∀ other, (writeSecret env w path body).1.read other =
      if other = path then env.secretLeft w.ops body (w.read path) else w.read other := by
  unfold writeSecret World.openTrunc
  rcases w.attempt_cases env (w.files.insert path ⟨[],w.modeOf env path⟩) ("cannot write ".toList ++ path) with
    ⟨refused,eq⟩ | ⟨opened,eq⟩
  · rw [eq]
    refine ⟨iff_of_false (refused_ne _ _) fun passes => passes.1 refused,fun passes => absurd refused passes.1,rfl,fun other => ?_⟩
    rw [Env.secretLeft,if_pos refused]
    split_ifs with here
    · rw [here]
      rfl
    · rfl
  · rw [eq]
    dsimp only
    rw [World.write_eq]
    have left : env.secretLeft w.ops body (w.read path) = if env.Refused (w.ops + 2) ∧ ¬env.Refused (w.ops + 3) then none
        else some (env.written (w.ops + 1) body) := if_neg opened
    generalize closed : ((w.did _).did _ : World) = w₂
    have ops : w₂.ops = w.ops + 2 := closed ▸ rfl
    have drawn : w₂.drawn = w.drawn := closed ▸ rfl
    obtain ⟨mode,there⟩ : ∃ mode, w₂.files.lookup path = some ⟨env.written (w.ops + 1) body,mode⟩ := by
      rw [← closed]
      exact ⟨_,AList.lookup_insert _⟩
    have reads (other : Text) : w₂.read other =
        if other = path then some (env.written (w.ops + 1) body) else w.read other := by
      rw [← closed,World.read_did,World.read_insert]
      split_ifs with here
      · rfl
      · rw [World.did_files,World.read_insert,if_neg here]
        rfl
    rw [World.chmod_eq there]
    rcases w₂.attempt_cases env (w₂.files.insert path ⟨env.written (w.ops + 1) body,0o600⟩)
        ("cannot chmod 600 ".toList ++ path ++ " — refusing to leave a world-readable seed behind".toList) with
      ⟨refused,eq⟩ | ⟨passes,eq⟩
    · rw [ops] at refused
      rw [eq]
      have removed := World.read_remove env (w₂.did w₂.files) path
      refine ⟨iff_of_false (refused_ne _ _) fun passes => passes.2 refused,fun passes => absurd refused passes.2,
        (removed path).1.trans drawn,fun other => (removed other).2.trans ?_⟩
      have op : (w₂.did w₂.files).ops = w.ops + 3 := congrArg (· + 1) ops
      have same : (w₂.did w₂.files).read other = w₂.read other := rfl
      rw [op,same,reads,left]
      by_cases here : other = path
      · simp [here,refused]
      · simp [here]
    · rw [ops] at passes
      rw [eq]
      refine ⟨iff_of_true rfl ⟨opened,passes⟩,fun _ => congrArg (· + 1) ops,drawn,fun other => ?_⟩
      rw [World.read_did,World.read_insert]
      by_cases here : other = path
      · simp [here,left,passes]
      · rw [if_neg here,if_neg here]
        exact (reads other).trans (if_neg here)

/-! ### The clients that stay -/

namespace Env

/-- The file of a secret stays: it is opened, and removed only if its mode cannot be set. -/
def Leaves (env : Env) (op : Nat) : Prop := ¬env.Refused op ∧ (env.Refused (op + 2) → env.Refused (op + 3))

/-- The `i`th client file stays. Each takes three operations, and all before it pass. -/
def Stays (env : Env) (op i : Nat) : Prop := (∀ j < i, env.Passes (op + 3 * j)) ∧ env.Leaves (op + 3 * i)

theorem secretLeft_new (env : Env) (op : Nat) (body : Text) :
    (env.Leaves op ∧ env.secretLeft op body none = some (env.written (op + 1) body)) ∨
      (¬env.Leaves op ∧ env.secretLeft op body none = none) := by
  unfold Leaves secretLeft
  by_cases opened : env.Refused op
  · exact .inr ⟨fun leaves => leaves.1 opened,if_pos opened⟩
  · by_cases removed : env.Refused (op + 2) ∧ ¬env.Refused (op + 3)
    · exact .inr ⟨fun leaves => removed.2 (leaves.2 removed.1),by rw [if_neg opened,if_pos removed]⟩
    · exact .inl ⟨⟨opened,fun refused => not_not.mp fun kept => removed ⟨refused,kept⟩⟩,
        by rw [if_neg opened,if_neg removed]⟩

theorem Passes.secretLeft (passes : env.Passes op) (body : Text) (before : Option Text) :
    env.secretLeft op body before = some (env.written (op + 1) body) := by
  rw [Env.secretLeft,if_neg passes.1,if_neg fun removed => passes.2 removed.1]

theorem Passes.leaves (passes : env.Passes op) : env.Leaves op :=
  ⟨passes.1,fun refused => absurd refused passes.2⟩

theorem stays_succ (passes : env.Passes op) (i : Nat) : env.Stays op (i + 1) ↔ env.Stays (op + 3) i := by
  have shift (j : Nat) : op + 3 * (j + 1) = op + 3 + 3 * j := by omega
  unfold Stays
  rw [shift]
  apply and_congr_left'
  constructor
  · intro all j below
    rw [← shift]
    exact all (j + 1) (Nat.succ_lt_succ below)
  · intro all j below
    cases j with
    | zero => exact passes
    | succ j =>
      rw [shift]
      exact all j (Nat.lt_of_succ_lt_succ below)

theorem stays_zero : env.Stays op 0 ↔ env.Leaves op := by simp [Stays]

end Env

/-- The text of the `i`th client, as its write leaves it. -/
def clientText (env : Env) (op draw : Nat) (serverPk : Text) (net : Subnet) (mtu : Int) (hosts : List Nat)
    (i : Nat) : Text :=
  env.written (op + 3 * i + 1)
    (clientConfig serverPk (hostIp net.base (hosts.getD i 0)) net.prefixLen (seedHex env (draw + i)) mtu)

/-- From `w` to `w'` the client files that appeared are those that stay. -/
structure Leftovers (env : Env) (dir : Text) (op n : Nat) (text : Nat → Text) (w w' : World) : Prop where
  stays : ∀ i < n, env.Stays op i →
    ∃ k, w.read (clientPath dir k) = none ∧ w'.read (clientPath dir k) = some (text i)
  only : ∀ k, w'.read (clientPath dir k) = w.read (clientPath dir k) ∨
    (w.read (clientPath dir k) = none ∧ ∃ i < n, env.Stays op i ∧ w'.read (clientPath dir k) = some (text i))

theorem World.read_eq_none : w.read path = none ↔ w.files.lookup path = none := by simp [World.read]

theorem clientText_succ (env : Env) (op draw : Nat) (serverPk : Text) (net : Subnet) (mtu : Int) (host : Nat)
    (hosts : List Nat) (i : Nat) : clientText env op draw serverPk net mtu (host :: hosts) (i + 1) =
      clientText env (op + 3) (draw + 1) serverPk net mtu hosts i := by
  have op' : op + 3 * (i + 1) + 1 = op + 3 + 3 * i + 1 := by omega
  have draw' : draw + (i + 1) = draw + 1 + i := by omega
  rw [clientText,clientText,op',draw']
  rfl

/-- Nothing more happens to the client files when a write of the next one is refused. -/
theorem Leftovers.refused {text : Nat → Text} (free : w.read (clientPath dir index) = none) (stops : ¬env.Passes op)
    (reads : ∀ other, w'.read other =
      if other = clientPath dir index then env.secretLeft op body none else w.read other)
    (first : text 0 = env.written (op + 1) body) : Leftovers env dir op (n + 1) text w w' := by
  rcases env.secretLeft_new op body with ⟨leaves,left⟩ | ⟨gone,left⟩
  · rw [left,← first] at reads
    constructor
    · intro i _ stays
      cases i with
      | zero => exact ⟨index,free,(reads _).trans (if_pos rfl)⟩
      | succ i => exact absurd (stays.1 0 (Nat.succ_pos i)) stops
    · intro k
      by_cases here : clientPath dir k = clientPath dir index
      · exact .inr ⟨here ▸ free,0,Nat.succ_pos n,Env.stays_zero.mpr leaves,(reads _).trans (if_pos here)⟩
      · exact .inl ((reads _).trans (if_neg here))
  · rw [left] at reads
    constructor
    · intro i _ stays
      cases i with
      | zero => exact absurd (Env.stays_zero.mp stays) gone
      | succ i => exact absurd (stays.1 0 (Nat.succ_pos i)) stops
    · intro k
      left
      rw [reads]
      split_ifs with here
      · rw [here,free]
      · rfl

/-- A client file that is written joins the ones that stay. -/
theorem Leftovers.written {w₁ : World} {text : Nat → Text} (free : w.read (clientPath dir index) = none)
    (passes : env.Passes op)
    (reads : ∀ other, w₁.read other = if other = clientPath dir index then some (text 0) else w.read other)
    (later : Leftovers env dir (op + 3) n (fun i => text (i + 1)) w₁ w') :
    Leftovers env dir op (n + 1) text w w' := by
  have here : w'.read (clientPath dir index) = some (text 0) := by
    have there : w₁.read (clientPath dir index) = some (text 0) := (reads _).trans (if_pos rfl)
    rcases later.only index with same | ⟨none,-⟩
    · rw [same,there]
    · rw [there] at none
      contradiction
  constructor
  · intro i below stays
    cases i with
    | zero => exact ⟨index,free,here⟩
    | succ i =>
      obtain ⟨k,free',read⟩ := later.stays i (Nat.lt_of_succ_lt_succ below) ((Env.stays_succ passes i).mp stays)
      rw [reads] at free'
      split_ifs at free'
      exact ⟨k,free',read⟩
  · intro k
    by_cases same : clientPath dir k = clientPath dir index
    · rw [same]
      exact .inr ⟨free,0,Nat.succ_pos n,Env.stays_zero.mpr passes.leaves,here⟩
    · have before : w₁.read (clientPath dir k) = w.read (clientPath dir k) := (reads _).trans (if_neg same)
      rcases later.only k with kept | ⟨free',i,below,stays,read⟩
      · exact .inl (kept.trans before)
      · exact .inr ⟨before.symm.trans free',i + 1,Nat.succ_lt_succ below,(Env.stays_succ passes i).mpr stays,read⟩

section Clients

variable (env : Env) (w : World) (dir serverPk : Text) (net : Subnet) (mtu : Int) (first : Nat)

/-- One round of the second loop of `make_clients`: it stops at a refused file, and goes on
behind one that is written. -/
theorem writeClients_step {w₁ : World} {result : Except Text Unit} (host : Nat) (hosts : List Nat)
    (written : writeSecret env { w with drawn := w.drawn + 1 }
      (clientPath dir (freeIndex w.files dir w.files.entries.length first))
      (clientConfig serverPk (hostIp net.base host) net.prefixLen (seedHex env w.drawn) mtu) = (w₁,result)) :
    (∀ refusal, result = .error refusal →
      writeClients env w dir serverPk net mtu first (host :: hosts) = (w₁,.error refusal)) ∧
    (result = .ok () → writeClients env w dir serverPk net mtu first (host :: hosts) =
      ((writeClients env w₁ dir serverPk net mtu (freeIndex w.files dir w.files.entries.length first + 1) hosts).1,
        (writeClients env w₁ dir serverPk net mtu (freeIndex w.files dir w.files.entries.length first + 1) hosts).2.map
          (⟨clientPath dir (freeIndex w.files dir w.files.entries.length first),hostIp net.base host,
            keyHex env w.drawn⟩ :: ·))) := by
  have draw : newSeedHex env w = ({ w with drawn := w.drawn + 1 },seedHex env w.drawn) := rfl
  rw [writeClients.eq_2,draw]
  dsimp only
  rw [pubkeyOf_seedHex]
  rw [hostIp] at written
  rw [written]
  refine ⟨fun refusal stopped => ?_,fun done => ?_⟩
  · subst stopped
    rfl
  · subst done
    dsimp only
    generalize writeClients env w₁ dir serverPk net mtu _ hosts = r
    obtain ⟨w₂,refusal | clients⟩ := r
    · rfl
    · rfl

/-- The file of a round is new, and the loop goes on if it is written. -/
theorem writeClients_cons (host : Nat) (hosts : List Nat) : ∃ index w₁,
    w.read (clientPath dir index) = none ∧
    (∀ other, w₁.read other = if other = clientPath dir index then env.secretLeft w.ops
      (clientConfig serverPk (hostIp net.base host) net.prefixLen (seedHex env w.drawn) mtu) none else w.read other) ∧
    ((¬env.Passes w.ops ∧ ∃ refusal, writeClients env w dir serverPk net mtu first (host :: hosts) = (w₁,.error refusal)) ∨
      (env.Passes w.ops ∧ w₁.ops = w.ops + 3 ∧ w₁.drawn = w.drawn + 1 ∧
        writeClients env w dir serverPk net mtu first (host :: hosts) =
          ((writeClients env w₁ dir serverPk net mtu (index + 1) hosts).1,
            (writeClients env w₁ dir serverPk net mtu (index + 1) hosts).2.map
              (⟨clientPath dir index,hostIp net.base host,keyHex env w.drawn⟩ :: ·)))) := by
  have free : w.read (clientPath dir (freeIndex w.files dir w.files.entries.length first)) = none :=
    World.read_eq_none.mpr (freeIndex_free w.files dir first)
  have step (w₁ : World) (result : Except Text Unit) := @writeClients_step env w dir serverPk net mtu first w₁ result host hosts
  generalize freeIndex w.files dir w.files.entries.length first = index at free step
  obtain ⟨passing,ops,drawn,reads⟩ := writeSecret_spec env { w with drawn := w.drawn + 1 } (clientPath dir index)
    (clientConfig serverPk (hostIp net.base host) net.prefixLen (seedHex env w.drawn) mtu)
  have unread (other : Text) : ({ w with drawn := w.drawn + 1 } : World).read other = w.read other := rfl
  simp only [unread,free] at reads
  refine ⟨index,_,free,reads,?_⟩
  generalize writeSecret env { w with drawn := w.drawn + 1 } (clientPath dir index) _ = r at passing ops drawn step
  obtain ⟨w₁,refusal | ⟨⟩⟩ := r
  · exact .inl ⟨passing.not.mp (refused_ne _ _),refusal,(step w₁ _ rfl).1 refusal rfl⟩
  · have passes : env.Passes w.ops := passing.mp rfl
    exact .inr ⟨passes,ops passes,drawn,(step w₁ _ rfl).2 rfl⟩

theorem writeClients_left (hosts : List Nat) :
    Leftovers env dir w.ops hosts.length (clientText env w.ops w.drawn serverPk net mtu hosts) w
      (writeClients env w dir serverPk net mtu first hosts).1 ∧
    (∀ path, (∀ k, path ≠ clientPath dir k) →
      (writeClients env w dir serverPk net mtu first hosts).1.read path = w.read path) := by
  induction hosts generalizing w first with
  | nil => exact ⟨⟨by simp,fun k => .inl rfl⟩,fun _ _ => rfl⟩
  | cons host hosts ih =>
    obtain ⟨index,w₁,free,reads,⟨stops,refusal,eq⟩ | ⟨passes,ops,drawn,eq⟩⟩ :=
      writeClients_cons env w dir serverPk net mtu first host hosts
    · rw [eq]
      exact ⟨Leftovers.refused free stops reads rfl,fun path other => (reads path).trans (if_neg (other index))⟩
    · rw [eq]
      obtain ⟨later,others⟩ := ih w₁ (index + 1)
      rw [passes.secretLeft] at reads
      refine ⟨Leftovers.written free passes reads ?_,fun path other => ?_⟩
      · have texts : (fun i => clientText env w.ops w.drawn serverPk net mtu (host :: hosts) (i + 1)) =
            clientText env w₁.ops w₁.drawn serverPk net mtu hosts := by
          funext i
          rw [ops,drawn,clientText_succ]
        rw [texts,← ops]
        exact later
      · exact (others path other).trans ((reads path).trans (if_neg (other index)))

/-- The clients as far as a server config shows them: keys and addresses. -/
def peersFrom (draw : Nat) : List Nat → List (Text × Text)
  | [] => []
  | host :: hosts => (keyHex env draw,hostIp net.base host) :: peersFrom (draw + 1) hosts

/-- All clients are written exactly when every write passes. -/
theorem writeClients_passes (hosts : List Nat) :
    ((∃ clients, (writeClients env w dir serverPk net mtu first hosts).2 = .ok clients) ↔
      ∀ i < hosts.length, env.Passes (w.ops + 3 * i)) ∧
    ∀ clients, (writeClients env w dir serverPk net mtu first hosts).2 = .ok clients →
      (writeClients env w dir serverPk net mtu first hosts).1.ops = w.ops + 3 * hosts.length ∧
      pairsOf clients = peersFrom env net w.drawn hosts := by
  induction hosts generalizing w first with
  | nil => exact ⟨iff_of_true ⟨[],rfl⟩ (by simp),fun clients same => ⟨rfl,by cases same; rfl⟩⟩
  | cons host hosts ih =>
    obtain ⟨index,w₁,free,reads,⟨stops,refusal,eq⟩ | ⟨passes,ops,drawn,eq⟩⟩ :=
      writeClients_cons env w dir serverPk net mtu first host hosts
    · rw [eq]
      exact ⟨iff_of_false (fun ⟨clients,same⟩ => refused_ne refusal clients same) fun all => stops (all 0 (Nat.succ_pos _)),
        fun clients same => absurd same (refused_ne refusal clients)⟩
    · rw [eq]
      obtain ⟨passing,later⟩ := ih w₁ (index + 1)
      have shift (i : Nat) : w.ops + 3 * (i + 1) = w₁.ops + 3 * i := by rw [ops]; omega
      constructor
      · trans ∃ clients, (writeClients env w₁ dir serverPk net mtu (index + 1) hosts).2 = .ok clients
        · cases (writeClients env w₁ dir serverPk net mtu (index + 1) hosts).2 with
          | error refusal => exact iff_of_false (fun ⟨_,same⟩ => refused_ne _ _ same) fun ⟨_,same⟩ => refused_ne _ _ same
          | ok clients => exact iff_of_true ⟨_,rfl⟩ ⟨_,rfl⟩
        · rw [passing,List.length_cons,Nat.forall_lt_succ_left]
          simp only [shift]
          exact (and_iff_right passes).symm
      · intro clients same
        cases listed : (writeClients env w₁ dir serverPk net mtu (index + 1) hosts).2 with
        | error refusal => simp [listed,Except.map] at same
        | ok rest =>
          obtain ⟨ops',pairs⟩ := later rest listed
          rw [listed] at same
          obtain rfl := Except.ok.inj same
          refine ⟨ops'.trans ?_,?_⟩
          · rw [ops,List.length_cons]
            omega
          · rw [peersFrom,← drawn,← pairs]
            rfl

end Clients

/-! ### The commands -/

/-- What refusals after the first client file may leave: no file that stays holds a seed
the server config at the end does not know, and that config is the old one, if there was
one. -/
structure Harmless (env : Env) (op n : Nat) (text : Nat → Text) (old left : Option Text) : Prop where
  listed : ∀ i < n, env.Stays op i → ∀ seed, HoldsSeed (text i) seed →
    ∃ config, left = some config ∧ ListsKey config (env.pubkey seed)
  kept : ∀ config, old = some config → left = some config

theorem Leftovers.allOrNothing_iff {text : Nat → Text} (leftovers : Leftovers env dir op n text w w')
    (server : w'.read path = left) :
    AllOrNothing env dir path w w' ↔ Harmless env op n text (w.read path) left := by
  constructor
  · intro all
    refine ⟨fun i below stays seed holds => ?_,fun config old => server.symm.trans (all.kept config old)⟩
    obtain ⟨k,free,read⟩ := leftovers.stays i below stays
    obtain ⟨config,there,lists⟩ := all.listed k (text i) seed free read holds
    exact ⟨config,server.symm.trans there,lists⟩
  · intro harmless
    refine ⟨fun k content seed free read holds => ?_,fun config old => server.trans (harmless.kept config old)⟩
    rcases leftovers.only k with same | ⟨-,i,below,stays,read'⟩
    · rw [same,free] at read
      contradiction
    · obtain rfl := Option.some.inj (read.symm.trans read')
      obtain ⟨config,there,lists⟩ := harmless.listed i below stays seed holds
      exact ⟨config,server.trans there,lists⟩

/-- Leftovers are about client files only. -/
theorem Leftovers.of_reads {v v' : World} {text : Nat → Text} (leftovers : Leftovers env dir op n text w w')
    (before : ∀ k, v.read (clientPath dir k) = w.read (clientPath dir k))
    (after : ∀ k, v'.read (clientPath dir k) = w'.read (clientPath dir k)) : Leftovers env dir op n text v v' := by
  constructor
  · intro i below stays
    obtain ⟨k,free,read⟩ := leftovers.stays i below stays
    exact ⟨k,(before k).trans free,(after k).trans read⟩
  · intro k
    rw [before,after]
    exact leftovers.only k

theorem AllOrNothing.unchanged (same : ∀ path, w'.read path = w.read path) : AllOrNothing env dir server w w' := by
  refine ⟨fun k text seed free read => ?_,fun config old => (same server).trans old⟩
  rw [same,free] at read
  contradiction

theorem serverConfig_pairs {clients clients' : List Created} (same : pairsOf clients = pairsOf clients') (head : Text) :
    serverConfig head clients = serverConfig head clients' := by
  have entries : initEntries clients = initEntries clients' := by
    induction clients generalizing clients' with
    | nil => rw [List.map_eq_nil_iff.mp same.symm]
    | cons client clients ih =>
      obtain ⟨client',rest,rfl,here,later⟩ := List.map_eq_cons_iff.mp same.symm
      have text : entryText client' = entryText client := by
        rw [entryText,entryText,(Prod.mk.inj here).1,(Prod.mk.inj here).2]
      cases clients with
      | nil =>
        rw [List.map_eq_nil_iff.mp later,initEntries,initEntries,text]
      | cons next clients =>
        obtain ⟨next',rest',rfl,-,-⟩ := List.map_eq_cons_iff.mp later
        have more (c d : Created) (cs : List Created) : initEntries (c :: d :: cs) =
            "    ".toList ++ entryText c ++ ",\n".toList ++ initEntries (d :: cs) := rfl
        rw [more,more,text,ih later.symm]
  rw [serverConfig,serverConfig,entries]

/-- The server config `init` writes, from its plan. -/
def initText (env : Env) (plan : InitPlan) (draw : Nat) : Text :=
  serverConfig (serverHead (serverIp plan.net) plan.net.prefixLen (seedHex env draw) plan.mtu)
    ((peersFrom env plan.net (draw + 1) (reserveHosts plan.n plan.net)).map fun p => ⟨[],p.2,p.1⟩)

/-- All writes of `n` clients from operation `op` on pass. -/
def ClientsPass (env : Env) (op n : Nat) : Prop := ∀ i < n, env.Passes (op + 3 * i)

instance decidableClientsPass (env : Env) (op n : Nat) : Decidable (ClientsPass env op n) :=
  inferInstanceAs (Decidable (∀ i < n, _))

/-- `init` gets as far as its clients, and is then refused only where that is harmless. -/
def InitHarmless (env : Env) (w : World) (dir : Text) (opts : List Text) : Prop :=
  ∀ plan, initPlan opts = .ok plan → ¬env.Refused w.ops → ¬env.Refused (w.ops + 1) →
    plan.n ≤ (reserveHosts plan.n plan.net).length →
    ¬(ClientsPass env (w.ops + 2) plan.n ∧ env.Passes (w.ops + 2 + 3 * plan.n)) →
    Harmless env (w.ops + 2) plan.n
      (clientText env (w.ops + 2) (w.drawn + 1) (keyHex env w.drawn) plan.net plan.mtu (reserveHosts plan.n plan.net))
      (w.read (serverPath dir))
      (if ClientsPass env (w.ops + 2) plan.n
        then env.secretLeft (w.ops + 2 + 3 * plan.n) (initText env plan w.drawn) (w.read (serverPath dir))
        else w.read (serverPath dir))

/-- The ways a planned `init` can end: before its first file, at a client, or with the server config. -/
inductive InitEnded (env : Env) (w : World) (dir : Text) (plan : InitPlan) : World × Except Text (List Created) → Prop
  | unopened (files : w₀.files = w.files)
    (stops : ¬(¬env.Refused w.ops ∧ ¬env.Refused (w.ops + 1) ∧ plan.n ≤ (reserveHosts plan.n plan.net).length))
    (refusal : Text) : InitEnded env w dir plan (w₀,.error refusal)
  | stopped (created : ¬env.Refused w.ops) (tightened : ¬env.Refused (w.ops + 1))
    (room : plan.n ≤ (reserveHosts plan.n plan.net).length)
    (files : w₀.files = w.files) (ops₀ : w₀.ops = w.ops + 2) (drawn : w₀.drawn = w.drawn + 1)
    (wrote : writeClients env w₀ dir (keyHex env w.drawn) plan.net plan.mtu 1 (reserveHosts plan.n plan.net) =
      (w₁,.error refusal))
    (stops : ¬ClientsPass env (w.ops + 2) plan.n) : InitEnded env w dir plan (w₁,.error refusal)
  | written (created : ¬env.Refused w.ops) (tightened : ¬env.Refused (w.ops + 1))
    (room : plan.n ≤ (reserveHosts plan.n plan.net).length)
    (files : w₀.files = w.files) (ops₀ : w₀.ops = w.ops + 2) (drawn : w₀.drawn = w.drawn + 1)
    (wrote : writeClients env w₀ dir (keyHex env w.drawn) plan.net plan.mtu 1 (reserveHosts plan.n plan.net) =
      (w₁,.ok clients))
    (pass : ClientsPass env (w.ops + 2) plan.n) (ops : w₁.ops = w.ops + 2 + 3 * plan.n) :
    InitEnded env w dir plan ((writeSecret env w₁ (serverPath dir) (initText env plan w.drawn)).1,
      (writeSecret env w₁ (serverPath dir) (initText env plan w.drawn)).2.map fun _ => clients)

theorem reserveHosts_full (room : n ≤ (reserveHosts n net).length) : (reserveHosts n net).length = n :=
  Nat.le_antisymm (reserveHosts_length_le _ _) room

theorem cmdInit_ended (env : Env) (w : World) (dir : Text) {opts : List Text} {plan : InitPlan}
    (planned : initPlan opts = .ok plan) : InitEnded env w dir plan (cmdInit env w (dir :: opts)) := by
  unfold cmdInit
  dsimp only
  rw [planned]
  dsimp only
  rcases w.attempt_cases env w.files ("cannot create ".toList ++ dir) with ⟨refused,eq⟩ | ⟨created,eq⟩
  · rw [eq]
    have files : (w.did w.files).files = w.files := rfl
    exact .unopened files (fun all => all.1 refused) _
  · rw [eq]
    dsimp only
    rcases (w.did w.files).attempt_cases env (w.did w.files).files ("cannot chmod 700 ".toList ++ dir ++
      " — refusing to write seeds into a directory others can read".toList) with ⟨refused,eq⟩ | ⟨tightened,eq⟩
    · rw [eq]
      have files : ((w.did w.files).did (w.did w.files).files).files = w.files := rfl
      exact .unopened files (fun all => all.2.1 refused) _
    · rw [eq]
      dsimp only [newSeedHex,makeClients]
      have pk : pubkeyOf env (bytesToHex (env.seeds w.drawn).toList) = keyHex env w.drawn := pubkeyOf_seedHex env w.drawn
      simp only [World.did_drawn,pk]
      generalize started : ({ (w.did w.files).did (w.did w.files).files with drawn := w.drawn + 1 } : World) = w₀
      have files : w₀.files = w.files := started ▸ rfl
      have ops : w₀.ops = w.ops + 2 := started ▸ rfl
      have drawn : w₀.drawn = w.drawn + 1 := started ▸ rfl
      by_cases short : (reserveHosts plan.n plan.net).length < plan.n
      · rw [if_pos short]
        exact .unopened files (fun all => absurd all.2.2 (by omega)) _
      · have room : plan.n ≤ (reserveHosts plan.n plan.net).length := Nat.le_of_not_lt short
        rw [if_neg short]
        obtain ⟨passing,done⟩ := writeClients_passes env w₀ dir (keyHex env w.drawn) plan.net plan.mtu 1
          (reserveHosts plan.n plan.net)
        simp only [reserveHosts_full room,ops,drawn] at passing done
        cases wrote : writeClients env w₀ dir (keyHex env w.drawn) plan.net plan.mtu 1 (reserveHosts plan.n plan.net) with
        | mk w₁ result =>
          rw [wrote] at passing done
          cases result with
          | error refusal =>
            exact .stopped created tightened room files ops drawn wrote
              (passing.not.mp fun ⟨clients,same⟩ => refused_ne refusal clients same)
          | ok clients =>
            obtain ⟨ops₁,pairs⟩ := done clients rfl
            have text : serverConfig (serverHead (serverIp plan.net) plan.net.prefixLen
                (bytesToHex (env.seeds w.drawn).toList) plan.mtu) clients = initText env plan w.drawn := by
              apply serverConfig_pairs
              rw [pairs,pairsOf,List.map_map]
              exact (List.map_id _).symm
            have ended := InitEnded.written created tightened room files ops drawn wrote (passing.mp ⟨clients,rfl⟩) ops₁
            dsimp only
            rw [text]
            generalize writeSecret env w₁ (serverPath dir) (initText env plan w.drawn) = r at ended
            obtain ⟨w₂,refusal | ⟨⟩⟩ := r
            · exact ended
            · exact ended

theorem init_allOrNothing_iff (env : Env) (w : World) (dir : Text) (opts : List Text) :
    InitAllOrNothing env w dir opts ↔ InitHarmless env w dir opts := by
  unfold InitAllOrNothing
  cases planned : initPlan opts with
  | error refusal =>
    have unchanged : (cmdInit env w (dir :: opts)).1 = w := by simp [cmdInit,planned]
    refine iff_of_true (fun _ _ => .unchanged fun _ => by rw [unchanged]) fun plan same => ?_
    rw [planned] at same
    contradiction
  | ok plan =>
    have only {p : InitPlan → Prop} : (∀ plan', initPlan opts = .ok plan' → p plan') ↔ p plan := by
      rw [planned]
      simp
    rw [InitHarmless,only]
    have apart (k : Nat) : serverPath dir ≠ clientPath dir k := by
      have differ := clientPath_ne dir [] k
      rw [List.append_nil] at differ
      exact differ.symm
    have ended := cmdInit_ended env w dir planned
    generalize cmdInit env w (dir :: opts) = r at ended
    cases ended with
    | unopened files stops refusal =>
      refine iff_of_true (fun _ _ => .unchanged fun path => ?_) fun created tightened room => ?_
      · exact congrArg (fun files : Files => (files.lookup path).map File.content) files
      · exact absurd ⟨created,tightened,room⟩ stops
    | @stopped w₀ w₁ refusal created tightened room files ops drawn wrote stops =>
      have before (path : Text) : w.read path = w₀.read path :=
        congrArg (fun files : Files => (files.lookup path).map File.content) files.symm
      obtain ⟨leftovers,others⟩ := writeClients_left env w₀ dir (keyHex env w.drawn) plan.net plan.mtu 1
        (reserveHosts plan.n plan.net)
      simp only [wrote,reserveHosts_full room,ops,drawn] at leftovers others
      have server : w₁.read (serverPath dir) = w.read (serverPath dir) :=
        (others _ apart).trans (before _).symm
      rw [if_neg stops,← (leftovers.of_reads (fun k => before _) fun k => rfl).allOrNothing_iff server]
      exact ⟨fun all _ _ _ _ => all refusal rfl,fun all _ _ => all created tightened room fun both => stops both.1⟩
    | @written w₀ w₁ clients created tightened room files ops drawn wrote pass ops₁ =>
      have before (path : Text) : w.read path = w₀.read path :=
        congrArg (fun files : Files => (files.lookup path).map File.content) files.symm
      obtain ⟨leftovers,others⟩ := writeClients_left env w₀ dir (keyHex env w.drawn) plan.net plan.mtu 1
        (reserveHosts plan.n plan.net)
      simp only [wrote,reserveHosts_full room,ops,drawn] at leftovers others
      obtain ⟨passing,-,-,reads⟩ := writeSecret_spec env w₁ (serverPath dir) (initText env plan w.drawn)
      have unmoved : w₁.read (serverPath dir) = w.read (serverPath dir) :=
        (others _ apart).trans (before _).symm
      rw [ops₁] at passing reads
      rw [if_pos pass]
      generalize writeSecret env w₁ (serverPath dir) (initText env plan w.drawn) = r at passing reads
      obtain ⟨w₂,refusal | ⟨⟩⟩ := r
      · have server : w₂.read (serverPath dir) = env.secretLeft (w.ops + 2 + 3 * plan.n)
            (initText env plan w.drawn) (w.read (serverPath dir)) := by
          rw [← unmoved]
          exact (reads _).trans (if_pos rfl)
        have client (k : Nat) : w₂.read (clientPath dir k) = w₁.read (clientPath dir k) :=
          (reads _).trans (if_neg (apart k).symm)
        have stopped : ¬env.Passes (w.ops + 2 + 3 * plan.n) := passing.not.mp (refused_ne _ _)
        rw [← (leftovers.of_reads (fun k => before _) client).allOrNothing_iff server]
        exact ⟨fun all _ _ _ _ => all refusal rfl,
          fun all _ _ => all created tightened room fun both => stopped both.2⟩
      · exact iff_of_true (fun refusal same => absurd same.symm (refused_ne refusal _))
          fun _ _ _ some => absurd ⟨pass,passing.mp rfl⟩ some

/-- What is named like a config is not named like a helper of one. -/
theorem ne_helper (last : path.getLast? = some 'c') (config : Text) : path ≠ bakOf config ∧ path ≠ tmpOf config := by
  have bak : (bakOf config).getLast? = some 'k' := by simp [bakOf]
  have tmp : (tmpOf config).getLast? = some 'p' := by simp [tmpOf]
  refine ⟨fun same => ?_,fun same => ?_⟩
  · rw [same,bak] at last
    exact absurd last (by decide)
  · rw [same,tmp] at last
    exact absurd last (by decide)

theorem clientPath_helper (dir path : Text) (k : Nat) : clientPath dir k ≠ bakOf path ∧ clientPath dir k ≠ tmpOf path := by
  have split : clientPath dir k = (dir ++ '/' :: clientName k ++ ".json".toList) ++ ['c'] := by simp [clientPath]
  exact ne_helper (by rw [split,List.getLast?_concat]) path

/-- The ways a replacement can end; the first two stop at a write, the third at the rename. -/
inductive Replaced (env : Env) (w : World) (path raw updated : Text) : World × Except Text Unit → Prop
  | noBackup (stops : ¬env.Passes w.ops) (refusal : Text) :
    Replaced env w path raw updated ((writeSecret env w (bakOf path) raw).1,.error refusal)
  | noUpdate (backed : writeSecret env w (bakOf path) raw = (w₁,.ok ())) (first : env.Passes w.ops) (ops : w₁.ops = w.ops + 3)
    (stops : ¬env.Passes (w.ops + 3)) (refusal : Text) :
    Replaced env w path raw updated ((writeSecret env w₁ (tmpOf path) updated).1,.error refusal)
  | noRename (backed : writeSecret env w (bakOf path) raw = (w₁,.ok ())) (first : env.Passes w.ops) (ops : w₁.ops = w.ops + 3)
    (wrote : writeSecret env w₁ (tmpOf path) updated = (w₂,.ok ())) (second : env.Passes (w.ops + 3))
    (refused : env.Refused (w.ops + 6)) (refusal : Text) :
    Replaced env w path raw updated ((w₂.did w₂.files).remove env (tmpOf path),.error refusal)
  | renamed (backed : writeSecret env w (bakOf path) raw = (w₁,.ok ())) (first : env.Passes w.ops) (ops : w₁.ops = w.ops + 3)
    (wrote : writeSecret env w₁ (tmpOf path) updated = (w₂,.ok ())) (second : env.Passes (w.ops + 3))
    (there : w₂.files.lookup (tmpOf path) = some file) (third : ¬env.Refused (w.ops + 6)) :
    Replaced env w path raw updated (w₂.did ((w₂.files.erase (tmpOf path)).insert path file),.ok ())

theorem replaceServer_replaced (env : Env) (w : World) (path raw updated : Text) :
    Replaced env w path raw updated (replaceServer env w path raw updated) := by
  unfold replaceServer
  obtain ⟨passing,ops,-⟩ := writeSecret_spec env w (bakOf path) raw
  cases backed : writeSecret env w (bakOf path) raw with
  | mk w₁ result =>
    rw [backed] at passing ops
    cases result with
    | error refusal =>
      have stopped : Replaced env w path raw updated ((writeSecret env w (bakOf path) raw).1,.error refusal) :=
        .noBackup (passing.not.mp (refused_ne _ _)) refusal
      rwa [backed] at stopped
    | ok done =>
      have first : env.Passes w.ops := passing.mp rfl
      have ops₁ : w₁.ops = w.ops + 3 := ops first
      dsimp only
      obtain ⟨passing₂,ops₂,-,reads⟩ := writeSecret_spec env w₁ (tmpOf path) updated
      cases wrote : writeSecret env w₁ (tmpOf path) updated with
      | mk w₂ result =>
        rw [wrote,ops₁] at passing₂ ops₂
        rw [wrote] at reads
        cases result with
        | error refusal =>
          have stopped : Replaced env w path raw updated ((writeSecret env w₁ (tmpOf path) updated).1,.error refusal) :=
            .noUpdate backed first ops₁ (passing₂.not.mp (refused_ne _ _)) refusal
          rwa [wrote] at stopped
        | ok done =>
          have second : env.Passes (w.ops + 3) := passing₂.mp rfl
          have ops₂ : w₂.ops = w.ops + 6 := ops₂ second
          have kept := (reads (tmpOf path)).trans (if_pos rfl)
          rw [ops₁,second.secretLeft] at kept
          obtain ⟨file,there,-⟩ := Option.map_eq_some_iff.mp kept
          dsimp only [World.rename]
          rw [there]
          rcases w₂.attempt_cases env ((w₂.files.erase (tmpOf path)).insert path file) ("cannot replace ".toList ++ path)
            with ⟨refused,eq⟩ | ⟨third,eq⟩
          · dsimp only
            rw [eq]
            exact .noRename backed first ops₁ wrote second (ops₂ ▸ refused) _
          · dsimp only
            rw [eq]
            exact .renamed backed first ops₁ wrote second there (ops₂ ▸ third)

/-- Where the replacement stops it has touched its two helpers only. -/
theorem replaceServer_left (env : Env) (w : World) (path raw updated : Text) :
    ((replaceServer env w path raw updated).2 = .ok () ↔
      env.Passes w.ops ∧ env.Passes (w.ops + 3) ∧ ¬env.Refused (w.ops + 6)) ∧
    ((replaceServer env w path raw updated).2 ≠ .ok () → ∀ other, other ≠ bakOf path → other ≠ tmpOf path →
      (replaceServer env w path raw updated).1.read other = w.read other) := by
  have reads (w : World) (helper body other : Text) (apart : other ≠ helper) :
      (writeSecret env w helper body).1.read other = w.read other := by
    obtain ⟨-,-,-,reads⟩ := writeSecret_spec env w helper body
    exact (reads other).trans (if_neg apart)
  have ended := replaceServer_replaced env w path raw updated
  generalize replaceServer env w path raw updated = r at ended
  cases ended with
  | noBackup stops refusal =>
    exact ⟨iff_of_false (refused_ne _ _) fun all => stops all.1,fun _ other noBak _ => reads w _ raw other noBak⟩
  | noUpdate backed first ops stops refusal =>
    refine ⟨iff_of_false (refused_ne _ _) fun all => stops all.2.1,fun _ other noBak noTmp => ?_⟩
    have before := reads w _ raw other noBak
    rw [backed] at before
    exact (reads _ _ updated other noTmp).trans before
  | @noRename w₁ w₂ backed first ops wrote second refused refusal =>
    refine ⟨iff_of_false (refused_ne _ _) fun all => all.2.2 refused,fun _ other noBak noTmp => ?_⟩
    have before := reads w _ raw other noBak
    have after := reads w₁ _ updated other noTmp
    rw [backed] at before
    rw [wrote] at after
    exact (World.read_remove env _ _ other).2.trans ((if_neg fun both => noTmp both.1).trans (after.trans before))
  | renamed backed first ops wrote second there third =>
    exact ⟨iff_of_true rfl ⟨first,second,third⟩,fun some => absurd rfl some⟩

/-- `addclient` gets as far as its clients, and is then refused only where that is harmless. -/
def AddHarmless (env : Env) (w : World) (path : Text) (opts : List Text) : Prop :=
  ∀ plan, addPlan w.read path opts = .ok plan → plan.n ≤ (reserveHosts plan.n plan.net).length →
    ¬(ClientsPass env w.ops plan.n ∧ env.Passes (w.ops + 3 * plan.n) ∧ env.Passes (w.ops + 3 * plan.n + 3) ∧
      ¬env.Refused (w.ops + 3 * plan.n + 6)) →
    Harmless env w.ops plan.n
      (clientText env w.ops w.drawn (pubkeyOf env plan.cfg.seed) plan.net plan.cfg.mtu (reserveHosts plan.n plan.net))
      (w.read path) (w.read path)

/-- The ways a planned `addclient` can end: before its first file, at a client, or with the replacement. -/
inductive AddEnded (env : Env) (w : World) (path : Text) (plan : AddPlan) : World × Except Text (List Created) → Prop
  | noRoom (short : ¬plan.n ≤ (reserveHosts plan.n plan.net).length) (refusal : Text) :
    AddEnded env w path plan (w,.error refusal)
  | stopped (room : plan.n ≤ (reserveHosts plan.n plan.net).length)
    (wrote : writeClients env w (dirOf path) (pubkeyOf env plan.cfg.seed) plan.net plan.cfg.mtu
      (plan.cfg.peers.entries.length + 1) (reserveHosts plan.n plan.net) = (w₁,.error refusal))
    (stops : ¬ClientsPass env w.ops plan.n) : AddEnded env w path plan (w₁,.error refusal)
  | replaced (room : plan.n ≤ (reserveHosts plan.n plan.net).length)
    (wrote : writeClients env w (dirOf path) (pubkeyOf env plan.cfg.seed) plan.net plan.cfg.mtu
      (plan.cfg.peers.entries.length + 1) (reserveHosts plan.n plan.net) = (w₁,.ok clients))
    (pass : ClientsPass env w.ops plan.n) (ops : w₁.ops = w.ops + 3 * plan.n) :
    AddEnded env w path plan ((replaceServer env w₁ path plan.raw (plan.front ++ addEntries clients ++ plan.back)).1,
      (replaceServer env w₁ path plan.raw (plan.front ++ addEntries clients ++ plan.back)).2.map fun _ => clients)

theorem cmdAddclient_ended (env : Env) (w : World) {path : Text} {opts : List Text} {plan : AddPlan}
    (planned : addPlan w.read path opts = .ok plan) : AddEnded env w path plan (cmdAddclient env w (path :: opts)) := by
  unfold cmdAddclient
  dsimp only
  rw [planned]
  dsimp only [makeClients]
  by_cases short : (reserveHosts plan.n plan.net).length < plan.n
  · rw [if_pos short]
    exact .noRoom (Nat.not_le_of_lt short) _
  · have room : plan.n ≤ (reserveHosts plan.n plan.net).length := Nat.le_of_not_lt short
    rw [if_neg short]
    obtain ⟨passing,done⟩ := writeClients_passes env w (dirOf path) (pubkeyOf env plan.cfg.seed) plan.net plan.cfg.mtu
      (plan.cfg.peers.entries.length + 1) (reserveHosts plan.n plan.net)
    rw [reserveHosts_full room] at passing done
    cases wrote : writeClients env w (dirOf path) (pubkeyOf env plan.cfg.seed) plan.net plan.cfg.mtu
      (plan.cfg.peers.entries.length + 1) (reserveHosts plan.n plan.net) with
    | mk w₁ result =>
      rw [wrote] at passing done
      cases result with
      | error refusal => exact .stopped room wrote (passing.not.mp fun ⟨clients,same⟩ => refused_ne refusal clients same)
      | ok clients =>
        have ended := AddEnded.replaced room wrote (passing.mp ⟨clients,rfl⟩) (done clients rfl).1
        dsimp only
        generalize replaceServer env w₁ path plan.raw (plan.front ++ addEntries clients ++ plan.back) = r at ended
        obtain ⟨w₂,refusal | ⟨⟩⟩ := r
        · exact ended
        · exact ended

theorem addclient_allOrNothing_iff (env : Env) (w : World) (path : Text) (opts : List Text) :
    AddAllOrNothing env w path opts ↔ AddHarmless env w path opts := by
  unfold AddAllOrNothing
  cases planned : addPlan w.read path opts with
  | error refusal =>
    have unchanged : (cmdAddclient env w (path :: opts)).1 = w := by simp [cmdAddclient,planned]
    refine iff_of_true (fun _ _ => .unchanged fun _ => by rw [unchanged]) fun plan same => ?_
    rw [planned] at same
    contradiction
  | ok plan =>
    have only {p : AddPlan → Prop} : (∀ plan', addPlan w.read path opts = .ok plan' → p plan') ↔ p plan := by
      rw [planned]
      simp
    rw [AddHarmless,only]
    obtain ⟨-,-,-,-,there,-⟩ := addPlan_ok planned
    obtain ⟨leftovers,others⟩ := writeClients_left env w (dirOf path) (pubkeyOf env plan.cfg.seed) plan.net plan.cfg.mtu
      (plan.cfg.peers.entries.length + 1) (reserveHosts plan.n plan.net)
    -- the server config may have a client's name, but it is no new file
    have server : (writeClients env w (dirOf path) (pubkeyOf env plan.cfg.seed) plan.net plan.cfg.mtu
        (plan.cfg.peers.entries.length + 1) (reserveHosts plan.n plan.net)).1.read path = w.read path := by
      by_cases client : ∃ k, path = clientPath (dirOf path) k
      · obtain ⟨k,name⟩ := client
        rcases leftovers.only k with same | ⟨free,-⟩
        · rw [← name] at same
          exact same
        · rw [← name,there] at free
          contradiction
      · exact others path (not_exists.mp client)
    have ended := cmdAddclient_ended env w planned
    generalize cmdAddclient env w (path :: opts) = r at ended
    cases ended with
    | noRoom short refusal => exact iff_of_true (fun _ _ => .unchanged fun _ => rfl) fun room => absurd room short
    | @stopped w₁ refusal room wrote stops =>
      simp only [wrote,reserveHosts_full room] at leftovers server
      rw [← leftovers.allOrNothing_iff server]
      exact ⟨fun all _ _ => all refusal rfl,fun all _ _ => all room fun both => stops both.1⟩
    | @replaced w₁ clients room wrote pass ops =>
      simp only [wrote,reserveHosts_full room] at leftovers server
      obtain ⟨passing,kept⟩ := replaceServer_left env w₁ path plan.raw (plan.front ++ addEntries clients ++ plan.back)
      rw [ops] at passing
      generalize replaceServer env w₁ path plan.raw (plan.front ++ addEntries clients ++ plan.back) = r at passing kept
      obtain ⟨w₂,refusal | ⟨⟩⟩ := r
      · have stays := kept (refused_ne _ _)
        have server₂ : w₂.read path = w.read path :=
          (stays path (by simp [bakOf]) (by simp [tmpOf])).trans server
        have client (k : Nat) : w₂.read (clientPath (dirOf path) k) = w₁.read (clientPath (dirOf path) k) :=
          stays _ (clientPath_helper _ path k).1 (clientPath_helper _ path k).2
        have stopped := passing.not.mp (refused_ne _ _)
        rw [← (leftovers.of_reads (fun k => rfl) client).allOrNothing_iff server₂]
        exact ⟨fun all _ _ => all refusal rfl,fun all _ _ => all room fun both => stopped both.2⟩
      · exact iff_of_true (fun refusal same => absurd same.symm (refused_ne refusal _))
          fun _ some => absurd ⟨pass,passing.mp rfl⟩ some

/-- Both commands are all or nothing exactly where the faults let no stray client file
stay and spare the server config. -/
theorem provisioning_allOrNothing_iff (env : Env) (w : World) (target : Text) (opts : List Text) :
    (InitAllOrNothing env w target opts ↔ InitHarmless env w target opts) ∧
      (AddAllOrNothing env w target opts ↔ AddHarmless env w target opts) :=
  ⟨init_allOrNothing_iff env w target opts,addclient_allOrNothing_iff env w target opts⟩

/-- The known keys on a disk that refuses one operation. -/
def refusing (op : Nat) : Env := { threeKeys with faults := fun o => if o = op then .refused else .none }

/-- A directory with a server config and nothing else. -/
def oldServer : World := ⟨AList.insert (serverPath "vpn".toList) ⟨"old".toList,0o600⟩ ∅,0,0,[]⟩

theorem stray {file : Option Text} {seed : Seed}
    (found : (file.any fun text => jsonString (stripComments text) "seed".toList = bytesToHex seed.toList) = true) :
    ∃ text, file = some text ∧ HoldsSeed text seed := by
  cases file with
  | none => contradiction
  | some text =>
    have holds : jsonString (stripComments text) "seed".toList = bytesToHex seed.toList := by simpa using found
    exact ⟨text,rfl,holds⟩

/-- `init` whose server file cannot be opened leaves its client with a seed; where its mode
cannot be set, an old server config is gone; and so with `addclient` and its backup. -/
theorem provisioning_orphans :
    ¬InitAllOrNothing (refusing 5) ⟨∅,0,0,[]⟩ "vpn".toList [] ∧
    ¬InitAllOrNothing (refusing 7) oldServer "vpn".toList [] ∧
    ¬AddAllOrNothing (refusing 11) afterInit.1 (serverPath "vpn".toList) [] := by
  refine ⟨fun claim => ?_,fun claim => ?_,fun claim => ?_⟩
  · have all := claim ("cannot write ".toList ++ serverPath "vpn".toList) (by decide +kernel)
    obtain ⟨text,read,holds⟩ := stray (by decide +kernel :
      ((cmdInit (refusing 5) ⟨∅,0,0,[]⟩ ["vpn".toList]).1.read (clientPath "vpn".toList 1)).any fun text =>
        jsonString (stripComments text) "seed".toList = bytesToHex (threeKeys.seeds 1).toList)
    obtain ⟨config,there,-⟩ := all.listed 1 text (threeKeys.seeds 1) (by decide +kernel) read holds
    have none : (cmdInit (refusing 5) ⟨∅,0,0,[]⟩ ["vpn".toList]).1.read (serverPath "vpn".toList) = none := by
      decide +kernel
    rw [none] at there
    contradiction
  · have all := claim ("cannot chmod 600 ".toList ++ serverPath "vpn".toList ++
      " — refusing to leave a world-readable seed behind".toList) (by decide +kernel)
    have kept := all.kept "old".toList (by decide +kernel)
    exact absurd kept (by decide +kernel)
  · have all := claim ("cannot write ".toList ++ bakOf (serverPath "vpn".toList)) (by decide +kernel)
    obtain ⟨text,read,holds⟩ := stray (by decide +kernel :
      ((cmdAddclient (refusing 11) afterInit.1 [serverPath "vpn".toList]).1.read
        (clientPath (dirOf (serverPath "vpn".toList)) 2)).any fun text =>
          jsonString (stripComments text) "seed".toList = bytesToHex (threeKeys.seeds 2).toList)
    obtain ⟨config,there,lists⟩ := all.listed 2 text (threeKeys.seeds 2) (by decide +kernel) read holds
    have unlisted : (((cmdAddclient (refusing 11) afterInit.1 [serverPath "vpn".toList]).1.read
        (serverPath "vpn".toList)).any fun config => bytesToHex ((refusing 11).pubkey (threeKeys.seeds 2)).toList ∈
          jsonPeers (stripComments config)) = false := by decide +kernel
    rw [there] at unlisted
    have not : bytesToHex ((refusing 11).pubkey (threeKeys.seeds 2)).toList ∉ jsonPeers (stripComments config) := by
      simpa using unlisted
    exact not lists

end Nospoon
