import Nospoon.FullOrNothing

/-! The moments at which a file with seeds can be read. `write_secret` fills a file with the
mode it was opened with and sets 0600 behind it, so the file is private all along only if it
was before. -/
namespace Nospoon

open Library

/-! ### The property -/

/-- Nothing in it, or for the owner only. -/
def PrivateAt (files : Files) (path : Text) : Prop :=
  ∀ file, files.lookup path = some file → file.content = [] ∨ file.mode &&& 0o077 = 0

/-- The run has created or truncated the file, or replaced it. -/
def Changed (start : Files) (path : Text) (moments : List Files) : Prop :=
  ∃ files ∈ moments, files.lookup path ≠ start.lookup path

/-- At each of the moments, the latest first, what was changed so far is private. -/
def Hidden (start : Files) (bears : Text → Prop) (moments : List Files) : Prop :=
  ∀ later files earlier, moments = later ++ files :: earlier → ∀ path, bears path →
    Changed start path (files :: earlier) → PrivateAt files path

/-- The files whose texts bear a seed: every client file, and with a seed in the config the
config and its helpers. -/
def BearsSeed (path raw : Text) (other : Text) : Prop :=
  (∃ k, other = clientPath (dirOf path) k) ∨
    ((other = path ∨ other = bakOf path ∨ other = tmpOf path) ∧ jsonString (stripComments raw) "seed".toList ≠ [])

/-- No moment of the run exposes a seed. -/
def SeedsHidden (env : Env) (w : World) (path : Text) (opts : List Text) : Prop :=
  ∀ plan, addPlan w.read path opts = .ok plan → ∃ moments,
    (cmdAddclient env w (path :: opts)).1.past = moments ++ w.past ∧ Hidden w.files (BearsSeed path plan.raw) moments

/-! ### The condition -/

/-- The permissions of a new file. -/
def Env.newMode (env : Env) : Nat := 0o666 &&& (0o777 ^^^ env.umask)

/-- The secret whose operations start at `op` is not opened, nothing of it is written, or its
file is for the owner only as it is opened. -/
def Env.WritesPrivately (env : Env) (op mode : Nat) : Prop :=
  env.Refused op ∨ env.faults (op + 1) = .short 0 ∨ mode &&& 0o077 = 0

/-- Every secret the run comes to is written privately. -/
def HidesSeeds (env : Env) (w : World) (path : Text) (opts : List Text) : Prop :=
  ∀ plan, addPlan w.read path opts = .ok plan → plan.n ≤ (reserveHosts plan.n plan.net).length →
    (∀ i < plan.n, (∀ j < i, env.Passes (w.ops + 3 * j)) → env.WritesPrivately (w.ops + 3 * i) env.newMode) ∧
    (jsonString (stripComments plan.raw) "seed".toList ≠ [] → ClientsPass env w.ops plan.n →
      env.WritesPrivately (w.ops + 3 * plan.n) (w.modeOf env (bakOf path)) ∧
      (env.Passes (w.ops + 3 * plan.n) → env.WritesPrivately (w.ops + 3 * plan.n + 3) (w.modeOf env (tmpOf path))))

/-! ### Moments -/

section

variable {start : Files} {bears : Text → Prop} {moments : List Files} {base files : Files} {path : Text}

theorem hidden_nil : Hidden start bears [] := by
  intro later files earlier same
  simp at same

theorem hidden_cons : Hidden start bears (files :: moments) ↔
    Hidden start bears moments ∧ ∀ path, bears path → Changed start path (files :: moments) → PrivateAt files path := by
  constructor
  · intro hidden
    refine ⟨fun later files' earlier same => ?_,hidden [] files moments rfl⟩
    exact hidden (files :: later) files' earlier (by rw [same,List.cons_append])
  · rintro ⟨hidden,now⟩ later files' earlier same
    cases later with
    | nil =>
      obtain ⟨rfl,rfl⟩ := List.cons.inj same
      exact now
    | cons f later => exact hidden later files' earlier (List.cons.inj same).2

theorem changed_cons : Changed start path (files :: moments) ↔
    files.lookup path ≠ start.lookup path ∨ Changed start path moments := by
  simp [Changed]

/-- Where a run has come to: `base` is what its moments left. -/
structure Settled (start : Files) (bears : Text → Prop) (moments : List Files) (base : Files) : Prop where
  current : ∀ path, base.lookup path ≠ start.lookup path → Changed start path moments
  closed : ∀ path, bears path → Changed start path moments → PrivateAt base path

theorem settled_start (start : Files) (bears : Text → Prop) : Settled start bears [] start where
  current _ differs := absurd rfl differs
  closed _ _ := fun ⟨_,inside,_⟩ => absurd inside List.not_mem_nil

/-- What stays as it was or is private is not exposed. -/
theorem still_private (settled : Settled start bears moments base)
    (still : ∀ path, bears path → files.lookup path = base.lookup path ∨ PrivateAt files path) (path : Text)
    (bearing : bears path) (changed : Changed start path (files :: moments)) : PrivateAt files path := by
  rcases still path bearing with same | hidden
  · have before : Changed start path moments := by
      rcases changed_cons.mp changed with differs | before
      · exact settled.current path (same ▸ differs)
      · exact before
    intro file found
    exact settled.closed path bearing before file (same ▸ found)
  · exact hidden

theorem hidden_still (settled : Settled start bears moments base)
    (still : ∀ path, bears path → files.lookup path = base.lookup path ∨ PrivateAt files path) :
    Hidden start bears (files :: moments) ↔ Hidden start bears moments := by
  rw [hidden_cons]
  exact and_iff_left (still_private settled still)

theorem settled_still (settled : Settled start bears moments base)
    (still : ∀ path, bears path → files.lookup path = base.lookup path ∨ PrivateAt files path) :
    Settled start bears (files :: moments) files where
  current _ differs := changed_cons.mpr (.inl differs)
  closed := still_private settled still

theorem hidden_append {more : List Files} (hidden : Hidden start bears (more ++ moments)) : Hidden start bears moments := by
  induction more with
  | nil => exact hidden
  | cons files more ih => exact ih (hidden_cons.mp hidden).1

end

/-! ### One secret -/

/-- The files behind the open, the write and the chmod of a secret. -/
def World.opened (env : Env) (w : World) (path : Text) : Files := w.files.insert path ⟨[],w.modeOf env path⟩
def World.filled (env : Env) (w : World) (path body : Text) : Files :=
  (w.opened env path).insert path ⟨env.written (w.ops + 1) body,w.modeOf env path⟩
def World.closed (env : Env) (w : World) (path body : Text) : Files :=
  (w.filled env path body).insert path ⟨env.written (w.ops + 1) body,0o600⟩

/-- The moments of a write of a secret. -/
theorem writeSecret_past (env : Env) (w : World) (path body : Text) :
    (env.Refused w.ops ∧ (writeSecret env w path body).1.files = w.files ∧
      (writeSecret env w path body).1.past = w.files :: w.past) ∨
    (env.Passes w.ops ∧ (writeSecret env w path body).1.files = w.closed env path body ∧
      (writeSecret env w path body).1.past =
        w.closed env path body :: w.filled env path body :: w.opened env path :: w.past) ∨
    (¬env.Refused w.ops ∧ ¬env.Passes w.ops ∧ ∃ files,
      (files = w.filled env path body ∨ files = (w.filled env path body).erase path) ∧
      (writeSecret env w path body).1.files = files ∧ (writeSecret env w path body).1.past =
        files :: w.filled env path body :: w.filled env path body :: w.opened env path :: w.past) := by
  unfold writeSecret World.openTrunc
  rcases w.attempt_cases env (w.files.insert path ⟨[],w.modeOf env path⟩) ("cannot write ".toList ++ path) with
    ⟨refused,eq⟩ | ⟨notRefused,eq⟩
  · rw [eq]
    exact .inl ⟨refused,rfl,rfl⟩
  · right
    rw [eq]
    dsimp only
    have mode : (w.did (w.files.insert path ⟨[],w.modeOf env path⟩)).modeOf env path = w.modeOf env path := by
      rw [World.modeOf,World.did_files,AList.lookup_insert]
    rw [World.write_eq,mode]
    generalize filledWorld : ((w.did _).did _ : World) = w₂
    have ops : w₂.ops = w.ops + 2 := filledWorld ▸ rfl
    have files : w₂.files = w.filled env path body := filledWorld ▸ rfl
    have past : w₂.past = w.filled env path body :: w.opened env path :: w.past := filledWorld ▸ rfl
    have there : w₂.files.lookup path = some ⟨env.written (w.ops + 1) body,w.modeOf env path⟩ := by
      rw [files]
      exact AList.lookup_insert _
    rw [World.chmod_eq there]
    rcases w₂.attempt_cases env (w₂.files.insert path ⟨env.written (w.ops + 1) body,0o600⟩)
        ("cannot chmod 600 ".toList ++ path ++ " — refusing to leave a world-readable seed behind".toList) with
      ⟨refused,eq⟩ | ⟨passes,eq⟩
    · rw [ops] at refused
      rw [eq]
      refine .inr ⟨notRefused,fun passes => passes.2 refused,?_⟩
      dsimp only
      rcases (w₂.did w₂.files).attempt_cases env ((w₂.did w₂.files).files.erase path) [] with ⟨-,eq⟩ | ⟨-,eq⟩
      · rw [World.remove,eq]
        exact ⟨_,.inl rfl,files,by simp [World.did,files,past]⟩
      · rw [World.remove,eq]
        refine ⟨_,.inr rfl,congrArg (AList.erase path) files,by simp [World.did,files,past]⟩
    · rw [ops] at passes
      rw [eq]
      refine .inl ⟨⟨notRefused,passes⟩,?_,?_⟩
      · exact congrArg (AList.insert path _) files
      · simp [World.did,files,past,World.closed]

section

variable {env : Env} {w : World} {path body : Text}

theorem opened_other (other : Text) (apart : other ≠ path) : (w.opened env path).lookup other = w.files.lookup other :=
  AList.lookup_insert_ne apart

theorem filled_other (other : Text) (apart : other ≠ path) :
    (w.filled env path body).lookup other = (w.opened env path).lookup other := AList.lookup_insert_ne apart

theorem closed_other (other : Text) (apart : other ≠ path) :
    (w.closed env path body).lookup other = (w.filled env path body).lookup other := AList.lookup_insert_ne apart

theorem opened_private : PrivateAt (w.opened env path) path := by
  intro file found
  rw [World.opened,AList.lookup_insert] at found
  exact .inl (Option.some.inj found ▸ rfl)

theorem owner_private {files : Files} (found : files.lookup path = some ⟨body,0o600⟩) : PrivateAt files path := by
  intro file there
  rw [found] at there
  have mode : file.mode = 0o600 := congrArg File.mode (Option.some.inj there).symm
  exact .inr (by rw [mode]; decide)

theorem erased_private {files : Files} : PrivateAt (files.erase path) path := by
  intro file there
  rw [AList.lookup_erase] at there
  contradiction

theorem closed_private : PrivateAt (w.closed env path body) path := owner_private (AList.lookup_insert _)

theorem written_eq_nil (nonempty : body ≠ []) (op : Nat) : env.written op body = [] ↔ env.faults op = .short 0 := by
  unfold Env.written
  cases env.faults op with
  | none => simp [nonempty]
  | refused => simp [nonempty]
  | short length => simp [nonempty]

/-- The file is private where it was opened privately, or nothing was written. -/
theorem filled_private (nonempty : body ≠ []) (notRefused : ¬env.Refused w.ops) :
    PrivateAt (w.filled env path body) path ↔ env.WritesPrivately w.ops (w.modeOf env path) := by
  have found : (w.filled env path body).lookup path = some ⟨env.written (w.ops + 1) body,w.modeOf env path⟩ :=
    AList.lookup_insert _
  rw [Env.WritesPrivately,or_iff_right notRefused,← written_eq_nil nonempty]
  constructor
  · intro hidden
    exact hidden _ found
  · intro hidden file same
    rw [found] at same
    obtain rfl := Option.some.inj same
    exact hidden

/-- A file that something was written to was changed. -/
theorem filled_changed {start : Files} {moments : List Files} (exposed : ¬PrivateAt (w.filled env path body) path) :
    Changed start path (w.filled env path body :: w.opened env path :: moments) := by
  have found : (w.filled env path body).lookup path = some ⟨env.written (w.ops + 1) body,w.modeOf env path⟩ :=
    AList.lookup_insert _
  have before : (w.opened env path).lookup path = some ⟨[],w.modeOf env path⟩ := AList.lookup_insert _
  by_contra unchanged
  simp only [changed_cons,not_or,not_not] at unchanged
  obtain ⟨filled,opened,-⟩ := unchanged
  rw [found] at filled
  rw [before,← filled] at opened
  have empty : env.written (w.ops + 1) body = [] := congrArg File.content (Option.some.inj opened).symm
  apply exposed
  intro file same
  rw [found] at same
  exact .inl (Option.some.inj same ▸ empty)

/-- A secret that is written is there for the owner only. -/
theorem writeSecret_closed (env : Env) (w : World) (path body : Text) (passes : env.Passes w.ops) :
    (writeSecret env w path body).1.files.lookup path = some ⟨env.written (w.ops + 1) body,0o600⟩ := by
  rcases writeSecret_past env w path body with ⟨refused,-⟩ | ⟨-,files,-⟩ | ⟨-,stops,-⟩
  · exact absurd refused passes.1
  · rw [files]
    exact AList.lookup_insert _
  · exact absurd passes stops

/-- What is the same but for one path. -/
theorem still_but {bears : Text → Prop} {files base : Files}
    (others : ∀ other, other ≠ path → files.lookup other = base.lookup other) (own : bears path → PrivateAt files path)
    (other : Text) (bearing : bears other) : files.lookup other = base.lookup other ∨ PrivateAt files other := by
  by_cases here : other = path
  · subst here
    exact .inr (own bearing)
  · exact .inl (others other here)

section

variable {start : Files} {bears : Text → Prop} {moments : List Files}

theorem opened_settled (settled : Settled start bears moments w.files) :
    Settled start bears (w.opened env path :: moments) (w.opened env path) :=
  settled_still settled (still_but opened_other fun _ => opened_private)

/-- The write is the moment that decides. -/
theorem filled_hidden (settled : Settled start bears moments w.files) (nonempty : body ≠ [])
    (notRefused : ¬env.Refused w.ops) :
    Hidden start bears (w.filled env path body :: w.opened env path :: moments) ↔
      Hidden start bears moments ∧ (bears path → env.WritesPrivately w.ops (w.modeOf env path)) := by
  have opening : Hidden start bears (w.opened env path :: moments) ↔ Hidden start bears moments :=
    hidden_still settled (still_but opened_other fun _ => opened_private)
  rw [← filled_private nonempty notRefused]
  by_cases hides : bears path → PrivateAt (w.filled env path body) path
  · rw [hidden_still (opened_settled settled) (still_but filled_other hides),opening]
    exact (and_iff_left hides).symm
  · refine iff_of_false (fun hidden => ?_) fun both => hides both.2
    obtain ⟨bearing,exposed⟩ := Classical.not_imp.mp hides
    exact exposed ((hidden_cons.mp hidden).2 path bearing (filled_changed exposed))

theorem filled_settled (settled : Settled start bears moments w.files) (hides : bears path → PrivateAt (w.filled env path body) path) :
    Settled start bears (w.filled env path body :: w.opened env path :: moments) (w.filled env path body) :=
  settled_still (opened_settled settled) (still_but filled_other hides)

/-- One secret: it stays hidden exactly if it is written privately. -/
theorem writeSecret_hidden (env : Env) (w : World) (path : Text) (start : Files) (moments : List Files) (nonempty : body ≠ []) :
    ∃ more, (writeSecret env w path body).1.past = more ++ w.past ∧
      (∀ other, other ≠ path → (writeSecret env w path body).1.files.lookup other = w.files.lookup other) ∧
      ∀ bears, Settled start bears moments w.files →
        (Hidden start bears (more ++ moments) ↔
          Hidden start bears moments ∧ (bears path → env.WritesPrivately w.ops (w.modeOf env path))) ∧
        (env.Passes w.ops → (bears path → env.WritesPrivately w.ops (w.modeOf env path)) →
          Settled start bears (more ++ moments) (writeSecret env w path body).1.files) := by
  rcases writeSecret_past env w path body with ⟨refused,files,past⟩ | ⟨passes,files,past⟩ |
    ⟨notRefused,stops,last,either,files,past⟩
  · refine ⟨[w.files],past,fun other _ => by rw [files],fun bears settled => ⟨?_,fun passes => absurd refused passes.1⟩⟩
    rw [List.singleton_append,hidden_still settled fun _ _ => .inl rfl]
    exact (and_iff_left fun _ => .inl refused).symm
  · refine ⟨[w.closed env path body,w.filled env path body,w.opened env path],past,fun other apart => ?_,
      fun bears settled => ?_⟩
    · rw [files,closed_other other apart,filled_other other apart,opened_other other apart]
    · have decides : Hidden start bears (w.filled env path body :: w.opened env path :: moments) ↔ _ :=
        filled_hidden settled nonempty passes.1
      have hides (owned : bears path → env.WritesPrivately w.ops (w.modeOf env path)) :=
        filled_settled settled fun bearing => (filled_private nonempty passes.1).mpr (owned bearing)
      have closing : ∀ other, bears other → (w.closed env path body).lookup other = (w.filled env path body).lookup other ∨
          PrivateAt (w.closed env path body) other := still_but closed_other fun _ => closed_private
      refine ⟨?_,fun _ owned => ?_⟩
      · rw [← decides]
        refine ⟨fun hidden => (hidden_cons.mp hidden).1,fun hidden => ?_⟩
        exact (hidden_still (hides (decides.mp hidden).2) closing).mpr hidden
      · rw [files]
        exact settled_still (hides owned) closing
  · have others (other : Text) (apart : other ≠ path) : last.lookup other = (w.filled env path body).lookup other := by
      rcases either with rfl | rfl
      · rfl
      · exact AList.lookup_erase_ne apart
    refine ⟨[last,w.filled env path body,w.filled env path body,w.opened env path],past,fun other apart => ?_,
      fun bears settled => ⟨?_,fun passes => absurd passes stops⟩⟩
    · rw [files,others other apart,filled_other other apart,opened_other other apart]
    · have decides : Hidden start bears (w.filled env path body :: w.opened env path :: moments) ↔ _ :=
        filled_hidden settled nonempty notRefused
      rw [← decides]
      refine ⟨fun hidden => (hidden_cons.mp (hidden_cons.mp hidden).1).1,fun hidden => ?_⟩
      have owned : bears path → PrivateAt (w.filled env path body) path :=
        fun bearing => (filled_private nonempty notRefused).mpr ((decides.mp hidden).2 bearing)
      have again := settled_still (filled_settled settled owned) fun _ _ => .inl rfl
      refine (hidden_still again (still_but others fun bearing => ?_)).mpr
        ((hidden_still (filled_settled settled owned) fun _ _ => .inl rfl).mpr hidden)
      rcases either with rfl | rfl
      · exact owned bearing
      · exact erased_private

end

end

/-! ### The run -/

theorem clientConfig_ne_nil (serverPk ip : Text) (prefixLen : Int) (seed : Text) (mtu : Int) :
    clientConfig serverPk ip prefixLen seed mtu ≠ [] := by
  have front : (clientConfig serverPk ip prefixLen seed mtu).head? = some '\x7b' := rfl
  intro empty
  rw [empty] at front
  contradiction

/-- The secrets of `n` clients from `op` on are written privately, as far as the run comes. -/
def Env.ClientsPrivate (env : Env) (op n : Nat) : Prop :=
  ∀ i < n, (∀ j < i, env.Passes (op + 3 * j)) → env.WritesPrivately (op + 3 * i) env.newMode

theorem clientsPrivate_stop {env : Env} (stops : ¬env.Passes op) (n : Nat) :
    env.ClientsPrivate op (n + 1) ↔ env.WritesPrivately op env.newMode := by
  constructor
  · intro all
    exact all 0 (Nat.succ_pos n) fun j below => absurd below (Nat.not_lt_zero j)
  · intro first i inside before
    cases i with
    | zero => exact first
    | succ i => exact absurd (before 0 (Nat.succ_pos i)) stops

theorem clientsPrivate_next {env : Env} (passes : env.Passes op) (n : Nat) :
    env.ClientsPrivate op (n + 1) ↔ env.WritesPrivately op env.newMode ∧ env.ClientsPrivate (op + 3) n := by
  have step (i : Nat) : op + 3 * (i + 1) = op + 3 + 3 * i := by omega
  constructor
  · intro all
    refine ⟨all 0 (Nat.succ_pos n) fun j below => absurd below (Nat.not_lt_zero j),fun i inside before => ?_⟩
    rw [← step]
    refine all (i + 1) (Nat.succ_lt_succ inside) fun j below => ?_
    cases j with
    | zero => exact passes
    | succ j =>
      rw [step]
      exact before j (Nat.lt_of_succ_lt_succ below)
  · rintro ⟨first,later⟩ i inside before
    cases i with
    | zero => exact first
    | succ i =>
      rw [step]
      refine later i (Nat.lt_of_succ_lt_succ inside) fun j below => ?_
      rw [← step]
      exact before (j + 1) (Nat.succ_lt_succ below)

theorem clientsPass_next {env : Env} (pass : ClientsPass env op (n + 1)) : ClientsPass env (op + 3) n := by
  intro i inside
  have step : op + 3 * (i + 1) = op + 3 + 3 * i := by omega
  exact step ▸ pass (i + 1) (Nat.succ_lt_succ inside)

/-- The clients: each is hidden exactly if its secret is written privately. -/
theorem writeClients_hidden (env : Env) (w : World) (dir serverPk : Text) (net : Subnet) (mtu : Int) (first : Nat)
    (hosts : List Nat) (start : Files) (moments : List Files) :
    ∃ more, (writeClients env w dir serverPk net mtu first hosts).1.past = more ++ w.past ∧
      (∀ other, (∀ k, other ≠ clientPath dir k) →
        (writeClients env w dir serverPk net mtu first hosts).1.files.lookup other = w.files.lookup other) ∧
      ∀ bears, (∀ k, bears (clientPath dir k)) → Settled start bears moments w.files →
        (Hidden start bears (more ++ moments) ↔ Hidden start bears moments ∧ env.ClientsPrivate w.ops hosts.length) ∧
        (ClientsPass env w.ops hosts.length → env.ClientsPrivate w.ops hosts.length →
          Settled start bears (more ++ moments) (writeClients env w dir serverPk net mtu first hosts).1.files) := by
  induction hosts generalizing w first moments with
  | nil =>
    refine ⟨[],rfl,fun _ _ => rfl,fun bears _ settled => ⟨?_,fun _ _ => settled⟩⟩
    exact (and_iff_left fun i inside => absurd inside (Nat.not_lt_zero i)).symm
  | cons host hosts ih =>
    have free := freeIndex_free w.files dir first
    have step (w₁ : World) (result : Except Text Unit) :=
      @writeClients_step env w dir serverPk net mtu first w₁ result host hosts
    generalize freeIndex w.files dir w.files.entries.length first = index at free step
    generalize begun : ({ w with drawn := w.drawn + 1 } : World) = w₀ at step
    have ops₀ : w₀.ops = w.ops := begun ▸ rfl
    have past₀ : w₀.past = w.past := begun ▸ rfl
    have files₀ : w₀.files = w.files := begun ▸ rfl
    have mode : w₀.modeOf env (clientPath dir index) = env.newMode := by
      rw [World.modeOf,files₀,free]
      rfl
    obtain ⟨more,past,others,decides⟩ := writeSecret_hidden env w₀ (clientPath dir index) start moments
      (clientConfig_ne_nil serverPk (hostIp net.base host) net.prefixLen (seedHex env w.drawn) mtu)
    obtain ⟨passing,ops,-⟩ := writeSecret_spec env w₀ (clientPath dir index)
      (clientConfig serverPk (hostIp net.base host) net.prefixLen (seedHex env w.drawn) mtu)
    rw [mode,files₀,ops₀] at decides
    rw [files₀] at others
    rw [past₀] at past
    rw [ops₀] at passing ops
    generalize writeSecret env w₀ (clientPath dir index) _ = r at past others decides passing ops step
    obtain ⟨w₁,refusal | ⟨⟩⟩ := r
    · rw [(step w₁ _ rfl).1 refusal rfl]
      have stops : ¬env.Passes w.ops := passing.not.mp (refused_ne _ _)
      refine ⟨more,past,fun other apart => others other (apart index),fun bears bearing settled => ?_⟩
      rw [List.length_cons,clientsPrivate_stop stops,(decides bears settled).1,imp_iff_right (bearing index)]
      exact ⟨Iff.rfl,fun all => absurd (all 0 (Nat.succ_pos _)) stops⟩
    · rw [(step w₁ _ rfl).2 rfl]
      have passes : env.Passes w.ops := passing.mp rfl
      have ops₁ : w₁.ops = w.ops + 3 := ops passes
      obtain ⟨more₂,past₂,others₂,decides₂⟩ := ih w₁ (index + 1) (more ++ moments)
      dsimp only at past others decides ⊢
      rw [ops₁] at decides₂
      refine ⟨more₂ ++ more,?_,fun other apart => ?_,fun bears bearing settled => ?_⟩
      · rw [past₂,past,List.append_assoc]
      · exact (others₂ other apart).trans (others other (apart index))
      · obtain ⟨decide,settles⟩ := decides bears settled
        rw [imp_iff_right (bearing index)] at decide
        rw [List.append_assoc,List.length_cons,clientsPrivate_next passes]
        by_cases owned : env.WritesPrivately w.ops env.newMode
        · obtain ⟨decide₂,settles₂⟩ := decides₂ bears bearing (settles passes fun _ => owned)
          refine ⟨?_,fun pass clients => settles₂ (clientsPass_next pass) clients.2⟩
          rw [decide₂,decide,and_assoc]
        · refine ⟨iff_of_false (fun hidden => ?_) fun both => owned both.2.1,fun _ clients => absurd clients.1 owned⟩
          exact owned (decide.mp (hidden_append hidden)).2

section Replacement

variable (env : Env) (w : World) (path : Text) (start : Files) (moments : List Files) {raw updated : Text}
  (rawText : raw ≠ []) (updatedText : updated ≠ []) {seeded : Prop} {bears : Text → Prop}
  (bak : bears (bakOf path) ↔ seeded) (tmp : bears (tmpOf path) ↔ seeded) (settled : Settled start bears moments w.files)

include rawText updatedText bak tmp settled

/-- The update behind a backup that is written. -/
theorem helpers_hidden {w₁ : World} (backed : writeSecret env w (bakOf path) raw = (w₁,.ok ())) (first : env.Passes w.ops)
    (ops : w₁.ops = w.ops + 3) :
    ∃ more, (writeSecret env w₁ (tmpOf path) updated).1.past = more ++ w.past ∧
      (Hidden start bears (more ++ moments) ↔ Hidden start bears moments ∧
        (seeded → env.WritesPrivately w.ops (w.modeOf env (bakOf path)) ∧
          env.WritesPrivately (w.ops + 3) (w.modeOf env (tmpOf path)))) ∧
      (env.Passes (w.ops + 3) → Hidden start bears (more ++ moments) →
        Settled start bears (more ++ moments) (writeSecret env w₁ (tmpOf path) updated).1.files) := by
  have apart : tmpOf path ≠ bakOf path := by simp [bakOf,tmpOf]
  obtain ⟨more,past,others,decides⟩ := writeSecret_hidden env w (bakOf path) start moments rawText
  obtain ⟨decide,settles⟩ := decides bears settled
  rw [bak] at decide settles
  rw [backed] at past others settles
  have mode : w₁.modeOf env (tmpOf path) = w.modeOf env (tmpOf path) := by
    rw [World.modeOf,World.modeOf,others _ apart]
  obtain ⟨more₂,past₂,-,decides₂⟩ := writeSecret_hidden env w₁ (tmpOf path) start (more ++ moments) updatedText
  rw [ops,mode] at decides₂
  refine ⟨more₂ ++ more,?_,?_,fun second hidden => ?_⟩
  · rw [past₂,past,List.append_assoc]
  · rw [List.append_assoc]
    by_cases owned : seeded → env.WritesPrivately w.ops (w.modeOf env (bakOf path))
    · rw [(decides₂ bears (settles first owned)).1,tmp,decide,and_assoc,imp_and]
    · exact iff_of_false (fun hidden => owned (decide.mp (hidden_append hidden)).2) fun both => owned fun seed => (both.2 seed).1
  · rw [List.append_assoc] at hidden ⊢
    have owned := (decide.mp (hidden_append hidden)).2
    obtain ⟨decide₂,settles₂⟩ := decides₂ bears (settles first owned)
    rw [tmp] at decide₂ settles₂
    exact settles₂ second (decide₂.mp hidden).2

/-- The replacement of the config: the two helpers decide, and the config takes the mode of the second. -/
theorem replaceServer_hidden :
    ∃ more, (replaceServer env w path raw updated).1.past = more ++ w.past ∧
      (Hidden start bears (more ++ moments) ↔ Hidden start bears moments ∧
        (seeded → env.WritesPrivately w.ops (w.modeOf env (bakOf path)) ∧
          (env.Passes w.ops → env.WritesPrivately (w.ops + 3) (w.modeOf env (tmpOf path))))) := by
  have helpers (w₁ : World) (backed : writeSecret env w (bakOf path) raw = (w₁,.ok ())) :=
    helpers_hidden env w path start moments rawText updatedText bak tmp settled backed
  have less (last more : List Files) (hidden : Hidden start bears (last ++ more ++ moments)) :
      Hidden start bears (more ++ moments) := by
    rw [List.append_assoc] at hidden
    exact hidden_append hidden
  have ended := replaceServer_replaced env w path raw updated
  generalize replaceServer env w path raw updated = r at ended
  cases ended with
  | noBackup stops refusal =>
    obtain ⟨more,past,-,decides⟩ := writeSecret_hidden env w (bakOf path) start moments rawText
    refine ⟨more,past,?_⟩
    rw [(decides bears settled).1,bak]
    simp [stops]
  | @noUpdate w₁ backed first ops stops refusal =>
    obtain ⟨more,past,decide,-⟩ := helpers w₁ backed first ops
    refine ⟨more,past,?_⟩
    rw [decide,imp_iff_right first]
  | @noRename w₁ w₂ backed first ops wrote second refused refusal =>
    obtain ⟨more,past,decide,settles⟩ := helpers w₁ backed first ops
    rw [wrote] at past settles
    rw [imp_iff_right first,← decide]
    -- the refused rename leaves the files as they are, and the removal may be refused as well
    have still (hidden : Hidden start bears (more ++ moments)) :
        Settled start bears (w₂.files :: (more ++ moments)) w₂.files ∧ Hidden start bears (w₂.files :: (more ++ moments)) :=
      ⟨settled_still (settles second hidden) fun _ _ => .inl rfl,(hidden_still (settles second hidden) fun _ _ => .inl rfl).mpr hidden⟩
    rw [World.remove]
    rcases (w₂.did w₂.files).attempt_cases env ((w₂.did w₂.files).files.erase (tmpOf path)) [] with ⟨-,eq⟩ | ⟨-,eq⟩
    · rw [eq]
      refine ⟨[w₂.files,w₂.files] ++ more,congrArg ([w₂.files,w₂.files] ++ ·) past,less _ _,fun hidden => ?_⟩
      obtain ⟨again,before⟩ := still hidden
      exact (hidden_still again fun _ _ => .inl rfl).mpr before
    · rw [eq]
      refine ⟨[w₂.files.erase (tmpOf path),w₂.files] ++ more,
        congrArg ([w₂.files.erase (tmpOf path),w₂.files] ++ ·) past,less _ _,fun hidden => ?_⟩
      obtain ⟨again,before⟩ := still hidden
      exact (hidden_still again (still_but (fun other apart => AList.lookup_erase_ne apart) fun _ => erased_private)).mpr before
  | @renamed w₁ w₂ file backed first ops wrote second there third =>
    obtain ⟨more,past,decide,settles⟩ := helpers w₁ backed first ops
    have passes₁ : env.Passes w₁.ops := ops ▸ second
    have closed := writeSecret_closed env w₁ (tmpOf path) updated passes₁
    rw [wrote] at past settles closed
    rw [imp_iff_right first,← decide]
    refine ⟨[(w₂.files.erase (tmpOf path)).insert path file] ++ more,
      congrArg ([(w₂.files.erase (tmpOf path)).insert path file] ++ ·) past,less _ _,fun hidden => ?_⟩
    refine (hidden_still (settles second hidden) fun other _ => ?_).mpr hidden
    by_cases own : other = path
    · subst own
      rw [Option.some_inj.mp (there.symm.trans closed)]
      exact .inr (owner_private (AList.lookup_insert _))
    by_cases helper : other = tmpOf path
    · subst helper
      refine .inr fun file there => ?_
      rw [AList.lookup_insert_ne own,AList.lookup_erase] at there
      contradiction
    · rw [AList.lookup_insert_ne own,AList.lookup_erase_ne helper]
      exact .inl rfl

end Replacement

theorem moments_iff {past old more : List Files} (same : past = more ++ old) {p : List Files → Prop} :
    (∃ moments, past = moments ++ old ∧ p moments) ↔ p more := by
  constructor
  · rintro ⟨moments,split,holds⟩
    rw [same] at split
    exact List.append_cancel_right split ▸ holds
  · exact fun holds => ⟨more,same,holds⟩

/-- The helpers bear a seed exactly if the config does. -/
theorem bearsSeed_helpers (path raw : Text) :
    (BearsSeed path raw (bakOf path) ↔ jsonString (stripComments raw) "seed".toList ≠ []) ∧
    (BearsSeed path raw (tmpOf path) ↔ jsonString (stripComments raw) "seed".toList ≠ []) := by
  have client (k : Nat) := clientPath_helper (dirOf path) path k
  refine ⟨⟨?_,fun seed => .inr ⟨.inr (.inl rfl),seed⟩⟩,⟨?_,fun seed => .inr ⟨.inr (.inr rfl),seed⟩⟩⟩
  · rintro (⟨k,same⟩ | ⟨-,seed⟩)
    · exact absurd same.symm (client k).1
    · exact seed
  · rintro (⟨k,same⟩ | ⟨-,seed⟩)
    · exact absurd same.symm (client k).2
    · exact seed

/-- A run exposes no seed exactly if it writes every secret it comes to privately. -/
theorem seedsHidden_iff (env : Env) (w : World) (path : Text) (opts : List Text) :
    SeedsHidden env w path opts ↔ HidesSeeds env w path opts := by
  unfold SeedsHidden HidesSeeds
  refine forall_congr' fun plan => forall_congr' fun planned => ?_
  obtain ⟨-,-,-,-,-,-,cut,-⟩ := addPlan_ok planned
  obtain ⟨lead,gap,front,raw,-⟩ := insertionPoint_eq_some cut
  have rawText : plan.raw ≠ [] := by simp [raw]
  have updatedText (clients : List Created) : plan.front ++ addEntries clients ++ plan.back ≠ [] := by simp [front]
  obtain ⟨more,past,others,decides⟩ := writeClients_hidden env w (dirOf path) (pubkeyOf env plan.cfg.seed) plan.net
    plan.cfg.mtu (plan.cfg.peers.entries.length + 1) (reserveHosts plan.n plan.net) w.files []
  obtain ⟨decide,settles⟩ := decides (BearsSeed path plan.raw) (fun k => .inl ⟨k,rfl⟩) (settled_start _ _)
  rw [and_iff_right hidden_nil,List.append_nil] at decide
  rw [List.append_nil] at settles
  have ended := cmdAddclient_ended env w planned
  generalize cmdAddclient env w (path :: opts) = r at ended
  cases ended with
  | noRoom short refusal => exact iff_of_true ⟨[],rfl,hidden_nil⟩ fun room => absurd room short
  | stopped room wrote stops =>
    rw [wrote] at past
    rw [reserveHosts_full room] at decide
    rw [imp_iff_right room,moments_iff past,decide]
    exact (and_iff_left fun _ pass => absurd pass stops).symm
  | @replaced w₁ clients room wrote pass ops =>
    rw [wrote] at past others settles
    rw [reserveHosts_full room] at decide settles
    have bakMode : w₁.modeOf env (bakOf path) = w.modeOf env (bakOf path) := by
      rw [World.modeOf,World.modeOf,others _ fun k => (clientPath_helper _ path k).1.symm]
    have tmpMode : w₁.modeOf env (tmpOf path) = w.modeOf env (tmpOf path) := by
      rw [World.modeOf,World.modeOf,others _ fun k => (clientPath_helper _ path k).2.symm]
    obtain ⟨bak,tmp⟩ := bearsSeed_helpers path plan.raw
    rw [imp_iff_right room]
    simp only [imp_iff_right pass]
    by_cases owned : env.ClientsPrivate w.ops plan.n
    · obtain ⟨more₂,past₂,decide₂⟩ := replaceServer_hidden env w₁ path w.files more rawText (updatedText clients) bak tmp
        (settles pass owned)
      rw [past,← List.append_assoc] at past₂
      rw [ops,bakMode,tmpMode,decide] at decide₂
      exact (moments_iff past₂).trans decide₂
    · -- some client is exposed, and no later moment makes up for it
      obtain ⟨more₂,past₂,-⟩ := replaceServer_hidden env w₁ path w₁.files [] rawText (updatedText clients) bak tmp
        (settled_start _ _)
      rw [past,← List.append_assoc] at past₂
      rw [moments_iff past₂]
      exact iff_of_false (fun hidden => owned (decide.mp (hidden_append hidden))) fun both => owned both.1

/-- With the usual umask, everybody can read the seed of a new client until its mode is set. -/
theorem addclient_exposes : ¬∀ (env : Env) (w : World) (path : Text) (opts : List Text), SeedsHidden env w path opts := by
  intro claim
  obtain ⟨plan,planned,-⟩ := exists_accepted (addPlan afterInit.1.read (serverPath "vpn".toList) []) (fun _ => true)
    (by decide +kernel)
  obtain ⟨moments,past,hidden⟩ := claim threeKeys { afterInit.1 with past := [] } (serverPath "vpn".toList) [] plan planned
  have shown : ((cmdAddclient threeKeys { afterInit.1 with past := [] } [serverPath "vpn".toList]).1.past.any fun files =>
      (files.lookup (clientPath "vpn".toList 2)).any fun file => file.content ≠ [] ∧ file.mode &&& 0o077 ≠ 0) = true := by
    decide +kernel
  rw [past,List.append_nil] at shown
  obtain ⟨files,member,exposed⟩ := List.any_eq_true.mp shown
  obtain ⟨file,found,exposed⟩ := (Option.any_eq_true _ _).mp exposed
  obtain ⟨content,mode⟩ := of_decide_eq_true exposed
  obtain ⟨later,earlier,split⟩ := List.append_of_mem member
  have absent : afterInit.1.files.lookup (clientPath "vpn".toList 2) = none := by decide +kernel
  have changed : Changed afterInit.1.files (clientPath "vpn".toList 2) (files :: earlier) := by
    refine ⟨files,List.mem_cons_self,?_⟩
    rw [found,absent]
    simp
  have owner := hidden later files earlier split _ (.inl ⟨2,by rw [dirOf_serverPath]⟩) changed file found
  exact owner.elim content mode

end Nospoon
