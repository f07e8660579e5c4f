import Nospoon.FullOrNothing
import Nospoon.Library.Machine

/-! Sequences of `init` and `addclient` on one directory. Client files are always new ones
and `addclient` keeps a copy; `init` truncates the server config that is there. -/
namespace Nospoon

open Library

/-! ### Runs on a directory -/

/-- A file directly in the directory. -/
def InDir (dir path : Text) : Prop := ∃ name, '/' ∉ name ∧ path = dir ++ '/' :: name

/-- `server.jsonc` or `client-*.jsonc`. -/
def SeedFile (dir path : Text) : Prop :=
  path = serverPath dir ∨ ∃ name, '/' ∉ name ∧ path = dir ++ "/client-".toList ++ name ++ ".jsonc".toList

/-- The text is a config with this seed. -/
def Stores (text seed : Text) : Prop := seed ≠ [] ∧ jsonString (stripComments text) "seed".toList = seed

/-- A command on the directory; `addclient` takes any config in it. -/
inductive Provision (dir : Text) where
  | init (opts : List Text)
  | addclient (path : Text) (inside : InDir dir path) (opts : List Text)

def Provision.perform (env : Env) (w : World) : Provision dir → World × Except Text (List Created)
  | .init opts => cmdInit env w (dir :: opts)
  | .addclient path _ opts => cmdAddclient env w (path :: opts)

/-- One command after the other, each with the randomness and the faults of its own time. -/
def provisions (dir : Text) : Machine World (Env × Provision dir) Unit where
  enabled _ _ := True
  next w e := (e.2.perform e.1 w).1
  emits _ _ := []

/-- Some file of the directory that `among` admits stores the seed. -/
def StoredIn (dir : Text) (among : Text → Prop) (files : Files) (seed : Text) : Prop :=
  ∃ path text, InDir dir path ∧ among path ∧ HoldsText path text files ∧ Stores text seed

/-- Every seed of a server or client file is still in the directory after the run. -/
def KeepsSeeds (dir : Text) (w w' : World) : Prop :=
  ∀ path text seed, SeedFile dir path → HoldsText path text w.files → Stores text seed →
    StoredIn dir (fun _ => True) w'.files seed

/-! ### The condition -/

/-- `init` gets as far as opening `server.jsonc`. -/
def InitOpens (env : Env) (w : World) (opts : List Text) : Prop :=
  ∃ plan, initPlan opts = .ok plan ∧ ¬env.Refused w.ops ∧ ¬env.Refused (w.ops + 1) ∧
    plan.n ≤ (reserveHosts plan.n plan.net).length ∧ ClientsPass env (w.ops + 2) plan.n ∧
    ¬env.Refused (w.ops + 2 + 3 * plan.n)

/-- `init` does not open a server config whose seed is nowhere else; and what `addclient`
leaves of the two texts it writes last has the seed, if no other file has it. -/
def SparesSeeds (dir : Text) (w : World) : Env × Provision dir → Prop
  | (env,.init opts) => InitOpens env w opts →
    ∀ text seed, HoldsText (serverPath dir) text w.files → Stores text seed →
      StoredIn dir (fun path => path ≠ serverPath dir) w.files seed
  | (env,.addclient path _ opts) => ∀ plan, AddDone env w path opts plan → ∀ seed, Stores plan.raw seed →
    Stores (env.written (w.ops + 3 * plan.n + 1) plan.raw) seed ∨
      Stores (env.written (w.ops + 3 * plan.n + 4) (updatedText env w path plan)) seed ∨
      StoredIn dir (fun other => other ≠ path ∧ other ≠ bakOf path ∧ other ≠ tmpOf path) w.files seed

/-! ### What a run leaves alone -/

variable {env : Env} {w : World} {dir path text : Text} {opts : List Text}

/-- `init` touches no file that was there, but the server config once it opens it. -/
theorem cmdInit_keeps (here : HoldsText path text w.files) (spared : path = serverPath dir → ¬InitOpens env w opts) :
    HoldsText path text (cmdInit env w (dir :: opts)).1.files := by
  cases planned : initPlan opts with
  | error refusal =>
    have unchanged : (cmdInit env w (dir :: opts)).1 = w := by simp [cmdInit,planned]
    rw [unchanged]
    exact here
  | ok plan =>
    have ended := cmdInit_ended env w dir planned
    have opens (created : ¬env.Refused w.ops) (tightened : ¬env.Refused (w.ops + 1))
        (room : plan.n ≤ (reserveHosts plan.n plan.net).length) (pass : ClientsPass env (w.ops + 2) plan.n)
        (opened : ¬env.Refused (w.ops + 2 + 3 * plan.n)) : InitOpens env w opts :=
      ⟨plan,planned,created,tightened,room,pass,opened⟩
    generalize cmdInit env w (dir :: opts) = r at ended
    cases ended with
    | unopened files stops refusal => exact files ▸ here
    | stopped created tightened room files ops₀ drawn wrote stops =>
      have kept := World.Throughout.writeClients env dir (keyHex env w.drawn) plan.net plan.mtu 1
        (reserveHosts plan.n plan.net) (files ▸ here)
      rw [wrote] at kept
      exact kept.finish
    | @written w₀ w₁ clients created tightened room files ops₀ drawn wrote pass ops =>
      have kept := World.Throughout.writeClients env dir (keyHex env w.drawn) plan.net plan.mtu 1
        (reserveHosts plan.n plan.net) (files ▸ here)
      rw [wrote] at kept
      by_cases server : path = serverPath dir
      · have refused : env.Refused w₁.ops := by
          by_contra opened
          exact spared server (opens created tightened room pass (ops ▸ opened))
        obtain ⟨-,-,-,reads⟩ := writeSecret_spec env w₁ (serverPath dir) (initText env plan w.drawn)
        have unchanged := (reads path).trans (if_pos server)
        rw [Env.secretLeft,if_pos refused] at unchanged
        exact unchanged.trans (server ▸ kept.finish)
      · exact (World.Throughout.writeSecret env (HoldsText.ignores server text) kept.finish _).finish

theorem replaceServer_others (env : Env) {w : World} {other : Text} (here : HoldsText other text w.files)
    (notPath : other ≠ path) (notBak : other ≠ bakOf path) (notTmp : other ≠ tmpOf path) (raw updated : Text) :
    HoldsText other text (replaceServer env w path raw updated).1.files := by
  have secret {w : World} {helper : Text} (apart : other ≠ helper) (body : Text) (before : HoldsText other text w.files) :
      HoldsText other text (writeSecret env w helper body).1.files :=
    (World.Throughout.writeSecret env (HoldsText.ignores apart text) before body).finish
  have bak := secret notBak raw here
  have ended := replaceServer_replaced env w path raw updated
  generalize replaceServer env w path raw updated = r at ended
  cases ended with
  | noBackup stops refusal => exact bak
  | noUpdate backed first ops stops refusal =>
    rw [backed] at bak
    exact secret notTmp updated bak
  | @noRename w₁ w₂ backed first ops wrote second refused refusal =>
    rw [backed] at bak
    have tmp := secret notTmp updated bak
    rw [wrote] at tmp
    have still : HoldsText other text (w₂.did w₂.files).files := tmp
    exact (World.Throughout.remove env (HoldsText.ignores notTmp text) still).finish
  | @renamed w₁ w₂ file backed first ops wrote second there third =>
    rw [backed] at bak
    have tmp := secret notTmp updated bak
    rw [wrote] at tmp
    exact (HoldsText.ignores notPath text).insert _ _ ((HoldsText.ignores notTmp text).erase _ tmp)

/-- `addclient` touches the config and its two helpers only. -/
theorem cmdAddclient_keeps {other : Text} (here : HoldsText other text w.files)
    (apart : other ≠ path ∧ other ≠ bakOf path ∧ other ≠ tmpOf path) :
    HoldsText other text (cmdAddclient env w (path :: opts)).1.files := by
  obtain ⟨notPath,notBak,notTmp⟩ := apart
  cases planned : addPlan w.read path opts with
  | error refusal =>
    have unchanged : (cmdAddclient env w (path :: opts)).1 = w := by simp [cmdAddclient,planned]
    rw [unchanged]
    exact here
  | ok plan =>
    have kept := (World.Throughout.writeClients env (dirOf path) (pubkeyOf env plan.cfg.seed) plan.net plan.cfg.mtu
      (plan.cfg.peers.entries.length + 1) (reserveHosts plan.n plan.net) here).finish
    have ended := cmdAddclient_ended env w planned
    generalize cmdAddclient env w (path :: opts) = r at ended
    cases ended with
    | noRoom short refusal => exact here
    | stopped room wrote stops =>
      rw [wrote] at kept
      exact kept
    | replaced room wrote pass ops =>
      rw [wrote] at kept
      exact replaceServer_others env kept notPath notBak notTmp plan.raw _

/-! ### Sequences of runs -/

theorem serverPath_inDir (dir : Text) : InDir dir (serverPath dir) := ⟨"server.jsonc".toList,by simp,rfl⟩

theorem SeedFile.inDir (seedFile : SeedFile dir path) : InDir dir path := by
  rcases seedFile with rfl | ⟨name,noSlash,rfl⟩
  · exact serverPath_inDir dir
  · refine ⟨"client-".toList ++ name ++ ".jsonc".toList,?_,by simp⟩
    simp [noSlash]

/-- The helpers of `addclient` are not named like a server or client file. -/
theorem SeedFile.helper (seedFile : SeedFile dir path) (config : Text) : path ≠ bakOf config ∧ path ≠ tmpOf config := by
  refine ne_helper ?_ config
  rcases seedFile with rfl | ⟨name,-,rfl⟩
  · simp [serverPath]
  · have split : dir ++ "/client-".toList ++ name ++ ".jsonc".toList =
        (dir ++ "/client-".toList ++ name ++ ".json".toList) ++ ['c'] := by simp
    rw [split,List.getLast?_concat]

theorem InDir.bak (inside : InDir dir path) : InDir dir (bakOf path) := by
  obtain ⟨name,noSlash,rfl⟩ := inside
  refine ⟨name ++ ".bak".toList,?_,by simp [bakOf]⟩
  simp [noSlash]

theorem init_keepsSeeds (spares : SparesSeeds dir w (env,.init opts)) :
    KeepsSeeds dir w (cmdInit env w (dir :: opts)).1 := by
  intro path text seed seedFile here stores
  by_cases opened : path = serverPath dir ∧ InitOpens env w opts
  · obtain ⟨rfl,opens⟩ := opened
    obtain ⟨other,text',inside,apart,there,stores'⟩ := spares opens text seed here stores
    exact ⟨other,text',inside,trivial,cmdInit_keeps there fun same => absurd same apart,stores'⟩
  · exact ⟨path,text,seedFile.inDir,trivial,cmdInit_keeps here fun server opens => opened ⟨server,opens⟩,stores⟩

theorem addclient_keepsSeeds (inside : InDir dir path) (spares : SparesSeeds dir w (env,.addclient path inside opts)) :
    KeepsSeeds dir w (cmdAddclient env w (path :: opts)).1 := by
  intro other text seed seedFile here stores
  by_cases config : other = path
  · subst config
    cases planned : addPlan w.read other opts with
    | error refusal =>
      have unchanged : (cmdAddclient env w (other :: opts)).1 = w := by simp [cmdAddclient,planned]
      rw [unchanged]
      exact ⟨other,text,inside,trivial,here,stores⟩
    | ok plan =>
      obtain ⟨-,-,-,-,there,-⟩ := addPlan_ok planned
      have raw : plan.raw = text := Option.some_inj.mp (there.symm.trans here)
      rcases addclient_cases env w other opts plan planned with ⟨-,-,kept⟩ | ⟨done,-,w₁,files,-,last,server,bak⟩
      · exact ⟨other,plan.raw,inside,trivial,kept.finish,raw ▸ stores⟩
      · rcases spares plan done seed (raw ▸ stores) with inBak | inServer | ⟨third,text',inside',apart,there,stores'⟩
        · rw [last]
          exact ⟨bakOf other,_,inside.bak,trivial,bak,inBak⟩
        · rw [last]
          exact ⟨other,_,inside,trivial,server,inServer⟩
        · exact ⟨third,text',inside',trivial,cmdAddclient_keeps there apart,stores'⟩
  · obtain ⟨noBak,noTmp⟩ := seedFile.helper path
    exact ⟨other,text,seedFile.inDir,trivial,cmdAddclient_keeps here ⟨config,noBak,noTmp⟩,stores⟩

/-- In every sequence of runs that all spare the seeds, each run keeps every seed it finds. -/
theorem provisions_keepSeeds (dir : Text) (w : World) (runs : List (Env × Provision dir))
    (spared : (provisions dir).Along (SparesSeeds dir) w runs) :
    (provisions dir).Along (fun w e => KeepsSeeds dir w (e.2.perform e.1 w).1) w runs := by
  induction runs generalizing w with
  | nil => trivial
  | cons e runs ih =>
    obtain ⟨env,command⟩ := e
    obtain ⟨now,later⟩ := spared
    refine ⟨?_,ih _ later⟩
    cases command with
    | init opts => exact init_keepsSeeds now
    | addclient path inside opts => exact addclient_keepsSeeds inside now

/-- A directory is provisioned, and a client is added to it. -/
theorem provisions_keepSeeds_added : (provisions "vpn".toList).Along
    (fun w e => KeepsSeeds "vpn".toList w (e.2.perform e.1 w).1) ⟨∅,0,0,[]⟩
    [(threeKeys,.init []),(threeKeys,.addclient _ (serverPath_inDir "vpn".toList) [])] := by
  refine provisions_keepSeeds "vpn".toList _ _ ⟨?_,?_,trivial⟩
  · intro _ text seed here
    contradiction
  · intro plan _ seed stores
    exact .inl stores

/-- The second `init` writes over the server config of the first. -/
theorem init_overwrites : ¬∀ (dir : Text) (w : World) (runs : List (Env × Provision dir)),
    (provisions dir).Along (fun w e => KeepsSeeds dir w (e.2.perform e.1 w).1) w runs := by
  intro claim
  have keeps := (claim "vpn".toList ⟨∅,0,0,[]⟩ [(threeKeys,.init []),(threeKeys,.init [])]).2.1
  have first : (((provisions "vpn".toList).next ⟨∅,0,0,[]⟩ (threeKeys,.init [])).read (serverPath "vpn".toList)).map
      (fun text => jsonString (stripComments text) "seed".toList) = some (seedHex threeKeys 0) := by decide +kernel
  obtain ⟨text,here,stores⟩ := Option.map_eq_some_iff.mp first
  obtain ⟨path,text',-,-,there,-,stores'⟩ := keeps (serverPath "vpn".toList) text (seedHex threeKeys 0) (.inl rfl) here
    ⟨by decide +kernel,stores⟩
  obtain ⟨file,found,rfl⟩ := Option.map_eq_some_iff.mp there
  have lost : ((cmdInit threeKeys afterInit.1 ["vpn".toList]).1.files.entries.all
      fun e => jsonString (stripComments e.2.content) "seed".toList ≠ seedHex threeKeys 0) = true := by decide +kernel
  have differs := List.all_eq_true.mp lost _ (AList.mem_lookup_iff.mp found)
  exact absurd stores' (by simpa using differs)

end Nospoon
