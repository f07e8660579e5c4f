import Nospoon.AllOrNothing
import Nospoon.Insertion

/-! Short writes. `write_secret` never asks its stream how the write went, so what it
reports as done, and what `addclient` then renames into place, may be the front of a text. -/
namespace Nospoon

open Library

/-! ### The property -/

/-- `write_secret` returns true only over a file with the whole body. -/
def WritesFully (env : Env) (w : World) (path body : Text) : Prop :=
  (writeSecret env w path body).2 = .ok () → (writeSecret env w path body).1.read path = some body

/-- The server config as `addclient` means to write it. -/
def updatedText (env : Env) (w : World) (path : Text) (plan : AddPlan) : Text :=
  let clients := (makeClients env w plan.n (dirOf path) (pubkeyOf env plan.cfg.seed) plan.net plan.cfg.mtu
    (plan.cfg.peers.entries.length + 1)).2
  plan.front ++ addEntries (clients.toOption.getD []) ++ plan.back

/-- `addclient` returns 0 only over the whole updated file and a whole backup. -/
def AddsFully (env : Env) (w : World) (path : Text) (opts : List Text) : Prop :=
  ∀ plan clients, addPlan w.read path opts = .ok plan → (cmdAddclient env w (path :: opts)).2 = .ok clients →
    (cmdAddclient env w (path :: opts)).1.read path = some (updatedText env w path plan) ∧
      (cmdAddclient env w (path :: opts)).1.read (bakOf path) = some plan.raw

/-- The files met `p` at every moment from `w` to `w'`. -/
structure World.Throughout (p : Files → Prop) (w w' : World) : Prop where
  start : p w.files
  finish : p w'.files
  between : ∃ moments, w'.past = moments ++ w.past ∧ ∀ files ∈ moments, p files

def HoldsText (path text : Text) (files : Files) : Prop := (files.lookup path).map File.content = some text

/-- The server file or its backup is one of the two whole texts. -/
def OneWhole (path raw updated : Text) (files : Files) : Prop :=
  ∃ at' ∈ [path,bakOf path], ∃ text ∈ [raw,updated], HoldsText at' text files

/-- At no moment of the run is the server config lost. -/
def AddNeverLoses (env : Env) (w : World) (path : Text) (opts : List Text) : Prop :=
  ∀ plan, addPlan w.read path opts = .ok plan →
    w.Throughout (OneWhole path plan.raw (updatedText env w path plan)) (cmdAddclient env w (path :: opts)).1

/-! ### Moments -/

namespace World

variable {env : Env} {w w₁ w₂ : World} {p q : Files → Prop}

theorem Throughout.refl (here : p w.files) : w.Throughout p w := ⟨here,here,[],rfl,by simp⟩

theorem Throughout.trans (first : w.Throughout p w₁) (second : w₁.Throughout p w₂) : w.Throughout p w₂ := by
  obtain ⟨early,past₁,holds₁⟩ := first.between
  obtain ⟨late,past₂,holds₂⟩ := second.between
  refine ⟨first.start,second.finish,late ++ early,?_,fun files member => ?_⟩
  · rw [past₂,past₁,List.append_assoc]
  · rcases List.mem_append.mp member with inside | inside
    · exact holds₂ files inside
    · exact holds₁ files inside

theorem Throughout.mono (all : w.Throughout p w₁) (weaker : ∀ files, p files → q files) : w.Throughout q w₁ := by
  obtain ⟨moments,past,holds⟩ := all.between
  exact ⟨weaker _ all.start,weaker _ all.finish,moments,past,fun files member => weaker files (holds files member)⟩

theorem Throughout.did (here : p w.files) {files : Files} (after : p files) : w.Throughout p (w.did files) :=
  ⟨here,after,[files],rfl,by simpa using after⟩

theorem Throughout.attempt (here : p w.files) {files : Files} (after : p files) (refusal : Text) :
    w.Throughout p (w.attempt env files refusal).1 := by
  rcases w.attempt_cases env files refusal with ⟨-,eq⟩ | ⟨-,eq⟩
  · rw [eq]
    exact .did here here
  · rw [eq]
    exact .did here after

end World

/-- What happens to the file at `path` does not touch `p`. -/
structure Ignores (p : Files → Prop) (path : Text) : Prop where
  insert : ∀ files file, p files → p (files.insert path file)
  erase : ∀ files, p files → p (files.erase path)

theorem HoldsText.ignores (apart : path ≠ other) (text : Text) : Ignores (HoldsText path text) other where
  insert files file holds := by
    rw [HoldsText,AList.lookup_insert_ne apart]
    exact holds
  erase files holds := by
    rw [HoldsText,AList.lookup_erase_ne apart]
    exact holds

section Moments

variable {p : Files → Prop} {path : Text} (env : Env) {w : World}

theorem World.Throughout.remove (ignores : Ignores p path) (here : p w.files) : w.Throughout p (w.remove env path) :=
  .attempt here (ignores.erase _ here) []

theorem World.Throughout.chmod (ignores : Ignores p path) (here : p w.files) (mode : Nat) (refusal : Text) :
    w.Throughout p (w.chmod env path mode refusal).1 := by
  unfold World.chmod
  split
  · exact .did here here
  · exact .attempt here (ignores.insert _ _ here) refusal

theorem World.Throughout.writeSecret (ignores : Ignores p path) (here : p w.files) (body : Text) :
    w.Throughout p (writeSecret env w path body).1 := by
  unfold Nospoon.writeSecret World.openTrunc
  have opened : w.Throughout p (w.attempt env (w.files.insert path ⟨[],w.modeOf env path⟩)
    ("cannot write ".toList ++ path)).1 := .attempt here (ignores.insert _ _ here) _
  generalize w.attempt env _ _ = r at opened
  obtain ⟨w₁,refusal | ⟨⟩⟩ := r
  · exact opened
  · dsimp only
    have wrote : w₁.Throughout p (w₁.write env path body) := by
      rw [World.write_eq]
      exact .did opened.finish (ignores.insert _ _ opened.finish)
    have changed := World.Throughout.chmod env ignores wrote.finish 0o600 ("cannot chmod 600 ".toList ++ path ++
      " — refusing to leave a world-readable seed behind".toList)
    generalize (w₁.write env path body).chmod env path 0o600 _ = r at changed
    obtain ⟨w₂,refusal | ⟨⟩⟩ := r
    · exact ((opened.trans wrote).trans changed).trans (.remove env ignores changed.finish)
    · exact (opened.trans wrote).trans changed

/-- Client files are new files: what is there stays there. -/
theorem World.Throughout.writeClients (dir serverPk : Text) (net : Subnet) (mtu : Int) (first : Nat) (hosts : List Nat)
    (here : HoldsText path text w.files) :
    w.Throughout (HoldsText path text) (writeClients env w dir serverPk net mtu first hosts).1 := by
  induction hosts generalizing w first with
  | nil => exact .refl here
  | cons host hosts ih =>
    have free := freeIndex_free w.files dir first
    have apart : path ≠ clientPath dir (freeIndex w.files dir w.files.entries.length first) := by
      intro same
      rw [HoldsText,same,free] at here
      contradiction
    have wrote := World.Throughout.writeSecret (w := { w with drawn := w.drawn + 1 }) env (HoldsText.ignores apart text) here
      (clientConfig serverPk (hostIp net.base host) net.prefixLen (seedHex env w.drawn) mtu)
    have moved : w.Throughout (HoldsText path text) _ := ⟨here,wrote.finish,wrote.between⟩
    have step (w₁ : World) (result : Except Text Unit) :=
      @writeClients_step env w dir serverPk net mtu first w₁ result host hosts
    generalize Nospoon.writeSecret env { w with drawn := w.drawn + 1 } _ _ = r at moved step
    obtain ⟨w₁,refusal | ⟨⟩⟩ := r
    · rw [(step w₁ _ rfl).1 refusal rfl]
      exact moved
    · rw [(step w₁ _ rfl).2 rfl]
      exact moved.trans (ih (w := w₁) (freeIndex w.files dir w.files.entries.length first + 1) moved.finish)

/-- The replacement keeps the server config until its last step, and where it gets that
far, what the two writes left is what it promotes. -/
theorem replaceServer_moments (w : World) (path raw updated text : Text) (here : HoldsText path text w.files) :
    ((replaceServer env w path raw updated).2 ≠ .ok () →
      w.Throughout (HoldsText path text) (replaceServer env w path raw updated).1) ∧
    ((replaceServer env w path raw updated).2 = .ok () → ∃ w₁ files, w.Throughout (HoldsText path text) w₁ ∧
      (replaceServer env w path raw updated).1 = w₁.did files ∧
      HoldsText path (env.written (w.ops + 4) updated) files ∧
      HoldsText (bakOf path) (env.written (w.ops + 1) raw) files) := by
  have noBak : path ≠ bakOf path := by simp [bakOf]
  have noTmp : path ≠ tmpOf path := by simp [tmpOf]
  have apart : bakOf path ≠ tmpOf path := by simp [bakOf,tmpOf]
  have bakKept := World.Throughout.writeSecret env (HoldsText.ignores noBak text) here raw
  obtain ⟨-,-,-,bakReads⟩ := writeSecret_spec env w (bakOf path) raw
  have tmpKept {w₁ : World} (kept : w.Throughout (HoldsText path text) w₁) :
      w.Throughout (HoldsText path text) (Nospoon.writeSecret env w₁ (tmpOf path) updated).1 :=
    kept.trans (World.Throughout.writeSecret env (HoldsText.ignores noTmp text) kept.finish updated)
  have ended := replaceServer_replaced env w path raw updated
  generalize replaceServer env w path raw updated = r at ended
  cases ended with
  | noBackup stops refusal => exact ⟨fun _ => bakKept,fun done => absurd done (refused_ne _ _)⟩
  | noUpdate backed first ops stops refusal =>
    rw [backed] at bakKept
    exact ⟨fun _ => tmpKept bakKept,fun done => absurd done (refused_ne _ _)⟩
  | @noRename w₁ w₂ backed first ops wrote second refused refusal =>
    rw [backed] at bakKept
    have wroteKept := tmpKept bakKept
    rw [wrote] at wroteKept
    have still : w₂.Throughout (HoldsText path text) (w₂.did w₂.files) := .did wroteKept.finish wroteKept.finish
    have removed := still.trans (.remove env (HoldsText.ignores noTmp text) still.finish)
    exact ⟨fun _ => wroteKept.trans removed,fun done => absurd done (refused_ne _ _)⟩
  | @renamed w₁ w₂ file backed first ops wrote second there third =>
    obtain ⟨-,-,-,tmpReads⟩ := writeSecret_spec env w₁ (tmpOf path) updated
    rw [backed] at bakKept bakReads
    have wroteKept := tmpKept bakKept
    rw [wrote] at wroteKept tmpReads
    rw [ops,second.secretLeft] at tmpReads
    rw [first.secretLeft] at bakReads
    have bak : w₂.read (bakOf path) = some (env.written (w.ops + 1) raw) :=
      (tmpReads _).trans ((if_neg apart).trans ((bakReads _).trans (if_pos rfl)))
    have tmp : w₂.read (tmpOf path) = some (env.written (w.ops + 4) updated) := (tmpReads _).trans (if_pos rfl)
    have content : some file.content = some (env.written (w.ops + 4) updated) := by
      rw [← tmp,World.read,there]
      rfl
    refine ⟨fun some => absurd rfl some,fun _ => ⟨w₂,_,wroteKept,rfl,?_,?_⟩⟩
    · rw [HoldsText,AList.lookup_insert]
      exact content
    · rw [HoldsText,AList.lookup_insert_ne noBak.symm,AList.lookup_erase_ne apart]
      exact bak

end Moments

/-! ### When the property holds -/

namespace Env

/-- The stream of the secret whose operations start at `op` takes the whole body. -/
def Whole (env : Env) (op : Nat) (body : Text) : Prop := env.written (op + 1) body = body

/-- No operation of `addclient` from `op` on is refused. -/
def Through (env : Env) (op n : Nat) : Prop :=
  ClientsPass env op n ∧ env.Passes (op + 3 * n) ∧ env.Passes (op + 3 * n + 3) ∧ ¬env.Refused (op + 3 * n + 6)

end Env

/-- `addclient` gets to its end with this plan. -/
def AddDone (env : Env) (w : World) (path : Text) (opts : List Text) (plan : AddPlan) : Prop :=
  addPlan w.read path opts = .ok plan ∧ plan.n ≤ (reserveHosts plan.n plan.net).length ∧ env.Through w.ops plan.n

theorem writesFully_iff (env : Env) (w : World) (path body : Text) :
    WritesFully env w path body ↔ (env.Passes w.ops → env.Whole w.ops body) := by
  obtain ⟨passing,-,-,reads⟩ := writeSecret_spec env w path body
  unfold WritesFully Env.Whole
  rw [passing]
  apply forall_congr'
  intro passes
  rw [reads,if_pos rfl,passes.secretLeft,Option.some_inj]

/-- A run of `addclient` either is refused and has the server config in place all along, or
gets to its end, and promotes what its two writes left. -/
theorem addclient_cases (env : Env) (w : World) (path : Text) (opts : List Text) (plan : AddPlan)
    (planned : addPlan w.read path opts = .ok plan) :
    (¬AddDone env w path opts plan ∧ (∃ refusal, (cmdAddclient env w (path :: opts)).2 = .error refusal) ∧
      w.Throughout (HoldsText path plan.raw) (cmdAddclient env w (path :: opts)).1) ∨
    (AddDone env w path opts plan ∧ (∃ clients, (cmdAddclient env w (path :: opts)).2 = .ok clients) ∧
      ∃ w₁ files, w.Throughout (HoldsText path plan.raw) w₁ ∧ (cmdAddclient env w (path :: opts)).1 = w₁.did files ∧
        HoldsText path (env.written (w.ops + 3 * plan.n + 4) (updatedText env w path plan)) files ∧
        HoldsText (bakOf path) (env.written (w.ops + 3 * plan.n + 1) plan.raw) files) := by
  obtain ⟨-,-,-,-,there,-⟩ := addPlan_ok planned
  have here : HoldsText path plan.raw w.files := there
  have kept := World.Throughout.writeClients env (dirOf path) (pubkeyOf env plan.cfg.seed) plan.net plan.cfg.mtu
    (plan.cfg.peers.entries.length + 1) (reserveHosts plan.n plan.net) here
  have ended := cmdAddclient_ended env w planned
  generalize cmdAddclient env w (path :: opts) = r at ended
  cases ended with
  | noRoom short refusal => exact .inl ⟨fun done => short done.2.1,⟨_,rfl⟩,.refl here⟩
  | stopped room wrote stops =>
    rw [wrote] at kept
    exact .inl ⟨fun done => stops done.2.2.1,⟨_,rfl⟩,kept⟩
  | @replaced w₁ clients room wrote pass ops =>
    rw [wrote] at kept
    have text : updatedText env w path plan = plan.front ++ addEntries clients ++ plan.back := by
      unfold updatedText
      dsimp only [makeClients]
      rw [if_neg (Nat.not_lt_of_le room),wrote]
      rfl
    rw [text]
    obtain ⟨passing,-⟩ := replaceServer_left env w₁ path plan.raw (plan.front ++ addEntries clients ++ plan.back)
    obtain ⟨stops,ends⟩ := replaceServer_moments env w₁ path plan.raw (plan.front ++ addEntries clients ++ plan.back)
      plan.raw kept.finish
    rw [ops] at passing ends
    generalize replaceServer env w₁ path plan.raw (plan.front ++ addEntries clients ++ plan.back) = r
      at passing stops ends
    obtain ⟨w₂,refusal | ⟨⟩⟩ := r
    · exact .inl ⟨fun done => passing.not.mp (refused_ne _ _) done.2.2.2,⟨_,rfl⟩,
        kept.trans (stops (refused_ne _ _))⟩
    · obtain ⟨w₃,files,moments,last,server,bak⟩ := ends rfl
      exact .inr ⟨⟨planned,room,pass,passing.mp rfl⟩,⟨_,rfl⟩,w₃,files,kept.trans moments,last,server,bak⟩

theorem addsFully_iff (env : Env) (w : World) (path : Text) (opts : List Text) :
    AddsFully env w path opts ↔ ∀ plan, AddDone env w path opts plan →
      env.Whole (w.ops + 3 * plan.n + 3) (updatedText env w path plan) ∧ env.Whole (w.ops + 3 * plan.n) plan.raw := by
  have each (plan : AddPlan) (planned : addPlan w.read path opts = .ok plan) :=
    addclient_cases env w path opts plan planned
  unfold AddsFully Env.Whole
  constructor
  · intro all plan done
    rcases each plan done.1 with ⟨stopped,-⟩ | ⟨-,⟨clients,result⟩,w₁,files,-,last,server,bak⟩
    · exact absurd done stopped
    · obtain ⟨updated,backup⟩ := all plan clients done.1 result
      rw [last] at updated backup
      exact ⟨Option.some_inj.mp (server.symm.trans updated),Option.some_inj.mp (bak.symm.trans backup)⟩
  · intro whole plan clients planned result
    rcases each plan planned with ⟨-,⟨refusal,refused⟩,-⟩ | ⟨done,-,w₁,files,-,last,server,bak⟩
    · exact absurd (refused.symm.trans result) (refused_ne refusal clients)
    · obtain ⟨updated,backup⟩ := whole plan done
      rw [last]
      exact ⟨server.trans (congrArg some updated),bak.trans (congrArg some backup)⟩

theorem OneWhole.of_ends {files : Files} (server : HoldsText path a files) (bak : HoldsText (bakOf path) b files) :
    OneWhole path raw updated files ↔ a ∈ [raw,updated] ∨ b ∈ [raw,updated] := by
  constructor
  · rintro ⟨at',place,text,whole,holds⟩
    rcases List.mem_pair.mp place with rfl | rfl
    · obtain rfl := Option.some_inj.mp (server.symm.trans holds)
      exact .inl whole
    · obtain rfl := Option.some_inj.mp (bak.symm.trans holds)
      exact .inr whole
  · rintro (whole | whole)
    · exact ⟨path,by simp,a,whole,server⟩
    · exact ⟨bakOf path,by simp,b,whole,bak⟩

theorem addNeverLoses_iff (env : Env) (w : World) (path : Text) (opts : List Text) :
    AddNeverLoses env w path opts ↔ ∀ plan, AddDone env w path opts plan →
      env.written (w.ops + 3 * plan.n + 4) (updatedText env w path plan) ∈ [plan.raw,updatedText env w path plan] ∨
        env.written (w.ops + 3 * plan.n + 1) plan.raw ∈ [plan.raw,updatedText env w path plan] := by
  have each (plan : AddPlan) (planned : addPlan w.read path opts = .ok plan) :=
    addclient_cases env w path opts plan planned
  have still (plan : AddPlan) (files : Files) (holds : HoldsText path plan.raw files) :
      OneWhole path plan.raw (updatedText env w path plan) files :=
    ⟨path,by simp,plan.raw,by simp,holds⟩
  constructor
  · intro never plan done
    rcases each plan done.1 with ⟨stopped,-⟩ | ⟨-,-,w₁,files,-,last,server,bak⟩
    · exact absurd done stopped
    · have after := (never plan done.1).finish
      rw [last] at after
      exact (OneWhole.of_ends server bak).mp after
  · intro whole plan planned
    rcases each plan planned with ⟨-,-,kept⟩ | ⟨done,-,w₁,files,kept,last,server,bak⟩
    · exact kept.mono (still plan)
    · have before := kept.mono (still plan)
      rw [last]
      exact before.trans (.did before.finish ((OneWhole.of_ends server bak).mpr (whole plan done)))

/-- Full or nothing holds exactly where every stream that is reported as written has taken
the whole text; and a config is lost only where both of the last two have not. -/
theorem fullOrNothing_iff (env : Env) (w : World) (path body : Text) (opts : List Text) :
    (WritesFully env w path body ↔ (env.Passes w.ops → env.Whole w.ops body)) ∧
    (AddsFully env w path opts ↔ ∀ plan, AddDone env w path opts plan →
      env.Whole (w.ops + 3 * plan.n + 3) (updatedText env w path plan) ∧ env.Whole (w.ops + 3 * plan.n) plan.raw) ∧
    (AddNeverLoses env w path opts ↔ ∀ plan, AddDone env w path opts plan →
      env.written (w.ops + 3 * plan.n + 4) (updatedText env w path plan) ∈ [plan.raw,updatedText env w path plan] ∨
        env.written (w.ops + 3 * plan.n + 1) plan.raw ∈ [plan.raw,updatedText env w path plan]) :=
  ⟨writesFully_iff env w path body,addsFully_iff env w path opts,addNeverLoses_iff env w path opts⟩

/-- The known keys on a disk that is full when `addclient` comes to its last two files. -/
def diskFull : Env := { threeKeys with faults := fun op => if op = 12 ∨ op = 15 then .short 0 else .none }

/-- On a full disk every write reports success, and the server config is gone. -/
theorem fullDisk_loses :
    ¬WritesFully diskFull ⟨∅,0,11,[]⟩ (serverPath "vpn".toList) "new".toList ∧
    ¬AddsFully diskFull afterInit.1 (serverPath "vpn".toList) [] ∧
    ¬AddNeverLoses diskFull afterInit.1 (serverPath "vpn".toList) [] := by
  have server : HoldsText (serverPath "vpn".toList) []
      (cmdAddclient diskFull afterInit.1 [serverPath "vpn".toList]).1.files := by
    unfold HoldsText
    decide +kernel
  have bak : HoldsText (bakOf (serverPath "vpn".toList)) []
      (cmdAddclient diskFull afterInit.1 [serverPath "vpn".toList]).1.files := by
    unfold HoldsText
    decide +kernel
  obtain ⟨clients,result,-⟩ := exists_accepted (cmdAddclient diskFull afterInit.1 [serverPath "vpn".toList]).2
    (fun _ => true) (by decide +kernel)
  obtain ⟨plan,planned,-⟩ := exists_accepted (addPlan afterInit.1.read (serverPath "vpn".toList) []) (fun _ => true)
    (by decide +kernel)
  obtain ⟨-,-,-,-,-,-,cut,-⟩ := addPlan_ok planned
  obtain ⟨lead,gap,front,raw,-⟩ := insertionPoint_eq_some cut
  have whole : plan.raw ≠ [] := by simp [raw]
  refine ⟨fun claim => ?_,fun claim => ?_,fun claim => ?_⟩
  · exact absurd (claim (by decide +kernel)) (by decide +kernel)
  · have backup := (claim plan clients planned result).2
    exact whole (Option.some_inj.mp (bak.symm.trans backup)).symm
  · have lost := (OneWhole.of_ends server bak).mp (claim plan planned).finish
    have updated : updatedText diskFull afterInit.1 (serverPath "vpn".toList) plan ≠ [] := by simp [updatedText,front]
    generalize updatedText diskFull afterInit.1 (serverPath "vpn".toList) plan = text at lost updated
    simp [whole.symm,updated.symm] at lost

end Nospoon
