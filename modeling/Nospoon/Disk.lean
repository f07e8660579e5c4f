import Nospoon.Config
import Nospoon.Hex

/-! The files the provisioning commands read and write. Every operation on them may be
refused, and a stream may come up short without a word; which operations do is part of
the environment. -/
namespace Nospoon

open Library

/-- What befalls one operation. A refused operation reports it; a stream that enters its
failed state after some characters does not. -/
inductive Fault where
  | none
  | refused
  | short (written : Nat)
  deriving DecidableEq

structure File where
  content : Text
  mode : Nat
  deriving DecidableEq

/-- The files by path. -/
abbrev Files := AList (fun _ : Text => File)

/-- What the commands do not decide: the randomness, the signature scheme, the umask and
the faults, by the number of the operation. -/
structure Env where
  pubkey : Seed → PublicKey
  seeds : Nat → Seed
  umask : Nat
  faults : Nat → Fault

structure World where
  files : Files
  /-- Seeds drawn so far. -/
  drawn : Nat := 0
  /-- Operations so far. -/
  ops : Nat := 0
  /-- The files as each operation left them, the latest first. -/
  past : List Files := []

namespace World

def read (w : World) (path : Text) : Option Text := (w.files.lookup path).map File.content

/-- One more operation, and the files it leaves. -/
def did (w : World) (files : Files) : World :=
  { w with files,ops := w.ops + 1,past := files :: w.past }

variable (env : Env)

/-- An operation that either leaves `files` or is refused and leaves everything. -/
def attempt (w : World) (files : Files) (refusal : Text) : World × Except Text Unit :=
  match env.faults w.ops with
  | .refused => (w.did w.files,.error refusal)
  | .none | .short _ => (w.did files,.ok ())

/-- The permissions a file has, or would be created with. -/
def modeOf (w : World) (path : Text) : Nat :=
  match w.files.lookup path with
  | some file => file.mode
  | none => 0o666 &&& (0o777 ^^^ env.umask)

/-- `std::ofstream f(path, std::ios::trunc)`. -/
def openTrunc (w : World) (path : Text) : World × Except Text Unit :=
  w.attempt env (w.files.insert path ⟨[],w.modeOf env path⟩) ("cannot write ".toList ++ path)

/-- `f << body` and the close; a short write goes unnoticed. -/
def write (w : World) (path body : Text) : World :=
  let content := match env.faults w.ops with
    | .short written => body.take written
    | .none | .refused => body
  w.did (w.files.insert path ⟨content,w.modeOf env path⟩)

def chmod (w : World) (path : Text) (mode : Nat) (refusal : Text) : World × Except Text Unit :=
  match w.files.lookup path with
  | none => (w.did w.files,.error refusal)
  | some file => w.attempt env (w.files.insert path { file with mode }) refusal

/-- `std::remove`, whose result nobody looks at. -/
def remove (w : World) (path : Text) : World := (w.attempt env (w.files.erase path) []).1

def rename (w : World) (old new refusal : Text) : World × Except Text Unit :=
  match w.files.lookup old with
  | none => (w.did w.files,.error refusal)
  | some file => w.attempt env ((w.files.erase old).insert new file) refusal

end World

/-- Owner-only, always: a file whose mode cannot be set is removed again. -/
def writeSecret (env : Env) (w : World) (path body : Text) : World × Except Text Unit :=
  match w.openTrunc env path with
  | (w,.error refusal) => (w,.error refusal)
  | (w,.ok ()) =>
    match (w.write env path body).chmod env path 0o600
        ("cannot chmod 600 ".toList ++ path ++
          " — refusing to leave a world-readable seed behind".toList) with
    | (w,.error refusal) => (w.remove env path,.error refusal)
    | (w,.ok ()) => (w,.ok ())

/-! ### What a successful operation leaves -/

/-- File writes succeed completely. -/
def Env.Complete (env : Env) : Prop := ∀ op written, env.faults op ≠ .short written

namespace World

variable {env : Env} {w w' : World}

@[simp] theorem did_files (w : World) (files : Files) : (w.did files).files = files := rfl
@[simp] theorem did_drawn (w : World) (files : Files) : (w.did files).drawn = w.drawn := rfl

theorem attempt_ok {files : Files} (h : w.attempt env files refusal = (w',.ok ())) :
    w' = w.did files := by
  unfold attempt at h
  split at h
  · cases h
  · exact (Prod.mk.inj h).1.symm
  · exact (Prod.mk.inj h).1.symm

theorem write_complete (complete : env.Complete) (w : World) (path body : Text) :
    w.write env path body = w.did (w.files.insert path ⟨body,w.modeOf env path⟩) := by
  unfold write
  cases fate : env.faults w.ops with
  | short written => exact absurd fate (complete _ _)
  | none | refused => rfl

end World

/-- A successful write of a secret, with complete streams, is that file and no other. -/
theorem writeSecret_ok {env : Env} {w w' : World} (complete : env.Complete)
    (h : writeSecret env w path body = (w',.ok ())) :
    w'.drawn = w.drawn ∧ ∀ other, w'.files.lookup other =
      if other = path then some ⟨body,0o600⟩ else w.files.lookup other := by
  unfold writeSecret at h
  split at h
  · cases h
  · rename_i w₁ opened
    split at h
    · cases h
    · rename_i w₂ changed
      obtain rfl := World.attempt_ok opened
      rw [World.write_complete complete] at changed
      simp only [World.chmod,World.did_files,AList.lookup_insert] at changed
      obtain rfl := World.attempt_ok changed
      obtain rfl := (Prod.mk.inj h).1
      refine ⟨rfl,fun other => ?_⟩
      by_cases here : other = path
      · subst here; simp
      · simp [here,AList.lookup_insert_ne]

end Nospoon
