import Lichen.Hal.Storage
import Mathlib.Logic.Function.Basic
import Lichen.Lib.HashMap

namespace Lichen.Hal

open Lichen.Lib

/-- What becomes of a write: it completes, it fails and leaves the old file, or the process dies,
with the rename done or not. -/
inductive FileFate where
  | complete
  | fails
  | crash (renamed : Bool)
  deriving DecidableEq

inductive FileError where
  | io
  | crash

/-- The files of a directory, and what becomes of the next writes; those beyond `fates` complete. -/
structure FileStorage where
  files : String → Option Bytes
  fates : List FileFate

namespace FileStorage

def empty : FileStorage := ⟨fun _ => none, []⟩

section

variable (storage : FileStorage)

def withFates (fates : List FileFate) : FileStorage := { storage with fates }

def rename (key : String) (data : Bytes) : FileStorage :=
  ⟨Function.update storage.files key (some data), storage.fates.tail⟩

def read (key : String) (buf : Nat) :
    Except FileError (Option (Nat × Bytes)) :=
  .ok ((storage.files key).map fun data => (min data.length (buf + 1), data.take buf))

def write (key : String) (data : Bytes) :
    Except FileError Unit × FileStorage :=
  match storage.fates.headD .complete with
  | .complete => (.ok (), storage.rename key data)
  | .fails => (.error .io, storage.withFates storage.fates.tail)
  | .crash true => (.error .crash, storage.rename key data)
  | .crash false => (.error .crash, storage.withFates storage.fates.tail)

end

instance : NonVolatile FileStorage FileError where
  read := read
  write := write

variable {storage : FileStorage}

@[simp] theorem nonVolatile_write : NonVolatile.write storage key data = storage.write key data :=
  rfl

@[simp] theorem files_rename :
    (storage.rename key data).files = Function.update storage.files key (some data) :=
  rfl

def Sound (storage : FileStorage) : Prop := ∀ fate ∈ storage.fates, fate = .complete

theorem Sound.tail (h : storage.Sound) : ∀ fate ∈ storage.fates.tail, fate = .complete :=
  fun fate hfate => h fate (List.mem_of_mem_tail hfate)

/-- A write leaves the files as they are or puts the data under the key; it reports an error only
if a write was to fail. -/
theorem write_cases (storage : FileStorage) :
    (storage.write key data = (.ok (), storage.rename key data)) ∨ (¬storage.Sound ∧
      (storage.write key data = (.error .io, storage.withFates storage.fates.tail) ∨
        storage.write key data = (.error .crash, storage.rename key data) ∨
        storage.write key data = (.error .crash, storage.withFates storage.fates.tail))) := by
  have hsound (h : storage.Sound) : storage.fates.headD .complete = .complete := by
    cases hfates : storage.fates with
    | nil => rfl
    | cons next rest => exact h next (hfates ▸ List.mem_cons_self)
  rw [write]
  cases hfate : storage.fates.headD .complete with
  | complete => exact .inl rfl
  | fails => exact .inr ⟨fun h => (nomatch hfate.symm.trans (hsound h)), .inl rfl⟩
  | crash renamed =>
    refine .inr ⟨fun h => (nomatch hfate.symm.trans (hsound h)), .inr ?_⟩
    cases renamed with
    | true => exact .inl rfl
    | false => exact .inr rfl

end FileStorage

structure Directory where
  files : HashMap String Bytes

namespace Directory

def empty : Directory := ⟨.new⟩

section

variable (dir : Directory)

def rename (key : String) (data : Bytes) : Directory :=
  ⟨dir.files.insert key data⟩

def read (fails : Bool) (key : String) (buf : Nat) :
    Except FileError (Option (Nat × Bytes)) :=
  if fails then .error .io
  else .ok ((dir.files.get key).map fun data => (min data.length (buf + 1), data.take buf))

def write (fate : FileFate) (key : String) (data : Bytes) :
    Except FileError Unit × Directory :=
  match fate with
  | .complete => (.ok (), dir.rename key data)
  | .fails => (.error .io, dir)
  | .crash true => (.error .crash, dir.rename key data)
  | .crash false => (.error .crash, dir)

theorem write_cases : dir.write fate key data = (.ok (), dir.rename key data) ∨
    dir.write fate key data = (.error .io, dir) ∨
    dir.write fate key data = (.error .crash, dir.rename key data) ∨
    dir.write fate key data = (.error .crash, dir) := by
  match fate with
  | .complete => exact .inl rfl
  | .fails => exact .inr (.inl rfl)
  | .crash true => exact .inr (.inr (.inl rfl))
  | .crash false => exact .inr (.inr (.inr rfl))

end

end Directory

end Lichen.Hal
