import WireContract.Files.Path

/-!
# Writing many files at once

`Storage` is what is asked of a file system.  `writeFiles` writes files into it one by one and keeps
a journal; when a step fails, everything in the journal is taken back and the path of the failed
step is reported.
-/

namespace WireContract.Files

/-- What was found at a path. -/
inductive Reading where
  | bytes (contents : ByteArray)
  | missing
  | failed

/-- A file system.  Operations that change it say whether they succeeded. -/
class Storage (m : Type → Type) where
  hasEntry : (path : String) → m Bool
  read : (path : String) → m Reading
  write : (path : String) → ByteArray → m Bool
  createDir : (path : String) → m Bool
  removeFile : (path : String) → m Bool
  removeDir : (path : String) → m Bool

/-- How a written file is taken back. -/
inductive Reversal where
  | created (path : String)
  | replaced (path : String) (previous : ByteArray)

/-- What was done so far, the latest first. -/
structure Journal where
  directories : List String
  files : List Reversal

/-- Nothing done. -/
def Journal.empty : Journal := ⟨[], []⟩

section

variable {m : Type → Type} [Monad m] [Storage m]

/-- The leading paths that do not exist, up to the empty path. -/
def missingDirs : List String → m (List String)
  | [] => pure []
  | dir :: dirs =>
    if dir.isEmpty then pure []
    else do
      if ← Storage.hasEntry dir then return []
      else return dir :: (← missingDirs dirs)

/-- Creates directories in turn; stops at the first that cannot be created. -/
def createEach (journal : Journal) : List String → m (Journal × Option String)
  | [] => pure (journal, none)
  | dir :: dirs => do
    if ← Storage.createDir dir then
      createEach { journal with directories := dir :: journal.directories } dirs
    else return (journal, some dir)

/-- Writes a file whose directory exists. -/
def writeInPlace (journal : Journal) (path : String) (contents : ByteArray) :
    m (Journal × Option String) := do
  match ← Storage.read (m := m) path with
  | .failed => return (journal, some path)
  | .bytes previous =>
    if ← Storage.write path contents then
      return ({ journal with files := .replaced path previous :: journal.files }, none)
    else return (journal, some path)
  | .missing =>
    if ← Storage.write path contents then
      return ({ journal with files := .created path :: journal.files }, none)
    else return (journal, some path)

/-- Writes a file; the directories that it needs are created first. -/
def writeFile (journal : Journal) (path : String) (contents : ByteArray) :
    m (Journal × Option String) := do
  let needed ← missingDirs (match parent? path with | some dir => ancestors dir | none => [])
  match ← createEach journal needed.reverse with
  | (journal, some failed) => return (journal, some failed)
  | (journal, none) => writeInPlace journal path contents

/-- Writes files in turn; stops at the first that cannot be written. -/
def writeEach (journal : Journal) : List (String × ByteArray) → m (Journal × Option String)
  | [] => pure (journal, none)
  | (path, contents) :: files => do
    match ← writeFile journal path contents with
    | (journal, some failed) => return (journal, some failed)
    | (journal, none) => writeEach journal files

/-- Takes back a written file. -/
def Reversal.run : Reversal → m Unit
  | .created path => do
    let _ ← Storage.removeFile (m := m) path
  | .replaced path previous => do
    let _ ← Storage.write (m := m) path previous

/-- Takes back written files in turn. -/
def undoFiles : List Reversal → m Unit
  | [] => pure ()
  | u :: us => do
    u.run
    undoFiles us

/-- Removes directories in turn. -/
def removeDirs : List String → m Unit
  | [] => pure ()
  | dir :: dirs => do
    let _ ← Storage.removeDir (m := m) dir
    removeDirs dirs

/-- Takes back everything in a journal: files first, each the latest first. -/
def Journal.takeBack (journal : Journal) : m Unit := do
  undoFiles journal.files
  removeDirs journal.directories

/-- Writes all files, or none: gives the path that could not be written or created, if any. -/
def writeFiles (files : List (String × ByteArray)) : m (Option String) := do
  match ← writeEach .empty files with
  | (journal, some failed) =>
    journal.takeBack
    return some failed
  | (_, none) => return none

end

end WireContract.Files
