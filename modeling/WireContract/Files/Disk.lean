import WireContract.Files.Storage

/-!
# A file system as a value

A disk holds files and directories under lists of names, below a root that always exists.  It may
fail in two ways.  The plan `refusals` says for each coming call whether it is refused, which leaves
everything as it is.  The plan `faults` says for each coming write whether it stops, and after how
many bytes; a write that stops leaves what it has stored.
-/

namespace WireContract.Files

/-- A file with its contents, or a directory. -/
inductive Entry where
  | file (contents : ByteArray)
  | dir

/-- Files and directories by their names from the root on. -/
structure Disk where
  entries : List (List String × Entry)
  /-- Where paths that are not absolute start. -/
  workingDir : List String
  /-- For each coming write, the number of bytes after which it stops, if it does. -/
  faults : List (Option Nat)
  /-- For each coming call, whether it is refused. -/
  refusals : List Bool

/-- Why a path leads nowhere. -/
inductive Lost where
  | missing
  | notDirectory
  /-- Nothing can be there: the path or a name in it is too long, or it has a null character. -/
  | unusable

namespace Disk

/-- A disk with nothing on it, which does not fail. -/
def empty : Disk := ⟨[], [], [], []⟩

/-- What a list of names leads to. -/
def get? (disk : Disk) (names : List String) : Option Entry :=
  if names.isEmpty then some .dir
  else (disk.entries.find? (·.1 == names)).map (·.2)

/-- Puts an entry under a list of names. -/
def set (disk : Disk) (names : List String) (e : Entry) : Disk :=
  { disk with entries := (names, e) :: disk.entries.filter (·.1 != names) }

/-- Removes what is under a list of names. -/
def erase (disk : Disk) (names : List String) : Disk :=
  { disk with entries := disk.entries.filter (·.1 != names) }

/-- The greatest number of bytes in a name. -/
def nameLimit : Nat := 255

/-- The number of bytes that a path stays below. -/
def pathLimit : Nat := 4096

/-- Follows the names of a path from a place.  Every place but the last has to be a directory. -/
def walk (disk : Disk) (place : List String) : List String → Except Lost (List String)
  | [] => .ok place
  | name :: names =>
    match disk.get? place with
    | none => .error .missing
    | some (.file _) => .error .notDirectory
    | some .dir =>
      if nameLimit < name.utf8ByteSize then .error .unusable
      else if name == "." then disk.walk place names
      else if name == ".." then disk.walk place.dropLast names
      else disk.walk (place ++ [name]) names

/-- The names of a path; a slash at the end asks for a directory, as a dot does. -/
def namesOf (path : String) : List String :=
  let names := Text.split '/' path
  let dot := if names.getLast? == some "" then ["."] else []
  names.filter (· != "") ++ if path.isEmpty then [] else dot

/-- Whether a file system takes a text for a path. -/
def isUsable (path : String) : Bool :=
  path.utf8ByteSize < pathLimit && !path.toList.contains '\x00'

/-- Where a path starts. -/
def start (disk : Disk) (path : String) : List String :=
  if isAbsolute path then [] else disk.workingDir

/-- The place of a path. -/
def locate (disk : Disk) (path : String) : Except Lost (List String) :=
  if isUsable path then disk.walk (disk.start path) (namesOf path) else .error .unusable

/-- Whether something is at a path. -/
def hasEntry (disk : Disk) (path : String) : Bool :=
  match disk.locate path with
  | .ok place => (disk.get? place).isSome
  | .error _ => false

/-- The contents of the file at a path. -/
def read (disk : Disk) (path : String) : Reading :=
  match disk.locate path with
  | .error .missing => .missing
  | .error _ => .failed
  | .ok place =>
    match disk.get? place with
    | some (.file contents) => .bytes contents
    | some .dir => .failed
    | none => .missing

/-- Writes a file at a path. -/
def write (disk : Disk) (path : String) (contents : ByteArray) : Disk × Bool :=
  match disk.locate path with
  | .error _ => (disk, false)
  | .ok place =>
    match disk.get? place with
    | some .dir => (disk, false)
    | _ =>
      let later := { disk with faults := disk.faults.tail }
      match disk.faults.head? with
      | some (some n) => (later.set place (.file (contents.extract 0 n)), false)
      | _ => (later.set place (.file contents), true)

/-- The path without slashes at its end. -/
def unslashed (path : String) : String :=
  String.ofList (path.toList.reverse.dropWhile (· == '/')).reverse

/-- Creates a directory at a path where nothing is; slashes at the end of the path say nothing. -/
def createDir (disk : Disk) (path : String) : Disk × Bool :=
  match disk.locate (unslashed path) with
  | .error _ => (disk, false)
  | .ok place => if (disk.get? place).isSome then (disk, false) else (disk.set place .dir, true)

/-- Removes the file at a path. -/
def removeFile (disk : Disk) (path : String) : Disk × Bool :=
  match disk.locate path with
  | .error _ => (disk, false)
  | .ok place =>
    match disk.get? place with
    | some (.file _) => (disk.erase place, true)
    | _ => (disk, false)

/-- Whether some entry lies below a place. -/
def isOccupied (disk : Disk) (place : List String) : Bool :=
  disk.entries.any fun (names, _) => place.isPrefixOf names && names != place

/-- Removes the directory at a path, if nothing is in it. -/
def removeDir (disk : Disk) (path : String) : Disk × Bool :=
  match disk.locate path with
  | .error _ => (disk, false)
  | .ok place =>
    match disk.get? place with
    | some .dir =>
      if place.isEmpty || disk.isOccupied place then (disk, false) else (disk.erase place, true)
    | _ => (disk, false)

/-- Makes a call, unless it is refused. -/
def call {α : Type} (refused : α) (action : Disk → α × Disk) : StateM Disk α := fun disk =>
  let later := { disk with refusals := disk.refusals.tail }
  if disk.refusals.head? == some true then (refused, later) else action later

/-- Programs that use a disk.  Where looking is refused, nothing is found. -/
instance : Storage (StateM Disk) where
  hasEntry path := call false fun disk => (disk.hasEntry path, disk)
  read path := call .failed fun disk => (disk.read path, disk)
  write path contents := call false fun disk => (disk.write path contents).swap
  createDir path := call false fun disk => (disk.createDir path).swap
  removeFile path := call false fun disk => (disk.removeFile path).swap
  removeDir path := call false fun disk => (disk.removeDir path).swap

/-! ## Set-up and listing -/

/-- Makes a directory with all directories above it, as far as that is possible. -/
def makeDirs (disk : Disk) (path : String) : Disk :=
  (ancestors path).reverse.foldl (fun disk dir => (disk.createDir dir).1) disk

/-- Makes a file with all directories above it, as far as that is possible. -/
def makeFile (disk : Disk) (path : String) (contents : ByteArray) : Disk :=
  let disk :=
    match parent? path with
    | some dir => disk.makeDirs dir
    | none => disk
  (disk.write path contents).1

/-- The order of a listing: a directory before what is in it, names by code points. -/
def listedBefore : List String → List String → Bool
  | [], _ => true
  | _ :: _, [] => false
  | a :: as, b :: bs => if a == b then listedBefore as bs else decide (a < b)

/-- Everything on the disk, in order. -/
def listing (disk : Disk) : List (List String × Entry) :=
  disk.entries.mergeSort fun a b => listedBefore a.1 b.1

end Disk

end WireContract.Files
