import InjectionCompiler.Table

/-!
# Disks

A disk holds directories and files.  A path is a text whose segments are separated by slashes; it is
walked from the top of the disk, and only through directories that exist.
-/

namespace InjectionCompiler

/-- A place on a disk: the names from the top down to it. -/
abbrev Location := List String

structure Disk where
  directories : List Location
  files : Table Location String
  deriving DecidableEq, Repr

inductive DiskFault where
  | notFound
  | exists
  | notDirectory
  | isDirectory
  deriving DecidableEq, Repr

def DiskFault.message : DiskFault → String
  | .notFound => "No such file or directory (os error 2)"
  | .exists => "File exists (os error 17)"
  | .notDirectory => "Not a directory (os error 20)"
  | .isDirectory => "Is a directory (os error 21)"

/-! ## Paths -/

namespace Disk

def segments (path : String) : List (List Char) :=
  path.toList.splitOnP (· = '/')

/-- The segments of a path that lead somewhere: empty ones and single dots stay in place. -/
def steps (path : String) : List String :=
  ((segments path).map String.ofList).filter fun segment => segment ≠ "" ∧ segment ≠ "."

/-- Where steps lead from a place.  Two dots lead back up. -/
def walk (location : Location) : List String → Location
  | [] => location
  | step :: steps =>
      if step = ".." then walk location.dropLast steps else walk (location ++ [step]) steps

/-- The place that a path stands for. -/
def locate (path : String) : Location :=
  walk [] (steps path)

/-- Appends a segment to a path.  The path is separated from it unless it is empty or ends in a
slash. -/
def push (path segment : String) : String :=
  if path.toList.isEmpty || path.toList.getLast? = some '/' then path ++ segment
  else path ++ "/" ++ segment

/-! ## Operations -/

instance : EmptyCollection Disk := ⟨⟨[], ∅⟩⟩

def isDirectory (disk : Disk) (location : Location) : Bool :=
  location.isEmpty || disk.directories.contains location

/-- Walks to a directory and makes the directories that are missing on the way.  What was made stays
when the walk fails.  The walk cannot go through a file.  It meets one while it makes directories
one by one, which is so once one has been made and at the last step; else the way is looked up as a
whole. -/
def enter (disk : Disk) (made : Bool) (location : Location) :
    List String → Except DiskFault Location × Disk
  | [] => (.ok location, disk)
  | step :: steps =>
      if step = ".." then disk.enter made location.dropLast steps
      else
        let inner := location ++ [step]
        if disk.isDirectory inner then disk.enter made inner steps
        else if disk.files.contains inner then
          (.error (if made || steps.isEmpty then .exists else .notDirectory), disk)
        else { disk with directories := disk.directories ++ [inner] }.enter true inner steps

/-- What is wrong with a path that does not end in the name of a file.  A dot at its end is looked
up in the place that it stays in. -/
def endFault (disk : Disk) (path : String) : DiskFault :=
  if ((segments path).filter (· ≠ [])).getLast? ≠ some ['.'] then .isDirectory
  else if disk.isDirectory (locate path) then .isDirectory
  else if disk.files.contains (locate path) then .notDirectory
  else .notFound

/-- Writes a file, with all directories above it.  A file that stands there already is replaced. -/
def put (disk : Disk) (path content : String) : Except DiskFault Unit × Disk :=
  match disk.enter false [] (steps path).dropLast with
  | (.error fault, disk) => (.error fault, disk)
  | (.ok location, disk) =>
      let last := String.ofList ((segments path).getLast?.getD [])
      if last = "" ∨ last = "." ∨ last = ".." then (.error (disk.endFault path), disk)
      else
        let target := location ++ [last]
        if disk.isDirectory target then (.error .isDirectory, disk)
        else (.ok (), { disk with files := disk.files.insert target content })

/-- Writes files one after another, up to the first that fails. -/
def putAll (disk : Disk) : List (String × String) → Except DiskFault Unit × Disk
  | [] => (.ok (), disk)
  | (path, content) :: rest =>
      match disk.put path content with
      | (.error fault, disk) => (.error fault, disk)
      | (.ok (), disk) => disk.putAll rest

/-- The files below a directory, by the rest of their paths and in the order of these. -/
def filesBelow (disk : Disk) (location : Location) : List (String × String) :=
  let below := disk.files.entries.filterMap fun (place, content) =>
    if location.isPrefixOf place then
      some ("/".intercalate (place.drop location.length), content)
    else none
  below.mergeSort fun a b => (compare a.1 b.1).isLE

end Disk

end InjectionCompiler
