import HartBoot.Bytes

/-!
Contract: the files that a run can see, and what happens when one is opened.

Owns:
- `Files`, a tree of files and directories;
- `Files.read` and `Files.write`, and `FileFault`, the ways in which they fail.

A path is resolved part by part: an empty part and `.` stay, `..` goes up, and every part but the
last has to be a directory. A path starts at the current directory, or at the root if it starts
with a slash.

Does not own: what stands in a file.
-/

namespace HartBoot

/-- The name of a file as it was given. -/
abbrev Path := String

/-- Why a file cannot be opened. -/
inductive FileFault where
  | notFound
  | isDirectory
  | notDirectory
  | nameTooLong
  | containsNul
  deriving DecidableEq, Repr

/-- The fault in the words of the operating system. -/
def FileFault.message : FileFault → String
  | .notFound => "No such file or directory (os error 2)"
  | .isDirectory => "Is a directory (os error 21)"
  | .notDirectory => "Not a directory (os error 20)"
  | .nameTooLong => "File name too long (os error 36)"
  | .containsNul => "file name contained an unexpected NUL byte"

/-- What a path can lead to. -/
inductive Node where
  | file (contents : Bytes)
  | directory
  deriving DecidableEq, Repr

/-- A file or directory as the parts of the path to it: from the current directory, with a `..`
in front for each level above it, or from the root, which is written as an empty part. -/
abbrev Place := List String

/-- The files and directories that are known, each at its place. A directory that has a file in it
need not be listed. -/
structure Files where
  entries : List (Place × Node)
  deriving DecidableEq, Repr

namespace Files

def empty : Files := ⟨[]⟩

def parts (path : Path) : List String :=
  path.splitOn "/"

/-- Whether a place is a directory in any case: the current directory, the root, or a directory
above the current one. -/
def isBase (place : Place) : Bool :=
  place == [""] || place.all (· == "..")

def node? (files : Files) (place : Place) : Option Node :=
  if isBase place then some .directory
  else
    match files.entries.find? fun entry => entry.1 == place with
    | some entry => some entry.2
    | none =>
      if files.entries.any fun entry => place.isPrefixOf entry.1 then some .directory
      else none

def maxName : Nat := 255

def maxPath : Nat := 4095

/-- The place of the directory around a place. The root has none but itself. -/
def above (place : Place) : Place :=
  if place = [""] then place
  else if place.all (· == "..") then place ++ [".."]
  else place.dropLast

def enter (place : Place) (part : String) : Place :=
  if part = "" ∨ part = "." then place
  else if part = ".." then above place
  else place ++ [part]

/-- The place at which a path starts, and its parts from there on. -/
def origin (path : Path) : Place × List String :=
  match parts path with
  | "" :: rest => ([""], rest)
  | whole => ([], whole)

/-- The place to which the parts of a path lead from another place. -/
def follow (files : Files) : Place → List String → Except FileFault Place
  | place, [] => .ok place
  | place, part :: rest =>
    match files.node? place with
    | none => .error .notFound
    | some (.file _) => .error .notDirectory
    | some .directory =>
      if maxName < part.utf8ByteSize then .error .nameTooLong
      else files.follow (enter place part) rest

/-- The place that a path names; there need not be anything. -/
def locate (files : Files) (path : Path) : Except FileFault Place :=
  if path.toList.contains '\x00' then .error .containsNul
  else if path = "" then .error .notFound
  else if maxPath < path.utf8ByteSize then .error .nameTooLong
  else
    let (start, rest) := origin path
    files.follow start rest

/-- The contents of the file that a path names. -/
def read (files : Files) (path : Path) : Except FileFault Bytes := do
  let place ← files.locate path
  match files.node? place with
  | none => .error .notFound
  | some .directory => .error .isDirectory
  | some (.file contents) => .ok contents

/-- Put a node at a place, instead of the one that was there. -/
def insert (files : Files) (place : Place) (node : Node) : Files :=
  ⟨files.entries.filter (fun entry => entry.1 != place) ++ [(place, node)]⟩

/-- Give the file that a path names new contents; the file need not exist before. -/
def write (files : Files) (path : Path) (contents : Bytes) : Except FileFault Files := do
  let place ← files.locate path
  match files.node? place with
  | some .directory => .error .isDirectory
  | _ => .ok (files.insert place (.file contents))

/-- The places that a path passes from a place on, its last one included. -/
def passed : Place → List String → List Place
  | place, [] => [place]
  | place, part :: rest => place :: passed (enter place part) rest

def route (path : Path) : List Place :=
  let (start, rest) := origin path
  passed start rest

/-- Make a place a directory, unless there is something. -/
def makeDirectory (files : Files) (place : Place) : Files :=
  if (files.node? place).isSome then files else files.insert place .directory

/-- Put a node where a path leads, and make the directories that the path passes. -/
def put (files : Files) (path : Path) (node : Node) : Files :=
  let places := route path
  (places.dropLast.foldl makeDirectory files).insert (places.getLast?.getD []) node

/-- Files given by path, each with the directories on the way to it. -/
def ofList (listed : List (Path × Node)) : Files :=
  listed.foldl (fun files (path, node) => files.put path node) empty

/-- The shortest path to a place other than the current directory. -/
def pathTo (place : Place) : Path :=
  if place = [""] then "/" else "/".intercalate place

end Files

end HartBoot
