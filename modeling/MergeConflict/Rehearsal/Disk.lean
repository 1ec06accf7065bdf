import MergeConflict.CommandLine.Dialogue
import MergeConflict.Text.Lines
import MergeConflict.Text.Utf8

/-!
Files and folders held in memory.

A place is the list of names that lead to it from the root. Paths are followed name by name, so that
a file cannot be passed through and a folder has to be there to be passed.
-/

namespace MergeConflict

/-- Where something is: the names from the root down. -/
abbrev Place := List String

structure Disk where
  /-- The folder from which paths without a leading slash are followed. -/
  home : Place
  folders : List Place
  files : List (Place × List UInt8)
deriving DecidableEq, Repr

/-- What is found at a place. -/
inductive DiskEntry where
  | folder
  | file (bytes : List UInt8)
deriving DecidableEq, Repr

namespace Disk

/-- The folders that lead to a place, the root among them. -/
def foldersTo (place : Place) : List Place :=
  (List.range place.length).map place.take

/-- A disk with nothing but a home. -/
def empty (home : Place) : Disk :=
  ⟨home, foldersTo home ++ [home], []⟩

def entry? (disk : Disk) (place : Place) : Option DiskEntry :=
  match disk.files.lookup place with
  | some bytes => some (.file bytes)
  | none => if disk.folders.contains place then some .folder else none

/-- The names in a path. -/
def names (path : String) : List String :=
  (Text.cutAt '/' path.toList).map String.ofList

/-- The names in a path less the empty ones behind its final slashes. -/
def properNames (path : String) : List String :=
  ((names path).reverse.dropWhile (· == "")).reverse

/-- One step down from a folder. -/
def step (place : Place) (name : String) : Place :=
  if name = "" ∨ name = "." then place
  else if name = ".." then place.dropLast
  else place ++ [name]

/-- Follows names; what lies in front of each has to be a folder. -/
def follow (disk : Disk) (place : Place) : List String → Except FileFault Place
  | [] => .ok place
  | name :: rest =>
    match disk.entry? place with
    | none => .error .missing
    | some (.file _) => .error .isFile
    | some .folder => disk.follow (step place name) rest

/-- The place from which a path is followed. -/
def origin (disk : Disk) (path : String) : Place :=
  if path.startsWith "/" then [] else disk.home

/-- The place of a path, which need not be taken. -/
def locate (disk : Disk) (path : String) : Except FileFault Place :=
  disk.follow (disk.origin path) (names path)

/-- What is found at the end of a path. -/
def find (disk : Disk) (path : String) : Except FileFault DiskEntry := do
  match disk.entry? (← disk.locate path) with
  | some entry => .ok entry
  | none => .error .missing

def isThere (disk : Disk) (path : String) : Bool :=
  (disk.find path).toBool

def readText (disk : Disk) (path : String) : Except FileFault String := do
  match ← disk.find path with
  | .folder => .error .isFolder
  | .file bytes =>
    match Text.Utf8.decode? bytes with
    | some text => .ok text
    | none => .error .noText

/-- Puts bytes at a place, whatever file was there. -/
def put (disk : Disk) (place : Place) (bytes : List UInt8) : Disk :=
  { disk with files := disk.files.filter (fun file => file.1 ≠ place) ++ [(place, bytes)] }

/-- Writes a file; a path with a final slash cannot become one. -/
def writeText (disk : Disk) (path content : String) : Except FileFault Disk := do
  let place ← disk.follow (disk.origin path) (properNames path)
  if path.endsWith "/" ∨ disk.entry? place = some .folder then .error .isFolder
  else .ok (disk.put place content.toUTF8.toList)

/-- Makes the folders that lead along names and are not there. -/
def makeAlong (disk : Disk) (place : Place) : List String → Except FileFault Disk
  | [] => .ok disk
  | name :: rest =>
    let next := step place name
    match disk.entry? next with
    | some .folder => disk.makeAlong next rest
    | some (.file _) => .error (if rest.isEmpty then .alreadyThere else .isFile)
    | none => makeAlong { disk with folders := disk.folders ++ [next] } next rest

/-- Makes a folder and those above it; where a path ends in a dot, they have to be there. -/
def makeFolders (disk : Disk) (path : String) : Except FileFault Disk :=
  let names := properNames path
  if names.getLast? = some "." then (disk.find path).map fun _ => disk
  else disk.makeAlong (disk.origin path) names

/-- The full path of what is there, or nothing. -/
def fullPath (disk : Disk) (path : String) : String :=
  match disk.locate path with
  | .ok place => if (disk.entry? place).isSome then "/" ++ "/".intercalate place else ""
  | .error _ => ""

/-- Puts a file at a place and makes the folders that lead there. -/
def addFile (disk : Disk) (place : Place) (bytes : List UInt8) : Disk :=
  let missing := (foldersTo place).filter fun folder => !disk.folders.contains folder
  { disk with folders := disk.folders ++ missing }.put place bytes

/-- A disk with files at paths below its home. -/
def ofFiles (home : Place) (files : List (String × List UInt8)) : Disk :=
  files.foldl (fun disk (path, bytes) => disk.addFile ((names path).foldl step disk.home) bytes)
    (empty home)

/-- The files below home, by their paths from there. -/
def filesAtHome (disk : Disk) : List (String × List UInt8) :=
  disk.files.filterMap fun (place, bytes) =>
    if disk.home.isPrefixOf place then
      some ("/".intercalate (place.drop disk.home.length), bytes)
    else none

end Disk

end MergeConflict
