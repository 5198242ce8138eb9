import Appraisal.Path

/-!
# File trees

Files and folders under their absolute names, with a working folder. A path is followed name by
name, so that every name on the way has to be a folder.
-/

namespace Appraisal

/-- Why a file could not be read or written. -/
inductive FileError where
  | notFound
  | isFolder
  | notFolder
  | exists
  | notText
deriving DecidableEq, Repr

/-- The names from the root to a file or folder. -/
abbrev Location := List (List Char)

/-- Files with their bytes, and folders. -/
structure FileTree where
  files : List (Location × ByteArray)
  folders : List Location
  working : Location

/-- What a location holds. -/
inductive Entry where
  | file (bytes : ByteArray)
  | folder

namespace FileTree

def entry? (tree : FileTree) (location : Location) : Option Entry :=
  if location = [] ∨ location ∈ tree.folders then some .folder
  else (tree.files.find? fun file => file.1 == location).map fun file => .file file.2

/-- Where a path starts: at the root if its first character is a slash. -/
def start (tree : FileTree) (path : List Char) : Location :=
  if path.head? == some '/' then [] else tree.working

/-- Follows names through folders. -/
def follow (tree : FileTree) : Location → List (List Char) → Except FileError Location
  | here, [] => .ok here
  | here, name :: rest =>
    if name = [] ∨ name = ['.'] then follow tree here rest
    else if name = ['.', '.'] then follow tree here.dropLast rest
    else match tree.entry? (here ++ [name]) with
      | some .folder => follow tree (here ++ [name]) rest
      | some (.file _) => .error .notFolder
      | none => .error .notFound

/-- The pieces of a path up to its last one, that one, and whether slashes follow it. -/
def splitLast (path : List Char) : List (List Char) × Option (List Char) × Bool :=
  let pieces := (Path.pieces path).reverse
  match pieces.dropWhile List.isEmpty with
  | [] => ([], none, true)
  | last :: front => (front.reverse, some last, pieces.head?.any List.isEmpty)

/-- Whether a name leads to a folder by itself. -/
def isStep (name : List Char) : Bool := name == ['.'] || name == ['.', '.']

def read (tree : FileTree) (path : String) : Except FileError ByteArray :=
  let (front, last, slashed) := splitLast path.toList
  match last with
  | none => if path.isEmpty then .error .notFound else .error .isFolder
  | some name => do
    let here ← tree.follow (tree.start path.toList) front
    if isStep name then .error .isFolder
    else match tree.entry? (here ++ [name]) with
      | some .folder => .error .isFolder
      | some (.file bytes) => if slashed then .error .notFolder else .ok bytes
      | none => .error .notFound

/-- Makes the folders that names lead through, as far as they are missing and no file is in the way:
the tree after it, and why it came to a halt if it did. `made` says whether a folder has been made. -/
def makeFolders (tree : FileTree) (made : Bool) :
    Location → List (List Char) → FileTree × Option FileError
  | _, [] => (tree, none)
  | here, name :: rest =>
    if isStep name then
      makeFolders tree made (if name = ['.'] then here else here.dropLast) rest
    else match tree.entry? (here ++ [name]) with
      | some .folder => makeFolders tree made (here ++ [name]) rest
      | some (.file _) => (tree, some (if made || rest.isEmpty then .exists else .notFolder))
      | none =>
        makeFolders { tree with folders := tree.folders ++ [here ++ [name]] } true
          (here ++ [name]) rest

/-- Makes the folders above a file. -/
def makeFoldersAbove (tree : FileTree) (path : String) : FileTree × Option FileError :=
  tree.makeFolders false (tree.start path.toList) (Path.names path.toList).dropLast

/-- Puts bytes in place of what a file held. -/
def put (tree : FileTree) (location : Location) (bytes : ByteArray) : FileTree :=
  { tree with files := (location, bytes) :: tree.files.filter fun file => file.1 != location }

def write (tree : FileTree) (path : String) (bytes : ByteArray) : Except FileError FileTree :=
  let (front, last, slashed) := splitLast path.toList
  match last with
  | none => if path.isEmpty then .error .notFound else .error .isFolder
  | some name => do
    let here ← tree.follow (tree.start path.toList) front
    if slashed || isStep name then .error .isFolder
    else match tree.entry? (here ++ [name]) with
      | some .folder => .error .isFolder
      | _ => .ok (tree.put (here ++ [name]) bytes)

/-- Writes a file after making the folders above it. -/
def writeBelow (tree : FileTree) (path : String) (bytes : ByteArray) :
    Except FileError FileTree :=
  match tree.makeFoldersAbove path with
  | (tree, none) => tree.write path bytes
  | (_, some error) => .error error

end FileTree

end Appraisal
