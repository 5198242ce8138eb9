import Appraisal.Language
import Appraisal.Text.Search

/-!
# Paths

A path is a text of names between slashes. Empty names and single dots do not count, so that
slashes may be repeated or trail. The last name gives the subject of an assessment, and its
extension the language.
-/

namespace Appraisal.Path

/-- The pieces of a path between its slashes. -/
def pieces (path : List Char) : List (List Char) := Text.split '/' path

/-- The names of a path: its pieces without empty ones and single dots. -/
def names (path : List Char) : List (List Char) :=
  (pieces path).filter fun piece => !(piece.isEmpty || piece == ['.'])

/-- The last name of a path, unless it leads to the folder above. -/
def fileName? (path : List Char) : Option (List Char) :=
  (names path).getLast?.filter (· != ['.', '.'])

/-- What follows the last dot of a name, if there is a dot and it is not the first character. -/
def nameExtension? (name : List Char) : Option (List Char) :=
  match name.reverse.dropWhile (· != '.') with
  | '.' :: _ :: _ => some (name.reverse.takeWhile (· != '.')).reverse
  | _ => none

/-- The extension of the last name of a path. -/
def extension? (path : List Char) : Option (List Char) := (fileName? path).bind nameExtension?

/-- The extensions of source files, with their languages. -/
def extensions : List (String × Language) :=
  [("py", .python), ("js", .javascript), ("jsx", .javascript), ("ts", .javascript),
    ("tsx", .javascript), ("mjs", .javascript), ("java", .java), ("cpp", .cpp), ("cc", .cpp),
    ("cxx", .cpp), ("hpp", .cpp), ("c", .c), ("h", .c), ("go", .go), ("rs", .rust)]

/-- The language that an extension stands for, in any case of its ASCII letters. -/
def extensionLanguage? (extension : List Char) : Option Language :=
  let word := extension.map Char.toLower
  (extensions.find? fun entry => entry.1.toList == word).map (·.2)

/-- The language of a file, judged by its path. -/
def language? (path : String) : Option Language :=
  (extension? path.toList).bind extensionLanguage?

/-- The language of a file: the one that is named, unless the name is blank, and else the one
judged by its path. -/
def languageOf? (named : Option String) (path : String) : Option Language :=
  match named.filter fun name => !Text.isBlank name with
  | some name => some (.parse name)
  | none => language? path

/-- What a file is called in a report: its last name, or the whole path if there is none. -/
def subject (path : String) : String :=
  match fileName? path.toList with
  | some name => String.ofList name
  | none => path

end Appraisal.Path
