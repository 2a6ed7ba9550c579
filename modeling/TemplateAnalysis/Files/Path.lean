import TemplateAnalysis.Text.Search

/-! # Paths

    A path is a list of names, either from the root of the file tree or from
    the current folder. Empty names and single dots are dropped when a path is
    read; two dots stay, since only the file tree can tell what they lead to.
-/

namespace TemplateAnalysis.Files

open Text

/-- A path. Its root is `/`, or `//` when it is written with exactly two slashes,
    and empty when the path starts at the current folder. -/
structure Path where
  root : String
  parts : List String
  deriving DecidableEq, Repr

namespace Path

/-- The names between the slashes of a text, without the empty ones and the
    single dots. -/
def partsOf (text : List Char) : List String :=
  ((splitOn '/' text).filter fun part => !part.isEmpty && part != ['.']).map String.ofList

/-- Read a path. -/
def ofString (text : String) : Path :=
  let cs := text.toList
  let slashes := (cs.takeWhile (· == '/')).length
  ⟨if slashes = 0 then "" else if slashes = 2 then "//" else "/", partsOf cs⟩

/-- The path as text without a name for the current folder, which is empty. -/
def bare (path : Path) : String :=
  path.root ++ String.intercalate "/" path.parts

/-- The path as text. -/
def text (path : Path) : String :=
  if path.bare.isEmpty then "." else path.bare

/-- Does the path start at the root? -/
def isAbsolute (path : Path) : Bool :=
  path.root ≠ ""

/-- The path that another one, read from the folder at this path, leads to. -/
def join (path other : Path) : Path :=
  if other.isAbsolute then other else ⟨path.root, path.parts ++ other.parts⟩

/-- The path that a text, read from the folder at this path, leads to. -/
def child (path : Path) (text : String) : Path :=
  path.join (ofString text)

/-- Does a name of the path hold the NUL character? No file has such a name. -/
def hasNull (path : Path) : Bool :=
  path.parts.any fun part => part.toList.contains '\x00'

/-- The last name of the path, empty when there is none. -/
def name (path : Path) : String :=
  path.parts.getLast?.getD ""

/-- The folder that holds what the path leads to. -/
def parent (path : Path) : Path :=
  ⟨path.root, path.parts.dropLast⟩

/-- The suffix of a name: from its last dot on. A dot at either end of the name
    begins no suffix. -/
def suffixOf (name : List Char) : List Char :=
  match lastIndexOf? ['.'] name with
  | some i => if 0 < i && i + 1 < name.length then name.drop i else []
  | none => []

/-- The suffix of the last name. -/
def suffix (path : Path) : List Char :=
  suffixOf path.name.toList

/-- The path with another suffix in place of its own, if it has a name. -/
def withSuffix? (path : Path) (suffix : String) : Option Path :=
  match path.parts.getLast? with
  | none => none
  | some name =>
    let stem := name.toList.take (name.length - path.suffix.length)
    some ⟨path.root, path.parts.dropLast ++ [String.ofList stem ++ suffix]⟩

/-- The path as it is read from the folder at another path that it begins with. -/
def relativeTo? (path folder : Path) : Option Path :=
  if path.root = folder.root && folder.parts.isPrefixOf path.parts then
    some ⟨"", path.parts.drop folder.parts.length⟩
  else none

/-- Names with each two dots and the name before them left out. -/
def collapse (before : List String) : List String → List String
  | [] => before
  | part :: rest =>
    if part = ".." then collapse before.dropLast rest else collapse (before ++ [part]) rest

/-- The path from the root, without dots, that the path leads to when it is read
    from a folder. -/
def resolve (folder : List String) (path : Path) : Path :=
  ⟨"/", collapse (if path.isAbsolute then [] else folder) path.parts⟩

/-- Lists of names in order: by the first name in which they differ, where a
    list that ends comes first. -/
def partsLe : List String → List String → Bool
  | [], _ => true
  | _ :: _, [] => false
  | a :: as, b :: bs => if a = b then partsLe as bs else a < b

end Path

/-- The names of a path with its dots worked out as far as they go. Two dots at
    the front of a path stay, unless the path starts at the root. -/
def collapseDots (fromRoot : Bool) (before : List (List Char)) :
    List (List Char) → List (List Char)
  | [] => before
  | part :: rest =>
    if part.isEmpty || part == ['.'] then collapseDots fromRoot before rest
    else if part != ['.', '.'] then collapseDots fromRoot (before ++ [part]) rest
    else match before.getLast? with
      -- The root is its own parent.
      | none => collapseDots fromRoot (if fromRoot then [] else [part]) rest
      | some last =>
        if last == ['.', '.'] then collapseDots fromRoot (before ++ [part]) rest
        else collapseDots fromRoot before.dropLast rest

/-- The normal form of a path: single names between single slashes, and a dot
    for the empty path. A path from the root keeps its slash, or both when it
    begins with exactly two. -/
def normalPath (path : List Char) : List Char :=
  let slashes := (path.takeWhile (· == '/')).length
  let parts := collapseDots (slashes ≠ 0) [] (splitOn '/' path)
  let root := if slashes = 2 then ['/', '/'] else if slashes = 0 then [] else ['/']
  let normal := root ++ joinWith ['/'] parts
  if normal.isEmpty then ['.'] else normal

end TemplateAnalysis.Files
