import TemplateAnalysis.Files.Path
import TemplateAnalysis.Text.Quoted

/-! # File trees

    A file tree holds files and folders under paths from its root. Every
    question about it starts either at the root or at the current folder, and
    each step on the way has to be a folder.
-/

namespace TemplateAnalysis.Files

/-- What a path of the tree leads to. -/
inductive Node
  | folder
  | file (content : ByteArray)

/-- A tree of files, as the list of what its paths lead to, with the current
    folder. The root is always there. -/
structure FileTree where
  current : List String
  nodes : List (List String × Node)

/-- Why something could not be done with a path. -/
inductive FileProblem
  | missing
  | exists
  | notFolder
  | isFolder
  /-- The name of a file holds the NUL character. -/
  | nullInFile
  /-- The name of a folder to be made holds it. -/
  | nullInFolder
  deriving DecidableEq, Repr

/-- A problem and the path it arose with. -/
structure FileError where
  problem : FileProblem
  path : Path
  deriving DecidableEq, Repr

/-- The words of a problem, with its number when it has one. -/
def FileProblem.message : FileProblem → String
  | .missing => "[Errno 2] No such file or directory"
  | .exists => "[Errno 17] File exists"
  | .notFolder => "[Errno 20] Not a directory"
  | .isFolder => "[Errno 21] Is a directory"
  | .nullInFile => "embedded null byte"
  | .nullInFolder => "mkdir: embedded null character in path"

/-- Is the problem the path itself, whatever stands where it leads? -/
def FileProblem.isNull : FileProblem → Bool
  | .nullInFile | .nullInFolder => true
  | _ => false

/-- The words for a problem with a path. -/
def FileError.message (error : FileError) : String :=
  if error.problem.isNull then error.problem.message
  else error.problem.message ++ ": " ++ Text.quotedString error.path.text

namespace FileTree

/-! ## Looking -/

/-- What stands at a place of the tree. -/
def nodeAt? (tree : FileTree) (place : List String) : Option Node :=
  match place with
  | [] => some .folder
  | _ => tree.nodes.lookup place

/-- The place that names lead to from a folder. -/
def locateFrom (tree : FileTree) (place : List String) :
    List String → Except FileProblem (List String)
  | [] => .ok place
  | part :: rest =>
    match tree.nodeAt? place with
    | some .folder =>
      let next := if part = ".." then place.dropLast else place ++ [part]
      match tree.nodeAt? next with
      | some _ => tree.locateFrom next rest
      | none => .error .missing
    | _ => .error .notFolder

/-- Where the names of a path start. -/
def start (tree : FileTree) (path : Path) : List String :=
  if path.isAbsolute then [] else tree.current

/-- The place that a path leads to. -/
def locate (tree : FileTree) (path : Path) : Except FileProblem (List String) :=
  tree.locateFrom (tree.start path) path.parts

/-- What a path leads to. -/
def find? (tree : FileTree) (path : Path) : Option Node :=
  match tree.locate path with
  | .ok place => tree.nodeAt? place
  | .error _ => none

/-- Does the path lead anywhere? -/
def hasPath (tree : FileTree) (path : Path) : Bool :=
  (tree.find? path).isSome

/-- Does the path lead to a folder? -/
def isFolder (tree : FileTree) (path : Path) : Bool :=
  match tree.find? path with
  | some .folder => true
  | _ => false

/-- Does the path lead to a file? -/
def isFile (tree : FileTree) (path : Path) : Bool :=
  match tree.find? path with
  | some (.file _) => true
  | _ => false

/-- The content of a file. -/
def read (tree : FileTree) (path : Path) : Except FileError ByteArray :=
  if path.hasNull then .error ⟨.nullInFile, path⟩
  else match tree.locate path with
  | .error problem => .error ⟨problem, path⟩
  | .ok place =>
    match tree.nodeAt? place with
    | some (.file content) => .ok content
    | some .folder => .error ⟨.isFolder, path⟩
    | none => .error ⟨.missing, path⟩

/-- The names that lead from a folder to the files below it, in order. -/
def filesBelow (tree : FileTree) (path : Path) : List (List String) :=
  match tree.find? path, tree.locate path with
  | some .folder, .ok place =>
    let below := tree.nodes.filterMap fun entry =>
      match entry.2 with
      | .file _ =>
        if place.isPrefixOf entry.1 then some (entry.1.drop place.length) else none
      | .folder => none
    below.mergeSort Path.partsLe
  | _, _ => []

/-! ## Changing -/

/-- The tree with something else at a place. -/
def setNode (tree : FileTree) (place : List String) (node : Node) : FileTree :=
  { tree with nodes := (place, node) :: tree.nodes.filter fun entry => entry.1 ≠ place }

/-- The tree with nothing at a place. -/
def removeNode (tree : FileTree) (place : List String) : FileTree :=
  { tree with nodes := tree.nodes.filter fun entry => entry.1 ≠ place }

/-- The place at which the last name of a path would stand, in a folder that is
    there. A path that ends in two dots, or has no name, leads to a folder. -/
def newPlace (tree : FileTree) (path : Path) : Except FileProblem (List String) :=
  match path.parts.getLast? with
  | none => .ok (tree.start path)
  | some name =>
    match tree.locateFrom (tree.start path) path.parts.dropLast with
    | .error problem => .error problem
    | .ok folder =>
      match tree.nodeAt? folder with
      | some .folder => .ok (if name = ".." then folder.dropLast else folder ++ [name])
      | _ => .error .notFolder

/-- Write a file. Its folder has to be there. -/
def write (tree : FileTree) (path : Path) (content : ByteArray) : Except FileError FileTree :=
  if path.hasNull then .error ⟨.nullInFile, path⟩
  else match tree.newPlace path with
  | .error problem => .error ⟨problem, path⟩
  | .ok place =>
    match tree.nodeAt? place with
    | some .folder => .error ⟨.isFolder, path⟩
    | _ => .ok (tree.setNode place (.file content))

/-- Make a folder in one that is there. -/
def makeFolder (tree : FileTree) (path : Path) : Except FileProblem FileTree :=
  if path.hasNull then .error .nullInFolder
  else match tree.newPlace path with
  | .error problem => .error problem
  | .ok place =>
    match tree.nodeAt? place with
    | some _ => .error .exists
    | none => .ok (tree.setNode place .folder)

/-- Make a folder, unless it is there, together with the folders above it: the
    tree with what could be made, and what went wrong. -/
def makeFolders (tree : FileTree) (path : Path) : FileTree × Option FileError :=
  match tree.makeFolder path with
  | .ok made => (made, none)
  | .error .missing =>
    if path.parts = [] then (tree, some ⟨.missing, path⟩)
    else
      let above := tree.makeFolders path.parent
      match above.2, above.1.makeFolder path with
      | some error, _ => (above.1, some error)
      | none, .ok made => (made, none)
      | none, .error problem =>
        -- It can have come into being as a folder above another one.
        if problem ≠ .missing && above.1.isFolder path then (above.1, none)
        else (above.1, some ⟨problem, path⟩)
  | .error problem => (tree, if tree.isFolder path then none else some ⟨problem, path⟩)
termination_by path.parts.length
decreasing_by
  rename_i h
  have : 0 < path.parts.length := List.length_pos_iff.2 h
  simp [Path.parent]
  omega

end FileTree

end TemplateAnalysis.Files
