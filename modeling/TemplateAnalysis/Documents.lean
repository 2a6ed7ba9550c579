import TemplateAnalysis.Json.Parser
import TemplateAnalysis.Json.Printer
import TemplateAnalysis.Session
import TemplateAnalysis.Text.Lines
import TemplateAnalysis.Text.LowerCase
import TemplateAnalysis.Text.Utf8

/-! # Documents

    The files of a project as what they hold: templates as text, data files as
    JSON objects. A file that cannot be read is reported, and then counts as
    one that is not there.
-/

namespace TemplateAnalysis

open Files Json

/-! ## Texts -/

/-- Why the text of a file could not be had. -/
inductive ReadError
  | file (error : FileError)
  | encoding (error : Text.Utf8Error)

/-- The words for it. -/
def ReadError.message : ReadError → String
  | .file error => error.message
  | .encoding error => error.message

/-- The text of a file, with every line ended by a line feed. -/
def textOf (tree : FileTree) (path : Path) : Except ReadError String :=
  match tree.read path with
  | .error error => .error (.file error)
  | .ok bytes =>
    match Text.decodeUtf8 bytes with
    | .error error => .error (.encoding error)
    | .ok text => .ok (String.ofList (Text.unifyNewlines text.toList))

/-- The text of a file, or none and a warning. A path that no file can have is
    a failure. -/
def readText (path : Path) : Job (Option String) := do
  if path.hasNull then throw (.file ⟨.nullInFile, path⟩)
  match textOf (← files) path with
  | .ok text => pure (some text)
  | .error error => do
    say .warning ("Could not read " ++ path.text ++ ": " ++ error.message)
    pure none

/-! ## Data files -/

/-- What a data file holds, or the words for why it holds nothing. A file that
    is not there, or that holds something else than an object, is empty. -/
def dataIn (tree : FileTree) (path : Path) : Except String Members :=
  if tree.hasPath path then
    match textOf tree path with
    | .error error => .error error.message
    | .ok text =>
      match Json.parse text.toList with
      | .error error => .error error.message
      | .ok (.object members) => .ok members
      | .ok _ => .ok []
  else .ok []

/-- What a data file holds: nothing, with a warning, when it cannot be read. -/
def loadData (path : Path) : Job Members := do
  match dataIn (← files) path with
  | .ok members => pure members
  | .error message => do
    say .warning ("Could not load " ++ path.text ++ ": " ++ message)
    pure []

/-- The pieces that a data file is written in. -/
def dataPieces (value : Value) : List Text.CodePoints :=
  pieces (.indented 0) value ++ [Text.CodePoints.ofList ['\n']]

/-- What comes to be written into a data file: the whole value, unless a string in
    it holds half of a surrogate pair. -/
def dataText (value : Value) : String :=
  String.ofList (Text.CodePoints.written (dataPieces value))

/-- Make a folder, unless it is there, together with the folders above it. What
    is made before something goes wrong stays. -/
def makeFolders (path : Path) : Job Unit := do
  let session ← get
  let (made, problem) := session.files.makeFolders path
  set { session with files := made }
  match problem with
  | some error => throw (.file error)
  | none => pure ()

/-- Write a data file, in a folder that is made when it is not there. What the file
    held is gone first, also when not all of the value can be written. -/
def writeData (path : Path) (value : Value) : Job Unit := do
  makeFolders path.parent
  let session ← get
  match session.files.write path (dataText value).toUTF8 with
  | .error error => throw (.file error)
  | .ok written => do
    set { session with files := written }
    match Text.CodePoints.encodingError? (dataPieces value) with
    | some error => throw (.encoding error)
    | none => pure ()

/-! ## Listings -/

/-- The files below a folder that have a suffix, without regard to case, in
    order. The dot of the suffix can be left out. -/
def filesWithExtension (tree : FileTree) (folder : Path) (extension : String) : List Path :=
  let dotted := if extension.toList.head? = some '.' then extension.toList
    else '.' :: extension.toList
  ((tree.filesBelow folder).map fun parts => (⟨folder.root, folder.parts ++ parts⟩ : Path)).filter
    fun path => Text.lower path.suffix == Text.lower dotted

/-- The files below a folder, as paths from the folder, in order. -/
def listFiles (tree : FileTree) (folder : Path) : List Path :=
  (tree.filesBelow folder).map fun parts => ⟨"", parts⟩

/-- The name of a template: its path from the folder of the templates, without
    the suffix. -/
def templateName (path folder : Path) (extension : String) : Except Failure String :=
  match path.relativeTo? folder with
  | none => .error (.notBelow path folder)
  | some relative =>
    let name := relative.text.toList
    if (Text.lower extension.toList).isSuffixOf (Text.lower name) then
      .ok (String.ofList (if extension.isEmpty then []
        else name.take (name.length - extension.length)))
    else .ok relative.text

end TemplateAnalysis
