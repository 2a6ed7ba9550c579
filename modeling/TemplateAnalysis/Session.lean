import TemplateAnalysis.CommandLine.Action
import TemplateAnalysis.Files.Tree
import TemplateAnalysis.Markup.Tag
import TemplateAnalysis.Text.CodePoint

/-! # Sessions

    A session is what a run of the program works on and leaves behind: the
    file tree, and the texts it has printed. A job can fail; what it has
    changed and printed before stays.
-/

namespace TemplateAnalysis

open Files Markup

/-! ## Failures -/

/-- What makes command line arguments unusable. -/
inductive RequestError
  | actionMissing
  | unknownAction (name : String)
  | nameMissing
  | nameInvalid
  /-- The path of the workspace holds the NUL character. -/
  | nullInWorkspace
  | workspaceMissing (path : Path)
  | templatesMissing (path : Path)
  | targetNotGiven
  | targetMissing (path : Path)
  | badSeconds (text : String)
  /-- A number of seconds beyond the range of double precision. -/
  | secondsTooLarge
  deriving DecidableEq, Repr

/-- Why a job could not be done. -/
inductive Failure
  /-- A file or folder is not what it should be. -/
  | file (error : FileError)
  /-- A string cannot be written. -/
  | encoding (error : Text.EncodingError)
  /-- A path should begin with another path. -/
  | notBelow (path folder : Path)
  /-- A path should end in a name. -/
  | noName (path : Path)
  /-- A template cannot be read as markup. -/
  | markup (error : MarkupError)
  /-- The project has no folder for templates. -/
  | noTemplates
  /-- The arguments are unusable. -/
  | request (error : RequestError)
  /-- An action was chosen that there is none of. -/
  | noSuchAction (label : String)
  deriving DecidableEq, Repr

/-- The words for what is wrong with arguments. -/
def RequestError.message : RequestError → String
  | .actionMissing => "Missing required argument: --action"
  | .unknownAction name =>
    "Unknown action '" ++ name ++ "'. Choose one of: " ++
      String.intercalate ", " CommandLine.Action.names
  | .nameMissing => "Project name cannot be empty."
  | .nameInvalid => "Start with a letter; use letters, digits, spaces or dashes only."
  | .nullInWorkspace => "lstat: embedded null character in path"
  | .workspaceMissing path => "Workspace folder does not exist: " ++ path.text
  | .templatesMissing path => "Templates folder does not exist: " ++ path.text
  | .targetNotGiven => "Missing required argument: --target"
  | .targetMissing path => "Template file does not exist: " ++ path.text
  | .badSeconds text => "could not convert string to float: " ++ Text.quotedString text
  | .secondsTooLarge => "int too large to convert to float"

/-- The words for what is wrong with a marked section. -/
def sectionProblem : MarkupError → String
  | .missingSectionName text => "expected name token at " ++ String.ofList (Text.quoted text)
  | .unknownSection name =>
    "unknown status keyword " ++ String.ofList (Text.quoted name) ++ " in marked section"

/-- The words for a failure. -/
def Failure.message : Failure → String
  | .file error => error.message
  | .encoding error => error.message
  | .notBelow path folder =>
    Text.quotedString path.text ++ " is not in the subpath of " ++
      Text.quotedString folder.bare ++
      " OR one path is relative and the other is absolute."
  | .noName path => "PosixPath(" ++ Text.quotedString path.text ++ ") has an empty name"
  | .markup error =>
    "The markup you provided was rejected by the parser. Trying a different parser or a " ++
      "different encoding may help.\n\nOriginal exception(s) from parser:\n AssertionError: " ++
      sectionProblem error
  | .noTemplates => "expected str, bytes or os.PathLike object, not NoneType"
  | .request error => error.message
  | .noSuchAction label => Text.quotedString label

/-! ## Sessions and jobs -/

/-- The files a run works on, and what it has printed so far. -/
structure Session where
  files : FileTree
  out : String
  err : String

/-- Something to do in a session. A failure keeps what was done before it. -/
abbrev Job := EStateM Failure Session

/-! ## Printing -/

/-- How much a printed line matters. -/
inductive Weight
  | info
  | success
  | warning
  | error
  | detail
  deriving DecidableEq, Repr

/-- The colour of lines of a weight, as it is switched on. -/
def Weight.color : Weight → String
  | .info => "\x1b[38;5;39m"
  | .success => "\x1b[38;5;35m"
  | .warning => "\x1b[38;5;178m"
  | .error => "\x1b[38;5;203m"
  | .detail => "\x1b[38;5;244m"

/-- A line in the colour of its weight. -/
def Weight.paint (weight : Weight) (message : String) : String :=
  weight.color ++ message ++ "\x1b[0m\n"

/-- The session with a line printed. Errors have an output of their own. -/
def Session.print (session : Session) (weight : Weight) (message : String) : Session :=
  match weight with
  | .error => { session with err := session.err ++ weight.paint message }
  | _ => { session with out := session.out ++ weight.paint message }

/-- Print a line. -/
def say (weight : Weight) (message : String) : Job Unit :=
  modify fun session => session.print weight message

/-- The file tree of the session. -/
def files : Job FileTree :=
  return (← get).files

end TemplateAnalysis
