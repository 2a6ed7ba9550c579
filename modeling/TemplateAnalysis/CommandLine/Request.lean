import TemplateAnalysis.Decimal.Reading
import TemplateAnalysis.Decimal.Shortest
import TemplateAnalysis.Documents
import TemplateAnalysis.Project

/-! # Requests

    A request says what to do with which project. It is made from arguments,
    and only when these are usable: the folders and the template that it names
    are there.
-/

namespace TemplateAnalysis.CommandLine

open Files Text

/-! ## Names of workspaces -/

/-- What is wrong with the name of a new workspace: it has to begin with a
    letter and to hold nothing but letters, digits, blanks and dashes. -/
def nameProblem? (name : String) : Option RequestError :=
  match trim name.toList with
  | [] => some .nameMissing
  | c :: rest =>
    if c.isAlpha && rest.all fun d => d.isAlphanum || d == ' ' || d == '-' then none
    else some .nameInvalid

/-- A text without blanks around it. -/
def trimString (text : String) : String :=
  String.ofList (trim text.toList)

/-! ## Arguments -/

/-- A number of seconds as it is given. -/
inductive SecondsArgument
  | integer (n : Int)
  | number (x : Decimal.Binary64)
  | text (s : String)
  deriving DecidableEq, Repr

/-- What the command line can say. -/
structure Arguments where
  action : Option String := none
  target : Option String := none
  workspace : Option String := none
  templates : Option String := none
  statics : Option String := none
  data : Option String := none
  name : Option String := none
  seconds : Option SecondsArgument := none
  deriving DecidableEq, Repr

/-- An argument that is given and not empty. -/
def given? (argument : Option String) : Option String :=
  argument.filter (· ≠ "")

/-- The seconds that an argument stands for. No seconds are the default. -/
def secondsOf : Option SecondsArgument → Except RequestError Seconds
  | none => .ok defaultSeconds
  | some (.integer n) =>
    if n = 0 then .ok defaultSeconds
    else match Decimal.Binary64.ofDecimal (n < 0) n.natAbs 0 with
      | .infinity _ => .error .secondsTooLarge
      | x => .ok x
  | some (.number x) =>
    match x with
    | .finite _ 0 _ => .ok defaultSeconds
    | _ => .ok x
  | some (.text s) =>
    if s.isEmpty then .ok defaultSeconds
    else match Decimal.Binary64.ofText? s.toList with
      | some x => .ok x
      | none => .error (.badSeconds s)

/-- The written form of a number of seconds. -/
def secondsText (x : Seconds) : String :=
  String.ofList (x.write "inf" "nan")

/-! ## Requests -/

/-- What to do with which project. -/
structure Request where
  project : Project
  action : Action
  target : Option Path
  /-- The name of the workspace to make. -/
  name : Option String

/-- The action that a name stands for, in any case. -/
def actionOf (argument : Option String) : Except RequestError Action :=
  match given? argument with
  | none => .error .actionMissing
  | some name =>
    match Action.ofName? (String.ofList (lower name.toList)) with
    | some action => .ok action
    | none => .error (.unknownAction name)

/-- The template that an action works on. -/
def targetOf (tree : FileTree) (workspace : Path) (argument : Option String) :
    Except RequestError Path :=
  match given? argument with
  | none => .error .targetNotGiven
  | some text =>
    let path := workspace.child text
    if tree.isFile path then .ok (Path.resolve tree.current path)
    else .error (.targetMissing path)

/-- The request for a new workspace. -/
def newWorkspaceRequest (workspace : Path) (arguments : Arguments) : Except RequestError Request :=
  let name := arguments.name.getD ""
  match nameProblem? name with
  | some problem => .error problem
  | none =>
    .ok { project :=
            { workspace := workspace
              templates := (given? arguments.templates).getD "templates"
              statics := (given? arguments.statics).getD "static"
              data := (given? arguments.data).getD "data" }
          action := .workspace
          target := none
          name := some (trimString name) }

/-- The request for work on a workspace that is there. -/
def workRequest (tree : FileTree) (action : Action) (workspace : Path) (arguments : Arguments) :
    Except RequestError Request := do
  let templates := (given? arguments.templates).getD "templates"
  if !tree.isFolder workspace then .error (.workspaceMissing workspace)
  else if !tree.isFolder (workspace.child templates) then
    .error (.templatesMissing (workspace.child templates))
  else do
    let target ←
      if action.needsTemplate then (targetOf tree workspace arguments.target).map some
      else pure none
    let seconds ← secondsOf arguments.seconds
    .ok { project :=
            { workspace := workspace
              templates := templates
              statics := arguments.statics.getD "static"
              data := arguments.data.getD "data"
              ttl := seconds }
          action := action
          target := target
          name := none }

/-- The request that arguments make. -/
def Request.ofArguments (tree : FileTree) (arguments : Arguments) :
    Except RequestError Request := do
  let action ← actionOf arguments.action
  let folder := Path.ofString ((given? arguments.workspace).getD "./")
  let workspace := Path.resolve tree.current folder
  if folder.hasNull then .error .nullInWorkspace
  else if action = .workspace then newWorkspaceRequest workspace arguments
  else workRequest tree action workspace arguments

end TemplateAnalysis.CommandLine
