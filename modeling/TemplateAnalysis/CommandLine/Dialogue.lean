import TemplateAnalysis.CommandLine.Request

/-! # The dialogue

    Without arguments the program asks for what it needs. A dialogue is a
    sequence of prompts that depends on the answers; it says nothing about how
    prompts are shown. An answer that a prompt does not accept is asked for
    again, and a prompt that is cancelled ends the dialogue.
-/

namespace TemplateAnalysis.CommandLine

open Files Text

/-! ## Prompts -/

/-- What is wrong with an answer. -/
inductive AnswerProblem
  | name (problem : RequestError)
  | noSuchPath (path : Path)
  | notFolder (path : Path)
  | notFile (path : Path)
  | notTemplate (path : Path)
  deriving DecidableEq, Repr

/-- The words for it. -/
def AnswerProblem.message : AnswerProblem → String
  | .name problem => problem.message
  | .noSuchPath path => "Path does not exist: " ++ path.text
  | .notFolder path => "Not a folder: " ++ path.text
  | .notFile path => "Not a file: " ++ path.text
  | .notTemplate path => "Not a .html template: " ++ path.text

/-- What is wrong with the path of a folder. Without a path the current folder
    is meant. -/
def folderProblem? (tree : FileTree) (answer : String) : Option AnswerProblem :=
  let path := Path.ofString (trimString answer)
  if !tree.hasPath path then some (.noSuchPath path)
  else if !tree.isFolder path then some (.notFolder path)
  else none

/-- What is wrong with the path of a template file. -/
def templateProblem? (tree : FileTree) (answer : String) : Option AnswerProblem :=
  let path := Path.ofString (trimString answer)
  if !tree.isFile path then some (.notFile path)
  else if lower path.suffix ≠ ".html".toList then some (.notTemplate path)
  else none

/-- What a prompt asks of an answer. -/
inductive Check
  | anything
  | workspaceName
  | folder
  | template
  deriving DecidableEq, Repr

/-- What is wrong with an answer to a prompt with this check. -/
def Check.problem? (tree : FileTree) (answer : String) : Check → Option AnswerProblem
  | .anything => none
  | .workspaceName => (nameProblem? answer).map .name
  | .folder => folderProblem? tree answer
  | .template => templateProblem? tree answer

/-- How an answer is given. -/
inductive PromptKind
  | select
  | text
  | path
  deriving DecidableEq, Repr

/-- A question, with the answer that stands there to begin with. -/
structure Prompt where
  kind : PromptKind
  message : String
  initial : Option String
  check : Check
  deriving DecidableEq, Repr

/-! ## Dialogues -/

/-- A sequence of prompts with a result. -/
inductive Dialogue (α : Type)
  | done (result : α)
  | ask (prompt : Prompt) (next : String → Dialogue α)

/-- A dialogue, and another one that depends on its result. -/
def Dialogue.bind {α β : Type} : Dialogue α → (α → Dialogue β) → Dialogue β
  | .done result, f => f result
  | .ask prompt next, f => .ask prompt fun answer => (next answer).bind f

instance : Monad Dialogue where
  pure := .done
  bind := Dialogue.bind

/-- The dialogue of one prompt. -/
def prompt (kind : PromptKind) (message : String) (initial : Option String) (check : Check) :
    Dialogue String :=
  .ask ⟨kind, message, initial, check⟩ .done

/-- A prompt that was answered or cancelled, and what was wrong with the answer. -/
structure Exchange where
  prompt : Prompt
  problem : Option AnswerProblem
  deriving DecidableEq, Repr

/-- Hold a dialogue with the answers of a script; `none` cancels, and so does
    the end of the script. The result is missing when a prompt was cancelled. -/
def Dialogue.play {α : Type} (tree : FileTree) :
    List (Option String) → Dialogue α → List Exchange × Option α
  | _, .done result => ([], some result)
  | [], .ask _ _ => ([], none)
  | none :: _, .ask prompt _ => ([⟨prompt, none⟩], none)
  | some answer :: rest, .ask prompt next =>
    let problem := prompt.check.problem? tree answer
    let later := match problem with
      | none => Dialogue.play tree rest (next answer)
      | some _ => Dialogue.play tree rest (.ask prompt next)
    (⟨prompt, problem⟩ :: later.1, later.2)

/-- What is left of a dialogue after some accepted answers. -/
def Dialogue.resume {α : Type} : List String → Dialogue α → Dialogue α
  | answer :: rest, .ask _ next => Dialogue.resume rest (next answer)
  | _, dialogue => dialogue

/-! ## What is asked -/

/-- What was chosen in the dialogue. -/
inductive Choice
  /-- A new workspace in a folder. -/
  | newWorkspace (folder : Path) (name : String)
  /-- The action with a label, on a workspace. -/
  | work (label : String) (workspace : Path) (templates statics data : String)
      (target : Option Path)
  deriving DecidableEq, Repr

/-- How the dialogue ends. -/
inductive Ending
  | chosen (choice : Choice)
  /-- There is no such folder of templates. -/
  | noTemplates (path : Path)
  deriving DecidableEq, Repr

/-- Ask for the folder that is the workspace, or that is to hold it. -/
def askFolder (message : String) : Dialogue String :=
  prompt .path message (some "./") .folder

/-- Ask for the name of a folder. -/
def askName (message initial : String) : Dialogue String :=
  prompt .text message (some initial) .anything

/-- Ask what a new workspace should be called, and where to put it. -/
def askNewWorkspace (tree : FileTree) : Dialogue Ending := do
  let name ← prompt .text "Workspace Name:" none .workspaceName
  let folder ← askFolder "Output Folder Path:"
  pure (.chosen (.newWorkspace (Path.resolve tree.current (Path.ofString folder))
    (trimString name)))

/-- Ask for the folders of a workspace, and for the template to work on. -/
def askWork (tree : FileTree) (label : String) : Dialogue Ending := do
  let folder ← askFolder "Workspace Folder Path:"
  let templates ← askName "Templates Folder (relative to workspace):" "templates"
  let workspace := Path.resolve tree.current (Path.ofString folder)
  let root := workspace.child templates
  if !tree.isFolder root then pure (.noTemplates root)
  else
    let statics ← askName
      "Static Resources Folder (relative to workspace, leave blank if none):" "static"
    let data ← askName "Variable Data Folder (relative to workspace):" "data"
    let work (target : Option Path) : Ending :=
      .chosen (.work label workspace (trimString templates) (trimString statics)
        (trimString data) target)
    if (Action.ofLabel? label).any Action.needsTemplate then
      let target ← prompt .path "Template File:" (some (root.text ++ "/")) .template
      pure (work ((given? (some target)).map fun text =>
        Path.resolve tree.current (Path.ofString text)))
    else pure (work none)

/-- Ask what to do, and everything that is needed for it. -/
def askRequest (tree : FileTree) : Dialogue Ending := do
  let label ← prompt .select "Select Action:" none .anything
  if label = Action.workspace.label then askNewWorkspace tree else askWork tree label

end TemplateAnalysis.CommandLine
