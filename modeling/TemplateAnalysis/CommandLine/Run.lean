import TemplateAnalysis.CommandLine.Dialogue
import TemplateAnalysis.CommandLine.Usage
import TemplateAnalysis.Fragment.Catalog
import TemplateAnalysis.Resolver
import TemplateAnalysis.Store.DataFile
import TemplateAnalysis.Variable.Occurrence

/-! # Running actions

    Every action prints what it finds. The program as a whole is given
    arguments, or the choice made in a dialogue, and ends with a code: 0 when
    an action was run, 1 when it could not be, 2 for a command line that is not
    understood.
-/

namespace TemplateAnalysis.CommandLine

open Files Text

/-! ## Actions -/

/-- Print every variable that a template reads, and what its iterations bind. -/
def scanVariables (target : Path) : Job Unit := do
  match ← readText target with
  | none => pure ()
  | some text => do
    let found := Variable.templateMatches text.toList
    let bound := Variable.bindings text.toList
    let names := Variable.iterationNames bound
    say .info ("Scanned " ++ target.text ++ ": " ++ toString found.length ++ " variable paths")
    for entry in found do
      let marker := if names.contains (Variable.firstSegment entry.path) then " (iterator)" else ""
      say .detail ("  " ++ String.ofList entry.path ++ marker ++ "  <- " ++
        String.ofList entry.source)
    for (item, collection) in Variable.itemCollections bound do
      say .info ("  th:each " ++ String.ofList item ++ " -> " ++ String.ofList collection)

/-- Print a link of a text and where it leads. -/
def scanReference (project : Project) (text : List Char) (link : Reference.DocumentLink) :
    Resolver.Query Unit := do
  let line := ((lines text)[link.line]?).getD []
  let shown := String.ofList link.path ++ " (" ++ toString (link.line + 1) ++ ":" ++
    toString (link.start + 1) ++ ")"
  match ← Resolver.resolve project line link.start with
  | some place =>
    say .success ("Resolved: " ++ shown ++ " -> " ++ place.file.text ++ ":" ++
      toString (place.place.line + 1))
  | none => say .warning ("Unresolved: " ++ shown)

/-- Print every link of a template and where it leads. -/
def scanReferences (project : Project) (target : Path) : Job Unit := do
  match ← readText target with
  | none => pure ()
  | some text => do
    let links := Reference.documentLinks text.toList
    say .info ("Scanned " ++ target.text ++ ": " ++ toString links.length ++ " references")
    -- All links share one memory, so every file is read once while that is good.
    Resolver.withMemory (.empty project.ttl) (links.forM (scanReference project text.toList))

/-- Add the variables of a template to its data. -/
def generateData (project : Project) (target : Path) : Job Unit := do
  match ← Store.generate project target with
  | some file => say .success ("Variable data generation completed at: " ++ file.text)
  | none => pure ()

/-- Print every fragment of the project. -/
def listFragments (project : Project) : Job Unit := do
  match project.templateRoot? with
  | none => throw .noTemplates
  | some root =>
    let catalog ← Fragment.buildCatalog root project.extension
    if catalog.isEmpty then say .warning ("No fragments found in " ++ root.text)
    else
      for (name, found) in catalog do
        say .info name
        for declaration in found.declarations do
          let signature := declaration.signature
          let parameters := if signature.parameters.isEmpty then ""
            else "(" ++ String.intercalate ", " (signature.parameters.map String.ofList) ++ ")"
          say .detail ("  " ++ String.ofList signature.name ++ parameters ++ "  line " ++
            toString (declaration.place.line + 1))

/-- Make the folder of a new workspace. There is nothing to fill it with. -/
def createWorkspace (project : Project) : Job Unit := do
  makeFolders project.workspace
  say .error "Workspace creation failed: there is no workspace template"

/-- Run an action. -/
def runAction (project : Project) (target : Option Path) : Action → Job Unit
  | .variables => target.forM scanVariables
  | .references => target.forM (scanReferences project)
  | .generate => target.forM (generateData project)
  | .fragments => listFragments project
  | .workspace => createWorkspace project

/-! ## The program -/

/-- The name of the program and its version. -/
def versionLine : String :=
  "thymescan 1.0.4\n"

/-- How the program is used, in short. -/
def helpText : String :=
  "usage: thymescan [-h] [--workspace PATH] [--templates NAME] [--static NAME]\n" ++
  "                 [--data NAME] [--name NAME] [--version] action [target]\n\n" ++
  "Analyze Thymeleaf templates. Run without arguments for interactive mode.\n" ++
  "Actions: " ++ String.intercalate ", " Action.names ++ "\n"

/-- Print a text as it is. -/
def printText (text : String) : Job Unit :=
  modify fun session => { session with out := session.out ++ text }

/-- Print a text as it is, to the output for errors. -/
def printError (text : String) : Job Unit :=
  modify fun session => { session with err := session.err ++ text }

/-- Do what a command line asks for. -/
def runArguments (arguments : List String) : Job Nat := do
  match readCommandLine arguments with
  | .error problem => do
    printError ("thymescan: error: " ++ problem.message ++ "\n")
    pure 2
  | .ok .showVersion => do
    printText versionLine
    pure 0
  | .ok .showHelp => do
    printText helpText
    pure 0
  | .ok (.run parsed) =>
    match Request.ofArguments (← files) parsed with
    | .error problem => do
      say .error problem.message
      pure 1
    | .ok request => do
      runAction request.project request.target request.action
      pure 0

/-- Do what was chosen in a dialogue. -/
def runChoice : Choice → Job Unit
  | .newWorkspace folder _ => runAction { workspace := folder } none .workspace
  | .work label workspace templates statics data target =>
    match Action.ofLabel? label with
    | none => throw (.noSuchAction label)
    | some action =>
      runAction
        { workspace := workspace, templates := templates, statics := statics, data := data }
        target action

/-- What is left of a dialogue: the choice that was made, or the code to end with
    after what is to be printed. -/
def afterDialogue : Option Ending → Job (Except Nat Choice)
  | none => do
    say .error "\n Exiting...\n"
    pure (.error 0)
  | some (.noTemplates path) => do
    say .error ("Templates folder not found: " ++ path.text)
    pure (.error 1)
  | some (.chosen choice) => pure (.ok choice)

/-- Do what a dialogue comes to. -/
def runEnding (ending : Option Ending) : Job Nat := do
  match ← afterDialogue ending with
  | .error code => pure code
  | .ok choice => do
    runChoice choice
    pure 0

/-- Run the program with arguments, or with the answers of a script when there
    are none: the code it ends with, and the prompts that were answered. -/
def runScripted (arguments : List String) (answers : List (Option String)) :
    Job (Nat × List Exchange) := do
  if arguments.isEmpty then
    let tree ← files
    let (exchanges, ending) := (askRequest tree).play tree answers
    pure (← runEnding ending, exchanges)
  else pure (← runArguments arguments, [])

end TemplateAnalysis.CommandLine
