import TemplateAnalysis.Documents
import TemplateAnalysis.Fragment.Declaration
import TemplateAnalysis.Project
import TemplateAnalysis.Store.Steps
import TemplateAnalysis.Variable.Match

/-! # Data files of templates

    Every template has a data file, at the place in the data folder that the
    template has in its own folder. Fragments and layouts share one file.
-/

namespace TemplateAnalysis.Store

open Files Text Json Variable Expression

/-! ## Which file -/

/-- Texts that only fragments and layouts hold. -/
def layoutMarkers : List String :=
  ["th:fragment", "layout:fragment", "layout:decorate"]

/-- Is this the text of a fragment or layout? -/
def isLayout (text : List Char) : Bool :=
  layoutMarkers.any fun marker => contains marker.toList text

/-- The data file that fragments and layouts share. -/
def sharedFile (project : Project) : Path :=
  project.dataRoot.child "global.json"

/-- The data file of one template. A template that is in no folder of the project
    has its file at the top of the data folder. -/
def ownFile (project : Project) (template : Path) : Except Failure Path :=
  let relative := (project.templateRoot?.bind template.relativeTo?).getD
    (Path.ofString template.name)
  match relative.withSuffix? ".json" with
  | some file => .ok (project.dataRoot.join file)
  | none => .error (.noName relative)

/-- The data file of a template with a given text. -/
def fileForText (project : Project) (template : Path) (text : List Char) : Except Failure Path :=
  if isLayout text then .ok (sharedFile project) else ownFile project template

/-- The text of a template, empty when it cannot be read. -/
def templateText (template : Path) : Job (List Char) := do
  return ((← readText template).getD "").toList

/-- The data file of a template, which is read to find out what it is. -/
def fileFor (project : Project) (template : Path) : Job Path := do
  match fileForText project template (← templateText template) with
  | .ok file => pure file
  | .error failure => throw failure

/-- The data of a template. -/
def load (project : Project) (template : Path) : Job Members := do
  loadData (← fileFor project template)

/-! ## Definitions -/

/-- Where a variable is defined, and as what. -/
structure Definition where
  file : Path
  place : Markup.Place
  value : Value

/-- Does the text begin with this key, a colon behind it? -/
def keyStarts (key text : List Char) : Bool :=
  match after? ('"' :: key ++ ['"']) text with
  | some rest => (trimLeft rest).head? = some ':'
  | none => false

/-- Where the first such key stands in a line. -/
def keyColumn? (key : List Char) : List Char → Option Nat
  | [] => none
  | c :: rest =>
    if keyStarts key (c :: rest) then some 0 else (keyColumn? key rest).map (· + 1)

/-- The first such key among lines, the first of which has the given number. -/
def keyPlaceFrom? (key : List Char) (number : Nat) : List (List Char) → Option Markup.Place
  | [] => none
  | line :: rest =>
    match keyColumn? key line with
    | some column => some ⟨number, column⟩
    | none => keyPlaceFrom? key (number + 1) rest

/-- The place of the last of some keys, each looked for from the line of the one
    before it. A key that is not found is passed over. -/
def placeOfKeys (lines : List (List Char)) (place : Markup.Place) :
    List (List Char) → Markup.Place
  | [] => place
  | key :: rest =>
    let found := keyPlaceFrom? key place.line (lines.drop place.line)
    placeOfKeys lines (found.getD place) rest

/-- Where a dotted variable is defined in the data of a template. -/
def findDefinition (project : Project) (template : Path) (path : List Char) :
    Job (Option Definition) := do
  let file ← fileFor project template
  let members ← loadData file
  let names := splitOn '.' path
  match lookUp (names.map CodePoints.ofList) (.object members) with
  | none => pure none
  | some value =>
    let text ← templateText file
    pure (some ⟨file, placeOfKeys (lines text) ⟨0, 0⟩ names, value⟩)

/-! ## Generating data -/

/-- Is this the key of a message, which is no variable? -/
def isMessageKey (found : Match) : Bool :=
  ['#', '{'].isPrefixOf found.source && found.path == messageKey (innerText found.source)

/-- The steps of a dotted path. -/
def stepsOf (bindings : List Binding) (path : List (List Char)) : Option (List Step) :=
  match path with
  | [] => none
  | first :: rest =>
    resolveSteps (itemCollections bindings) (statusCollections bindings) first rest

/-- The steps of every variable of a template, each once. -/
def templateSteps (text : List Char) : List (List Step) :=
  let bound := bindings text
  ((templateMatches text).filterMap fun found =>
    if isMessageKey found then none else stepsOf bound (splitOn '.' found.path)).eraseDups

/-- The steps that no others go on from. -/
def leaves (steps : List (List Step)) : List (List Step) :=
  steps.filter fun these => !steps.any fun others =>
    these.length < others.length && these.isPrefixOf others

/-- The data with a value at the end of all steps. -/
def insertAll (data : Value) (steps : List (List Step)) : Value :=
  steps.foldl (fun value these => insertAt these (some value)) data

/-- Add every variable that a template reads to its data file. Nothing is done
    when the template cannot be read. -/
def generate (project : Project) (template : Path) : Job (Option Path) := do
  match ← readText template with
  | none => pure none
  | some text =>
    match fileForText project template text.toList with
    | .error failure => throw failure
    | .ok file => do
      let members ← loadData file
      let added := leaves (templateSteps text.toList)
      writeData file (insertAll (.object members) added)
      say .success ("Generated " ++ toString added.length ++ " variables in: " ++ file.text)
      pure (some file)

/-! ## Completion -/

/-- A name to offer for completion. -/
structure Candidate where
  name : CodePoints
  kind : String
  source : String
  detail : String

/-- The text behind an expression start that nothing closes. -/
def openExpression? : List Char → Option (List Char)
  | [] => none
  | c :: rest =>
    match after? ['$', '{'] (c :: rest) with
    -- A closed expression is done with: a later one may still be open.
    | some inner => if inner.contains '}' then openExpression? rest else some inner
    | none => openExpression? rest

/-- The path that is being typed: the word characters and dots at the end. -/
def typedPath (text : List Char) : List Char :=
  let line := if text.getLast? = some '\n' then text.dropLast else text
  (line.reverse.takeWhile fun c => isWordChar c || c == '.').reverse

/-- Does a name hold the typed text, without regard to case? Half of a surrogate pair
    has none, and stands between what can be typed. -/
def holdsTyped (typed : List Char) (name : CodePoints) : Bool :=
  name.stretches.any fun stretch => contains (lower typed) (lower stretch)

/-- The members whose names hold the typed text. -/
def candidatesIn (typed : List Char) (label detail : String) : Option Value → List Candidate
  | some (.object members) =>
    (members.filter fun entry => holdsTyped typed entry.1).map fun entry =>
      ⟨entry.1, entry.2.kind, label, "(" ++ entry.2.kind ++ ") " ++ detail⟩
  | _ => []

/-- A data file as it is shown: from the data folder, when it is in there. -/
def displayPath (project : Project) (file : Path) : String :=
  ((file.relativeTo? project.dataRoot).getD file).text

/-- The names to offer from one data file. -/
def candidatesFrom (project : Project) (steps : List Step) (typed : List Char)
    (label : String) (file : Path) : Job (List Candidate) := do
  let members ← loadData file
  pure (candidatesIn typed label (displayPath project file)
    (navigate steps (some (.object members))))

/-- The names to offer at the end of a line for a template: those of the shared
    data first, then those of the template's own. -/
def complete (project : Project) (line : List Char) (template : Path) :
    Job (List Candidate) := do
  match openExpression? line with
  | none => pure []
  | some inner =>
    let names := splitOn '.' (typedPath inner)
    let typed := names.getLast?.getD []
    let parents := names.dropLast.filter (!·.isEmpty)
    let text ← templateText template
    let steps? := if parents.isEmpty then some [] else stepsOf (bindings text) parents
    match steps? with
    | none => pure []
    | some steps =>
      match ownFile project template with
      | .error failure => throw failure
      | .ok own => do
        let shared ← candidatesFrom project steps typed "global" (sharedFile project)
        -- Without a file of its own, a template has the shared names only.
        if own = sharedFile project then pure shared
        else
          let others ← candidatesFrom project steps typed "template" own
          pure (shared ++ others)

end TemplateAnalysis.Store
