/-! # Actions

    What the program can be told to do. An action has a name for the command
    line and a label for the dialogue.
-/

namespace TemplateAnalysis.CommandLine

inductive Action
  | variables
  | references
  | generate
  | fragments
  | workspace
  deriving DecidableEq, Repr

namespace Action

/-- All actions, in the order in which they are listed. -/
def all : List Action :=
  [.variables, .references, .generate, .fragments, .workspace]

/-- The name of an action on the command line. -/
def name : Action → String
  | .variables => "variables"
  | .references => "references"
  | .generate => "generate"
  | .fragments => "fragments"
  | .workspace => "workspace"

/-- The label of an action in the dialogue. -/
def label : Action → String
  | .variables => "Scan variables"
  | .references => "Scan template references"
  | .generate => "Generate variable data"
  | .fragments => "List fragments"
  | .workspace => "Create preview workspace"

/-- The action with a name. -/
def ofName? (name : String) : Option Action :=
  all.find? (·.name = name)

/-- The action with a label. -/
def ofLabel? (label : String) : Option Action :=
  all.find? (·.label = label)

/-- Does the action work on one template? -/
def needsTemplate : Action → Bool
  | .variables | .references | .generate => true
  | .fragments | .workspace => false

/-- The names of all actions. -/
def names : List String :=
  all.map name

end Action

end TemplateAnalysis.CommandLine
