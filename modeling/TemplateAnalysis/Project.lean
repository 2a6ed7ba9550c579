import TemplateAnalysis.Decimal.Arithmetic
import TemplateAnalysis.Files.Path

/-! # Projects

    A project is a workspace folder with folders for templates, for static
    resources and for the data of templates. A folder with an empty name is a
    folder that the project does not have.
-/

namespace TemplateAnalysis

open Files

/-- A time, or a stretch of time, in seconds. -/
abbrev Seconds := Decimal.Binary64

/-- Five, the number of seconds for which answers stay good by default. -/
def defaultSeconds : Seconds :=
  .ofDecimal false 5 0

/-- Where a project keeps what, and how long answers about it stay good. -/
structure Project where
  workspace : Path
  templates : String := "templates"
  statics : String := "static"
  data : String := "data"
  /-- The suffix of template files. -/
  extension : String := ".html"
  /-- How many seconds file listings and fragment places are kept. -/
  ttl : Seconds := defaultSeconds

namespace Project

/-- A folder of the workspace, if it has a name. -/
def folder? (project : Project) (name : String) : Option Path :=
  if name.isEmpty then none else some (project.workspace.child name)

/-- The folder of the templates. -/
def templateRoot? (project : Project) : Option Path :=
  project.folder? project.templates

/-- The folder of the static resources. -/
def staticRoot? (project : Project) : Option Path :=
  project.folder? project.statics

/-- The folder of the data files, if it has a name. -/
def dataRoot? (project : Project) : Option Path :=
  project.folder? project.data

/-- The folder of the data files: the workspace itself without one of its own. -/
def dataRoot (project : Project) : Path :=
  project.dataRoot?.getD project.workspace

end Project

end TemplateAnalysis
