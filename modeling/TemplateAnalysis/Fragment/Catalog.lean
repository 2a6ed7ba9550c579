import TemplateAnalysis.Documents
import TemplateAnalysis.Fragment.Declaration

/-! # Fragment catalogs

    A catalog lists the fragments of every template below a folder, under the
    names of the templates.
-/

namespace TemplateAnalysis.Fragment

open Files

/-- The fragments that one file declares. -/
structure FileDeclarations where
  file : Path
  declarations : List Declaration

/-- Fragments by template. A template that is listed again keeps its place. -/
abbrev Catalog := List (String × FileDeclarations)

/-- List the fragments of a template. -/
def Catalog.put (name : String) (found : FileDeclarations) : Catalog → Catalog
  | [] => [(name, found)]
  | entry :: rest =>
    if entry.1 = name then (name, found) :: rest else entry :: Catalog.put name found rest

/-- The catalog with the fragments of more files. A file that cannot be read, or
    that declares no fragments, is passed over. -/
def addFiles (folder : Path) (extension : String) (catalog : Catalog) :
    List Path → Job Catalog
  | [] => pure catalog
  | file :: rest => do
    match ← readText file with
    | none => addFiles folder extension catalog rest
    | some text =>
      match declarations text.toList with
      | .error error => throw (.markup error)
      | .ok [] => addFiles folder extension catalog rest
      | .ok found =>
        match templateName file folder extension with
        | .error failure => throw failure
        | .ok name => addFiles folder extension (catalog.put name ⟨file, found⟩) rest

/-- The catalog of the templates below a folder. -/
def buildCatalog (folder : Path) (extension : String) : Job Catalog := do
  addFiles folder extension [] (filesWithExtension (← files) folder extension)

end TemplateAnalysis.Fragment
