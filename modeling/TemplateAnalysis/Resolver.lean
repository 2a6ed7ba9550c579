import TemplateAnalysis.Cache
import TemplateAnalysis.Documents
import TemplateAnalysis.Fragment.Declaration
import TemplateAnalysis.Project

/-! # Resolving references

    A reference on a line of a template leads to a file: a link to a static
    resource, any other reference to a template, or to the line of a template
    that declares the fragment asked for.

    File listings and the places of fragments are remembered for a while, so
    files that come, go or change are noticed only when that time is over, or
    when the memory is cleared.
-/

namespace TemplateAnalysis.Resolver

open Files Text

/-- A place in a file. -/
structure Location where
  file : Path
  place : Markup.Place := ⟨0, 0⟩
  deriving DecidableEq, Repr

/-- The two listings of a project. -/
inductive Listing
  | templates (folder : Path)
  | statics (folder : Path)
  deriving DecidableEq, Repr

/-- A fragment of a file. -/
structure FragmentKey where
  file : Path
  fragment : List Char
  deriving DecidableEq, Repr

/-- What is remembered, and the time it is now. -/
structure Memory where
  now : Seconds
  listings : Cache Seconds Listing (List (List Char))
  places : Cache Seconds FragmentKey (Option Location)

/-- A memory of nothing, which keeps what it learns for some seconds. -/
def Memory.empty (ttl : Seconds) : Memory :=
  ⟨0, Cache.empty ttl, Cache.empty ttl⟩

/-- A resolver at some time, and the files that it looks at. -/
structure Scene where
  memory : Memory
  session : Session

/-- Something to find out with a memory at hand. A failure keeps what was remembered
    before it. -/
abbrev Query := EStateM Failure Scene

/-- Do a job without regard to the memory. -/
def doJob {α : Type} (job : Job α) : Query α := fun scene =>
  match job scene.session with
  | .ok a session => .ok a { scene with session := session }
  | .error failure session => .error failure { scene with session := session }

instance : MonadLift Job Query := ⟨doJob⟩

/-- Find something out with a new memory, which is given up afterwards. -/
def withMemory {α : Type} (memory : Memory) (query : Query α) : Job α := fun session =>
  match query ⟨memory, session⟩ with
  | .ok a scene => .ok a scene.session
  | .error failure scene => .error failure scene.session

/-- What is remembered now. -/
def remembered : Query Memory :=
  return (← get).memory

/-- Remember something else. -/
def remember (memory : Memory) : Query Unit :=
  modify fun scene => { scene with memory := memory }

/-- Forget everything. -/
def clear : Query Unit := do
  let memory ← remembered
  remember { memory with listings := memory.listings.clear, places := memory.places.clear }

/-! ## Listings -/

/-- A listing, from memory if it is young enough. -/
def listing (key : Listing) (compute : Job (List (List Char))) : Query (List (List Char)) := do
  let memory ← remembered
  let (names, listings) ← memory.listings.get key memory.now (doJob compute)
  remember { memory with listings := listings }
  pure names

/-- The templates of the project, as paths from their folder. -/
def templateFiles (project : Project) : Query (List (List Char)) :=
  match project.templateRoot? with
  | none => pure []
  | some folder =>
    listing (.templates folder) do
      pure ((filesWithExtension (← files) folder project.extension).map fun path =>
        (((path.relativeTo? folder).map Path.text).getD path.text).toList)

/-- The static resources of the project, as paths from their folder. -/
def staticFiles (project : Project) : Query (List (List Char)) :=
  match project.staticRoot? with
  | none => pure []
  | some folder =>
    listing (.statics folder) do
      pure ((listFiles (← files) folder).map fun path => path.text.toList)

/-! ## Static resources -/

/-- The static resource that a path means. The suffix of an image can be left
    out. -/
def findStatic (project : Project) (path : List Char) : Query (Option Location) := do
  match project.staticRoot? with
  | none => pure none
  | some folder =>
    let resource := Reference.withoutRoot (Reference.withSlashes path)
    let names ← staticFiles project
    pure (((resource :: Reference.imagePaths resource).find? names.contains).map fun name =>
      ⟨folder.child (String.ofList name), ⟨0, 0⟩⟩)

/-! ## Templates and fragments -/

/-- Where a file declares a fragment. -/
def locate (file : Path) (fragment : List Char) : Job (Option Location) := do
  match ← readText file with
  | none => pure none
  | some text => pure ((Fragment.findDeclaration text.toList fragment).map fun place =>
      (⟨file, place⟩ : Location))

/-- Where a file declares a fragment, from memory if that is young enough. -/
def fragmentLocation (file : Path) (fragment : List Char) : Query (Option Location) := do
  let memory ← remembered
  let (found, places) ← memory.places.get ⟨file, fragment⟩ memory.now
    (doJob (locate file fragment))
  remember { memory with places := places }
  pure found

/-- The first of some files that declares a fragment. -/
def firstDeclaring (folder : Path) (fragment : List Char) :
    List (List Char) → Query (Option Location)
  | [] => pure none
  | name :: rest => do
    match ← fragmentLocation (folder.child (String.ofList name)) fragment with
    | some location => pure (some location)
    | none => firstDeclaring folder fragment rest

/-- The name of the template file that a reference means. -/
def templateFileName (project : Project) (template : List Char) : List Char :=
  let name := normalPath (Reference.withSlashes template)
  if project.extension.toList.isSuffixOf (lower name) then name
  else name ++ project.extension.toList

/-- The template that a reference means, at the line that declares the fragment
    when one is asked for and declared. Without a template, every template is
    searched for the fragment. -/
def findFragment (project : Project) (template : List Char) (fragment : Option (List Char)) :
    Query (Option Location) := do
  let wanted := fragment.filter (!·.isEmpty)
  match project.templateRoot? with
  | none => pure none
  | some folder =>
    if template.isEmpty then
      match wanted with
      | none => pure none
      | some name => firstDeclaring folder name (← templateFiles project)
    else
      let name := templateFileName project template
      -- Only templates that are listed count, whatever else is in the folder.
      if (← templateFiles project).contains name then
        let file := folder.child (String.ofList name)
        match wanted with
        | none => pure (some ⟨file, ⟨0, 0⟩⟩)
        | some fragment =>
          pure (some ((← fragmentLocation file fragment).getD ⟨file, ⟨0, 0⟩⟩))
      else pure none

/-! ## References -/

/-- Where a reference on a line leads. -/
def follow (project : Project) (line : List Char) (reference : Reference.ReferredPath) :
    Query (Option Location) :=
  if Reference.isLink line reference then findStatic project reference.path
  else findFragment project reference.path (Reference.selectorAt? line reference.stop)

/-- Where the reference at a position of a line leads. Both ends of a path belong
    to it. -/
def resolve (project : Project) (line : List Char) (position : Nat) : Query (Option Location) :=
  match (Reference.references line).find? fun reference =>
      reference.start ≤ position && position ≤ reference.stop with
  | some reference => follow project line reference
  | none => pure none

/-- Where every link of a document leads. -/
def resolveLinks (project : Project) (text : List Char) :
    Query (List (Reference.DocumentLink × Option Location)) :=
  (Reference.documentLinks text).mapM fun link => do
    let line := ((lines text)[link.line]?).getD []
    pure (link, ← resolve project line link.start)

end TemplateAnalysis.Resolver
