import TemplateAnalysis.Markup.Attribute
import TemplateAnalysis.Expression.Nesting
import TemplateAnalysis.Text.WordChar

/-! # Iterations

    An iteration attribute binds a variable to the items of a collection,
    `item : ${collection}`, and a second one, when it is named, to the status
    of the iteration, `item, status : ${collection}`.
-/

namespace TemplateAnalysis.Variable

open Text Expression Markup

/-- What one iteration binds. -/
structure Binding where
  item : List Char
  status : Option (List Char)
  collection : List Char
  deriving DecidableEq, Repr

/-- What stands inside an expression that is one whole variable expression. -/
def unwrapVariable? : List Char → Option (List Char)
  | sigil :: '{' :: rest =>
    let whole := sigil :: '{' :: rest
    if (sigil == '$' || sigil == '*') && findClosing whole 1 == some (whole.length - 1) then
      let inner := trim rest.dropLast
      if inner.isEmpty then none else some inner
    else none
  | _ => none

/-- The binding that the value of an iteration attribute states. Every name
    before the colon has to be an identifier; the first two have a meaning. -/
def bindingOf? (value : List Char) : Option Binding := do
  let colon ← findTopLevel [':'] value
  let collection ← unwrapVariable? (trim (value.drop (colon + 1)))
  let names := (splitOn ',' (value.take colon)).map trim
  -- A third name and all later ones bind nothing, but have to be names.
  if names.all isIdentifier then
    match names with
    | [] => none
    | [item] => some ⟨item, none, collection⟩
    | item :: status :: _ => some ⟨item, some status, collection⟩
  else none

/-- The bindings of all iterations of a text, in order. -/
def bindings (text : List Char) : List Binding :=
  (attributesNamed iterationAttributes text).filterMap fun attr =>
    bindingOf? attr.value

/-! ## Tables of collections -/

/-- Collections by the names bound to them. A name that is bound again keeps
    its place and takes the new collection. -/
abbrev Collections := List (List Char × List Char)

/-- Bind a name to a collection. -/
def Collections.bind (name collection : List Char) : Collections → Collections
  | [] => [(name, collection)]
  | entry :: rest =>
    if entry.1 = name then (name, collection) :: rest
    else entry :: Collections.bind name collection rest

/-- The collection a name is bound to. -/
def Collections.get? (collections : Collections) (name : List Char) : Option (List Char) :=
  collections.lookup name

/-- The collections by the items they give. -/
def itemCollections (bindings : List Binding) : Collections :=
  bindings.foldl (fun table b => table.bind b.item b.collection) []

/-- The collections by the status variables of their iterations. -/
def statusCollections (bindings : List Binding) : Collections :=
  bindings.foldl (fun table b =>
    match b.status with
    | some status => table.bind status b.collection
    | none => table) []

/-- The names that the iterations bind, items and status variables alike, each
    once. -/
def iterationNames (bindings : List Binding) : List (List Char) :=
  (bindings.flatMap fun b => b.item :: b.status.toList).eraseDups

end TemplateAnalysis.Variable
