import TemplateAnalysis.Text.Blank
import TemplateAnalysis.Text.Search
import TemplateAnalysis.Text.WordChar

/-! # Attributes by name

    Attributes of interest are found by their names alone, wherever they stand
    in a text, so that a half-written tag hides none of them. An attribute is
    one of the names looked for, an `=` with or without blanks around it, and a
    quoted value. The name must not continue a longer one to its left.
-/

namespace TemplateAnalysis.Markup

open Text

/-- An attribute with its value, which starts at a position of the text. -/
structure Attribute where
  name : List Char
  start : Nat
  value : List Char
  deriving DecidableEq, Repr

/-- The position behind the last character of the value. -/
def Attribute.stop (attr : Attribute) : Nat :=
  attr.start + attr.value.length

/-- The quoted value at the front of a text, behind an `=`: how many characters
    stand before it, and the value itself, which ends at the first quote of the
    kind that opened it. -/
def quotedValue? (cs : List Char) : Option (Nat × List Char) :=
  match trimLeft cs with
  | '=' :: behindSign =>
    match trimLeft behindSign with
    | quote :: rest =>
      if (quote == '\'' || quote == '"') && rest.contains quote then
        some (cs.length - rest.length, rest.takeWhile (· != quote))
      else none
    | [] => none
  | _ => none

/-- The attribute with the given name at the front of a text. -/
def attributeNamed? (name cs : List Char) : Option Attribute := do
  let rest ← after? name cs
  let (skipped, value) ← quotedValue? rest
  pure ⟨name, name.length + skipped, value⟩

/-- The attributes with one of the given names in the text `cs` that stands at
    `position`. Behind a character of a name none can start. -/
def attributesFrom (names : List (List Char)) (position : Nat) (behindName : Bool) :
    List Char → List Attribute
  | [] => []
  | c :: rest =>
    let found := if behindName then none else names.findSome? (attributeNamed? · (c :: rest))
    match found with
    | some attr =>
      { attr with start := position + attr.start } ::
        attributesFrom names (position + attr.stop + 1) false (rest.drop attr.stop)
    | none => attributesFrom names (position + 1) (isNameChar c) rest
termination_by cs => cs.length

/-- The attributes of a text that have one of the given names. -/
def attributesNamed (names : List String) (text : List Char) : List Attribute :=
  attributesFrom (names.map String.toList) 0 false text

/-! ## Template attributes -/

/-- The two spellings of a template attribute. -/
def spellings (name : String) : List String :=
  ["th:" ++ name, "data-th-" ++ name]

/-- Attributes that hold a list of `name=expression` assignments. -/
def assignmentAttributes : List String :=
  ["with", "attr", "attrappend", "attrprepend"].flatMap spellings

/-- Attributes whose values are scanned on their own, besides the text as a
    whole. -/
def scannedAttributes : List String :=
  ["each", "if", "unless", "switch", "case", "with", "object", "field",
   "attr", "attrappend", "attrprepend", "text", "utext", "value", "errors",
   "classappend", "styleappend"].flatMap spellings

/-- Attributes that bind loop variables. -/
def iterationAttributes : List String :=
  spellings "each"

/-- Attributes that refer to other templates. -/
def referenceAttributes : List String :=
  ["th:replace", "th:insert", "th:include", "th:substituteby",
   "layout:decorate", "layout:fragment"]

end TemplateAnalysis.Markup
