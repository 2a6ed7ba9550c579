import TemplateAnalysis.Text.Lines
import TemplateAnalysis.Reference.Selector
import TemplateAnalysis.Markup.Tag
import TemplateAnalysis.Fragment.Signature

/-! # Fragment declarations

    Fragments are declared by attributes of start tags. There are two ways to
    find them: all declarations of a text with their places, read as markup;
    and the first line that declares a given name, read as plain text.
-/

namespace TemplateAnalysis.Fragment

open Text Markup Expression

/-! ## All declarations -/

/-- A declared fragment and the place of the tag that declares it. -/
structure Declaration where
  signature : Signature
  place : Place
  deriving DecidableEq, Repr

/-- The attributes that declare a fragment, in the order in which those of one
    tag are listed. -/
def declaringAttributes : List String :=
  ["th:fragment", "data-th-fragment", "layout:fragment"]

/-- The fragments that a tag declares. An empty value declares none. -/
def tagDeclarations (tag : StartTag) : List Declaration :=
  declaringAttributes.filterMap fun name =>
    match tag.attribute? name with
    | none | some [] => none
    | some value => some ⟨Signature.ofText value, tag.place⟩

/-- The fragments that a text declares, in the order of their tags. -/
def declarations (text : List Char) : Except MarkupError (List Declaration) :=
  (startTags text).map fun tags => tags.flatMap tagDeclarations

/-! ## The declaration of a name -/

/-- Does the text begin with blanks, `name`, and the parenthesis or quote that
    ends the name? The name may begin with blanks of its own. -/
def declaresName (name : List Char) (cs : List Char) : Bool :=
  endsName (after? name cs) ||
    match cs with
    | [] => false
    | c :: rest => isBlank c && declaresName name rest
where
  /-- Does the name end here? -/
  endsName : Option (List Char) → Bool
    | none => false
    | some behind => (trimLeft behind).head?.any fun c => c == '(' || isQuote c

/-- Does the declaration of `name` start here? -/
def declarationStarts (name cs : List Char) : Bool :=
  Reference.declarationNames.any fun attr =>
    match after? attr cs with
    | none => false
    | some rest =>
      match trimLeft rest with
      | '=' :: behindSign =>
        match trimLeft behindSign with
        | quote :: value => isQuote quote && declaresName name value
        | [] => false
      | _ => false

/-- Where the first declaration of `name` starts in a line. -/
def declarationColumn? (name : List Char) : List Char → Option Nat
  | [] => none
  | c :: rest =>
    if declarationStarts name (c :: rest) then some 0
    else (declarationColumn? name rest).map (· + 1)

/-- The place of the first declaration of `name` among lines, the first of
    which has the given number. -/
def findDeclarationFrom (name : List Char) (number : Nat) : List (List Char) → Option Place
  | [] => none
  | line :: rest =>
    match declarationColumn? name line with
    | some column => some ⟨number, column⟩
    | none => findDeclarationFrom name (number + 1) rest

/-- The first place in a text that declares exactly `name`, with or without
    parameters. -/
def findDeclaration (text name : List Char) : Option Place :=
  findDeclarationFrom name 0 (lines text)

end TemplateAnalysis.Fragment
