import TemplateAnalysis.Text.Lines
import TemplateAnalysis.Text.WordChar
import TemplateAnalysis.Reference.Find

/-! # Selectors and links

    A reference to a fragment is `template :: fragment`. The lines of a
    template are also told apart here: those that declare a fragment and those
    whose link is computed hold no link to follow.
-/

namespace TemplateAnalysis.Reference

open Text

/-! ## Template and fragment -/

/-- A template, and the fragment of it that is asked for. -/
structure FragmentReference where
  template : List Char
  fragment : Option (List Char)
  deriving DecidableEq, Repr

/-- The text before `token`, and the text behind it. -/
def cut? (token text : List Char) : Option (List Char × List Char) :=
  (indexOf? token text).map fun i => (text.take i, text.drop (i + token.length))

/-- Read `template :: fragment`. A second `::` ends the fragment's name. -/
def FragmentReference.ofText (text : List Char) : FragmentReference :=
  match cut? [':', ':'] text with
  | none => ⟨trim text, none⟩
  | some (template, rest) =>
    let fragment := trim (((cut? [':', ':'] rest).map Prod.fst).getD rest)
    ⟨trim template, if fragment.isEmpty then none else some fragment⟩

/-- The selector that follows a position of a line. -/
def selectorAt? (line : List Char) (position : Nat) : Option (List Char) :=
  match trimLeft (line.drop position) with
  | ':' :: ':' :: rest =>
    let name := (trimLeft rest).takeWhile isNameChar
    if name.isEmpty then none else some name
  | _ => none

/-- Is the reference a link to a resource? It is one when the nearest opening
    before it is that of a link, and not that of a fragment expression or of an
    attribute value. -/
def isLink (line : List Char) (reference : ReferredPath) : Bool :=
  let before := line.take reference.start
  match lastIndexOf? ['@', '{'] before with
  | none => false
  | some link =>
    [['~', '{'], ['=', '"'], ['=', '\'']].all fun opening =>
      (lastIndexOf? opening before).all (· < link)

/-! ## Links of a document -/

/-- Attributes that declare a fragment, as they are looked for in a line. -/
def declarationNames : List (List Char) :=
  ["th:fragment".toList, "layout:fragment".toList]

/-- Does a declaration `th:fragment="…"` with a value start here? -/
def declaresHere (cs : List Char) : Bool :=
  declarationNames.any fun name =>
    match after? name cs with
    | none => false
    | some rest =>
      match trimLeft rest with
      | '=' :: behindSign =>
        match trimLeft behindSign with
        | quote :: value =>
          Expression.isQuote quote && !(value.takeWhile (!Expression.isQuote ·)).isEmpty &&
            value.any Expression.isQuote
        | [] => false
      | _ => false

/-- Does a line declare a fragment? -/
def isFragmentDeclaration : List Char → Bool
  | [] => false
  | c :: rest => declaresHere (c :: rest) || isFragmentDeclaration rest

/-- Does a line hold a link that is computed, `@{${…`? -/
def isComputedLink : List Char → Bool
  | [] => false
  | c :: rest =>
    (match after? ['@', '{'] (c :: rest) with
      | some inner => ['$', '{'].isPrefixOf (trimLeft inner)
      | none => false) || isComputedLink rest

/-- A stretch of a line that can be followed. -/
structure DocumentLink where
  line : Nat
  start : Nat
  stop : Nat
  path : List Char
  deriving DecidableEq, Repr

/-- The links of one line. -/
def lineLinks (line : List Char) (number : Nat) : List DocumentLink :=
  if isFragmentDeclaration line || isComputedLink line then []
  else (references line).map fun reference =>
    ⟨number, reference.start, reference.stop, reference.path⟩

/-- The links of a document, line by line. -/
def documentLinks (text : List Char) : List DocumentLink :=
  ((lines text).mapIdx fun number line => lineLinks line number).flatten

/-! ## Static resources -/

/-- Suffixes that a reference to an image can leave out. -/
def imageExtensions : List String :=
  [".png", ".jpg", ".jpeg", ".gif", ".svg", ".ico", ".webp", ".avif"]

/-- The path without a slash at its front. -/
def withoutRoot (path : List Char) : List Char :=
  match path with
  | '/' :: rest => rest
  | _ => path

/-- The path without a prefix it begins with. -/
def withoutPrefix (path start : List Char) : List Char :=
  (after? start path).getD path

/-- The paths of the images that a path without its suffix can mean. -/
def imagePaths (path : List Char) : List (List Char) :=
  imageExtensions.map fun extension => path ++ extension.toList

end TemplateAnalysis.Reference
