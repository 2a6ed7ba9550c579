import TemplateAnalysis.Proofs.Expression.Nested
import TemplateAnalysis.Proofs.Expression.Syntax
import TemplateAnalysis.Proofs.Markup.Attribute
import TemplateAnalysis.Reference.Find

/-! # Syntax of references

    The references that a template author writes into attributes, as trees. A
    tree has one text, and says itself which stretches of it are the paths of
    templates:

    * **`pageStretches`** are the stretches of a page of tags, in order;
    * **`spell`** is their text, and **`marksFrom`** are the paths among them
      with the positions at which they come to stand;
    * **`firstOfEach`** leaves out every path that was referred to before.

    As with expressions, the leaves carry the proofs that they are what they are
    called.
-/

namespace TemplateAnalysis.Reference

open Text Expression Markup

/-! ## Stretches of a text -/

/-- A stretch of a text, by what it is there for. -/
inductive Stretch
  /-- Text around the paths. -/
  | plain (text : List Char)
  /-- The path of a template that is referred to. -/
  | path (text : List Char)
  deriving DecidableEq, Repr

/-- The characters of a stretch. -/
def Stretch.text : Stretch → List Char
  | .plain text | .path text => text

/-- The text that the stretches make up. -/
def spell (stretches : List Stretch) : List Char :=
  stretches.flatMap Stretch.text

/-- The paths among stretches that stand at `position`, where they stand. -/
def marksFrom (position : Nat) : List Stretch → List ReferredPath
  | [] => []
  | .plain text :: rest => marksFrom (position + text.length) rest
  | .path text :: rest => ⟨text, position⟩ :: marksFrom (position + text.length) rest

@[simp] theorem spell_nil : spell [] = [] := rfl

@[simp] theorem spell_cons (stretch : Stretch) (rest : List Stretch) :
    spell (stretch :: rest) = stretch.text ++ spell rest := by
  simp [spell]

@[simp] theorem spell_append (before after : List Stretch) :
    spell (before ++ after) = spell before ++ spell after := by
  simp [spell]

theorem marksFrom_append (position : Nat) (before after : List Stretch) :
    marksFrom position (before ++ after) =
      marksFrom position before ++ marksFrom (position + (spell before).length) after := by
  induction before generalizing position with
  | nil => rfl
  | cons stretch before ih =>
    cases stretch with
    | plain text => simp [marksFrom, ih, Stretch.text, Nat.add_assoc]
    | path text => simp [marksFrom, ih, Stretch.text, Nat.add_assoc]

/-- The first reference to each path. -/
def firstOfEach : List ReferredPath → List ReferredPath
  | [] => []
  | reference :: rest =>
    reference :: (firstOfEach rest).filter fun later => later.path ≠ reference.path

/-! ## Targets -/

/-- A character of the path of a template. -/
def isPathChar (c : Char) : Bool :=
  isNameChar c || c == '.' || c == '/'

/-- The path of a template, as it is reported. -/
structure TemplatePath where
  text : List Char
  ne_nil : text ≠ []
  chars : ∀ c ∈ text, isPathChar c = true
  relative : text.head? ≠ some '/'
  not_preprocessed : ['_', '_'].isPrefixOf text = false

/-- What can stand directly before a path and is no part of it. -/
inductive Origin
  | none
  | root
  | home
  | classpath
  | file
  deriving DecidableEq, Repr

/-- The text of an origin. -/
def Origin.text : Origin → List Char
  | .none => []
  | .root => ['/']
  | .home => ['~', '/']
  | .classpath => "classpath:".toList
  | .file => "file:".toList

@[simp] theorem Origin.text_none : Origin.none.text = [] := rfl

@[simp] theorem Origin.text_home : Origin.home.text = ['~', '/'] := rfl

/-- Blanks that have to be there. -/
structure Space extends Gap where
  ne_nil : text ≠ []

/-- The name of a fragment. -/
structure FragmentName where
  text : List Char
  ne_nil : text ≠ []
  chars : ∀ c ∈ text, isNameChar c = true

/-- The fragment of a template that is asked for, with arguments or without. -/
structure Selector where
  space : Space
  gap : Gap
  name : FragmentName
  arguments : Option NestedText

/-- The text of arguments. -/
def argumentText : Option NestedText → List Char
  | none => []
  | some arguments => inPair .round arguments.print

/-- The text of a selector. -/
def Selector.print (selector : Selector) : List Char :=
  selector.space.text ++ (':' :: ':' ::
    (selector.gap.text ++ (selector.name.text ++ argumentText selector.arguments)))

/-- A template, or a fragment of it. -/
structure Target where
  origin : Origin
  path : TemplatePath
  selector : Option Selector

/-- The text behind the path of a target. -/
def Target.tail (target : Target) : List Char :=
  (target.selector.map Selector.print).getD []

/-- The text of a target. -/
def Target.print (target : Target) : List Char :=
  target.origin.text ++ (target.path.text ++ target.tail)

/-- The stretches of a target. -/
def Target.stretches (target : Target) : List Stretch :=
  [.plain target.origin.text, .path target.path.text, .plain target.tail]

/-- A target without arguments, which can stand in quotes. -/
structure BareTarget extends Target where
  no_arguments : ∀ selected ∈ selector, selected.arguments = none

/-- The stretches of a target in between other text. -/
def Target.within (target : Target) (front back : List Char) : List Stretch :=
  .plain front :: target.stretches ++ [.plain back]

theorem Target.spell_stretches (target : Target) : spell target.stretches = target.print := by
  simp [Target.stretches, Stretch.text, Target.print]

theorem Target.spell_within (target : Target) (front back : List Char) :
    spell (target.within front back) = front ++ (target.print ++ back) := by
  simp [Target.within, Stretch.text, Target.spell_stretches]

theorem Target.marksFrom_within (target : Target) (front back : List Char) (position : Nat) :
    marksFrom position (target.within front back) =
      [⟨target.path.text, position + front.length + target.origin.text.length⟩] :=
  rfl

/-! ## Values -/

/-- A branch of a condition. -/
inductive Branch
  /-- `_`. -/
  | nothing
  /-- `'path :: name'`. -/
  | quoted (target : BareTarget)
  /-- A fragment expression. -/
  | fragment (target : Target)

/-- The stretches of a branch. -/
def Branch.stretches : Branch → List Stretch
  | .nothing => [.plain ['_']]
  | .quoted target => target.within ['\''] ['\'']
  | .fragment target => target.within ['~', '{'] ['}']

/-- The text of the condition in front of branches. -/
def conditionText (condition : NestedText) : List Char :=
  '$' :: inPair .curly condition.print

/-- The value of an attribute that refers to templates. -/
inductive Value
  /-- `path :: name(arguments)`. -/
  | direct (target : Target)
  /-- The same as a literal substitution, between bars. -/
  | bars (target : Target)
  /-- What can also be a branch. -/
  | alone (branch : Branch) (something : branch ≠ .nothing)
  /-- `condition ? yes : no`. -/
  | choice (condition : NestedText) (before behind : Gap) (yes : Branch)
      (beforeColon behindColon : Gap) (no : Branch)
  /-- `condition ?: other`. -/
  | fallback (condition : NestedText) (before behind : Gap) (other : Branch)

/-- The stretches of a value. -/
def Value.stretches : Value → List Stretch
  | .direct target => target.stretches
  | .bars target => target.within ['|'] ['|']
  | .alone branch _ => branch.stretches
  | .choice condition before behind yes beforeColon behindColon no =>
    .plain (conditionText condition ++ before.text ++ '?' :: behind.text) :: yes.stretches ++
      .plain (beforeColon.text ++ ':' :: behindColon.text) :: no.stretches
  | .fallback condition before behind other =>
    .plain (conditionText condition ++ before.text ++ '?' :: ':' :: behind.text) ::
      other.stretches

/-! ## Pages -/

/-- A text that refers to nothing: no attribute that could refer to templates is
    named in it, and no link or fragment expression opens in it. -/
structure Inert where
  text : List Char
  no_attribute : ∀ name ∈ referenceAttributes, ¬ name.toList <:+: text
  no_fragment : ¬ ['~', '{'] <:+: text
  no_link : ¬ ['@', '{'] <:+: text

/-- A tag with one attribute that refers to templates. -/
structure ReferenceTag where
  before : Inert
  blank : Char
  isBlank_blank : isBlank blank = true
  name : String
  name_mem : name ∈ referenceAttributes
  sign : Sign
  value : Value
  behind : Inert

/-- The text of a tag before the value of its attribute. -/
def ReferenceTag.front (tag : ReferenceTag) : List Char :=
  tag.before.text ++ tag.blank :: (tag.name.toList ++ (tag.sign.print ++ ['"']))

/-- The stretches of a tag. -/
def ReferenceTag.stretches (tag : ReferenceTag) : List Stretch :=
  .plain tag.front :: tag.value.stretches ++ [.plain ('"' :: tag.behind.text)]

/-- The stretches of a page: tags, one per line. -/
def pageStretches : List ReferenceTag → List Stretch
  | [] => []
  | [tag] => tag.stretches
  | tag :: rest => tag.stretches ++ .plain ['\n'] :: pageStretches rest

end TemplateAnalysis.Reference
