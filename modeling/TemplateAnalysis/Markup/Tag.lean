import TemplateAnalysis.Text.Blank
import TemplateAnalysis.Text.LowerCase
import TemplateAnalysis.Text.Search
import TemplateAnalysis.Markup.CharacterReference

/-! # Start tags

    The start tags of a hypertext with their attributes and places, in the
    order of the text. Real templates are seldom well formed, so the rules say
    for every text what its tags are:

    * a tag opens with `<` and a letter and ends with `>` or `/>`; comments,
      declarations, instructions and end tags are passed over;
    * the content of `script` and `style` holds no tags, and when such an
      element is never closed, neither does the rest of the text;
    * a construct that is not finished makes the text up to the next `>` plain
      (without one, up to the next `<`);
    * a numeric character reference without digits, or one that runs into a
      hexadecimal digit, is forgiven once, if a semicolon follows somewhere;
      after that, and behind an unfinished construct, it ends the search.
-/

namespace TemplateAnalysis.Markup

open Text

/-! ## Places -/

/-- A place in a text: how many newlines stand before it, and how many
    characters since the last of them. -/
structure Place where
  line : Nat
  character : Nat
  deriving DecidableEq, Repr

/-- The place behind a character. -/
def Place.step (place : Place) (c : Char) : Place :=
  if c = '\n' then ⟨place.line + 1, 0⟩ else ⟨place.line, place.character + 1⟩

/-- The place behind a text. -/
def Place.advance (place : Place) (cs : List Char) : Place :=
  cs.foldl Place.step place

/-! ## Attributes of a tag -/

/-- An attribute as it stands in a tag. One without a value has an empty one. -/
structure TagAttribute where
  name : List Char
  value : List Char
  deriving DecidableEq, Repr

/-- A letter of the alphabet of markup. -/
def isLetter (c : Char) : Bool :=
  c.isAlpha

/-- A character of a tag name behind its first. -/
def isTagNameChar (c : Char) : Bool :=
  !("\t\n\r\x0c />\x00".toList.contains c)

/-- A character of an attribute name behind its first. -/
def isAttributeNameChar (c : Char) : Bool :=
  !(isBlank c || c == '/' || c == '=' || c == '>')

/-- A character of a value without quotes. -/
def isBareValueChar (c : Char) : Bool :=
  !(isBlank c || c == '>')

/-- The value behind the name of an attribute, with its length and that of the
    signs before it. A quote that is never closed opens no value: then a blank
    before it, or the last of several signs, begins a value without quotes. -/
def valueAfterName? (cs : List Char) : Option (List Char × Nat) :=
  let blanks := (cs.takeWhile isBlank).length
  let signs := ((cs.drop blanks).takeWhile (· == '=')).length
  let behind := (cs.drop (blanks + signs)).takeWhile isBlank
  let start := blanks + signs + behind.length
  if signs = 0 then none
  else match cs.drop start with
    | [] => some ([], start)
    | c :: rest =>
      if c == '\'' || c == '"' then
        -- A quoted value, if the quote is closed at all.
        if rest.contains c then
          let value := rest.takeWhile (· != c)
          some (decodeReferences value, start + value.length + 2)
        -- The blank before the quote counts as an empty value of its own.
        else if behind ≠ [] then some ([], start - 1)
        else if 2 ≤ signs then
          let value := (cs.drop (start - 1)).takeWhile isBareValueChar
          some (decodeReferences value, start - 1 + value.length)
        else none
      else
        let value := (c :: rest).takeWhile isBareValueChar
        some (decodeReferences value, start + value.length)

/-- How many blanks and slashes stand at the front, up to a slash that ends the
    tag. -/
def fillerLength : List Char → Nat
  | [] => 0
  | c :: rest =>
    if isBlank c then fillerLength rest + 1
    else if c == '/' && rest.head? ≠ some '>' then fillerLength rest + 1
    else 0

/-- Can an attribute name start behind this character? -/
def endsBeforeAttribute (c : Char) : Bool :=
  isBlank c || c == '/' || c == '\'' || c == '"'

/-- The attribute at the front of a text that stands behind the character
    `before`, with its length. What fills the space to the next attribute
    belongs to it. -/
def tagAttribute? (before : Char) : List Char → Option (TagAttribute × Nat)
  | [] => none
  | c :: rest =>
    if endsBeforeAttribute before && !(isBlank c || c == '/' || c == '>') then
      let name := c :: rest.takeWhile isAttributeNameChar
      let behindName := (c :: rest).drop name.length
      let value := (valueAfterName? behindName).getD ([], 0)
      let length := name.length + value.2
      some (⟨lower name, value.1⟩, length + fillerLength ((c :: rest).drop length))
    else none

/-- The attributes from the front of a text on, with their length. -/
def tagAttributes (before : Char) (cs : List Char) : List TagAttribute × Nat :=
  match tagAttribute? before cs with
  | none => ([], 0)
  | some (found, length) =>
    match _h : cs.drop (length - 1) with
    | [] => ([found], length)
    | last :: rest =>
      let more := tagAttributes last rest
      (found :: more.1, length + more.2)
termination_by cs.length
decreasing_by
  have := congrArg List.length _h
  simp only [List.length_drop, List.length_cons] at this
  omega

/-! ## Tags -/

/-- A start tag and the place where it opens. -/
structure StartTag where
  name : List Char
  attributes : List TagAttribute
  place : Place
  deriving DecidableEq, Repr

/-- The value of an attribute of a tag. Of several with one name the last
    counts. -/
def StartTag.attribute? (tag : StartTag) (name : String) : Option (List Char) :=
  (tag.attributes.reverse.find? fun attr => attr.name == name.toList).map (·.value)

/-- Why a text cannot be read as markup: a marked section `<![…` whose name is
    missing or none of the known ones. The text that follows is quoted. -/
inductive MarkupError
  | missingSectionName (text : List Char)
  | unknownSection (name : List Char)
  deriving DecidableEq, Repr

/-- What a `<` opens, with its length. -/
inductive Construct
  /-- A start tag, which may say of itself that it is empty. -/
  | tag (name : List Char) (attributes : List TagAttribute) (isEmpty : Bool) (length : Nat)
  /-- Something that holds no tag. -/
  | other (length : Nat)
  /-- Something whose end is missing. -/
  | unfinished
  deriving DecidableEq, Repr

/-- The start tag at the front of a text, which begins with `<` and a letter.
    A character that belongs neither to the name nor behind it makes the
    letters before it plain text. -/
def startTag (cs : List Char) : Construct :=
  let name := (cs.drop 1).takeWhile isTagNameChar
  let behindName := cs.drop (name.length + 1)
  let last := (name.getLast?).getD '<'
  let filler := fillerLength behindName
  let before := if filler = 0 then last else (behindName[filler - 1]?).getD last
  let found := tagAttributes before (behindName.drop filler)
  let length := 1 + name.length + filler + found.2
  match cs.drop length with
  | '>' :: _ => .tag (lower name) found.1 false (length + 1)
  | '/' :: '>' :: _ => .tag (lower name) found.1 true (length + 2)
  | [] => .unfinished
  | c :: _ => if c == '/' || c == '=' || isLetter c then .unfinished else .other length

/-- A construct that lasts to behind the first `>`, looked for from `start` on. -/
def upToClose (start : Nat) (cs : List Char) : Construct :=
  match indexOf? ['>'] (cs.drop start) with
  | some i => .other (start + i + 1)
  | none => .unfinished

/-- The length up to behind a `>` that only blanks stand before. -/
def closeAngle? (cs : List Char) : Option Nat :=
  match trimLeft cs with
  | '>' :: rest => some (cs.length - rest.length)
  | _ => none

/-- The end of a comment: two dashes and a `>`. -/
def commentEnd? : List Char → Option Nat
  | '-' :: '-' :: rest => (closeAngle? rest).map (· + 2)
  | _ => none

/-- The end of a conditional section: a square bracket and a `>`. -/
def conditionEnd? : List Char → Option Nat
  | ']' :: rest => (closeAngle? rest).map (· + 1)
  | _ => none

/-- The end of a marked section: two square brackets and a `>`. -/
def sectionEnd? : List Char → Option Nat
  | ']' :: rest =>
    match trimLeft rest with
    | ']' :: more => (closeAngle? more).map (· + (rest.length - more.length) + 1)
    | _ => none
  | _ => none

/-- The length up to behind the first place where an end of some kind stands. -/
def lengthThrough? (endHere? : List Char → Option Nat) : List Char → Option Nat
  | [] => none
  | c :: rest =>
    match endHere? (c :: rest) with
    | some length => some length
    | none => (lengthThrough? endHere? rest).map (· + 1)

/-- A construct that lasts to the first end of some kind, looked for from
    `start` on. -/
def upToEnd (endHere? : List Char → Option Nat) (start : Nat) (cs : List Char) : Construct :=
  match lengthThrough? endHere? (cs.drop start) with
  | some length => .other (start + length)
  | none => .unfinished

/-- A character of a section name behind its first letter. -/
def isSectionNameChar (c : Char) : Bool :=
  isLetter c || c.isDigit || c == '-' || c == '_' || c == '.'

/-- The marked section `<![name …` at the front of a text. A name that reaches
    the end of the text may still go on. -/
def markedSection (cs : List Char) : Except MarkupError Construct :=
  let behind := cs.drop 3
  match behind with
  | [] => .ok .unfinished
  | c :: _ =>
    if isLetter c then
      let name := behind.takeWhile isSectionNameChar
      let blanks := (behind.drop name.length).takeWhile isBlank
      let key := String.ofList (name.map Char.toLower)
      -- Nothing behind the name yet: it may go on.
      if behind.length ≤ name.length + blanks.length then .ok .unfinished
      else if ["temp", "cdata", "ignore", "include", "rcdata"].contains key then
        .ok (upToEnd sectionEnd? 3 cs)
      else if ["if", "else", "endif"].contains key then .ok (upToEnd conditionEnd? 3 cs)
      else .error (.unknownSection (name ++ blanks))
    else .error (.missingSectionName (cs.take 20))

/-- What the `<` at the front of a text opens. -/
def constructAt (cs : List Char) : Except MarkupError Construct :=
  match cs.drop 1 with
  | [] => .ok (.other 1)
  | c :: rest =>
    if isLetter c then .ok (startTag cs)
    else if c == '/' then .ok (upToClose 1 cs)
    else if c == '?' then .ok (upToClose 2 cs)
    else if c == '!' then
      if ['-', '-'].isPrefixOf rest then .ok (upToEnd commentEnd? 4 cs)
      else if rest.head? = some '[' then markedSection cs
      else .ok (upToClose 2 cs)
    else .ok (.other 1)

/-- How much of an unfinished construct is plain text. -/
def unfinishedLength (cs : List Char) : Nat :=
  match indexOf? ['>'] (cs.drop 1) with
  | some i => i + 2
  | none => match indexOf? ['<'] (cs.drop 1) with
    | some i => i + 1
    | none => 1

/-! ## The search -/

/-- Elements whose content is no markup. -/
def rawElements : List String :=
  ["script", "style"]

/-- The end tag of a raw element at the front of a text. -/
def rawEnd? (name : List Char) : List Char → Option Nat
  | '<' :: '/' :: rest =>
    let behind := trimLeft rest
    if (behind.take name.length).map Char.toLower == name then
      (closeAngle? (behind.drop name.length)).map
        (· + (rest.length - behind.length) + name.length + 2)
    else none
  | _ => none

/-- Is this a numeric character reference, behind its `&#`? It needs digits,
    and something else than a hexadecimal digit behind them. -/
def isNumericReference : List Char → Bool
  | [] => false
  | c :: rest =>
    let behind :=
      if c == 'x' || c == 'X' then
        if rest.head?.any isHexDigit then rest.dropWhile isHexDigit else []
      else if c.isDigit then rest.dropWhile Char.isDigit else []
    behind.head?.any fun d => !isHexDigit d

/-- What stands at the front of a text that is not empty. -/
inductive Piece
  /-- Characters that open nothing. -/
  | text (length : Nat)
  /-- A start tag, and the length up to where the search goes on. -/
  | tag (name : List Char) (attributes : List TagAttribute) (length : Nat)
  /-- Characters that open nothing, after which nothing more is forgiven. -/
  | strict (length : Nat)
  /-- Text that holds no more tags. -/
  | final
  deriving DecidableEq, Repr

/-- Read the piece at the front of a text. `forgiving` tells whether nothing has
    had to be forgiven so far. -/
def pieceAt (forgiving : Bool) (cs : List Char) : Except MarkupError Piece :=
  match cs with
  | '<' :: _ => do
    match ← constructAt cs with
    | .other length => pure (.text length)
    | .unfinished => pure (.strict (unfinishedLength cs))
    | .tag name attributes isEmpty length =>
      if !isEmpty && rawElements.contains (String.ofList name) then
        -- The content is passed over up to the end tag of the same name.
        match lengthThrough? (rawEnd? name) (cs.drop length) with
        | some content => pure (.tag name attributes (length + content))
        | none => pure (.tag name attributes cs.length)
      else pure (.tag name attributes length)
  | '&' :: '#' :: rest =>
    if isNumericReference rest then pure (.text 2)
    else if forgiving && rest.contains ';' then pure (.strict 2)
    else pure .final
  | _ => pure (.text 1)

/-- The start tags of the text `cs` that stands at a place. -/
def startTagsFrom (forgiving : Bool) (place : Place) : List Char →
    Except MarkupError (List StartTag)
  | [] => pure []
  | c :: rest => do
    match ← pieceAt forgiving (c :: rest) with
    | .text length =>
      startTagsFrom forgiving (place.advance ((c :: rest).take length)) (rest.drop (length - 1))
    | .strict length =>
      startTagsFrom false (place.advance ((c :: rest).take length)) (rest.drop (length - 1))
    | .tag name attributes length =>
      let more ← startTagsFrom forgiving (place.advance ((c :: rest).take length))
        (rest.drop (length - 1))
      pure (⟨name, attributes, place⟩ :: more)
    | .final => pure []
termination_by cs => cs.length

/-- The start tags of a text, in order. -/
def startTags (text : List Char) : Except MarkupError (List StartTag) :=
  startTagsFrom true ⟨0, 0⟩ text

end TemplateAnalysis.Markup
