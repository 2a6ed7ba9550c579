import TemplateAnalysis.Json.Value
import TemplateAnalysis.Decimal.Shortest

/-! # Writing JSON

    A value is written on one line, or laid out with every item and member on
    a line of its own, indented by two blanks for each level. Characters stay
    as they are, but for quotes, backslashes and controls in strings.

    The text is put together from pieces. A key is a piece of its own, and so is a
    string, but for one in an array, which makes a piece with what stands before it.
-/

namespace TemplateAnalysis.Json

open Decimal Text

/-- A hexadecimal digit. -/
def hexDigit (n : Nat) : Char :=
  if n < 10 then Char.ofNat ('0'.toNat + n) else Char.ofNat ('a'.toNat + n - 10)

/-- A character as it is written in a string. -/
def escapeChar (c : Char) : List Char :=
  if c = '"' then ['\\', '"']
  else if c = '\\' then ['\\', '\\']
  else if c = '\n' then ['\\', 'n']
  else if c = '\r' then ['\\', 'r']
  else if c = '\t' then ['\\', 't']
  else if c = '\x08' then ['\\', 'b']
  else if c = '\x0c' then ['\\', 'f']
  else if c.toNat < 0x20 then
    ['\\', 'u', '0', '0', hexDigit (c.toNat / 16), hexDigit (c.toNat % 16)]
  else [c]

/-- A code point as it is written in a string. -/
def escapePoint : CodePoint → CodePoints
  | .scalar c => CodePoints.ofList (escapeChar c)
  | .surrogate half => [.surrogate half]

/-- A string with its quotes. -/
def quoted (s : CodePoints) : CodePoints :=
  .scalar '"' :: s.flatMap escapePoint ++ [.scalar '"']

/-- An integer in base ten. -/
def renderInteger (n : Int) : List Char :=
  (if n < 0 then ['-'] else []) ++ naturalDigits n.natAbs

/-- A number of double precision. -/
def renderDouble (x : Binary64) : List Char :=
  x.write "Infinity" "NaN"

/-- How values are laid out. -/
inductive Layout
  /-- All on one line. -/
  | line
  /-- Items and members on lines of their own, at a level of indentation. -/
  | indented (level : Nat)
  deriving DecidableEq, Repr

/-- The layout one level further in. -/
def Layout.inner : Layout → Layout
  | .line => .line
  | .indented level => .indented (level + 1)

/-- What stands before the first item or behind the last one. -/
def Layout.edge : Layout → List Char
  | .line => []
  | .indented level => '\n' :: List.replicate (2 * level) ' '

/-- What stands between two items. -/
def Layout.separator : Layout → List Char
  | .line => [',', ' ']
  | .indented level => ',' :: '\n' :: List.replicate (2 * level) ' '

/-- The pieces of an item with what stands in front of it. Only an object or array
    begins with a piece of its own. -/
def leadBy (front : List Char) (item : Value) : List CodePoints → List CodePoints
  | [] => [CodePoints.ofList front]
  | piece :: pieces =>
    if item.isContainer then CodePoints.ofList front :: piece :: pieces
    else (CodePoints.ofList front ++ piece) :: pieces

mutual

/-- The pieces that a value is written in, one after another. -/
def pieces (layout : Layout) : Value → List CodePoints
  | .null => ["null"]
  | .bool true => ["true"]
  | .bool false => ["false"]
  | .integer n => [CodePoints.ofList (renderInteger n)]
  | .double x => [CodePoints.ofList (renderDouble x)]
  | .string s => [quoted s]
  | .array [] => ["[]"]
  | .array (item :: items) =>
    leadBy ('[' :: layout.inner.edge) item (pieces layout.inner item) ++
      itemPieces layout.inner items ++ [CodePoints.ofList layout.edge, CodePoints.ofList [']']]
  | .object [] => ["{}"]
  | .object ((key, value) :: members) =>
    CodePoints.ofList ['{'] :: CodePoints.ofList layout.inner.edge :: quoted key :: ": " ::
      (pieces layout.inner value ++ memberPieces layout.inner members ++
        [CodePoints.ofList layout.edge, CodePoints.ofList ['}']])

/-- The pieces of the items behind the first. -/
def itemPieces (layout : Layout) : List Value → List CodePoints
  | [] => []
  | item :: items =>
    leadBy layout.separator item (pieces layout item) ++ itemPieces layout items

/-- The pieces of the members behind the first. -/
def memberPieces (layout : Layout) : List (CodePoints × Value) → List CodePoints
  | [] => []
  | (key, value) :: members =>
    CodePoints.ofList layout.separator :: quoted key :: ": " ::
      (pieces layout value ++ memberPieces layout members)

end

/-- The value on one line. -/
def Value.compact (value : Value) : CodePoints :=
  (pieces .line value).flatten

end TemplateAnalysis.Json
