import TemplateAnalysis.Text.WordChar
import TemplateAnalysis.Expression.Nesting

/-! # Literals

    What a whole operand looks like when it is a constant: a text between two
    equal quotes, or a decimal number with an optional sign and type letter.
    Blanks around the operand do not count.
-/

namespace TemplateAnalysis.Expression

open Text

/-- A letter behind a number that gives its type. -/
def isTypeSuffix (c : Char) : Bool :=
  "lLfFdD".toList.contains c

/-- Does a text of two or more characters begin and end with the same quote? -/
def isQuoted : List Char → Bool
  | c :: d :: rest => isQuote c && (d :: rest).getLast? == some c
  | _ => false

/-- A string literal: nothing is asked of what stands between the quotes. -/
def isStringLiteral (text : List Char) : Bool :=
  isQuoted (trim text)

/-- Digits with at most one point among them, and a digit at the end. -/
def isDecimal (text : List Char) : Bool :=
  match text.dropWhile isDigit with
  | [] => !text.isEmpty
  | '.' :: fraction => !fraction.isEmpty && fraction.all isDigit
  | _ => false

/-- A number, with an optional minus sign before and type letter behind it. -/
def isNumericLiteral (text : List Char) : Bool :=
  let unsigned := match trim text with
    | '-' :: rest => rest
    | rest => rest
  isDecimal unsigned ||
    (unsigned.getLast?.any isTypeSuffix && isDecimal unsigned.dropLast)

/-- The text without blanks around it and, when it is quoted, without its
    quotes. -/
def unquote (text : List Char) : List Char :=
  let trimmed := trim text
  if isQuoted trimmed then trimmed.tail.dropLast else trimmed

end TemplateAnalysis.Expression
