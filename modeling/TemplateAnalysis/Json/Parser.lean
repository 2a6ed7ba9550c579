import TemplateAnalysis.Json.Value
import TemplateAnalysis.Markup.CharacterReference

/-! # Reading JSON

    The reader accepts JSON and three words for numbers that JSON has none
    for, `NaN`, `Infinity` and `-Infinity`. A text that is not JSON is refused
    with the problem and the place where it shows.

    The reader hands a cursor on: the text that is left, with its position in
    the whole. Nested values use up one unit of fuel for each value read; the
    length of the text is always enough.
-/

namespace TemplateAnalysis.Json

open Decimal Text

/-! ## Problems -/

/-- What is wrong with a text that is not JSON. -/
inductive Problem
  | valueExpected
  | nameExpected
  | colonExpected
  | commaExpected
  | unterminatedString
  | controlCharacter
  | unknownEscape
  | badCodeUnit
  | extraData
  | byteOrderMark
  deriving DecidableEq, Repr

/-- The words for a problem. -/
def Problem.message : Problem → String
  | .valueExpected => "Expecting value"
  | .nameExpected => "Expecting property name enclosed in double quotes"
  | .colonExpected => "Expecting ':' delimiter"
  | .commaExpected => "Expecting ',' delimiter"
  | .unterminatedString => "Unterminated string starting at"
  | .controlCharacter => "Invalid control character at"
  | .unknownEscape => "Invalid \\escape"
  | .badCodeUnit => "Invalid \\uXXXX escape"
  | .extraData => "Extra data"
  | .byteOrderMark => "Unexpected UTF-8 BOM (decode using utf-8-sig)"

/-- A problem and its place: line and column count from 1, the position counts
    characters from 0. -/
structure SyntaxError where
  problem : Problem
  line : Nat
  column : Nat
  position : Nat
  deriving DecidableEq, Repr

/-- The problem at a position of a text, with its line and column. -/
def SyntaxError.at (text : List Char) (problem : Problem) (position : Nat) : SyntaxError :=
  let before := text.take position
  { problem := problem
    line := before.count '\n' + 1
    column := (before.reverse.takeWhile (· != '\n')).length + 1
    position := position }

/-- The words for a problem and its place. -/
def SyntaxError.message (error : SyntaxError) : String :=
  error.problem.message ++ ": line " ++ toString error.line ++ " column " ++
    toString error.column ++ " (char " ++ toString error.position ++ ")"

/-! ## The cursor -/

/-- What is left of a text, and its position in the whole. -/
structure Cursor where
  position : Nat
  rest : List Char
  deriving DecidableEq, Repr

/-- Behind the next `n` characters. -/
def Cursor.skip (cursor : Cursor) (n : Nat) : Cursor :=
  ⟨cursor.position + n, cursor.rest.drop n⟩

/-- The white space of JSON. -/
def isSpace (c : Char) : Bool :=
  c == ' ' || c == '\t' || c == '\n' || c == '\r'

/-- Behind the white space that comes next. -/
def Cursor.skipSpace (cursor : Cursor) : Cursor :=
  cursor.skip (cursor.rest.takeWhile isSpace).length

/-- A reading step: a result and what is left, or a problem and its position. -/
abbrev Step (α : Type) := Except (Problem × Nat) (α × Cursor)

/-! ## Strings -/

/-- The character that a letter behind a backslash stands for. -/
def escaped? : Char → Option Char
  | '"' => some '"'
  | '\\' => some '\\'
  | '/' => some '/'
  | 'b' => some '\x08'
  | 'f' => some '\x0c'
  | 'n' => some '\n'
  | 'r' => some '\r'
  | 't' => some '\t'
  | _ => none

/-- The code unit that four hexadecimal digits stand for. -/
def codeUnit? (digits : List Char) : Option Nat :=
  if digits.length = 4 && digits.all Markup.isHexDigit then
    some (Markup.numberOfDigits 16 digits)
  else none

/-- The first half of a pair of code units. -/
def isHighSurrogate (unit : Nat) : Bool :=
  0xD800 ≤ unit && unit ≤ 0xDBFF

/-- The second half of a pair of code units. -/
def isLowSurrogate (unit : Nat) : Bool :=
  0xDC00 ≤ unit && unit ≤ 0xDFFF

/-- The code point of a single code unit, which may be half of a pair. -/
def ofCodeUnit (unit : Nat) : CodePoint :=
  if h : 0xD800 ≤ unit ∧ unit ≤ 0xDFFF then .surrogate ⟨unit, h⟩ else .scalar (Char.ofNat unit)

/-- The code point written as `\uXXXX`, with how much of the text behind the `u`
    it takes up. The digits must not be the last characters of the text. A pair
    of code units makes one character; its second half must have digits, too,
    once it is begun. The position is that of the `u`. -/
def readCodeUnit (position : Nat) (rest : List Char) :
    Except (Problem × Nat) (CodePoint × Nat) :=
  if rest.length ≤ 4 then .error (.badCodeUnit, position)
  else match codeUnit? (rest.take 4) with
    | none => .error (.badCodeUnit, position)
    | some unit =>
      match isHighSurrogate unit && 10 < rest.length, rest.drop 4 with
      | true, '\\' :: 'u' :: more =>
        match codeUnit? (more.take 4) with
        | none => .error (.badCodeUnit, position + 6)
        | some low =>
          if isLowSurrogate low then
            .ok (.scalar (Char.ofNat (0x10000 + (unit - 0xD800) * 0x400 + (low - 0xDC00))), 10)
          else .ok (ofCodeUnit unit, 4)
      | _, _ => .ok (ofCodeUnit unit, 4)

/-- The rest of the string that opens at `opening`, up to its closing quote. -/
def readString (opening position : Nat) : List Char → Step CodePoints
  | [] => .error (.unterminatedString, opening)
  | c :: rest =>
    if c == '"' then .ok ([], ⟨position + 1, rest⟩)
    else if c == '\\' then
      match rest with
      | [] => .error (.unterminatedString, opening)
      | letter :: more =>
        if letter == 'u' then
          match readCodeUnit (position + 1) more with
          | .error problem => .error problem
          | .ok (point, length) =>
            (readString opening (position + 2 + length) (more.drop length)).map fun read =>
              (point :: read.1, read.2)
        else match escaped? letter with
          | none => .error (.unknownEscape, position)
          | some character =>
            (readString opening (position + 2) more).map fun read =>
              (.scalar character :: read.1, read.2)
    else if c.toNat ≤ 0x1F then .error (.controlCharacter, position)
    else (readString opening (position + 1) rest).map fun read => (.scalar c :: read.1, read.2)
termination_by cs => cs.length

/-! ## Numbers -/

/-- The digits at the front of a text. -/
def leadingDigits (cs : List Char) : List Char :=
  cs.takeWhile Char.isDigit

/-- The fraction at the front of a text: a point and digits. -/
def fractionDigits : List Char → List Char
  | '.' :: rest => leadingDigits rest
  | _ => []

/-- The exponent at the front of a text, with its length: 0 and 0 when there
    is none. -/
def exponentPart : List Char → Int × Nat
  | c :: rest =>
    if c == 'e' || c == 'E' then
      let sign := match rest with
        | s :: _ => if s == '+' || s == '-' then [s] else []
        | [] => []
      let digits := leadingDigits (rest.drop sign.length)
      let size := Markup.numberOfDigits 10 digits
      if digits.isEmpty then (0, 0)
      else (if sign == ['-'] then -size else size, digits.length + sign.length + 1)
    else (0, 0)
  | [] => (0, 0)

/-- A number without its sign. One without fraction and exponent is an integer. -/
def unsignedNumber? (negative : Bool) (cs : List Char) : Option (Value × Nat) :=
  let whole := match cs with
    | '0' :: _ => ['0']
    | _ => leadingDigits cs
  if whole.isEmpty then none
  else
    let behindWhole := cs.drop whole.length
    let fraction := fractionDigits behindWhole
    let point := if fraction.isEmpty then 0 else 1
    let exponent := exponentPart (behindWhole.drop (fraction.length + point))
    let length := whole.length + fraction.length + point + exponent.2
    let digits := Markup.numberOfDigits 10 (whole ++ fraction)
    if fraction.isEmpty && exponent.2 = 0 then
      some (.integer (if negative then -digits else digits), length)
    else
      some (.double (Binary64.ofDecimal negative digits (exponent.1 - fraction.length)), length)

/-- A number, with how much of the text it takes up. -/
def number? : List Char → Option (Value × Nat)
  | '-' :: rest => (unsignedNumber? true rest).map fun found => (found.1, found.2 + 1)
  | cs => unsignedNumber? false cs

/-! ## Values -/

/-- The words that stand for values. -/
def words : List (List Char × Value) :=
  [("null".toList, .null), ("true".toList, .bool true), ("false".toList, .bool false),
   ("NaN".toList, .double .nan), ("Infinity".toList, .double (.infinity false)),
   ("-Infinity".toList, .double (.infinity true))]

/-- A value that is no string and holds no others. -/
def readScalar (cursor : Cursor) : Step Value :=
  match words.find? fun word => word.1.isPrefixOf cursor.rest with
  | some word => .ok (word.2, cursor.skip word.1.length)
  | none =>
    match number? cursor.rest with
    | some (value, length) => .ok (value, cursor.skip length)
    | none => .error (.valueExpected, cursor.position)

mutual

/-- Read a value. -/
def readValue : Nat → Cursor → Step Value
  | 0, cursor => .error (.valueExpected, cursor.position)
  | fuel + 1, cursor =>
    match cursor.rest with
    | '"' :: rest =>
      (readString cursor.position (cursor.position + 1) rest).map fun read =>
        (.string read.1, read.2)
    | '{' :: _ =>
      let inner := (cursor.skip 1).skipSpace
      match inner.rest with
      | '}' :: _ => .ok (.object [], inner.skip 1)
      | _ => (readMembers fuel [] inner).map fun read => (.object read.1, read.2)
    | '[' :: _ =>
      let inner := (cursor.skip 1).skipSpace
      match inner.rest with
      | ']' :: _ => .ok (.array [], inner.skip 1)
      | _ => (readItems fuel inner).map fun read => (.array read.1, read.2)
    | _ => readScalar cursor

/-- Read the items of an array up to its closing bracket. -/
def readItems : Nat → Cursor → Except (Problem × Nat) (List Value × Cursor)
  | 0, cursor => .error (.valueExpected, cursor.position)
  | fuel + 1, cursor => do
    let (item, behind) ← readValue fuel cursor
    let next := behind.skipSpace
    match next.rest with
    | ']' :: _ => .ok ([item], next.skip 1)
    | ',' :: _ =>
      let (items, last) ← readItems fuel (next.skip 1).skipSpace
      .ok (item :: items, last)
    | _ => .error (.commaExpected, next.position)

/-- Read the members of an object up to its closing brace, and add them to
    those read before. -/
def readMembers : Nat → Members → Cursor → Except (Problem × Nat) (Members × Cursor)
  | 0, _, cursor => .error (.valueExpected, cursor.position)
  | fuel + 1, members, cursor =>
    match cursor.rest with
    | '"' :: rest => do
      let (key, behindKey) ← readString cursor.position (cursor.position + 1) rest
      let colon := behindKey.skipSpace
      match colon.rest with
      | ':' :: _ =>
        let (value, behind) ← readValue fuel (colon.skip 1).skipSpace
        let members' := Members.put key value members
        let next := behind.skipSpace
        match next.rest with
        | '}' :: _ => .ok (members', next.skip 1)
        | ',' :: _ => readMembers fuel members' (next.skip 1).skipSpace
        | _ => .error (.commaExpected, next.position)
      | _ => .error (.colonExpected, colon.position)
    | _ => .error (.nameExpected, cursor.position)

end

/-- Read a text that holds one value and white space around it. -/
def readDocument (text : List Char) : Except (Problem × Nat) Value := do
  if text.head? = some '\uFEFF' then .error (.byteOrderMark, 0)
  else
    let (value, behind) ← readValue (text.length + 1) (Cursor.skipSpace ⟨0, text⟩)
    let last := behind.skipSpace
    if last.rest.isEmpty then .ok value else .error (.extraData, last.position)

/-- The value that a text stands for. -/
def parse (text : List Char) : Except SyntaxError Value :=
  (readDocument text).mapError fun problem => SyntaxError.at text problem.1 problem.2

end TemplateAnalysis.Json
