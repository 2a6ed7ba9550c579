import TemplateAnalysis.Markup.CharacterName

/-! # Character references

    In the value of an attribute a character can be written as a reference: by
    its code point, `&#8364;` or `&#x20ac;`, or by its name, `&euro;`. Text
    that only looks like a reference stays as it is, but for a name that some
    longer text begins with: then the longest such name counts.
-/

namespace TemplateAnalysis.Markup

/-! ## Code points -/

/-- The characters that the references 128 to 159 stand for, in order: those
    of the Western code page, not the control characters of these numbers. -/
def westernCodePoints : List Nat :=
  [0x20AC, 0x81, 0x201A, 0x192, 0x201E, 0x2026, 0x2020, 0x2021,
   0x2C6, 0x2030, 0x160, 0x2039, 0x152, 0x8D, 0x17D, 0x8F,
   0x90, 0x2018, 0x2019, 0x201C, 0x201D, 0x2022, 0x2013, 0x2014,
   0x2DC, 0x2122, 0x161, 0x203A, 0x153, 0x9D, 0x17E, 0x178]

/-- A code point that stands for no character: a control, or one that is set
    aside for good. -/
def isNonCharacter (n : Nat) : Bool :=
  (1 ≤ n && n ≤ 8) || n == 0xB || (0xE ≤ n && n ≤ 0x1F) || n == 0x7F ||
    (0xFDD0 ≤ n && n ≤ 0xFDEF) || n % 0x10000 == 0xFFFE || n % 0x10000 == 0xFFFF

/-- The text that a reference by code point stands for. -/
def charactersOfCodePoint (n : Nat) : List Char :=
  if n = 0 then ['\uFFFD']
  else if 0x80 ≤ n && n ≤ 0x9F then
    [Char.ofNat ((westernCodePoints[n - 0x80]?).getD n)]
  else if (0xD800 ≤ n && n ≤ 0xDFFF) || 0x10FFFF < n then ['\uFFFD']
  else if isNonCharacter n then []
  else [Char.ofNat n]

/-- The value of a hexadecimal digit. -/
def hexValue? (c : Char) : Option Nat :=
  if c.isDigit then some (c.toNat - '0'.toNat)
  else if 'a' ≤ c && c ≤ 'f' then some (c.toNat - 'a'.toNat + 10)
  else if 'A' ≤ c && c ≤ 'F' then some (c.toNat - 'A'.toNat + 10)
  else none

/-- A hexadecimal digit. -/
def isHexDigit (c : Char) : Bool :=
  (hexValue? c).isSome

/-- The number that digits of a base stand for. -/
def numberOfDigits (base : Nat) (digits : List Char) : Nat :=
  digits.foldl (fun n c => n * base + (hexValue? c).getD 0) 0

/-- Is there a semicolon at the front? -/
def semicolonLength : List Char → Nat
  | ';' :: _ => 1
  | _ => 0

/-- A reference by code point, behind its `&#`: what it stands for and how long
    it is. -/
def codePointReference? : List Char → Option (List Char × Nat)
  | [] => none
  | c :: rest =>
    if c == 'x' || c == 'X' then
      let digits := rest.takeWhile isHexDigit
      if digits.isEmpty then none
      else some (charactersOfCodePoint (numberOfDigits 16 digits),
        digits.length + 1 + semicolonLength (rest.drop digits.length))
    else
      let digits := (c :: rest).takeWhile Char.isDigit
      if digits.isEmpty then none
      else some (charactersOfCodePoint (numberOfDigits 10 digits),
        digits.length + semicolonLength ((c :: rest).drop digits.length))

/-! ## Names -/

/-- A character that a name of a character can hold. -/
def isReferenceChar (c : Char) : Bool :=
  !("\t\n\x0c <&#;".toList.contains c)

/-- The text with the longest name among its first `length` characters, of two
    or more, replaced by what it stands for. -/
def expandName? (text : List Char) : Nat → Option (List Char)
  | 0 => none
  | length + 1 =>
    if length = 0 then none
    else match namedCharacters? (text.take (length + 1)) with
      | some characters => some (characters ++ text.drop (length + 1))
      | none => expandName? text length

/-- A reference by name, behind its `&`: what it stands for and how long it
    is. A name has at most 32 characters. -/
def nameReference? (cs : List Char) : Option (List Char × Nat) :=
  let name := (cs.take 32).takeWhile isReferenceChar
  if name.isEmpty then none
  else
    let length := name.length + semicolonLength (cs.drop name.length)
    let text := cs.take length
    -- A name that is known as a whole wins over the shorter ones in it.
    let expanded := match namedCharacters? text with
      | some characters => characters
      | none => (expandName? text (length - 1)).getD ('&' :: text)
    some (expanded, length)

/-- The text with its character references replaced. -/
def decodeReferences : List Char → List Char
  | [] => []
  | c :: rest =>
    if c == '&' then
      let reference := match rest with
        | '#' :: number => (codePointReference? number).map fun r => (r.1, r.2 + 1)
        | _ => nameReference? rest
      match reference with
      | some (characters, length) => characters ++ decodeReferences (rest.drop length)
      | none => c :: decodeReferences rest
    else c :: decodeReferences rest
termination_by cs => cs.length

end TemplateAnalysis.Markup
