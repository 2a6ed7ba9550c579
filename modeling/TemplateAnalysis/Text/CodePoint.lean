import TemplateAnalysis.Text.Quoted

/-! # Code points

    A text file holds characters. A string of data may also hold half of a surrogate
    pair without the other half: it can be escaped there, but UTF-8 has no bytes
    for it, so such a string cannot be written.
-/

namespace TemplateAnalysis.Text

/-- Half of a surrogate pair. -/
structure Surrogate where
  unit : Nat
  inRange : 0xD800 ≤ unit ∧ unit ≤ 0xDFFF
  deriving DecidableEq, Repr

/-- What a string is made of. -/
inductive CodePoint
  | scalar (c : Char)
  | surrogate (half : Surrogate)
  deriving DecidableEq, Repr

/-- The character, unless it is half of a pair. -/
def CodePoint.char? : CodePoint → Option Char
  | .scalar c => some c
  | .surrogate _ => none

/-- A string of any code points. -/
abbrev CodePoints := List CodePoint

namespace CodePoints

/-- The code points of characters. -/
def ofList (cs : List Char) : CodePoints :=
  cs.map .scalar

/-- The code points of a string of characters. -/
def ofString (s : String) : CodePoints :=
  ofList s.toList

instance : Coe String CodePoints := ⟨ofString⟩

/-- The characters among code points. -/
def chars (points : CodePoints) : List Char :=
  points.filterMap CodePoint.char?

/-- Are there no halves of pairs? -/
def Paired (points : CodePoints) : Prop :=
  ∀ point ∈ points, point.char?.isSome = true

instance (points : CodePoints) : Decidable points.Paired :=
  inferInstanceAs (Decidable (∀ point ∈ points, point.char?.isSome = true))

/-- The stretches of characters between halves of pairs: always one more than
    there are halves. -/
def stretches : CodePoints → List (List Char)
  | [] => [[]]
  | .surrogate _ :: rest => [] :: stretches rest
  | .scalar c :: rest =>
    match stretches rest with
    | [] => [[c]]
    | stretch :: others => (c :: stretch) :: others

end CodePoints

/-! ## Writing -/

/-- Halves of pairs in a row, which UTF-8 has no bytes for: the first of them, and
    the positions of the first and the last one. -/
structure EncodingError where
  half : Surrogate
  first : Nat
  last : Nat
  deriving DecidableEq, Repr

/-- The words for such halves. -/
def EncodingError.message (error : EncodingError) : String :=
  let place :=
    if error.first = error.last then
      "character '\\u" ++ String.ofList (hexDigits 4 error.half.unit) ++ "' in position " ++
        toString error.first
    else
      "characters in position " ++ toString error.first ++ "-" ++ toString error.last
  "'utf-8' codec can't encode " ++ place ++ ": surrogates not allowed"

namespace CodePoints

/-- The first halves of pairs in a string. Its first code point has the given
    position. -/
def unpaired? (position : Nat) : CodePoints → Option EncodingError
  | [] => none
  | .scalar _ :: rest => unpaired? (position + 1) rest
  | .surrogate half :: rest =>
    some ⟨half, position, position + (rest.takeWhile (·.char?.isNone)).length⟩

/-- What of some strings, written one after the other, comes to be written: a string
    with half of a pair does not, nor does any behind it. -/
def written (strings : List CodePoints) : List Char :=
  (strings.takeWhile fun points => points.Paired).flatMap chars

/-- What stops the writing of strings, if anything. -/
def encodingError? (strings : List CodePoints) : Option EncodingError :=
  strings.findSome? (unpaired? 0)

end CodePoints

-- Nothing of the second string is written, though its half comes last.
example :
    let half := CodePoint.surrogate ⟨0xD800, by decide⟩
    CodePoints.written ["one", CodePoints.ofString "two" ++ [half], "three"] = "one".toList :=
  rfl

end TemplateAnalysis.Text
