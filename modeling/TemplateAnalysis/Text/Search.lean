/-! # Searching in texts

    Positions are counted in characters from the start of the text, and a
    position that is not there is `none`.
-/

namespace TemplateAnalysis.Text

/-- Does `token` stand in `text` at `position`? -/
def occursAt (token text : List Char) (position : Nat) : Bool :=
  token.isPrefixOf (text.drop position)

/-- Where `token` first stands in the text. -/
def indexOf? (token : List Char) : List Char → Option Nat
  | [] => if token.isEmpty then some 0 else none
  | c :: rest =>
    if token.isPrefixOf (c :: rest) then some 0 else (indexOf? token rest).map (· + 1)

/-- Where `token` last stands in the text. -/
def lastIndexOf? (token : List Char) : List Char → Option Nat
  | [] => if token.isEmpty then some 0 else none
  | c :: rest =>
    match lastIndexOf? token rest with
    | some i => some (i + 1)
    | none => if token.isPrefixOf (c :: rest) then some 0 else none

/-- Does `token` stand anywhere in the text? -/
def contains (token text : List Char) : Bool :=
  (indexOf? token text).isSome

/-- The parts of a text between its separators: always one more than there
    are separators. -/
def splitOn (separator : Char) : List Char → List (List Char)
  | [] => [[]]
  | c :: rest =>
    if c = separator then [] :: splitOn separator rest
    else match splitOn separator rest with
      | [] => [[c]]
      | part :: parts => (c :: part) :: parts

/-- Texts with a separator between each two. -/
def joinWith (separator : List Char) (parts : List (List Char)) : List Char :=
  (parts.intersperse separator).flatten

/-- The text behind `token`, when the text begins with it. -/
def after? (token : List Char) : List Char → Option (List Char) :=
  fun text => if token.isPrefixOf text then some (text.drop token.length) else none

end TemplateAnalysis.Text
