/-! # Lines

    A line ends at a line feed, a carriage return, the two together, a
    vertical tab, a form feed, one of the separators U+001C to U+001E, the
    next-line control, or a line or paragraph separator. A text that ends with
    a line end has no empty line behind it.
-/

namespace TemplateAnalysis.Text

/-- A character that ends a line. -/
def isLineEnd (c : Char) : Bool :=
  let n := c.toNat
  (10 ≤ n && n ≤ 13) || (28 ≤ n && n ≤ 30) || n == 0x85 || n == 0x2028 || n == 0x2029

/-- The lines of a text without their ends. -/
def lines : List Char → List (List Char)
  | [] => []
  -- The two together are one line end.
  | '\r' :: '\n' :: rest => [] :: lines rest
  | c :: rest =>
    if isLineEnd c then [] :: lines rest
    else match lines rest with
      | [] => [[c]]
      | line :: more => (c :: line) :: more

/-- Every line end of the kinds CR and CR LF written as a line feed, as text
    files are read. -/
def unifyNewlines : List Char → List Char
  | [] => []
  | '\r' :: '\n' :: rest => '\n' :: unifyNewlines rest
  | '\r' :: rest => '\n' :: unifyNewlines rest
  | c :: rest => c :: unifyNewlines rest

end TemplateAnalysis.Text
