import TemplateAnalysis.Decimal.Binary64
import TemplateAnalysis.Text.Blank
import TemplateAnalysis.Text.Digit

/-! # Reading numbers

    A number in a text may have blanks around it, a sign, digits of any script
    with single underscores between them, a point, and an exponent. The
    infinities and the number that is none have names, in any case.
-/

namespace TemplateAnalysis.Decimal

open Text

/-- A decimal digit of any script as one of ASCII. -/
def asciiDigit (c : Char) : Char :=
  match digitValue? c with
  | some n => Nat.digitChar n
  | none => c

/-- The text without its underscores, when each of them stands between digits. -/
def joinDigits? (afterDigit : Bool) : List Char → Option (List Char)
  | [] => some []
  | c :: rest =>
    if c = '_' then
      if afterDigit && rest.head?.any Char.isDigit then joinDigits? false rest else none
    else (joinDigits? c.isDigit rest).map (c :: ·)

/-- The number that ASCII digits stand for. -/
def naturalOf (digits : List Char) : Nat :=
  digits.foldl (fun n c => n * 10 + (c.toNat - '0'.toNat)) 0

/-- The exponent that is the whole of a text: 0 for the empty text. -/
def exponentOf? : List Char → Option Int
  | [] => some 0
  | c :: rest =>
    if c = 'e' || c = 'E' then
      let negative := rest.head? = some '-'
      let digits := if negative || rest.head? = some '+' then rest.drop 1 else rest
      if digits.isEmpty || !digits.all Char.isDigit then none
      else some (if negative then -(naturalOf digits : Int) else naturalOf digits)
    else none

/-- The number without a sign that a text stands for. -/
def unsignedOf? (negative : Bool) (cs : List Char) : Option Binary64 :=
  let word := String.ofList (cs.map Char.toLower)
  if word = "inf" || word = "infinity" then some (.infinity negative)
  else if word = "nan" then some .nan
  else
    let whole := cs.takeWhile Char.isDigit
    let behind := cs.drop whole.length
    let fraction := match behind with
      | '.' :: rest => rest.takeWhile Char.isDigit
      | _ => []
    let point := if behind.head? = some '.' then 1 else 0
    if whole.isEmpty && fraction.isEmpty then none
    else (exponentOf? (behind.drop (point + fraction.length))).map fun exponent =>
      .ofDecimal negative (naturalOf (whole ++ fraction)) (exponent - fraction.length)

/-- The number that a text stands for. -/
def Binary64.ofText? (text : List Char) : Option Binary64 :=
  match joinDigits? false ((trim text).map asciiDigit) with
  | some ('-' :: rest) => unsignedOf? true rest
  | some ('+' :: rest) => unsignedOf? false rest
  | some cs => unsignedOf? false cs
  | none => none

end TemplateAnalysis.Decimal
