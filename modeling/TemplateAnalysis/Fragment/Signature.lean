import TemplateAnalysis.Text.WordChar
import TemplateAnalysis.Expression.Nesting

/-! # Fragment signatures

    A fragment is declared under a name, with parameters in parentheses when
    it takes any: `card(title, body='none')`.
-/

namespace TemplateAnalysis.Fragment

open Text Expression

/-- The name of a fragment and the names of its parameters. -/
structure Signature where
  name : List Char
  parameters : List (List Char)
  deriving DecidableEq, Repr

/-- The name of a parameter: what stands before the first `=`, which begins its
    default. -/
def parameterName (parameter : List Char) : List Char :=
  trim (parameter.takeWhile (· != '='))

/-- What stands between an opening parenthesis at the front of a text and a
    closing one at its end. -/
def parenthesized? : List Char → Option (List Char)
  | '(' :: rest => if rest.getLast? = some ')' then some rest.dropLast else none
  | _ => none

/-- Read the value of a fragment declaration. A value that is no signature is a
    name as a whole. -/
def Signature.ofText (value : List Char) : Signature :=
  let text := trim value
  let name := text.takeWhile isNameChar
  let behind := trimLeft (text.drop name.length)
  if name.isEmpty then ⟨text, []⟩
  else if behind.isEmpty then ⟨name, []⟩
  else match parenthesized? behind with
    | some parameters => ⟨name, (splitParameters parameters).map parameterName⟩
    | none => ⟨text, []⟩

end TemplateAnalysis.Fragment
