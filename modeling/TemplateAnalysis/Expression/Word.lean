import TemplateAnalysis.Text.LowerCase
import TemplateAnalysis.Text.Blank

/-! # Words with a meaning of their own

    Names that are never variables: the words of the expression language, in
    any case, and the security functions. Operators are listed as well.
-/

namespace TemplateAnalysis.Expression

open Text

/-- The words of the expression language, in lower case. -/
def reservedWords : List String :=
  ["and", "or", "not", "gt", "ge", "lt", "le", "eq", "ne",
   "true", "false", "null", "instanceof", "new", "return",
   "this", "matches", "contains", "startswith", "endswith",
   "size", "length"]

/-- The functions and objects of security expressions. -/
def securityFunctions : List String :=
  ["hasRole", "hasAnyRole", "hasAuthority", "hasAnyAuthority",
   "principal", "authentication", "permitAll", "denyAll",
   "isAnonymous", "isAuthenticated", "isFullyAuthenticated",
   "hasIpAddress", "hasAnyPermission"]

/-- The operators, the separators and the operators spelled as words. -/
def operators : List String :=
  ["+", "-", "*", "/", "%",
   "==", "!=", ">", "<", ">=", "<=",
   "and", "or", "not",
   "&&", "||", "!",
   "?", ":", "?:",
   ".", ",", "(", ")", "[", "]",
   "=", "+=", "-=", "*=", "/=", "%="]

/-- A word of the expression language, in any case. -/
def isReservedWord (word : List Char) : Bool :=
  reservedWords.contains (String.ofList (lower (trim word)))

/-- A security function. Case matters. -/
def isSecurityFunction (word : List Char) : Bool :=
  securityFunctions.contains (String.ofList (trim word))

/-- An operator. Case matters. -/
def isOperator (word : List Char) : Bool :=
  operators.contains (String.ofList (trim word))

end TemplateAnalysis.Expression
