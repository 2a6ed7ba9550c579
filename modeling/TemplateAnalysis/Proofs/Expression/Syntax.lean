import TemplateAnalysis.Expression.Literal
import TemplateAnalysis.Expression.Word
import TemplateAnalysis.Variable.Chain

/-! # Syntax of expressions

    The expressions that a template author writes, as trees. Every tree is
    printed in one way, up to the blanks behind the commas of arguments, and
    says which paths it reads:

    * **`Term.print`** is the text of an expression;
    * **`Term.pieces`** are the tokens it is made of, without positions;
    * **`Term.reads`** are the paths it reads, from left to right: those of a
      chain first, shortest first, and then those of what is nested in it.

    The leaves of a tree carry the proofs that they are what they are called,
    so that there is no tree without a text.
-/

namespace TemplateAnalysis.Expression

open Text Variable

/-! ## Leaves -/

/-- The two quotes that a literal can stand in. -/
inductive Quote
  | single
  | double
  deriving DecidableEq, Repr

/-- The character of a quote. -/
def Quote.char : Quote → Char
  | .single => '\''
  | .double => '"'

/-- An unsigned number: digits, with more digits behind a point if there are
    any. -/
structure Number where
  whole : List Char
  fraction : List Char
  whole_ne_nil : whole ≠ []
  whole_digits : ∀ c ∈ whole, isDigit c = true
  fraction_digits : ∀ c ∈ fraction, isDigit c = true

/-- The text of a number. -/
def Number.print (number : Number) : List Char :=
  if number.fraction = [] then number.whole
  else number.whole ++ '.' :: number.fraction

/-- A character that stands for itself in a literal. -/
def isPlain (c : Char) : Bool :=
  !isQuote c && c != '\\' && c != '{' && c != '}'

/-- A text in quotes. -/
structure Literal where
  quote : Quote
  content : List Char
  content_plain : ∀ c ∈ content, isPlain c = true

/-- The text of a literal. -/
def Literal.print (literal : Literal) : List Char :=
  literal.quote.char :: literal.content ++ [literal.quote.char]

/-- An identifier. -/
structure Name where
  text : List Char
  identifier : isIdentifier text = true

/-- An identifier that can be a variable: no word of the expression language,
    no security function, and more than underscores. -/
structure VariableName extends Name where
  not_reserved : isReservedWord text = false
  not_security : isSecurityFunction text = false
  not_underscores : isUnderscores text = false

/-- Utility objects with a meaning of their own: the form fields, and those
    whose members are variables. -/
def scopeObjects : List String :=
  ["fields", "vars", "authentication"]

/-- An identifier of any other utility object. -/
structure UtilityName extends Name where
  not_scope : String.ofList text ∉ scopeObjects

/-- Blanks behind a comma. -/
structure Gap where
  text : List Char
  blank : ∀ c ∈ text, isBlank c = true

/-- The operators between two operands. -/
inductive Operator
  | plus | minus | times | divide | remainder
  | equal | unequal | above | below | atLeast | atMost
  | both | either | andWord | orWord
  deriving DecidableEq, Repr

/-- The text of an operator. -/
def Operator.text : Operator → List Char
  | .plus => ['+']
  | .minus => ['-']
  | .times => ['*']
  | .divide => ['/']
  | .remainder => ['%']
  | .equal => ['=', '=']
  | .unequal => ['!', '=']
  | .above => ['>']
  | .below => ['<']
  | .atLeast => ['>', '=']
  | .atMost => ['<', '=']
  | .both => ['&', '&']
  | .either => ['|', '|']
  | .andWord => ['a', 'n', 'd']
  | .orWord => ['o', 'r']

/-- Is the operator spelled as a word? -/
def Operator.isWord : Operator → Bool
  | .andWord | .orWord => true
  | _ => false

/-! ## Trees -/

mutual

/-- An expression. -/
inductive Term
  | number (number : Number)
  | literal (literal : Literal)
  /-- `(e)`. -/
  | group (inner : Term)
  /-- `e OP e`. -/
  | binary (left : Term) (operator : Operator) (right : Term)
  /-- `e ? e : e`. -/
  | choice (condition yes no : Term)
  /-- `e ?: e`. -/
  | fallback (first other : Term)
  /-- A variable and what is read from it. -/
  | chain (name : VariableName) (accessors : List Accessor)
  /-- A utility object and what is called on it. -/
  | utility (object : UtilityName) (accessors : List Accessor)

/-- What can stand behind a variable, a utility object, or another accessor. -/
inductive Accessor
  /-- `.name`, or `?.name`. -/
  | member (safe : Bool) (name : Name)
  /-- `.name(arguments)`, or `?.name(arguments)`. -/
  | call (safe : Bool) (name : Name) (arguments : List Term)
  /-- `[e]`. A literal that is an identifier is a key here as well. -/
  | index (index : Term)
  /-- `['key']`. -/
  | item (quote : Quote) (key : Name)
  /-- `.?[e]`. -/
  | selection (condition : Term)
  /-- `.![e]`. -/
  | projection (body : Term)

end

/-! ## Text -/

/-- The sign of a member. -/
def memberSign (safe : Bool) : List Char :=
  if safe then ['?', '.'] else ['.']

mutual

/-- The text of an expression. Operators have a blank on either side. -/
def Term.print (gap : Gap) : Term → List Char
  | .number number => number.print
  | .literal literal => literal.print
  | .group inner => '(' :: inner.print gap ++ [')']
  | .binary left operator right =>
    left.print gap ++ ' ' :: operator.text ++ ' ' :: right.print gap
  | .choice condition yes no =>
    condition.print gap ++ [' ', '?', ' '] ++ yes.print gap ++ [' ', ':', ' '] ++ no.print gap
  | .fallback first other => first.print gap ++ [' ', '?', ':', ' '] ++ other.print gap
  | .chain name accessors => name.text ++ printAccessors gap accessors
  | .utility object accessors => '#' :: object.text ++ printAccessors gap accessors

/-- The text of an accessor. -/
def Accessor.print (gap : Gap) : Accessor → List Char
  | .member safe name => memberSign safe ++ name.text
  | .call safe name arguments =>
    memberSign safe ++ name.text ++ '(' :: printArguments gap arguments ++ [')']
  | .index index => '[' :: index.print gap ++ [']']
  | .item quote key => '[' :: quote.char :: key.text ++ [quote.char, ']']
  | .selection condition => '.' :: '?' :: '[' :: condition.print gap ++ [']']
  | .projection body => '.' :: '!' :: '[' :: body.print gap ++ [']']

/-- The text of accessors in a row. -/
def printAccessors (gap : Gap) : List Accessor → List Char
  | [] => []
  | accessor :: rest => accessor.print gap ++ printAccessors gap rest

/-- The text of arguments. -/
def printArguments (gap : Gap) : List Term → List Char
  | [] => []
  | argument :: rest => argument.print gap ++ printMoreArguments gap rest

/-- The text of the arguments behind the first one. -/
def printMoreArguments (gap : Gap) : List Term → List Char
  | [] => []
  | argument :: rest =>
    ',' :: gap.text ++ argument.print gap ++ printMoreArguments gap rest

end

/-! ## Tokens -/

/-- A token without its position. -/
abbrev Piece := TokenKind × List Char

/-- The token of an operator. -/
def Operator.piece (operator : Operator) : Piece :=
  (if operator.isWord then .identifier else .operator, operator.text)

/-- The token of the sign of a member. -/
def memberPiece (safe : Bool) : Piece :=
  (if safe then .safe else .dot, memberSign safe)

/-- Tokens in a pair of brackets. -/
def inBrackets (opener : Char) (inner : List Piece) (closer : Char) : List Piece :=
  (.opening, [opener]) :: inner ++ [(.closing, [closer])]

mutual

/-- The tokens of an expression. -/
def Term.pieces : Term → List Piece
  | .number number => [(.number, number.print)]
  | .literal literal => [(.string, literal.print)]
  | .group inner => inBrackets '(' inner.pieces ')'
  | .binary left operator right => left.pieces ++ operator.piece :: right.pieces
  | .choice condition yes no =>
    condition.pieces ++ (.operator, ['?']) :: yes.pieces ++ (.operator, [':']) :: no.pieces
  | .fallback first other => first.pieces ++ (.operator, ['?', ':']) :: other.pieces
  | .chain name accessors => (.identifier, name.text) :: accessorPieces accessors
  | .utility object accessors => (.utility, '#' :: object.text) :: accessorPieces accessors

/-- The tokens of an accessor. -/
def Accessor.pieces : Accessor → List Piece
  | .member safe name => [memberPiece safe, (.identifier, name.text)]
  | .call safe name arguments =>
    memberPiece safe :: (.identifier, name.text) :: inBrackets '(' (argumentPieces arguments) ')'
  | .index index => inBrackets '[' index.pieces ']'
  | .item quote key =>
    inBrackets '[' [(.string, quote.char :: key.text ++ [quote.char])] ']'
  | .selection condition => (.filter, ['.', '?']) :: inBrackets '[' condition.pieces ']'
  | .projection body => (.filter, ['.', '!']) :: inBrackets '[' body.pieces ']'

/-- The tokens of accessors in a row. -/
def accessorPieces : List Accessor → List Piece
  | [] => []
  | accessor :: rest => accessor.pieces ++ accessorPieces rest

/-- The tokens of arguments. -/
def argumentPieces : List Term → List Piece
  | [] => []
  | argument :: rest => argument.pieces ++ moreArgumentPieces rest

/-- The tokens of the arguments behind the first one. -/
def moreArgumentPieces : List Term → List Piece
  | [] => []
  | argument :: rest => (.operator, [',']) :: argument.pieces ++ moreArgumentPieces rest

end

/-! ## Meaning -/

/-- The dotted prefixes of a path, shortest first. -/
def dottedPrefixes (segments : List (List Char)) : List (List Char) :=
  (List.range segments.length).map fun n => joinWith ['.'] (segments.take (n + 1))

/-- The key that an expression alone between square brackets is: a literal that
    is an identifier. -/
def Term.keys : Term → List (List Char)
  | .literal text => if isIdentifier text.content then [text.content] else []
  | _ => []

/-- The segments that accessors add to a path. An aggregate that is called
    without arguments behind a selection or projection adds none. -/
def segmentsAdded (selected : Bool) : List Accessor → List (List Char)
  | [] => []
  | .member _ name :: rest => name.text :: segmentsAdded selected rest
  | .call _ name arguments :: rest =>
    if selected && arguments.isEmpty && aggregateMethods.contains (String.ofList name.text) then
      segmentsAdded selected rest
    else name.text :: segmentsAdded selected rest
  | .item _ key :: rest => key.text :: segmentsAdded selected rest
  | .index inner :: rest => inner.keys ++ segmentsAdded selected rest
  | .selection _ :: rest | .projection _ :: rest => segmentsAdded true rest

mutual

/-- The paths that an expression reads, from left to right. A chain reads all
    prefixes of its path before what is nested in it. -/
def Term.reads : Term → List (List Char)
  | .number _ | .literal _ => []
  | .group inner => inner.reads
  | .binary left _ right => left.reads ++ right.reads
  | .choice condition yes no => condition.reads ++ yes.reads ++ no.reads
  | .fallback first other => first.reads ++ other.reads
  | .chain name accessors =>
    dottedPrefixes (name.text :: segmentsAdded false accessors) ++ accessorReads accessors
  | .utility _ accessors => accessorReads accessors

/-- The paths that are read in the brackets of an accessor. -/
def Accessor.reads : Accessor → List (List Char)
  | .member _ _ | .item _ _ => []
  | .call _ _ arguments => argumentReads arguments
  | .index inner | .selection inner | .projection inner => inner.reads

/-- The paths that are read in the brackets of accessors in a row. -/
def accessorReads : List Accessor → List (List Char)
  | [] => []
  | accessor :: rest => accessor.reads ++ accessorReads rest

/-- The paths that arguments read. -/
def argumentReads : List Term → List (List Char)
  | [] => []
  | argument :: rest => argument.reads ++ argumentReads rest

end

end TemplateAnalysis.Expression
