import TemplateAnalysis.Text.WordChar
import TemplateAnalysis.Expression.Span

/-! # Tokens

    The body of an expression is cut into tokens. At every position the kinds
    are tried in a fixed order and the first that fits is taken:

    * **string** literals, closed on the spot;
    * **nested** expressions, kept whole; an unclosed one loses its sigil and
      its brace and the rest is read on;
    * **utility** objects (`#name`), **beans** (`@name`), **numbers** and
      **identifiers**;
    * **filters**, a selection or projection sign right before a `[`; **safe**
      navigation, `?.` right before a name; the **dot**;
    * brackets and operators.

    Blanks, and characters that begin no token, are passed over one by one.
-/

namespace TemplateAnalysis.Expression

open Text

inductive TokenKind
  | string
  | nested
  | utility
  | bean
  | number
  | identifier
  | filter
  | safe
  | dot
  | opening
  | closing
  | operator
  deriving DecidableEq, Repr

structure Token where
  kind : TokenKind
  text : List Char
  position : Nat
  deriving DecidableEq, Repr

/-- What stands at the front of a text: a token of some kind, or something to
    pass over, `length` characters of it. -/
structure Lexeme where
  kind : Option TokenKind
  length : Nat
  deriving DecidableEq, Repr

/-! ## Strings -/

/-- The length of a single-quoted literal behind its opening quote. Two quotes
    in a row stand for one, unless the literal is not closed further on: then
    the first of them closes it. A backslash covers any character but a
    newline. -/
def singleQuotedLength : List Char → Option Nat
  | [] => none
  | '\'' :: rest =>
    match rest with
    | '\'' :: more =>
      -- Two quotes stand for one as long as another quote closes the literal.
      match singleQuotedLength more with
      | some n => some (n + 2)
      | none => some 1
    | _ => some 1
  | '\\' :: rest =>
    match rest with
    | [] => none
    | d :: more => if d = '\n' then none else (singleQuotedLength more).map (· + 2)
  | _ :: rest => (singleQuotedLength rest).map (· + 1)

/-- The length of a double-quoted literal behind its opening quote. -/
def doubleQuotedLength : List Char → Option Nat
  | [] => none
  | '"' :: _ => some 1
  | '\\' :: rest =>
    match rest with
    | [] => none
    | d :: more => if d = '\n' then none else (doubleQuotedLength more).map (· + 2)
  | _ :: rest => (doubleQuotedLength rest).map (· + 1)

/-- A string literal with both its quotes. -/
def stringLexeme? : List Char → Option Lexeme
  | '\'' :: rest => (singleQuotedLength rest).map fun n => ⟨some .string, n + 1⟩
  | '"' :: rest => (doubleQuotedLength rest).map fun n => ⟨some .string, n + 1⟩
  | _ => none

/-! ## Nested expressions -/

/-- A nested expression up to its closing brace. -/
def nestedLexeme? : List Char → Option Lexeme
  | c :: d :: rest =>
    if isSigil c && d == '{' then
      match closingOffset '{' '}' .outside 0 (d :: rest) with
      | some k => some ⟨some .nested, k + 2⟩
      -- Never closed: the sigil and the brace are passed over, the rest is read on.
      | none => some ⟨none, 2⟩
    else none
  | _ => none

/-! ## Numbers -/

/-- Does a word character come first? -/
def startsWithWord : List Char → Bool
  | [] => false
  | c :: _ => isWordChar c

/-- The length of the exponent at the front, 0 when there is none. -/
def exponentLength : List Char → Nat
  | c :: rest =>
    if c == 'e' || c == 'E' then
      match rest with
      | d :: more =>
        if d == '+' || d == '-' then
          let digits := (more.takeWhile isDigit).length
          if digits = 0 then 0 else digits + 2
        else
          let digits := (rest.takeWhile isDigit).length
          if digits = 0 then 0 else digits + 1
      | [] => 0
    else 0
  | [] => 0

/-- The length of the fraction at the front, 0 when there is none. -/
def fractionLength : List Char → Nat
  | '.' :: rest =>
    let digits := (rest.takeWhile isDigit).length
    if digits = 0 then 0 else digits + 1
  | _ => 0

/-- Is there a type letter at the front? -/
def suffixLength : List Char → Nat
  | c :: _ => if "lLfFdD".toList.contains c then 1 else 0
  | [] => 0

/-- The length of a number whose first `mantissa` characters are read: the
    exponent and the type letter follow, and no word character may come next. -/
def numberLengthFrom (mantissa : Nat) (cs : List Char) : Option Nat :=
  let behindExponent := mantissa + exponentLength (cs.drop mantissa)
  let stop := behindExponent + suffixLength (cs.drop behindExponent)
  if startsWithWord (cs.drop stop) then none else some stop

/-- A number. When it cannot end behind its fraction, it ends before it. -/
def numberLexeme? (cs : List Char) : Option Lexeme :=
  let digits := (cs.takeWhile isDigit).length
  if digits = 0 then none
  else
    (numberLengthFrom (digits + fractionLength (cs.drop digits)) cs <|>
      numberLengthFrom digits cs).map fun n => ⟨some .number, n⟩

/-! ## Names -/

/-- The length of the identifier at the front, 0 when there is none. -/
def identifierLength : List Char → Nat
  | [] => 0
  | c :: rest => if isNameStart c then (rest.takeWhile isWordChar).length + 1 else 0

/-- An identifier. -/
def identifierLexeme? (cs : List Char) : Option Lexeme :=
  let n := identifierLength cs
  if n = 0 then none else some ⟨some .identifier, n⟩

/-- An identifier behind the sign of its kind. -/
def signedLexeme? (sign : Char) (kind : TokenKind) : List Char → Option Lexeme
  | c :: rest =>
    let n := identifierLength rest
    if c == sign && n ≠ 0 then some ⟨some kind, n + 1⟩ else none
  | [] => none

/-! ## Signs -/

/-- A sign that makes a selection or projection of the bracket behind it. -/
def isFilterSign (c : Char) : Bool :=
  c == '?' || c == '^' || c == '$' || c == '!'

/-- A selection or projection sign, with or without a dot, right before a
    square bracket. -/
def filterLexeme? : List Char → Option Lexeme
  | '.' :: c :: '[' :: _ => if isFilterSign c then some ⟨some .filter, 2⟩ else none
  | c :: '[' :: _ => if isFilterSign c then some ⟨some .filter, 1⟩ else none
  | _ => none

/-- Safe navigation, right before a name. -/
def safeLexeme? : List Char → Option Lexeme
  | '?' :: '.' :: c :: _ => if isNameStart c then some ⟨some .safe, 2⟩ else none
  | _ => none

/-- The operators of two characters. -/
def doubleOperators : List (Char × Char) :=
  [('?', ':'), ('=', '='), ('!', '='), ('>', '='), ('<', '='), ('&', '&'), ('|', '|')]

/-- The operators of one character. -/
def singleOperators : List Char :=
  "-+*/%<>=!?:,;|&^".toList

/-- A dot, a bracket or an operator. Of two operators the longer is taken. -/
def signLexeme? : List Char → Option Lexeme
  | [] => none
  | c :: rest =>
    if c == '.' then some ⟨some .dot, 1⟩
    else if isOpener c then some ⟨some .opening, 1⟩
    else if isCloser c then some ⟨some .closing, 1⟩
    else if rest.head?.any fun d => doubleOperators.contains (c, d) then
      some ⟨some .operator, 2⟩
    else if singleOperators.contains c then some ⟨some .operator, 1⟩
    else none

/-! ## The token sequence -/

/-- A blank, to pass over. -/
def blankLexeme? : List Char → Option Lexeme
  | c :: _ => if isBlank c then some ⟨none, 1⟩ else none
  | [] => none

/-- What stands at the front of a text that is not empty. -/
def lexeme (cs : List Char) : Lexeme :=
  (blankLexeme? cs <|> stringLexeme? cs <|> nestedLexeme? cs <|>
    signedLexeme? '#' .utility cs <|> signedLexeme? '@' .bean cs <|>
    numberLexeme? cs <|> identifierLexeme? cs <|>
    filterLexeme? cs <|> safeLexeme? cs <|> signLexeme? cs).getD ⟨none, 1⟩

/-- The tokens of the text `cs` that stands at `position`. -/
def tokensFrom (position : Nat) : List Char → List Token
  | [] => []
  | c :: rest =>
    let found := lexeme (c :: rest)
    let others := tokensFrom (position + found.length) (rest.drop (found.length - 1))
    match found.kind with
    | some kind => ⟨kind, (c :: rest).take found.length, position⟩ :: others
    | none => others
termination_by cs => cs.length
decreasing_by
  simp only [List.length_drop, List.length_cons]
  omega

/-- The tokens of an expression body. -/
def tokenize (body : List Char) : List Token :=
  tokensFrom 0 body

/-- No token is longer than the body it is cut from. -/
theorem length_text_le_of_mem_tokensFrom {position : Nat} {cs : List Char} {t : Token}
    (h : t ∈ tokensFrom position cs) : t.text.length ≤ cs.length := by
  fun_induction tokensFrom position cs with
  | case1 => simp at h
  | case2 position c rest found others kind hk ih =>
    rcases List.mem_cons.1 h with rfl | h
    · exact List.length_take ▸ Nat.min_le_right _ _
    · have := ih h
      simp only [List.length_drop, List.length_cons] at this ⊢
      omega
  | case3 position c rest found others hk ih =>
    have := ih h
    simp only [List.length_drop, List.length_cons] at this ⊢
    omega

theorem length_text_le_of_mem_tokenize {body : List Char} {t : Token}
    (h : t ∈ tokenize body) : t.text.length ≤ body.length :=
  length_text_le_of_mem_tokensFrom h

end TemplateAnalysis.Expression
