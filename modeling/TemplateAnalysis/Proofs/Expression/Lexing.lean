import TemplateAnalysis.Proofs.Expression.Brackets
import TemplateAnalysis.Proofs.Text.Character

/-! # Tokens of printed expressions

    A printed expression is cut into exactly the tokens it is made of:

    * **`piecesOf_term`**: whatever may follow an expression, its tokens come
      first and the tokens of the rest follow.

    Each kind of token has a lemma that says what has to stand behind it so
    that it ends where it should; the induction over the tree only has to see
    that it does.
-/

namespace TemplateAnalysis.Expression

open Text Variable

/-! ## Tokens without positions -/

/-- The tokens of a text without their positions. -/
def piecesOf (text : List Char) : List Piece :=
  (tokenize text).map Token.piece

theorem tokensFrom_nil (position : Nat) : tokensFrom position [] = [] := by
  rw [tokensFrom.eq_def]

theorem tokensFrom_cons (position : Nat) (c : Char) (rest : List Char) :
    tokensFrom position (c :: rest) =
      match (lexeme (c :: rest)).kind with
      | some kind => ⟨kind, (c :: rest).take (lexeme (c :: rest)).length, position⟩ ::
          tokensFrom (position + (lexeme (c :: rest)).length)
            (rest.drop ((lexeme (c :: rest)).length - 1))
      | none => tokensFrom (position + (lexeme (c :: rest)).length)
          (rest.drop ((lexeme (c :: rest)).length - 1)) :=
  tokensFrom.eq_def position (c :: rest)

/-- The position only counts along. -/
theorem map_piece_tokensFrom (position start : Nat) (cs : List Char) :
    (tokensFrom position cs).map Token.piece = (tokensFrom start cs).map Token.piece := by
  induction hn : cs.length using Nat.strongRecOn generalizing position start cs with
  | ind n ih =>
    cases cs with
    | nil => rw [tokensFrom_nil, tokensFrom_nil]
    | cons c rest =>
      have shorter : (rest.drop ((lexeme (c :: rest)).length - 1)).length < n := by
        rw [← hn, List.length_drop, List.length_cons]
        omega
      have tail := ih _ shorter (position + (lexeme (c :: rest)).length)
        (start + (lexeme (c :: rest)).length) _ rfl
      rw [tokensFrom_cons, tokensFrom_cons]
      split
      · simp only [List.map_cons, tail, Token.piece]
      · exact tail

/-- The first token of a text, or nothing, and the tokens behind it. -/
theorem piecesOf_cons (c : Char) (rest : List Char) :
    piecesOf (c :: rest) =
      match (lexeme (c :: rest)).kind with
      | some kind => (kind, (c :: rest).take (lexeme (c :: rest)).length) ::
          piecesOf (rest.drop ((lexeme (c :: rest)).length - 1))
      | none => piecesOf (rest.drop ((lexeme (c :: rest)).length - 1)) := by
  unfold piecesOf tokenize
  rw [tokensFrom_cons]
  split
  · rw [List.map_cons, map_piece_tokensFrom _ 0]
    rfl
  · exact map_piece_tokensFrom _ 0 _

/-- A token at the front of a text. -/
theorem piecesOf_token {kind : TokenKind} (token rest : List Char)
    (hne : token ≠ []) (h : lexeme (token ++ rest) = ⟨some kind, token.length⟩) :
    piecesOf (token ++ rest) = (kind, token) :: piecesOf rest := by
  cases token with
  | nil => contradiction
  | cons c cs =>
    rw [List.cons_append] at h ⊢
    rw [piecesOf_cons, h]
    show (kind, (c :: (cs ++ rest)).take (cs.length + 1)) ::
      piecesOf ((cs ++ rest).drop (cs.length + 1 - 1)) = _
    rw [List.take_succ_cons, List.take_left, Nat.add_sub_cancel, List.drop_left]

/-- A blank at the front of a text is passed over. -/
theorem piecesOf_blank {c : Char} (h : isBlank c = true) (rest : List Char) :
    piecesOf (c :: rest) = piecesOf rest := by
  have hl : lexeme (c :: rest) = ⟨none, 1⟩ := by
    simp only [lexeme, blankLexeme?, h]
    rfl
  rw [piecesOf_cons, hl]
  rfl

theorem piecesOf_blanks {blanks : List Char} (h : ∀ c ∈ blanks, isBlank c = true)
    (rest : List Char) : piecesOf (blanks ++ rest) = piecesOf rest := by
  induction blanks with
  | nil => rfl
  | cons c cs ih =>
    rw [List.cons_append, piecesOf_blank (h c List.mem_cons_self)]
    exact ih fun d hd => h d (List.mem_cons_of_mem c hd)

/-! ## Kinds that do not fit -/

theorem stringLexeme?_eq_none {c : Char} (h : isQuote c = false) (rest : List Char) :
    stringLexeme? (c :: rest) = none := by
  unfold stringLexeme?
  split
  · simp_all [isQuote]
  · simp_all [isQuote]
  · rfl

theorem nestedLexeme?_eq_none {c : Char} (h : isSigil c = false) (rest : List Char) :
    nestedLexeme? (c :: rest) = none := by
  unfold nestedLexeme?
  split
  · simp_all
  · rfl

theorem signedLexeme?_eq_none {c sign : Char} (h : c ≠ sign) (kind : TokenKind)
    (rest : List Char) : signedLexeme? sign kind (c :: rest) = none := by
  simp [signedLexeme?, h]

theorem numberLexeme?_eq_none {c : Char} (h : isDigit c = false) (rest : List Char) :
    numberLexeme? (c :: rest) = none := by
  simp [numberLexeme?, h]

theorem identifierLexeme?_eq_none {c : Char} (h : isNameStart c = false) (rest : List Char) :
    identifierLexeme? (c :: rest) = none := by
  simp [identifierLexeme?, identifierLength, h]

/-- Behind the first tests only signs are left. -/
theorem lexeme_sign {c : Char} {rest : List Char} (blank : isBlank c = false)
    (quote : isQuote c = false) (nested : nestedLexeme? (c :: rest) = none)
    (utility : c ≠ '#') (bean : c ≠ '@') (digit : isDigit c = false)
    (name : isNameStart c = false) :
    lexeme (c :: rest) =
      (filterLexeme? (c :: rest) <|> safeLexeme? (c :: rest) <|>
        signLexeme? (c :: rest)).getD ⟨none, 1⟩ := by
  unfold lexeme
  rw [stringLexeme?_eq_none quote, nested, signedLexeme?_eq_none utility,
    signedLexeme?_eq_none bean, numberLexeme?_eq_none digit, identifierLexeme?_eq_none name]
  simp [blankLexeme?, blank]

/-! ## Signs -/

/-- What may follow an operand: the blank of an operator, the end of what it is
    in, or nothing. -/
def Boundary (rest : List Char) : Prop :=
  ∀ c, rest.head? = some c → c = ' ' ∨ c = ')' ∨ c = ']' ∨ c = ','

theorem boundary_nil : Boundary [] := by
  intro c h
  simp at h

theorem boundary_cons {c : Char} (rest : List Char)
    (h : c = ' ' ∨ c = ')' ∨ c = ']' ∨ c = ',' := by decide) : Boundary (c :: rest) := by
  intro d hd
  obtain rfl : c = d := by simpa using hd
  exact h

/-- A sign that is no filter and no safe navigation is what it looks like. -/
theorem lexeme_plainSign {c : Char} {rest : List Char} (blank : isBlank c = false)
    (quote : isQuote c = false) (sigil : isSigil c = false) (digit : isDigit c = false)
    (name : isNameStart c = false) (filter : isFilterSign c = false) (dot : c ≠ '.') :
    lexeme (c :: rest) = (signLexeme? (c :: rest)).getD ⟨none, 1⟩ := by
  have hu : c ≠ '#' := by
    rintro rfl
    contradiction
  have hb : c ≠ '@' := by
    rintro rfl
    contradiction
  rw [lexeme_sign blank quote (nestedLexeme?_eq_none sigil rest) hu hb digit name]
  have hf : filterLexeme? (c :: rest) = none := by
    unfold filterLexeme?
    split
    · simp_all
    · simp_all
    · rfl
  have hs : safeLexeme? (c :: rest) = none := by
    unfold safeLexeme?
    split
    · rename_i heq
      obtain ⟨rfl, -⟩ := List.cons.inj heq
      contradiction
    · rfl
  rw [hf, hs]
  rfl

/-- An opening bracket. -/
theorem piecesOf_opener {c : Char} (h : c = '(' ∨ c = '[') (rest : List Char) :
    piecesOf (c :: rest) = (.opening, [c]) :: piecesOf rest := by
  refine piecesOf_token [c] _ (by simp) ?_
  rcases h with rfl | rfl
  · exact lexeme_plainSign (by decide) (by decide) (by decide) (by decide) (by decide)
      (by decide) (by decide)
  · exact lexeme_plainSign (by decide) (by decide) (by decide) (by decide) (by decide)
      (by decide) (by decide)

/-- A closing bracket. -/
theorem piecesOf_closer {c : Char} (h : c = ')' ∨ c = ']') (rest : List Char) :
    piecesOf (c :: rest) = (.closing, [c]) :: piecesOf rest := by
  refine piecesOf_token [c] _ (by simp) ?_
  rcases h with rfl | rfl
  · exact lexeme_plainSign (by decide) (by decide) (by decide) (by decide) (by decide)
      (by decide) (by decide)
  · exact lexeme_plainSign (by decide) (by decide) (by decide) (by decide) (by decide)
      (by decide) (by decide)

/-- An operator of one character, unless it is the first of two. -/
theorem signLexeme?_single {c : Char} {rest : List Char} (dot : c ≠ '.')
    (opener : isOpener c = false) (closer : isCloser c = false)
    (double : ∀ d, rest.head? = some d → doubleOperators.contains (c, d) = false)
    (single : singleOperators.contains c = true) :
    signLexeme? (c :: rest) = some ⟨some .operator, 1⟩ := by
  have hd : (rest.head?.any fun d => doubleOperators.contains (c, d)) = false := by
    cases hr : rest.head? with
    | none => rfl
    | some d => exact double d hr
  have hdot : (c == '.') = false := by simpa using dot
  simp only [signLexeme?, hdot, opener, closer, hd, single]
  rfl

/-- The comma between arguments. -/
theorem piecesOf_comma (rest : List Char) :
    piecesOf (',' :: rest) = (.operator, [',']) :: piecesOf rest := by
  refine piecesOf_token [','] _ (by simp) ?_
  rw [List.singleton_append, lexeme_plainSign (by decide) (by decide) (by decide) (by decide)
    (by decide) (by decide) (by decide), signLexeme?_single (by decide) (by decide) (by decide)
    (fun d _ => by simp [doubleOperators]) (by decide)]
  rfl

/-- A character of a class that holds no selection or projection sign. -/
theorem isFilterSign_eq_false_of_class {p : Char → Bool} {c : Char} (h : p c = true)
    (hsigns : p '?' = false ∧ p '^' = false ∧ p '$' = false ∧ p '!' = false) :
    isFilterSign c = false := by
  simp [isFilterSign, ne_of_class h hsigns.1, ne_of_class h hsigns.2.1, ne_of_class h hsigns.2.2.1,
    ne_of_class h hsigns.2.2.2]

/-- A dot that makes no filter of what stands behind it. -/
theorem piecesOf_dot {c : Char} (h : isFilterSign c = false) (rest : List Char) :
    piecesOf ('.' :: c :: rest) = (.dot, ['.']) :: piecesOf (c :: rest) := by
  refine piecesOf_token ['.'] _ (by simp) ?_
  rw [List.singleton_append, lexeme_sign (by decide) (by decide)
    (nestedLexeme?_eq_none (by decide) _) (by decide) (by decide) (by decide) (by decide)]
  have hf : filterLexeme? ('.' :: c :: rest) = none := by
    unfold filterLexeme?
    split
    · rename_i heq
      simp only [List.cons.injEq, true_and] at heq
      obtain ⟨rfl, -⟩ := heq
      rw [h]
      rfl
    · rename_i heq
      simp only [List.cons.injEq] at heq
      obtain ⟨rfl, rfl, -⟩ := heq
      rfl
    · rfl
  rw [hf]
  rfl

/-- Safe navigation in front of a name. -/
theorem piecesOf_safe {c : Char} (h : isNameStart c = true) (rest : List Char) :
    piecesOf ('?' :: '.' :: c :: rest) = (.safe, ['?', '.']) :: piecesOf (c :: rest) := by
  refine piecesOf_token ['?', '.'] _ (by simp) ?_
  rw [List.cons_append, List.singleton_append, lexeme_sign (by decide) (by decide)
    (nestedLexeme?_eq_none (by decide) _) (by decide) (by decide) (by decide) (by decide)]
  simp [filterLexeme?, safeLexeme?, h]

/-- The sign of a member in front of its name. -/
theorem piecesOf_memberSign (safe : Bool) {c : Char} (h : isNameStart c = true)
    (rest : List Char) :
    piecesOf (memberSign safe ++ c :: rest) = memberPiece safe :: piecesOf (c :: rest) := by
  cases safe with
  | true => exact piecesOf_safe h rest
  | false => exact piecesOf_dot (isFilterSign_eq_false_of_class h (by decide)) rest

/-- A selection or projection sign in front of its bracket. -/
theorem piecesOf_filter {c : Char} (h : isFilterSign c = true) (rest : List Char) :
    piecesOf ('.' :: c :: '[' :: rest) = (.filter, ['.', c]) :: piecesOf ('[' :: rest) := by
  refine piecesOf_token ['.', c] _ (by simp) ?_
  rw [List.cons_append, List.singleton_append, lexeme_sign (by decide) (by decide)
    (nestedLexeme?_eq_none (by decide) _) (by decide) (by decide) (by decide) (by decide)]
  simp [filterLexeme?, h]

/-- An operator with a blank behind it. -/
theorem piecesOf_operator (operator : Operator) (rest : List Char) :
    piecesOf (operator.text ++ ' ' :: rest) = operator.piece :: piecesOf rest := by
  have hl : lexeme (operator.text ++ ' ' :: rest) =
      ⟨some operator.piece.1, operator.text.length⟩ := by
    cases operator <;> rfl
  rw [← @piecesOf_blank ' ' (by decide) rest]
  exact piecesOf_token _ _ (by cases operator <;> simp [Operator.text]) hl

/-- The question mark of a choice. -/
theorem piecesOf_question (rest : List Char) :
    piecesOf ('?' :: ' ' :: rest) = (.operator, ['?']) :: piecesOf rest := by
  rw [← @piecesOf_blank ' ' (by decide) rest]
  exact piecesOf_token ['?'] _ (by simp) rfl

/-- The colon of a choice. -/
theorem piecesOf_colon (rest : List Char) :
    piecesOf (':' :: ' ' :: rest) = (.operator, [':']) :: piecesOf rest := by
  rw [← @piecesOf_blank ' ' (by decide) rest]
  exact piecesOf_token [':'] _ (by simp) rfl

/-- The sign of a fallback. -/
theorem piecesOf_fallback (rest : List Char) :
    piecesOf ('?' :: ':' :: ' ' :: rest) = (.operator, ['?', ':']) :: piecesOf rest := by
  rw [← @piecesOf_blank ' ' (by decide) rest]
  exact piecesOf_token ['?', ':'] _ (by simp) rfl

/-! ## Operands -/

theorem isWordChar_eq_false_of_boundary {rest : List Char} (h : Boundary rest) :
    startsWithWord rest = false := by
  unfold startsWithWord
  split
  · rfl
  · rename_i c cs
    rcases h c rfl with rfl | rfl | rfl | rfl <;> decide

theorem takeWhile_of_startsWithWord {rest : List Char} (h : startsWithWord rest = false) :
    rest.takeWhile isWordChar = [] := by
  cases rest with
  | nil => rfl
  | cons c cs => rw [List.takeWhile_cons_of_neg (by simpa [startsWithWord] using h)]

/-- An identifier ends where no word character follows. -/
theorem identifierLength_append {name rest : List Char} (h : isIdentifier name = true)
    (hr : startsWithWord rest = false) : identifierLength (name ++ rest) = name.length := by
  obtain ⟨c, cs, rfl, hc, hcs⟩ := exists_cons_of_isIdentifier h
  simp only [List.cons_append, identifierLength, hc, if_true]
  rw [List.takeWhile_append_of_pos hcs, takeWhile_of_startsWithWord hr, List.append_nil,
    List.length_cons]

theorem isSigil_eq_false_of_isNameStart {c : Char} (h : isNameStart c = true) :
    isSigil c = false := by
  unfold isSigil
  simp only [Bool.or_eq_false_iff, beq_eq_false_iff_ne, ne_eq]
  refine ⟨⟨⟨⟨?_, ?_⟩, ?_⟩, ?_⟩, ?_⟩ <;> exact ne_of_class h (by decide)

theorem isQuote_eq_false_of_isNameStart {c : Char} (h : isNameStart c = true) :
    isQuote c = false := by
  unfold isQuote
  simp only [Bool.or_eq_false_iff, beq_eq_false_iff_ne, ne_eq]
  exact ⟨ne_of_class h (by decide), ne_of_class h (by decide)⟩

/-- A name. -/
theorem piecesOf_name {name rest : List Char} (h : isIdentifier name = true)
    (hr : startsWithWord rest = false) :
    piecesOf (name ++ rest) = (.identifier, name) :: piecesOf rest := by
  have hlen := identifierLength_append h hr
  obtain ⟨c, cs, rfl, hc, -⟩ := exists_cons_of_isIdentifier h
  refine piecesOf_token _ _ (by simp) ?_
  rw [List.cons_append] at hlen ⊢
  have hid : identifierLexeme? (c :: (cs ++ rest)) =
      some ⟨some .identifier, (c :: cs).length⟩ := by
    simp only [identifierLexeme?, hlen]
    rfl
  unfold lexeme
  rw [stringLexeme?_eq_none (isQuote_eq_false_of_isNameStart hc),
    nestedLexeme?_eq_none (isSigil_eq_false_of_isNameStart hc),
    signedLexeme?_eq_none (ne_of_class hc (by decide)),
    signedLexeme?_eq_none (ne_of_class hc (by decide)),
    numberLexeme?_eq_none (isDigit_eq_false_of_isNameStart hc), hid]
  simp only [blankLexeme?, isBlank_eq_false_of_isNameStart hc]
  rfl

/-- A utility object. -/
theorem piecesOf_utility {name rest : List Char} (h : isIdentifier name = true)
    (hr : startsWithWord rest = false) :
    piecesOf ('#' :: name ++ rest) = (.utility, '#' :: name) :: piecesOf rest := by
  have hlen := identifierLength_append h hr
  obtain ⟨c, cs, rfl, hc, -⟩ := exists_cons_of_isIdentifier h
  refine piecesOf_token _ _ (by simp) ?_
  have hu : signedLexeme? '#' .utility ('#' :: (c :: cs ++ rest)) =
      some ⟨some .utility, ('#' :: c :: cs).length⟩ := by
    simp only [signedLexeme?, hlen]
    rfl
  have hn : nestedLexeme? ('#' :: (c :: cs ++ rest)) = none := by
    have hb : (c == '{') = false := by simpa using ne_of_class hc (by decide)
    simp [nestedLexeme?, hb]
  rw [List.cons_append]
  unfold lexeme
  rw [stringLexeme?_eq_none (by decide), hn, hu]
  rfl

/-- The length of a number that ends where its digits end. -/
theorem numberLengthFrom_of_boundary {n : Nat} {cs rest : List Char} (hd : cs.drop n = rest)
    (h : Boundary rest) : numberLengthFrom n cs = some n := by
  have he : exponentLength rest = 0 := by
    cases rest with
    | nil => rfl
    | cons c cs => rcases h c rfl with rfl | rfl | rfl | rfl <;> rfl
  have hs : suffixLength rest = 0 := by
    cases rest with
    | nil => rfl
    | cons c cs => rcases h c rfl with rfl | rfl | rfl | rfl <;> rfl
  simp only [numberLengthFrom, hd, he, Nat.add_zero, hs]
  rw [isWordChar_eq_false_of_boundary h]
  rfl

theorem takeWhile_digits {digits rest : List Char} (h : ∀ c ∈ digits, isDigit c = true)
    (hr : ∀ c, rest.head? = some c → isDigit c = false) :
    (digits ++ rest).takeWhile isDigit = digits := by
  rw [List.takeWhile_append_of_pos h]
  cases rest with
  | nil => simp
  | cons c cs => rw [List.takeWhile_cons_of_neg (by simp [hr c rfl]), List.append_nil]

theorem isDigit_eq_false_of_boundary {rest : List Char} (h : Boundary rest) :
    ∀ c, rest.head? = some c → isDigit c = false := by
  intro c hc
  rcases h c hc with rfl | rfl | rfl | rfl <;> decide

/-- What follows the digits of a number: `extra` characters of it belong to the
    number, and then the number ends. -/
structure EndsNumber (rest : List Char) (extra : Nat) : Prop where
  digit : ∀ c, rest.head? = some c → isDigit c = false
  fraction : fractionLength rest = 0
  length : ∀ {n : Nat} {cs : List Char}, cs.drop n = rest → numberLengthFrom n cs = some (n + extra)

theorem endsNumber_boundary {rest : List Char} (h : Boundary rest) : EndsNumber rest 0 where
  digit := isDigit_eq_false_of_boundary h
  fraction := by
    cases rest with
    | nil => rfl
    | cons c cs => rcases h c rfl with rfl | rfl | rfl | rfl <;> rfl
  length hd := numberLengthFrom_of_boundary hd h

/-- How much of a text a number takes up. -/
theorem numberLexeme?_print (number : Number) {rest : List Char} {extra : Nat}
    (h : EndsNumber rest extra) :
    numberLexeme? (number.print ++ rest) = some ⟨some .number, number.print.length + extra⟩ := by
  have hne : number.whole.length ≠ 0 := by
    simpa using number.whole_ne_nil
  unfold Number.print
  split
  · -- Without a fraction the number ends behind its first digits.
    have htake := takeWhile_digits number.whole_digits h.digit
    have hdrop : (number.whole ++ rest).drop number.whole.length = rest := List.drop_left
    simp only [numberLexeme?, htake, if_neg hne, hdrop, h.fraction, Nat.add_zero, h.length hdrop]
    rfl
  · -- The point ends the first digits, and the rest ends those behind it.
    rename_i hfne
    have hpoint : ∀ c, ('.' :: number.fraction ++ rest).head? = some c → isDigit c = false := by
      intro c hc
      obtain rfl : '.' = c := by simpa using hc
      decide
    have htake := takeWhile_digits number.whole_digits hpoint
    have hdrop : (number.whole ++ ('.' :: number.fraction ++ rest)).drop number.whole.length =
        '.' :: number.fraction ++ rest := List.drop_left
    have hf : fractionLength ('.' :: number.fraction ++ rest) = number.fraction.length + 1 := by
      have := takeWhile_digits number.fraction_digits h.digit
      have hl : number.fraction.length ≠ 0 := by simpa using hfne
      simp only [List.cons_append, fractionLength, this, if_neg hl]
    have hall : (number.whole ++ ('.' :: number.fraction ++ rest)).drop
        (number.whole.length + (number.fraction.length + 1)) = rest := by
      rw [← List.append_assoc, ← List.length_cons (a := '.'), ← List.length_append,
        List.drop_left]
    rw [List.append_assoc]
    simp only [numberLexeme?, htake, if_neg hne, hdrop, hf, h.length hall]
    simp

theorem ne_of_digit {c d : Char} (h : isDigit c = true) (hd : isDigit d = false := by decide) :
    c ≠ d :=
  ne_of_class h hd

/-- A number starts with a digit. -/
theorem Number.exists_cons_print (number : Number) :
    ∃ c rest, number.print = c :: rest ∧ isDigit c = true := by
  obtain ⟨c, cs, hw⟩ := List.exists_cons_of_ne_nil number.whole_ne_nil
  have hc : isDigit c = true := number.whole_digits c (hw ▸ List.mem_cons_self)
  unfold Number.print
  split
  · exact ⟨c, cs, hw, hc⟩
  · exact ⟨c, cs ++ '.' :: number.fraction, by rw [hw, List.cons_append], hc⟩

/-- A number is read as one token, with what belongs to it. -/
theorem lexeme_number (number : Number) {rest : List Char} {extra : Nat}
    (h : EndsNumber rest extra) :
    lexeme (number.print ++ rest) = ⟨some .number, number.print.length + extra⟩ := by
  have hn := numberLexeme?_print number h
  obtain ⟨c, more, hp, hc⟩ := number.exists_cons_print
  have hq : isQuote c = false := by
    unfold isQuote
    simp only [Bool.or_eq_false_iff, beq_eq_false_iff_ne, ne_eq]
    exact ⟨ne_of_digit hc, ne_of_digit hc⟩
  have hs : isSigil c = false := by
    unfold isSigil
    simp only [Bool.or_eq_false_iff, beq_eq_false_iff_ne, ne_eq]
    exact ⟨⟨⟨⟨ne_of_digit hc, ne_of_digit hc⟩, ne_of_digit hc⟩, ne_of_digit hc⟩, ne_of_digit hc⟩
  rw [hp, List.cons_append] at hn ⊢
  unfold lexeme
  rw [stringLexeme?_eq_none hq, nestedLexeme?_eq_none hs, signedLexeme?_eq_none (ne_of_digit hc),
    signedLexeme?_eq_none (ne_of_digit hc), hn]
  simp only [blankLexeme?, isBlank_eq_false_of_isDigit hc]
  rfl

theorem Number.print_ne_nil (number : Number) : number.print ≠ [] := by
  obtain ⟨c, rest, hprint, -⟩ := number.exists_cons_print
  simp [hprint]

/-- A number. -/
theorem piecesOf_number (number : Number) {rest : List Char} (h : Boundary rest) :
    piecesOf (number.print ++ rest) = (.number, number.print) :: piecesOf rest :=
  piecesOf_token _ _ number.print_ne_nil (lexeme_number number (endsNumber_boundary h))

theorem isPlain_ne {c d : Char} (h : isPlain c = true) (hd : isPlain d = false := by decide) :
    c ≠ d :=
  ne_of_class h hd

theorem singleQuotedLength_cons {c : Char} (h₁ : c ≠ '\'') (h₂ : c ≠ '\\')
    (rest : List Char) :
    singleQuotedLength (c :: rest) = (singleQuotedLength rest).map (· + 1) := by
  rw [singleQuotedLength.eq_def]
  split <;> simp_all

theorem doubleQuotedLength_cons {c : Char} (h₁ : c ≠ '"') (h₂ : c ≠ '\\')
    (rest : List Char) :
    doubleQuotedLength (c :: rest) = (doubleQuotedLength rest).map (· + 1) := by
  rw [doubleQuotedLength.eq_def]
  split <;> simp_all

/-- A literal in single quotes ends at the next of them, unless two stand in a
    row. -/
theorem singleQuotedLength_append {content rest : List Char}
    (h : ∀ c ∈ content, isPlain c = true) (hr : rest.head? ≠ some '\'') :
    singleQuotedLength (content ++ '\'' :: rest) = some (content.length + 1) := by
  induction content with
  | nil =>
    rw [List.nil_append, singleQuotedLength.eq_def]
    cases rest with
    | nil => rfl
    | cons d more =>
      have hd : d ≠ '\'' := by simpa using hr
      simp only []
      split
      · simp_all
      · rfl
  | cons c cs ih =>
    have hc := h c List.mem_cons_self
    rw [List.cons_append, singleQuotedLength_cons (isPlain_ne hc) (isPlain_ne hc),
      ih fun d hd => h d (List.mem_cons_of_mem c hd)]
    rfl

theorem doubleQuotedLength_append {content rest : List Char}
    (h : ∀ c ∈ content, isPlain c = true) :
    doubleQuotedLength (content ++ '"' :: rest) = some (content.length + 1) := by
  induction content with
  | nil => rfl
  | cons c cs ih =>
    have hc := h c List.mem_cons_self
    rw [List.cons_append, doubleQuotedLength_cons (isPlain_ne hc) (isPlain_ne hc),
      ih fun d hd => h d (List.mem_cons_of_mem c hd)]
    rfl

/-- A literal. -/
theorem piecesOf_literal (quote : Quote) {content : List Char} (rest : List Char)
    (h : ∀ c ∈ content, isPlain c = true) (hr : rest.head? ≠ some '\'') :
    piecesOf (quote.char :: content ++ [quote.char] ++ rest) =
      (.string, quote.char :: content ++ [quote.char]) :: piecesOf rest := by
  have hs : stringLexeme? (quote.char :: (content ++ quote.char :: rest)) =
      some ⟨some .string, content.length + 1 + 1⟩ := by
    cases quote with
    | single => simp only [Quote.char, stringLexeme?, singleQuotedLength_append h hr]; rfl
    | double => simp only [Quote.char, stringLexeme?, doubleQuotedLength_append h]; rfl
  refine piecesOf_token _ _ (by simp) ?_
  have hb : isBlank quote.char = false := by cases quote <;> decide
  rw [List.append_assoc, List.cons_append, List.singleton_append]
  unfold lexeme
  rw [hs]
  simp only [blankLexeme?, hb]
  simp

/-! ## Trees -/

/-- No accessor continues the word in front of it. -/
theorem startsWithWord_printAccessors (gap : Gap) (accessors : List Accessor) {rest : List Char}
    (h : startsWithWord rest = false) :
    startsWithWord (printAccessors gap accessors ++ rest) = false := by
  cases accessors with
  | nil => exact h
  | cons accessor more =>
    cases accessor with
    | member safe name => cases safe <;> rfl
    | call safe name arguments => cases safe <;> rfl
    | index index => rfl
    | item quote key => rfl
    | selection condition => rfl
    | projection body => rfl

theorem head?_ne_quote_of_boundary {rest : List Char} (h : Boundary rest) :
    rest.head? ≠ some '\'' := by
  intro hq
  rcases h _ hq with h | h | h | h <;> contradiction

/-- A key between its quotes. -/
theorem isPlain_of_isWordChar {c : Char} (h : isWordChar c = true) : isPlain c = true := by
  unfold isPlain isQuote
  simp only [Bool.and_eq_true, Bool.not_eq_true', Bool.or_eq_false_iff, beq_eq_false_iff_ne,
    bne_iff_ne, ne_eq]
  exact ⟨⟨⟨⟨ne_of_class h (by decide), ne_of_class h (by decide)⟩, ne_of_class h (by decide)⟩,
    ne_of_class h (by decide)⟩, ne_of_class h (by decide)⟩

/-- The sign and the name of a member. -/
theorem piecesOf_member (safe : Bool) (name : Name) {rest : List Char}
    (h : startsWithWord rest = false) :
    piecesOf (memberSign safe ++ (name.text ++ rest)) =
      memberPiece safe :: (.identifier, name.text) :: piecesOf rest := by
  rw [← piecesOf_name name.identifier h]
  obtain ⟨c, cs, hn, hc, -⟩ := exists_cons_of_isIdentifier name.identifier
  rw [hn, List.cons_append]
  exact piecesOf_memberSign safe hc _

mutual

/-- **The tokens of a printed expression** are those it is made of, whatever
    may follow it. -/
theorem piecesOf_term (gap : Gap) : ∀ (term : Term) (rest : List Char), Boundary rest →
    piecesOf (term.print gap ++ rest) = term.pieces ++ piecesOf rest
  | .number number, rest, h => by
    rw [Term.print, Term.pieces, piecesOf_number number h]
    rfl
  | .literal literal, rest, h => by
    rw [Term.print, Term.pieces]
    exact piecesOf_literal literal.quote rest literal.content_plain (head?_ne_quote_of_boundary h)
  | .group inner, rest, _ => by
    have hi := piecesOf_term gap inner (')' :: rest) (boundary_cons rest)
    rw [Term.print, Term.pieces, inBrackets]
    simp only [List.append_assoc, List.cons_append, List.nil_append]
    rw [piecesOf_opener (.inl rfl), hi, piecesOf_closer (.inl rfl)]
  | .binary left operator right, rest, h => by
    -- The blank behind the left side keeps it from running on into the operator.
    have hl := piecesOf_term gap left (' ' :: operator.text ++ ' ' :: right.print gap ++ rest)
      (boundary_cons _)
    have hr := piecesOf_term gap right rest h
    rw [Term.print, Term.pieces]
    simp only [List.append_assoc, List.cons_append] at hl ⊢
    rw [hl, piecesOf_blank (by decide), piecesOf_operator, hr]
  | .choice condition yes no, rest, h => by
    have hc := piecesOf_term gap condition
      (' ' :: '?' :: ' ' :: (yes.print gap ++ ' ' :: ':' :: ' ' :: (no.print gap ++ rest)))
      (boundary_cons _)
    have hy := piecesOf_term gap yes (' ' :: ':' :: ' ' :: (no.print gap ++ rest))
      (boundary_cons _)
    have hn := piecesOf_term gap no rest h
    rw [Term.print, Term.pieces]
    simp only [List.append_assoc, List.cons_append, List.nil_append]
    rw [hc, piecesOf_blank (by decide), piecesOf_question, hy, piecesOf_blank (by decide),
      piecesOf_colon, hn]
  | .fallback first other, rest, h => by
    have hf := piecesOf_term gap first (' ' :: '?' :: ':' :: ' ' :: (other.print gap ++ rest))
      (boundary_cons _)
    have ho := piecesOf_term gap other rest h
    rw [Term.print, Term.pieces]
    simp only [List.append_assoc, List.cons_append, List.nil_append]
    rw [hf, piecesOf_blank (by decide), piecesOf_fallback, ho]
  | .chain name accessors, rest, h => by
    -- No accessor begins with a word character, so the name ends where it should.
    have hw := isWordChar_eq_false_of_boundary h
    have ha := piecesOf_accessors gap accessors rest hw
    rw [Term.print, Term.pieces, List.append_assoc, List.cons_append,
      piecesOf_name name.identifier (startsWithWord_printAccessors gap accessors hw), ha]
  | .utility object accessors, rest, h => by
    have hw := isWordChar_eq_false_of_boundary h
    have ha := piecesOf_accessors gap accessors rest hw
    rw [Term.print, Term.pieces, List.append_assoc,
      piecesOf_utility object.identifier (startsWithWord_printAccessors gap accessors hw), ha]
    rfl

/-- The tokens of an accessor. -/
theorem piecesOf_accessor (gap : Gap) : ∀ (accessor : Accessor) (rest : List Char),
    startsWithWord rest = false →
    piecesOf (accessor.print gap ++ rest) = accessor.pieces ++ piecesOf rest
  | .member safe name, rest, h => by
    rw [Accessor.print, Accessor.pieces, List.append_assoc, piecesOf_member safe name h]
    rfl
  | .call safe name arguments, rest, h => by
    have ha := piecesOf_arguments gap arguments (')' :: rest) (boundary_cons rest)
    rw [Accessor.print, Accessor.pieces, inBrackets]
    simp only [List.append_assoc, List.cons_append, List.nil_append]
    rw [piecesOf_member safe name rfl, piecesOf_opener (.inl rfl), ha,
      piecesOf_closer (.inl rfl)]
  | .index index, rest, _ => by
    have hi := piecesOf_term gap index (']' :: rest) (boundary_cons rest)
    rw [Accessor.print, Accessor.pieces, inBrackets]
    simp only [List.append_assoc, List.cons_append, List.nil_append]
    rw [piecesOf_opener (.inr rfl), hi, piecesOf_closer (.inr rfl)]
  | .item quote key, rest, _ => by
    have hk := piecesOf_literal quote (']' :: rest)
      (fun c hc => isPlain_of_isWordChar (isWordChar_of_mem_identifier key.identifier hc))
      (by simp)
    rw [Accessor.print, Accessor.pieces, inBrackets]
    simp only [List.append_assoc, List.cons_append, List.nil_append] at hk ⊢
    rw [piecesOf_opener (.inr rfl), hk, piecesOf_closer (.inr rfl)]
  | .selection condition, rest, _ => by
    have hc := piecesOf_term gap condition (']' :: rest) (boundary_cons rest)
    rw [Accessor.print, Accessor.pieces, inBrackets]
    simp only [List.append_assoc, List.cons_append, List.nil_append]
    rw [piecesOf_filter (by decide), piecesOf_opener (.inr rfl), hc,
      piecesOf_closer (.inr rfl)]
  | .projection body, rest, _ => by
    have hb := piecesOf_term gap body (']' :: rest) (boundary_cons rest)
    rw [Accessor.print, Accessor.pieces, inBrackets]
    simp only [List.append_assoc, List.cons_append, List.nil_append]
    rw [piecesOf_filter (by decide), piecesOf_opener (.inr rfl), hb,
      piecesOf_closer (.inr rfl)]

/-- The tokens of accessors in a row. -/
theorem piecesOf_accessors (gap : Gap) : ∀ (accessors : List Accessor) (rest : List Char),
    startsWithWord rest = false →
    piecesOf (printAccessors gap accessors ++ rest) = accessorPieces accessors ++ piecesOf rest
  | [], rest, _ => by
    rw [printAccessors, accessorPieces]
    rfl
  | accessor :: more, rest, h => by
    have ha := piecesOf_accessor gap accessor (printAccessors gap more ++ rest)
      (startsWithWord_printAccessors gap more h)
    rw [printAccessors, accessorPieces, List.append_assoc, ha,
      piecesOf_accessors gap more rest h, List.append_assoc]

/-- The tokens of arguments. -/
theorem piecesOf_arguments (gap : Gap) : ∀ (arguments : List Term) (rest : List Char),
    Boundary rest →
    piecesOf (printArguments gap arguments ++ rest) = argumentPieces arguments ++ piecesOf rest
  | [], rest, _ => by
    rw [printArguments, argumentPieces]
    rfl
  | argument :: more, rest, h => by
    have hm := piecesOf_moreArguments gap more rest h
    have hb : Boundary (printMoreArguments gap more ++ rest) := by
      cases more with
      | nil => exact h
      | cons next others => exact boundary_cons _
    rw [printArguments, argumentPieces, List.append_assoc, piecesOf_term gap argument _ hb, hm,
      List.append_assoc]

/-- The tokens of the arguments behind the first one. -/
theorem piecesOf_moreArguments (gap : Gap) : ∀ (arguments : List Term) (rest : List Char),
    Boundary rest →
    piecesOf (printMoreArguments gap arguments ++ rest) =
      moreArgumentPieces arguments ++ piecesOf rest
  | [], rest, _ => by
    rw [printMoreArguments, moreArgumentPieces]
    rfl
  | argument :: more, rest, h => by
    have hm := piecesOf_moreArguments gap more rest h
    have hb : Boundary (printMoreArguments gap more ++ rest) := by
      cases more with
      | nil => exact h
      | cons next others => exact boundary_cons _
    rw [printMoreArguments, moreArgumentPieces]
    simp only [List.append_assoc, List.cons_append]
    rw [piecesOf_comma, piecesOf_blanks gap.blank, piecesOf_term gap argument _ hb, hm]

end

end TemplateAnalysis.Expression
