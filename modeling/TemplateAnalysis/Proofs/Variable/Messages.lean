import TemplateAnalysis.Proofs.Expression.Balance
import TemplateAnalysis.Proofs.Expression.Splitting
import TemplateAnalysis.Proofs.Variable.Analysed
import TemplateAnalysis.Proofs.Variable.Constants

/-! # Arguments of messages

    An argument of a message that embeds no expression is read as an expression
    body, unless it is a literal:

    * **`templateMatches_message`**: a message with one argument reports its key and
      what the argument reads as an expression of its own, unless the argument
      begins and ends with the same quote. Then it is taken for one literal, and
      whatever it reads is not reported.

    Numbers are left out of the analysis as well, but nothing is lost with them: the
    walk over a number visits nothing. A text between two equal quotes need not be a
    literal: the quotes may belong to two of them.
-/

namespace TemplateAnalysis.Variable

open Text Expression Markup Reference

variable {text key argument body rest : List Char} {sigil c : Char}

/-! ## Texts without expressions -/

/-- A character that is neither a sigil nor a brace keeps what is on its two sides
    apart. -/
theorem hasExpressionStart_append (hsigil : isSigil c = false) (hbrace : c ≠ '{')
    (text rest : List Char) :
    hasExpressionStart (text ++ c :: rest) =
      (hasExpressionStart text || hasExpressionStart rest) := by
  fun_induction hasExpressionStart text with
  | case1 d e more ih =>
    rw [List.cons_append] at ih
    rw [List.cons_append, List.cons_append, hasExpressionStart, ih, Bool.or_assoc]
  | case2 text short =>
    have behind : hasExpressionStart (c :: rest) = hasExpressionStart rest := by
      cases rest with
      | nil => rfl
      | cons d more => rw [hasExpressionStart, hsigil, Bool.false_and, Bool.false_or]
    rw [Bool.false_or]
    cases text with
    | nil => exact behind
    | cons d others =>
      cases others with
      | nil =>
        show hasExpressionStart (d :: c :: rest) = _
        rw [hasExpressionStart, beq_eq_false_iff_ne.2 hbrace, Bool.and_false, Bool.false_or, behind]
      | cons e more => exact absurd rfl (short d e more)

/-- In a body in which no expression opens there is no nested one. -/
theorem not_nested_of_mem_visits (hstart : hasExpressionStart text = false) {i : Nat}
    {inner : List Char} : .nested i inner ∉ visits text := by
  intro h
  obtain ⟨t, hget, hkind, rfl⟩ := token_of_nested_mem_walk h
  have ht : t ∈ tokenize text := List.mem_of_getElem? hget
  obtain ⟨sigil, hsigil, hinner⟩ := eq_of_isExpression (isExpression_of_mem_tokenize ht hkind)
  have opens : hasExpressionStart t.text = true := by
    rw [hinner, hasExpressionStart, hsigil]
    rfl
  rw [hasExpressionStart_of_isInfix (infix_of_mem_tokenize ht) opens] at hstart
  contradiction

/-- The paths of the chains of a body. -/
def bodyPaths (text : List Char) : List (List Char) :=
  (visits text).flatMap fun
    | .chain _ chain => chain.paths
    | .nested _ _ => []

/-- What is found in such a body is what its chains read. -/
theorem visits_matches (hstart : hasExpressionStart text = false) (source : List Char) :
    (visits text).flatMap (visitMatches source) = (bodyPaths text).map (Match.mk source) := by
  rw [bodyPaths, List.map_flatMap]
  refine List.flatMap_congr fun visit hvisit => ?_
  cases visit with
  | chain i chain => rfl
  | nested i inner => exact absurd hvisit (not_nested_of_mem_visits hstart)

/-! ## Templates of one expression -/

/-- No attribute starts with what opens an expression. -/
theorem apart_scannedAttributes (hc : (isSigil c || c == '{') = true) :
    ∀ name ∈ scannedAttributes.map String.toList, name ≠ [] ∧ name.head? ≠ some c := by
  have first : ∀ name ∈ scannedAttributes.map String.toList,
      name ≠ [] ∧ (name.head?.any fun d => isSigil d || d == '{') = false := by
    decide
  intro name hname
  obtain ⟨hne, hfirst⟩ := first name hname
  refine ⟨hne, fun hhead => ?_⟩
  rw [hhead, Option.any_some, hc] at hfirst
  contradiction

/-- A template that consists of one expression, with nothing escaped and nothing
    embedded in it, reports what the expression reads, each path once. -/
theorem templateMatches_whole (hsigil : isSigil sigil = true) (hcloses : Closes body)
    (hescape : '\\' ∉ body) (hstart : hasExpressionStart body = false) :
    templateMatches (sigil :: '{' :: body ++ ['}']) =
      (expressionMatches (sigil :: '{' :: body ++ ['}'])).eraseDups := by
  have visible : stripEscaped (sigil :: '{' :: body ++ ['}']) = sigil :: '{' :: body ++ ['}'] := by
    refine stripEscaped_eq_self fun h => ?_
    simp only [List.cons_append, List.mem_cons, List.mem_append, List.not_mem_nil, or_false] at h
    rcases h with rfl | h | h | h
    · contradiction
    · contradiction
    · exact hescape h
    · contradiction
  have text : textMatches (sigil :: '{' :: body ++ ['}']) =
      expressionMatches (sigil :: '{' :: body ++ ['}']) := by
    rw [textMatches, expressionSpans_whole hsigil hcloses, List.flatMap_singleton, slice_whole]
  -- An attribute that is found in the text has no expression in its value.
  have attributes : ((attributesNamed scannedAttributes
      (sigil :: '{' :: body ++ ['}'])).flatMap attributeMatches) = [] := by
    rw [List.flatMap_eq_nil_iff]
    intro attr hattr
    refine attributeMatches_eq_nil_of_start ?_
    unfold attributesNamed at hattr
    rw [List.cons_append, List.cons_append,
      attributesFrom_cons_of_ne (apart_scannedAttributes (by simp [hsigil])),
      attributesFrom_cons_of_ne (apart_scannedAttributes (by decide))] at hattr
    have hvalue := infix_of_mem_attributesFrom hattr
    have closed : hasExpressionStart (body ++ ['}']) = false := by
      rw [hasExpressionStart_append (by decide) (by decide), hstart]
      rfl
    cases hopens : hasExpressionStart attr.value with
    | false => rfl
    | true =>
      rw [hasExpressionStart_of_isInfix hvalue hopens] at closed
      contradiction
  unfold templateMatches
  simp only [visible, text, attributes, List.append_nil]

theorem innerText_whole (sigil : Char) (body : List Char) :
    innerText (sigil :: '{' :: body ++ ['}']) = body := by
  rw [innerText, List.cons_append, List.cons_append, List.drop_succ_cons, List.drop_succ_cons,
    List.drop_zero, List.dropLast_concat]

/-! ## Messages -/

/-- A message with one argument. -/
def messageOf (key argument : List Char) : List Char :=
  '#' :: '{' :: (key ++ '(' :: (argument ++ [')'])) ++ ['}']

/-- A word character or a dot. -/
def isKeyChar (c : Char) : Bool :=
  isWordChar c || c == '.'

/-- A message key: word characters and dots. -/
structure IsKey (key : List Char) : Prop where
  ne_nil : key ≠ []
  chars : ∀ c ∈ key, isKeyChar c = true

/-- One argument that closes its literals and brackets, escapes nothing and embeds no
    expression. -/
structure IsArgument (argument : List Char) : Prop where
  single : splitParameters argument = [argument]
  balanced : BalancedText argument
  escape : '\\' ∉ argument
  start : hasExpressionStart argument = false

theorem IsArgument.trim_eq (h : IsArgument argument) : trim argument = argument := by
  have hmem : argument ∈ splitParameters argument := by
    rw [h.single]
    exact List.mem_singleton.2 rfl
  exact (trim_of_mem_parametersIn hmem).1

theorem IsKey.isBare (h : IsKey key) : ∀ c ∈ key, isBare c = true :=
  fun c hc => isBare_of_class (h.chars c hc) (by decide) (by decide) (by decide)

/-- A character that no key can have. -/
theorem IsKey.not_mem (h : IsKey key) (hc : isKeyChar c = false) : c ∉ key :=
  not_mem_of_class h.chars hc

theorem IsKey.trim_eq (h : IsKey key) : trim key = key := by
  have solid : ∀ c ∈ key, isBlank c = false := by
    intro c hc
    cases hblank : isBlank c with
    | false => rfl
    | true =>
      rcases Bool.or_eq_true _ _ ▸ h.chars c hc with hword | hdot
      · rw [isWordChar_eq_false_of_isBlank hblank] at hword
        contradiction
      · obtain rfl : c = '.' := by simpa using hdot
        contradiction
  exact trim_eq_self (fun c hc => solid c (List.mem_of_head? hc))
    (fun c hc => solid c (List.mem_of_getLast? hc))

/-- A key is reported as it is. -/
theorem IsKey.keyParts_eq (h : IsKey key) : keyParts key = [.key key] := by
  have start : hasExpressionStart key = false := hasExpressionStart_eq_false (h.not_mem (by decide))
  have literal : isStringLiteral key = false := by
    obtain ⟨c, others, hcons⟩ := List.exists_cons_of_ne_nil h.ne_nil
    have hquote : isQuote c = false :=
      (isBare_iff.1 (h.isBare c (hcons ▸ List.mem_cons_self))).1
    rw [isStringLiteral, h.trim_eq, hcons]
    unfold isQuoted
    split
    · rename_i heq
      rw [← (List.cons.inj heq).1, hquote]
      rfl
    · rfl
  have empty : key.isEmpty = false := by simpa using h.ne_nil
  simp [keyParts, start, literal, empty]

/-- The arguments of a message start behind its key. -/
theorem IsKey.findTopLevel_eq (h : IsKey key) (rest : List Char) :
    findTopLevel ['('] (key ++ '(' :: rest) = some key.length := by
  have passes : Passes ['('] {} {} key := by
    refine passes_of_bare fun c hc => ⟨h.isBare c hc, fun _ heq => ?_⟩
    exact h.not_mem (by decide) (heq ▸ hc)
  have found := passes.eq_some (by simp) rest []
  rw [List.append_nil] at found
  rw [findTopLevel, findTopLevelIn, Nat.sub_zero, List.drop_zero]
  simpa using found

/-- A balanced text between the parentheses of a message. -/
theorem bracketed_eq (h : BalancedText argument) (front : List Char) :
    bracketed (front ++ '(' :: (argument ++ [')'])) front.length = argument := by
  have close : findClosing (front ++ '(' :: (argument ++ [')'])) front.length =
      some (front.length + 1 + argument.length) := by
    have hoffset := h.closingOffset_eq .round []
    simp only [Bracket.opener, Bracket.closer] at hoffset
    rw [findClosing, List.drop_left]
    simp only [closerOf?, if_true, hoffset, Option.map_some, Option.some.injEq]
    omega
  have behind : (front ++ '(' :: (argument ++ [')'])).drop (front.length + 1) =
      argument ++ [')'] := by
    rw [← List.drop_drop, List.drop_left]
    rfl
  rw [bracketed, close]
  dsimp only
  rw [List.extract_eq_take_drop, behind, Nat.add_sub_cancel_left, List.take_left]

/-- The parts of a message with one argument. -/
theorem messageParts_eq (hkey : IsKey key) (hargument : IsArgument argument) :
    messageParts (key ++ '(' :: (argument ++ [')'])) = .key key :: argumentParts argument := by
  have paren := hkey.findTopLevel_eq (argument ++ [')'])
  have here : messageKey (key ++ '(' :: (argument ++ [')'])) = key := by
    rw [messageKey, paren]
    dsimp only
    rw [List.take_left, hkey.trim_eq]
  rw [messageParts, here, hkey.keyParts_eq, paren]
  dsimp only
  rw [bracketed_eq hargument.balanced, hargument.single]
  simp

/-- What an argument reads: nothing when it begins and ends with the same quote, and
    otherwise what it reads as an expression body, a number included. -/
theorem argumentMatches (hargument : IsArgument argument) (source : List Char) :
    (argumentParts argument).flatMap (partMatches source) =
      (if isStringLiteral argument then [] else bodyPaths argument).map (Match.mk source) := by
  rw [argumentParts, hargument.start]
  cases hliteral : isStringLiteral argument with
  | true => rfl
  | false =>
    cases hnumber : isNumericLiteral argument with
    | true => simp [bodyPaths, visits_number hargument.trim_eq hnumber]
    | false => simpa [partMatches] using visits_matches hargument.start source

theorem expressionMatches_messageOf (hkey : IsKey key) (hargument : IsArgument argument) :
    expressionMatches (messageOf key argument) =
      (key :: if isStringLiteral argument then [] else bodyPaths argument).map
        (Match.mk (messageOf key argument)) := by
  have hparts : parts (messageOf key argument) = .key key :: argumentParts argument := by
    rw [← messageParts_eq hkey hargument, messageOf, List.cons_append, parts, ← List.cons_append,
      innerText_whole]
    rfl
  rw [expressionMatches_eq, hparts, List.flatMap_cons, argumentMatches hargument, List.map_cons]
  rfl

theorem templateMatches_messageOf (hkey : IsKey key) (hargument : IsArgument argument) :
    templateMatches (messageOf key argument) =
      (key :: if isStringLiteral argument then [] else bodyPaths argument).eraseDups.map
        (Match.mk (messageOf key argument)) := by
  have closes : Closes (key ++ '(' :: (argument ++ [')'])) :=
    (closes_of_bare hkey.isBare).append (.cons (by decide) (by decide) (by decide)
      (hargument.balanced.closes.append (.cons (by decide) (by decide) (by decide) .nil)))
  have escape : '\\' ∉ key ++ '(' :: (argument ++ [')']) := by
    simp [hargument.escape, hkey.not_mem (show isKeyChar '\\' = false by decide)]
  have start : hasExpressionStart (key ++ '(' :: (argument ++ [')'])) = false := by
    rw [hasExpressionStart_append (by decide) (by decide),
      hasExpressionStart_append (by decide) (by decide), hargument.start,
      hasExpressionStart_eq_false (hkey.not_mem (by decide))]
    rfl
  have whole := templateMatches_whole (show isSigil '#' = true by decide) closes escape start
  rw [← messageOf, expressionMatches_messageOf hkey hargument] at whole
  rw [whole, eraseDups_map fun _ _ h => (Match.mk.inj h).2]

/-- The same argument as an expression of its own. -/
theorem paths_expressionOf (hargument : IsArgument argument) :
    (templateMatches (expressionOf argument)).map Match.path = (bodyPaths argument).eraseDups := by
  have whole := templateMatches_whole (show isSigil '$' = true by decide)
    hargument.balanced.closes hargument.escape hargument.start
  rw [← expressionOf, expressionMatches_expressionOf, visits_matches hargument.start,
    eraseDups_map fun _ _ h => (Match.mk.inj h).2] at whole
  rw [whole, List.map_map]
  exact List.map_id _

/-- **Arguments are read as bodies, except between quotes.** A message reports its key
    and then, each once, the paths that its argument reads as an expression of its own;
    but of an argument that begins and ends with the same quote it reports none. So it
    reports what the argument reads as an expression exactly when the argument does not
    look like one literal, or reads nothing but the key. -/
theorem templateMatches_message (hkey : IsKey key) (hargument : IsArgument argument) :
    templateMatches (messageOf key argument) =
        (key :: if isStringLiteral argument then []
          else ((templateMatches (expressionOf argument)).map Match.path).filter (· ≠ key)).map
            (Match.mk (messageOf key argument)) ∧
      ((templateMatches (messageOf key argument)).map Match.path =
          key :: ((templateMatches (expressionOf argument)).map Match.path).filter (· ≠ key) ↔
        isStringLiteral argument = false ∨
          ∀ m ∈ templateMatches (expressionOf argument), m.path = key) := by
  have message : templateMatches (messageOf key argument) =
      (key :: if isStringLiteral argument then []
        else ((templateMatches (expressionOf argument)).map Match.path).filter (· ≠ key)).map
          (Match.mk (messageOf key argument)) := by
    rw [templateMatches_messageOf hkey hargument, paths_expressionOf hargument, List.eraseDups_cons,
      eraseDups_filter]
    cases isStringLiteral argument with
    | true => rfl
    | false =>
      have same : (fun path => !path == key) = fun path => decide (path ≠ key) := by
        funext path
        by_cases h : path = key <;> simp [h]
      rw [same]
      rfl
  refine ⟨message, ?_⟩
  have paths : (templateMatches (messageOf key argument)).map Match.path =
      key :: if isStringLiteral argument then []
        else ((templateMatches (expressionOf argument)).map Match.path).filter (· ≠ key) := by
    rw [message, List.map_map]
    exact List.map_id _
  rw [paths, List.cons_inj_right]
  cases isStringLiteral argument with
  | false => simp
  | true =>
    rw [if_pos rfl, eq_comm, List.filter_eq_nil_iff]
    simp

/-- Two literals with a variable between them. -/
def joinedSample : List Char :=
  "'x' + y + 'z'".toList

theorem isArgument_joinedSample : IsArgument joinedSample where
  single := by decide
  balanced := ⟨by decide, by intro bracket; cases bracket <;> decide⟩
  escape := by decide
  start := by decide

/-- The variable is read by the expression and lost by the message. -/
theorem templateMatches_joinedSample :
    (templateMatches (expressionOf joinedSample)).map Match.path = [['y']] ∧
      templateMatches (messageOf ['k'] joinedSample) = [⟨messageOf ['k'] joinedSample, ['k']⟩] ∧
      (templateMatches (messageOf ['k'] joinedSample)).map Match.path ≠
        ['k'] :: ((templateMatches (expressionOf joinedSample)).map Match.path).filter
          (· ≠ ['k']) := by
  have expression : (templateMatches (expressionOf joinedSample)).map Match.path = [['y']] := by
    decide +kernel
  have literal : isStringLiteral joinedSample = true := by decide
  have key : IsKey ['k'] := ⟨by decide, List.all_eq_true.1 (by decide)⟩
  obtain ⟨message, same⟩ := templateMatches_message key isArgument_joinedSample
  refine ⟨expression, ?_, ?_⟩
  · rw [message, literal]
    rfl
  · rw [Ne, same, literal]
    rintro (h | h)
    · contradiction
    · obtain ⟨m, hm, hpath⟩ := List.mem_map.1 (expression ▸ List.mem_singleton.2 rfl)
      exact absurd (hpath.symm.trans (h m hm)) (by decide)

end TemplateAnalysis.Variable
