import TemplateAnalysis.Proofs.Expression.Lexing
import TemplateAnalysis.Proofs.Variable.Parts
import TemplateAnalysis.Proofs.Variable.Reading

/-! # Extraction from a written expression

    A template that consists of one expression reports what that expression
    reads, and nothing else:

    * **`templateMatches_print`**: the paths of `${e}` are those of the tree
      `e`, each of them once, in the order of reading.

    Three things have to be seen apart from the walk: that the expression ends
    at its last brace, that nothing in it is escaped, and that what may look
    like an attribute in it has a value without expressions.
-/

namespace TemplateAnalysis.Variable

open Text Expression Markup

/-! ## Quiet texts -/

/-- A text without braces and backslashes that closes its literals. A reading
    comes out of it as it went in. -/
structure Quiet (text : List Char) : Prop where
  bare : ∀ c ∈ text, c ≠ '{' ∧ c ≠ '}' ∧ c ≠ '\\'
  closed : text.foldl Quoting.step .outside = .outside

theorem Quiet.nil : Quiet [] :=
  ⟨by simp, rfl⟩

theorem Quiet.append {before after : List Char} (hb : Quiet before) (ha : Quiet after) :
    Quiet (before ++ after) := by
  refine ⟨fun c hc => ?_, ?_⟩
  · rcases List.mem_append.1 hc with hc | hc
    · exact hb.bare c hc
    · exact ha.bare c hc
  · rw [List.foldl_append, hb.closed, ha.closed]

theorem bare_of_isPlain {c : Char} (h : isPlain c = true) :
    isQuote c = false ∧ c ≠ '{' ∧ c ≠ '}' ∧ c ≠ '\\' := by
  simp only [isPlain, Bool.and_eq_true, Bool.not_eq_true', bne_iff_ne, ne_eq] at h
  exact ⟨h.1.1.1, h.1.2, h.2, h.1.1.2⟩

theorem Quiet.cons {c : Char} {rest : List Char} (hc : isPlain c = true) (h : Quiet rest) :
    Quiet (c :: rest) := by
  obtain ⟨hq, hb⟩ := bare_of_isPlain hc
  refine ⟨fun d hd => ?_, ?_⟩
  · rcases List.mem_cons.1 hd with rfl | hd
    · exact hb
    · exact h.bare d hd
  · rw [List.foldl_cons, Quoting.step, hq]
    exact h.closed

theorem quiet_of_plain {text : List Char} (h : ∀ c ∈ text, isPlain c = true) : Quiet text := by
  induction text with
  | nil => exact .nil
  | cons c rest ih =>
    exact .cons (h c List.mem_cons_self) (ih fun d hd => h d (List.mem_cons_of_mem c hd))

theorem quiet_of_all {text : List Char} (h : text.all isPlain = true) : Quiet text :=
  quiet_of_plain (List.all_eq_true.1 h)

theorem foldl_step_inside {content : List Char} (h : ∀ c ∈ content, isPlain c = true)
    {quote : Char} (hq : isQuote quote = true) :
    content.foldl Quoting.step (.inside quote) = .inside quote := by
  induction content with
  | nil => rfl
  | cons c rest ih =>
    obtain ⟨hc, -, -, hb⟩ := bare_of_isPlain (h c List.mem_cons_self)
    have hne : c ≠ quote := by
      rintro rfl
      rw [hc] at hq
      contradiction
    rw [List.foldl_cons, Quoting.step, if_neg hb, if_neg hne]
    exact ih fun d hd => h d (List.mem_cons_of_mem c hd)

/-- A literal is quiet as a whole. -/
theorem quiet_quoted (quote : Quote) {content : List Char}
    (h : ∀ c ∈ content, isPlain c = true) :
    Quiet (quote.char :: content ++ [quote.char]) := by
  have hq : isQuote quote.char = true := by cases quote <;> decide
  refine ⟨fun c hc => ?_, ?_⟩
  · have hc : c = quote.char ∨ c ∈ content := by
      simp only [List.cons_append, List.mem_cons, List.mem_append, List.not_mem_nil,
        or_false] at hc
      tauto
    rcases hc with rfl | hc
    · cases quote <;> decide
    · exact (bare_of_isPlain (h c hc)).2
  · have opened : Quoting.step .outside quote.char = .inside quote.char := by
      rw [Quoting.step, if_pos hq]
    rw [List.cons_append, List.foldl_cons, opened, List.foldl_append, foldl_step_inside h hq]
    cases quote <;> rfl

/-! ## Expressions are quiet -/

theorem isPlain_of_class {p : Char → Bool} {c : Char} (h : p c = true)
    (single : p '\'' = false) (double : p '"' = false) (escape : p '\\' = false)
    (opener : p '{' = false) (closer : p '}' = false) : isPlain c = true := by
  unfold isPlain isQuote
  simp only [Bool.and_eq_true, Bool.not_eq_true', Bool.or_eq_false_iff, beq_eq_false_iff_ne,
    bne_iff_ne, ne_eq]
  exact ⟨⟨⟨⟨ne_of_class h single, ne_of_class h double⟩, ne_of_class h escape⟩,
    ne_of_class h opener⟩, ne_of_class h closer⟩

theorem quiet_name {text : List Char} (h : isIdentifier text = true) : Quiet text :=
  quiet_of_plain fun _ hc => isPlain_of_isWordChar (isWordChar_of_mem_identifier h hc)

theorem quiet_number (number : Number) : Quiet number.print := by
  have digit : ∀ {c : Char}, isDigit c = true → isPlain c = true := fun h =>
    isPlain_of_class h (by decide) (by decide) (by decide) (by decide) (by decide)
  have whole := quiet_of_plain fun c hc => digit (number.whole_digits c hc)
  have fraction := quiet_of_plain fun c hc => digit (number.fraction_digits c hc)
  unfold Number.print
  split
  · exact whole
  · exact whole.append (.cons (by decide) fraction)

theorem quiet_memberSign (safe : Bool) : Quiet (memberSign safe) := by
  cases safe
  · exact .cons (by decide) .nil
  · exact .cons (by decide) (.cons (by decide) .nil)

theorem quiet_operator (operator : Operator) : Quiet operator.text :=
  quiet_of_all (by cases operator <;> decide)

theorem quiet_gap (gap : Gap) : Quiet gap.text :=
  quiet_of_plain fun c hc => isPlain_of_class (gap.blank c hc) (by decide) (by decide)
    (by decide) (by decide) (by decide)

/-- A quiet text between two plain characters. -/
theorem Quiet.between {opener closer : Char} {inner : List Char} (h : Quiet inner)
    (ho : isPlain opener = true) (hc : isPlain closer = true) :
    Quiet (opener :: inner ++ [closer]) :=
  .append (.cons ho h) (.cons hc .nil)

mutual

theorem quiet_term (gap : Gap) : ∀ term : Term, Quiet (term.print gap)
  | .number number => quiet_number number
  | .literal literal => quiet_quoted literal.quote literal.content_plain
  | .group inner => (quiet_term gap inner).between (by decide) (by decide)
  | .binary left operator right => by
    rw [Term.print, List.append_assoc]
    exact (quiet_term gap left).append (.cons (by decide) ((quiet_operator operator).append
      (.cons (by decide) (quiet_term gap right))))
  | .choice condition yes no => by
    rw [Term.print]
    exact ((((quiet_term gap condition).append (quiet_of_all (by decide))).append
      (quiet_term gap yes)).append (quiet_of_all (by decide))).append (quiet_term gap no)
  | .fallback first other => by
    rw [Term.print]
    exact ((quiet_term gap first).append (quiet_of_all (by decide))).append
      (quiet_term gap other)
  | .chain name accessors => (quiet_name name.identifier).append (quiet_accessors gap accessors)
  | .utility object accessors =>
    .append (.cons (by decide) (quiet_name object.identifier)) (quiet_accessors gap accessors)

theorem quiet_accessor (gap : Gap) : ∀ accessor : Accessor, Quiet (accessor.print gap)
  | .member safe name => (quiet_memberSign safe).append (quiet_name name.identifier)
  | .call safe name arguments => by
    rw [Accessor.print, List.append_assoc]
    exact ((quiet_memberSign safe).append (quiet_name name.identifier)).append
      ((quiet_arguments gap arguments).between (by decide) (by decide))
  | .index index => (quiet_term gap index).between (by decide) (by decide)
  | .item quote key => by
    have h := quiet_quoted quote fun c hc =>
      isPlain_of_isWordChar (isWordChar_of_mem_identifier key.identifier hc)
    have hb := h.between (show isPlain '[' = true by decide) (show isPlain ']' = true by decide)
    rw [Accessor.print]
    simpa using hb
  | .selection condition => by
    rw [Accessor.print]
    exact .cons (by decide) (.cons (by decide)
      ((quiet_term gap condition).between (by decide) (by decide)))
  | .projection body => by
    rw [Accessor.print]
    exact .cons (by decide) (.cons (by decide)
      ((quiet_term gap body).between (by decide) (by decide)))

theorem quiet_accessors (gap : Gap) : ∀ accessors : List Accessor,
    Quiet (printAccessors gap accessors)
  | [] => .nil
  | accessor :: rest => (quiet_accessor gap accessor).append (quiet_accessors gap rest)

theorem quiet_arguments (gap : Gap) : ∀ arguments : List Term,
    Quiet (printArguments gap arguments)
  | [] => .nil
  | argument :: rest => (quiet_term gap argument).append (quiet_moreArguments gap rest)

theorem quiet_moreArguments (gap : Gap) : ∀ arguments : List Term,
    Quiet (printMoreArguments gap arguments)
  | [] => .nil
  | argument :: rest => by
    rw [printMoreArguments]
    exact ((Quiet.cons (by decide) (quiet_gap gap)).append (quiet_term gap argument)).append
      (quiet_moreArguments gap rest)

end

/-! ## The expression as a span -/

/-- A reading for a closing brace passes over a text without braces. -/
theorem closingOffset_append {text : List Char} (h : ∀ c ∈ text, c ≠ '{' ∧ c ≠ '}')
    (quoting : Quoting) (depth : Nat) (rest : List Char) :
    closingOffset '{' '}' quoting depth (text ++ rest) =
      (closingOffset '{' '}' (text.foldl Quoting.step quoting) depth rest).map
        (· + text.length) := by
  induction text generalizing quoting with
  | nil => simp
  | cons c cs ih =>
    obtain ⟨ho, hc⟩ := h c List.mem_cons_self
    have hlevel : levelBehind .curly quoting depth c = depth := by
      simp [levelBehind, Bracket.opener, Bracket.closer, ho, hc]
    have hstep := closingOffset_step .curly quoting depth c (cs ++ rest)
    rw [hlevel, if_neg fun hend => hc hend.2.1] at hstep
    rw [List.cons_append, List.foldl_cons, List.length_cons, Nat.add_comm cs.length, ← map_add_add,
      ← ih fun d hd => h d (List.mem_cons_of_mem c hd)]
    exact hstep

/-- A quiet text is passed over. -/
theorem Quiet.closes {text : List Char} (h : Quiet text) : Closes text := by
  intro depth rest
  have passed := closingOffset_append (fun c hc => ⟨(h.bare c hc).1, (h.bare c hc).2.1⟩)
    .outside (depth + 1) rest
  rwa [h.closed] at passed

/-- An expression whose body closes its braces is one span. -/
theorem expressionSpans_whole {sigil : Char} {body : List Char} (hs : isSigil sigil = true)
    (h : Closes body) :
    expressionSpans (sigil :: '{' :: body ++ ['}']) =
      [⟨0, (sigil :: '{' :: body ++ ['}']).length⟩] := by
  have hlen : (sigil :: '{' :: body ++ ['}']).length = body.length + 3 := by simp
  have hclose := h.closingOffset_eq []
  have hdrop : (body ++ ['}']).drop (body.length + 1) = [] := List.drop_of_length_le (by simp)
  rw [expressionSpans, expressionSpansIn, List.drop_zero, hlen]
  rw [List.cons_append, List.cons_append, spansFrom.eq_def]
  simp only [hclose, hdrop]
  rw [spansFrom.eq_def]
  simp [hs]
  rw [if_pos (by omega), show 2 + (body.length + 1) = body.length + 3 by omega]

/-- An expression whose body is quiet. -/
def expressionOf (body : List Char) : List Char :=
  '$' :: '{' :: body ++ ['}']

theorem expressionSpans_expressionOf {body : List Char} (h : Quiet body) :
    expressionSpans (expressionOf body) = [⟨0, (expressionOf body).length⟩] :=
  expressionSpans_whole (by decide) h.closes

theorem slice_whole (text : List Char) : Span.slice ⟨0, text.length⟩ text = text := by
  simp [Span.slice]

/-- The paths that a part of an expression reads. -/
def partMatches (expression : List Char) : Part → List Match
  | .key key => [⟨expression, key⟩]
  | .plain text => textMatches text
  | .body text => (visits text).flatMap (visitMatches expression)

/-- An expression reads what its parts read. -/
theorem expressionMatches_eq (expression : List Char) :
    expressionMatches expression = (parts expression).flatMap (partMatches expression) := by
  rw [expressionMatches.eq_def, List.flatMap_subtype (g := partMatches expression),
    List.unattach_attach]
  intro part hp
  cases part with
  | key key => rfl
  | plain text => rfl
  | body text =>
    simp only [partMatches]
    rw [List.flatMap_subtype (g := visitMatches expression), List.unattach_attach]
    intro visit hv
    cases visit <;> rfl

/-- What is found in a body is reported for the expression. -/
theorem expressionMatches_expressionOf (body : List Char) :
    expressionMatches (expressionOf body) =
      (visits body).flatMap (visitMatches (expressionOf body)) := by
  have hparts : parts (expressionOf body) = [.body body] := by
    simp [expressionOf, parts, innerText]
  rw [expressionMatches_eq, hparts]
  simp [partMatches]

/-! ## What is not there -/

/-- Without braces no expression opens. -/
theorem hasExpressionStart_eq_false {text : List Char} (h : '{' ∉ text) :
    hasExpressionStart text = false := by
  fun_induction hasExpressionStart text with
  | case1 c d rest ih =>
    have hbrace : d ≠ '{' := fun heq => h (heq ▸ List.mem_cons_of_mem c List.mem_cons_self)
    have hrest := ih fun hmem => h (List.mem_cons_of_mem c hmem)
    simp [hbrace, hrest]
  | case2 => rfl

theorem spansFrom_eq_nil {text : List Char} (h : hasExpressionStart text = false)
    (stop position : Nat) : spansFrom stop position text = [] := by
  fun_induction spansFrom stop position text <;> simp_all [hasExpressionStart]

theorem textMatches_eq_nil {text : List Char} (h : hasExpressionStart text = false) :
    textMatches text = [] := by
  rw [textMatches, expressionSpans, expressionSpansIn, List.drop_zero, spansFrom_eq_nil h]
  rfl

theorem stripEscaped_eq_self {text : List Char} (h : '\\' ∉ text) : stripEscaped text = text := by
  fun_induction stripEscaped text <;> simp_all

/-- No attribute starts with a character that starts no name. -/
theorem attributesFrom_cons_of_ne {names : List (List Char)} {c : Char}
    (h : ∀ name ∈ names, name ≠ [] ∧ name.head? ≠ some c)
    (position : Nat) (behindName : Bool) (rest : List Char) :
    attributesFrom names position behindName (c :: rest) =
      attributesFrom names (position + 1) (isNameChar c) rest := by
  have none : names.findSome? (attributeNamed? · (c :: rest)) = none := by
    rw [List.findSome?_eq_none_iff]
    intro name hn
    obtain ⟨hne, hc⟩ := h name hn
    cases name with
    | nil => contradiction
    | cons d more =>
      have hd : d ≠ c := fun heq => hc (by rw [heq]; rfl)
      simp [attributeNamed?, after?, hd]
  rw [attributesFrom.eq_def]
  cases behindName <;> simp [none]

/-- Behind the opening brace the attributes of an expression have values
    without braces. -/
theorem brace_not_mem_value {body : List Char} (h : Quiet body) {attr : Attribute}
    (ha : attr ∈ attributesNamed scannedAttributes (expressionOf body)) : '{' ∉ attr.value := by
  unfold attributesNamed expressionOf at ha
  rw [List.cons_append, attributesFrom_cons_of_ne (by decide), List.cons_append,
    attributesFrom_cons_of_ne (by decide)] at ha
  intro hc
  have hm := (infix_of_mem_attributesFrom ha).subset hc
  rcases List.mem_append.1 hm with hm | hm
  · exact (h.bare _ hm).1 rfl
  · simp at hm

/-- Where an expression opens in a part of a text, one opens in the text. -/
theorem hasExpressionStart_of_isInfix {part text : List Char} (h : part <:+: text)
    (hstart : hasExpressionStart part = true) : hasExpressionStart text = true := by
  obtain ⟨before, after, rfl⟩ := h
  rw [List.append_assoc]
  induction before with
  | nil =>
    fun_induction hasExpressionStart part with
    | case1 c d rest ih =>
      simp only [List.nil_append, List.cons_append, hasExpressionStart, Bool.or_eq_true]
        at hstart ih ⊢
      exact hstart.imp_right ih
    | case2 => contradiction
  | cons c rest ih =>
    rw [List.cons_append]
    generalize rest ++ (part ++ after) = behind at ih
    cases behind with
    | nil => contradiction
    | cons d more => rw [hasExpressionStart, ih, Bool.or_true]

/-- A value in which no expression opens reads nothing. -/
theorem attributeMatches_eq_nil_of_start {attr : Attribute}
    (h : hasExpressionStart attr.value = false) : attributeMatches attr = [] := by
  have part : ∀ {value : List Char}, value <:+: attr.value → textMatches value = [] := by
    intro value hvalue
    cases hstart : hasExpressionStart value with
    | false => exact textMatches_eq_nil hstart
    | true =>
      rw [hasExpressionStart_of_isInfix hvalue hstart] at h
      contradiction
  unfold attributeMatches
  split
  · rw [List.flatMap_eq_nil_iff]
    intro assignment ha
    have hvalue := (delimited_assignedValue assignment).trans (delimited_of_mem_splitParameters ha)
    exact part hvalue.isInfix
  · exact part (List.infix_refl _)

/-- A value without braces reads nothing. -/
theorem attributeMatches_eq_nil {attr : Attribute} (h : '{' ∉ attr.value) :
    attributeMatches attr = [] :=
  attributeMatches_eq_nil_of_start (hasExpressionStart_eq_false h)

/-! ## Extraction -/

theorem eraseDups_map {α β : Type} [BEq α] [LawfulBEq α] [BEq β] [LawfulBEq β] {f : α → β}
    (hf : Function.Injective f) (xs : List α) : (xs.map f).eraseDups = xs.eraseDups.map f := by
  induction hn : xs.length using Nat.strongRecOn generalizing xs with
  | ind n ih =>
    cases xs with
    | nil => rfl
    | cons x rest =>
      have hfilter : (rest.map f).filter (fun y => !y == f x) =
          (rest.filter fun y => !y == x).map f := by
        rw [List.filter_map]
        congr 1
        refine List.filter_congr fun y _ => ?_
        rw [Function.comp_apply, Bool.eq_iff_iff]
        simp [hf.eq_iff]
      have hlt : (rest.filter fun y => !y == x).length < n := by
        have := List.length_filter_le (fun y => !y == x) rest
        rw [List.length_cons] at hn
        omega
      rw [List.map_cons, List.eraseDups_cons, List.eraseDups_cons, hfilter, ih _ hlt _ rfl,
        List.map_cons]

/-- Leaving out repetitions, and leaving out what is not asked for. -/
theorem eraseDups_filter {α : Type} [BEq α] [LawfulBEq α] (p : α → Bool) (xs : List α) :
    (xs.filter p).eraseDups = xs.eraseDups.filter p := by
  induction hn : xs.length using Nat.strongRecOn generalizing xs with
  | ind n ih =>
    cases xs with
    | nil => rfl
    | cons x rest =>
      have hlt : (rest.filter fun y => !y == x).length < n := by
        have := List.length_filter_le (fun y => !y == x) rest
        rw [List.length_cons] at hn
        omega
      have hrest := ih _ hlt _ rfl
      rw [List.filter_filter] at hrest
      cases hx : p x with
      | true =>
        rw [List.filter_cons_of_pos hx, List.eraseDups_cons, List.eraseDups_cons,
          List.filter_cons_of_pos hx, ← hrest, List.filter_filter]
        simp only [Bool.and_comm]
      | false =>
        -- What is equal to the first is not asked for either.
        have hsame : rest.filter p = rest.filter fun y => p y && !y == x := by
          refine List.filter_congr fun y _ => ?_
          by_cases hy : y = x
          · rw [hy, hx, Bool.false_and]
          · simp [hy]
        rw [List.filter_cons_of_neg (by simp [hx]), List.eraseDups_cons,
          List.filter_cons_of_neg (by simp [hx]), ← hrest, ← hsame]

/-- The walk over a printed expression finds its paths. -/
theorem visits_print (gap : Gap) (term : Term) (source : List Char) :
    (visits (term.print gap)).flatMap (visitMatches source) =
      term.reads.map (Match.mk source) := by
  have hpieces : (Body.ofText (term.print gap)).tokens.map Token.piece = term.pieces := by
    have h := piecesOf_term gap term [] boundary_nil
    rw [List.append_nil] at h
    rw [show piecesOf [] = [] by rw [piecesOf, tokenize, tokensFrom_nil]; rfl,
      List.append_nil] at h
    exact h
  have hlen : (Body.ofText (term.print gap)).tokens.length = term.pieces.length := by
    rw [← hpieces, List.length_map]
  have hstands : Stands (Body.ofText (term.print gap)) 0 term.pieces := by
    unfold Stands
    rw [List.drop_zero]
    exact hpieces ▸ List.prefix_refl _
  have hf := found_term source (Body.ofText (term.print gap)) term 0 0 term.pieces.length
    (.here _ 0) hstands (by omega) (accessAt?_eq_none_of_le _ (by omega))
  rw [Nat.zero_add, found_stop (Nat.le_refl _), List.append_nil] at hf
  unfold visits
  simp only [hlen]
  exact hf

/-- **Extraction is exact**: the template `${e}` reports the paths that the
    expression `e` reads, each of them once and in the order of reading. -/
theorem templateMatches_print (gap : Gap) (term : Term) :
    templateMatches ('$' :: '{' :: term.print gap ++ ['}']) =
      term.reads.eraseDups.map (Match.mk ('$' :: '{' :: term.print gap ++ ['}'])) := by
  show templateMatches (expressionOf (term.print gap)) =
    term.reads.eraseDups.map (Match.mk (expressionOf (term.print gap)))
  have quiet := quiet_term gap term
  have visible : stripEscaped (expressionOf (term.print gap)) = expressionOf (term.print gap) := by
    refine stripEscaped_eq_self fun h => ?_
    simp only [expressionOf, List.cons_append, List.mem_cons, List.mem_append, List.not_mem_nil,
      or_false] at h
    rcases h with h | h | h | h
    · contradiction
    · contradiction
    · exact (quiet.bare _ h).2.2 rfl
    · contradiction
  have text : textMatches (expressionOf (term.print gap)) =
      term.reads.map (Match.mk (expressionOf (term.print gap))) := by
    rw [textMatches, expressionSpans_expressionOf quiet, List.flatMap_singleton, slice_whole,
      expressionMatches_expressionOf, visits_print]
  have attributes : ((attributesNamed scannedAttributes
      (expressionOf (term.print gap))).flatMap attributeMatches) = [] := by
    rw [List.flatMap_eq_nil_iff]
    exact fun attr ha => attributeMatches_eq_nil (brace_not_mem_value quiet ha)
  have injective : Function.Injective (Match.mk (expressionOf (term.print gap))) :=
    fun _ _ h => (Match.mk.inj h).2
  unfold templateMatches
  simp only [visible, text, attributes, List.append_nil]
  exact eraseDups_map injective term.reads

end TemplateAnalysis.Variable
