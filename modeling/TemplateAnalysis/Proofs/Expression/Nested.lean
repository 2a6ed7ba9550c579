import TemplateAnalysis.Expression.Nesting
import TemplateAnalysis.Proofs.Text.Character

/-! # Readings pass over nested texts

    A text that closes its literals and balances its brackets is opaque from
    outside:

    * **`passes_nested`**: a search at the top level finds nothing in such a text
      that stands in brackets, and goes on behind it as it came;
    * **`closes_nested`**: neither does the search for the brace that closes an
      expression, which counts the open ones as it goes (**`closingOffset_step`**).

    A search that passes over two stretches passes over both in a row, so the
    values of attributes can be taken apart stretch by stretch.
-/

namespace TemplateAnalysis.Expression

open Text

/-! ## Nested texts -/

/-- The pairs of brackets. -/
inductive Bracket
  | round
  | square
  | curly
  deriving DecidableEq, Repr

/-- The bracket that opens a pair. -/
def Bracket.opener : Bracket → Char
  | .round => '('
  | .square => '['
  | .curly => '{'

/-- The bracket that closes a pair. -/
def Bracket.closer : Bracket → Char
  | .round => ')'
  | .square => ']'
  | .curly => '}'

/-- A character of a literal in single quotes, in a value in double quotes. -/
inductive LiteralChar
  | plain (c : Char) (single : c ≠ '\'') (double : c ≠ '"') (escape : c ≠ '\\')
  /-- A backslash and the character that it covers. -/
  | covered (c : Char) (double : c ≠ '"')

/-- The text of a character of a literal. -/
def LiteralChar.print : LiteralChar → List Char
  | .plain c _ _ _ => [c]
  | .covered c _ => ['\\', c]

/-- What stands in single quotes, with the quotes. -/
def inQuotes (inner : List Char) : List Char :=
  '\'' :: (inner ++ ['\''])

/-- A character that is neither a quote nor a bracket. -/
def isBare (c : Char) : Bool :=
  !isQuote c && !isOpener c && !isCloser c

/-- A text that closes its literals and balances its brackets, without double
    quotes. -/
inductive NestedText
  | nil
  | char (c : Char) (bare : isBare c = true) (rest : NestedText)
  | literal (content : List LiteralChar) (rest : NestedText)
  | brackets (bracket : Bracket) (inner rest : NestedText)

/-- What stands in brackets, with the brackets. -/
def inPair (bracket : Bracket) (inner : List Char) : List Char :=
  bracket.opener :: (inner ++ [bracket.closer])

/-- The text that is nested. -/
def NestedText.print : NestedText → List Char
  | .nil => []
  | .char c _ rest => c :: rest.print
  | .literal content rest => inQuotes (content.flatMap LiteralChar.print) ++ rest.print
  | .brackets bracket inner rest => inPair bracket inner.print ++ rest.print

theorem LiteralChar.not_mem_print (c : LiteralChar) : '"' ∉ c.print := by
  cases c with
  | plain c single double escape => simpa [LiteralChar.print] using double.symm
  | covered c double => simpa [LiteralChar.print] using double.symm

theorem not_mem_inPair {inner : List Char} (bracket : Bracket) (h : '"' ∉ inner) :
    '"' ∉ inPair bracket inner := by
  cases bracket <;> simpa [inPair, Bracket.opener, Bracket.closer] using h

/-- There are no double quotes in a nested text. -/
theorem NestedText.not_mem_print (nested : NestedText) : '"' ∉ nested.print := by
  induction nested with
  | nil => simp [NestedText.print]
  | char c bare rest ih =>
    have hc : '"' ≠ c := by
      rintro rfl
      revert bare
      decide
    simpa [NestedText.print, hc] using ih
  | literal content rest ih =>
    have hcontent : ∀ c ∈ content, '"' ∉ c.print := fun c _ => c.not_mem_print
    simpa [NestedText.print, inQuotes, ih] using hcontent
  | brackets bracket inner rest ihInner ihRest =>
    simpa [NestedText.print, ihRest] using not_mem_inPair bracket ihInner

/-! ## Searches at the top level -/

theorem map_add_add (found : Option Nat) (a b : Nat) :
    (found.map (· + a)).map (· + b) = found.map (· + (b + a)) := by
  rw [Option.map_map]
  congr 1
  funext k
  simp only [Function.comp_apply]
  omega

/-- A search for the token passes over the stretch and comes from one state to
    another: it finds nothing in between. -/
def Passes (token : List Char) (before after : Nesting) (cs : List Char) : Prop :=
  ∀ window rest, topLevelOffset token before (window + cs.length) (cs ++ rest) =
    (topLevelOffset token after window rest).map (· + cs.length)

section Passing

variable {token cs ds inner : List Char} {before between after : Nesting} {depth : Nat} {c : Char}

theorem Passes.nil : Passes token before before [] := by
  intro window rest
  simp

theorem Passes.append (hc : Passes token before between cs) (hd : Passes token between after ds) :
    Passes token before after (cs ++ ds) := by
  intro window rest
  rw [List.length_append, List.append_assoc, Nat.add_comm cs.length, ← Nat.add_assoc, hc, hd,
    map_add_add, Nat.add_comm]

/-- A character is stepped over unless the token starts there at the top level. -/
theorem Passes.cons
    (hmiss : before.isTop = true → ∀ rest, token.isPrefixOf (c :: (cs ++ rest)) = false)
    (h : Passes token (before.step c) after cs) : Passes token before after (c :: cs) := by
  intro window rest
  rw [List.length_cons, ← Nat.add_assoc, List.cons_append, topLevelOffset, if_neg, h, map_add_add,
    Nat.add_comm]
  · cases htop : before.isTop with
    | false => simp
    | true => simp [hmiss htop]

/-- Below the top level every character is stepped over. -/
theorem Passes.cons_of_not_top (htop : before.isTop = false)
    (h : Passes token (before.step c) after cs) : Passes token before after (c :: cs) :=
  .cons (fun h => by rw [htop] at h; contradiction) h

theorem isQuote_cases (h : isQuote c = true) : c = '\'' ∨ c = '"' := by
  simpa [isQuote] using h

theorem isBlank_eq_false_of_isQuote (h : isQuote c = true) : isBlank c = false := by
  rcases isQuote_cases h with rfl | rfl <;> decide

theorem isBare_iff : isBare c = true ↔
    isQuote c = false ∧ isOpener c = false ∧ isCloser c = false := by
  simp [isBare, and_assoc]

/-- A character of a class that holds no quotes. -/
theorem isQuote_eq_false_of_class {p : Char → Bool} (h : p c = true)
    (hquotes : p '\'' = false ∧ p '"' = false) : isQuote c = false := by
  simp [isQuote, ne_of_class h hquotes.1, ne_of_class h hquotes.2]

/-- A character of a class that holds no quotes and no brackets. -/
theorem isBare_of_class {p : Char → Bool} (h : p c = true)
    (hquotes : p '\'' = false ∧ p '"' = false)
    (hopeners : p '(' = false ∧ p '[' = false ∧ p '{' = false)
    (hclosers : p ')' = false ∧ p ']' = false ∧ p '}' = false) : isBare c = true := by
  rw [isBare_iff]
  refine ⟨?_, ?_, ?_⟩
  · exact isQuote_eq_false_of_class h hquotes
  · simp [isOpener, closerOf?, ne_of_class h hopeners.1, ne_of_class h hopeners.2.1,
      ne_of_class h hopeners.2.2]
  · simp [isCloser, openerOf?, ne_of_class h hclosers.1, ne_of_class h hclosers.2.1,
      ne_of_class h hclosers.2.2]

theorem isBare_of_isBlank (h : isBlank c = true) : isBare c = true :=
  isBare_of_class h (by decide) (by decide) (by decide)

/-- A character that is neither a quote nor a bracket changes nothing. -/
theorem step_of_isBare (h : isBare c = true) :
    Nesting.step ⟨.outside, depth⟩ c = ⟨.outside, depth⟩ := by
  obtain ⟨hq, ho, hc⟩ := isBare_iff.1 h
  simp [Nesting.step, Quoting.step, hq, ho, hc]

/-- A search passes over characters that do not start its token at the top
    level. -/
theorem passes_of_bare {first : Char} {more : List Char}
    (h : ∀ c ∈ cs, isBare c = true ∧ (depth = 0 → c ≠ first)) :
    Passes (first :: more) ⟨.outside, depth⟩ ⟨.outside, depth⟩ cs := by
  induction cs with
  | nil => exact .nil
  | cons c cs ih =>
    obtain ⟨hbare, hne⟩ := h c List.mem_cons_self
    refine .cons (fun htop rest => ?_) ?_
    · have hdepth : depth = 0 := by simpa [Nesting.isTop] using htop
      simp [List.isPrefixOf, (hne hdepth).symm]
    · rw [step_of_isBare hbare]
      exact ih fun d hd => h d (List.mem_cons_of_mem c hd)

/-- In a literal a search passes over what neither closes it nor covers anything. -/
theorem passes_of_plain (h : ∀ c ∈ cs, c ≠ '\'' ∧ c ≠ '\\') :
    Passes token ⟨.inside '\'', depth⟩ ⟨.inside '\'', depth⟩ cs := by
  induction cs with
  | nil => exact .nil
  | cons c cs ih =>
    obtain ⟨hquote, hescape⟩ := h c List.mem_cons_self
    refine .cons_of_not_top rfl ?_
    rw [Nesting.step, Quoting.step, if_neg hescape, if_neg hquote]
    exact ih fun d hd => h d (List.mem_cons_of_mem c hd)

/-- In a literal a search passes over its content. -/
theorem passes_content (content : List LiteralChar) :
    Passes token ⟨.inside '\'', depth⟩ ⟨.inside '\'', depth⟩
      (content.flatMap LiteralChar.print) := by
  induction content with
  | nil => exact .nil
  | cons first rest ih =>
    rw [List.flatMap_cons]
    refine .append ?_ ih
    cases first with
    | plain c single double escape => exact passes_of_plain (by simp [LiteralChar.print, *])
    | covered c double => exact .cons_of_not_top rfl (.cons_of_not_top rfl .nil)

/-- What a search passes over in quotes it passes over with the quotes. -/
theorem passes_inQuotes {first : Char} {more : List Char} (hfirst : depth = 0 → first ≠ '\'')
    (h : Passes (first :: more) ⟨.inside '\'', depth⟩ ⟨.inside '\'', depth⟩ inner) :
    Passes (first :: more) ⟨.outside, depth⟩ ⟨.outside, depth⟩ (inQuotes inner) := by
  refine .cons (fun htop rest => ?_) (h.append (.cons_of_not_top rfl .nil))
  have hdepth : depth = 0 := by simpa [Nesting.isTop] using htop
  simp [List.isPrefixOf, hfirst hdepth]

theorem step_opener (bracket : Bracket) :
    Nesting.step ⟨.outside, depth⟩ bracket.opener = ⟨.outside, depth + 1⟩ := by
  cases bracket <;> rfl

theorem step_closer (bracket : Bracket) :
    Nesting.step ⟨.outside, depth + 1⟩ bracket.closer = ⟨.outside, depth⟩ := by
  cases bracket <;> rfl

/-- What a search passes over in brackets it passes over with the brackets. -/
theorem passes_inPair {first : Char} {more : List Char} (bracket : Bracket)
    (hfirst : depth = 0 → first ≠ bracket.opener)
    (h : Passes (first :: more) ⟨.outside, depth + 1⟩ ⟨.outside, depth + 1⟩ inner) :
    Passes (first :: more) ⟨.outside, depth⟩ ⟨.outside, depth⟩ (inPair bracket inner) := by
  refine .cons (fun htop rest => ?_) ?_
  · have hdepth : depth = 0 := by simpa [Nesting.isTop] using htop
    simp [List.isPrefixOf, hfirst hdepth]
  · rw [step_opener]
    refine h.append (.cons_of_not_top (by simp [Nesting.isTop]) ?_)
    rw [step_closer]
    exact .nil

/-- **In brackets a search passes over every nested text.** -/
theorem passes_nested {first : Char} {more : List Char} (nested : NestedText) (depth : Nat) :
    Passes (first :: more) ⟨.outside, depth + 1⟩ ⟨.outside, depth + 1⟩ nested.print := by
  induction nested generalizing depth with
  | nil => exact .nil
  | char c bare rest ih =>
    refine .cons_of_not_top (by simp [Nesting.isTop]) ?_
    rw [step_of_isBare bare]
    exact ih depth
  | literal content rest ih =>
    exact (passes_inQuotes (fun h => absurd h (Nat.succ_ne_zero depth))
      (passes_content content)).append (ih depth)
  | brackets bracket inner rest ihInner ihRest =>
    exact (passes_inPair bracket (fun h => absurd h (Nat.succ_ne_zero depth))
      (ihInner (depth + 1))).append (ihRest depth)

/-- A search that passes over all of its window finds nothing. -/
theorem Passes.eq_none (h : Passes token before after cs) (rest : List Char) :
    topLevelOffset token before cs.length (cs ++ rest) = none := by
  have hall := h 0 rest
  rw [Nat.zero_add] at hall
  rw [hall, topLevelOffset]
  rfl

/-- A search finds its token behind what it passes over. -/
theorem Passes.eq_some (h : Passes token before ⟨.outside, 0⟩ cs) (hne : token ≠ [])
    (more rest : List Char) :
    topLevelOffset token before (cs ++ (token ++ more)).length (cs ++ (token ++ (more ++ rest))) =
      some cs.length := by
  have hall := h (token ++ more).length (token ++ (more ++ rest))
  rw [List.length_append, Nat.add_comm, hall]
  obtain ⟨first, others, rfl⟩ := List.exists_cons_of_ne_nil hne
  have starts : (first :: others).isPrefixOf (first :: (others ++ (more ++ rest))) = true :=
    List.isPrefixOf_iff_prefix.2 ⟨more ++ rest, rfl⟩
  rw [List.cons_append, List.length_cons, List.cons_append, topLevelOffset, if_pos]
  · simp
  · rw [starts]
    simp [Nesting.isTop]

end Passing

/-! ## Searches for a closing bracket -/

theorem Bracket.isQuote_opener (bracket : Bracket) : isQuote bracket.opener = false := by
  cases bracket <;> rfl

theorem Bracket.isQuote_closer (bracket : Bracket) : isQuote bracket.closer = false := by
  cases bracket <;> rfl

theorem Bracket.closer_ne_opener (bracket : Bracket) : bracket.closer ≠ bracket.opener := by
  cases bracket <;> decide

theorem Bracket.closerOf?_opener (bracket : Bracket) :
    closerOf? bracket.opener = some bracket.closer := by
  cases bracket <;> rfl

/-- A bracket that is closed is one of a pair. -/
theorem exists_bracket_of_closerOf? {opener closer : Char} (h : closerOf? opener = some closer) :
    ∃ bracket : Bracket, opener = bracket.opener ∧ closer = bracket.closer := by
  unfold closerOf? at h
  split at h
  · exact ⟨.round, ‹_›, (Option.some.inj h).symm⟩
  · split at h
    · exact ⟨.square, ‹_›, (Option.some.inj h).symm⟩
    · split at h
      · exact ⟨.curly, ‹_›, (Option.some.inj h).symm⟩
      · contradiction

/-- How many brackets of a kind are open behind one character. -/
def levelBehind (bracket : Bracket) (quoting : Quoting) (depth : Nat) (c : Char) : Nat :=
  if quoting = .outside then
    if c = bracket.opener then depth + 1 else if c = bracket.closer then depth - 1 else depth
  else depth

/-- **One character of a search**: it ends the search where it closes the last open
    bracket outside of literals, and else the search counts on behind it. -/
theorem closingOffset_step (bracket : Bracket) (quoting : Quoting) (depth : Nat) (c : Char)
    (rest : List Char) :
    closingOffset bracket.opener bracket.closer quoting depth (c :: rest) =
      if quoting = .outside ∧ c = bracket.closer ∧ depth ≤ 1 then some 0
      else (closingOffset bracket.opener bracket.closer (quoting.step c)
        (levelBehind bracket quoting depth c) rest).map (· + 1) := by
  cases quoting with
  | outside =>
    rw [closingOffset]
    by_cases hopener : c = bracket.opener
    · subst hopener
      simp [levelBehind, Quoting.step, bracket.isQuote_opener, bracket.closer_ne_opener.symm]
    · by_cases hcloser : c = bracket.closer
      · subst hcloser
        simp [levelBehind, Quoting.step, bracket.isQuote_closer, bracket.closer_ne_opener]
      · simp [levelBehind, hopener, hcloser]
  | inside quote => simp [closingOffset, levelBehind]
  | covered quote => simp [closingOffset, levelBehind]

/-- The bracket that is to be closed is the first to be counted. -/
theorem findClosing_of_opened {text rest : List Char} {position : Nat} (bracket : Bracket)
    (h : text.drop position = bracket.opener :: rest) :
    findClosing text position =
      (closingOffset bracket.opener bracket.closer .outside 1 rest).map (position + 1 + ·) := by
  unfold findClosing
  rw [h]
  simp only [bracket.closerOf?_opener]
  rw [closingOffset, if_pos rfl, map_add_add]
  congr 1
  funext k
  omega

/-! ## The brace that closes an expression -/

/-- The search for a closing brace passes over the stretch. -/
def Closes (cs : List Char) : Prop :=
  ∀ depth rest, closingOffset '{' '}' .outside (depth + 1) (cs ++ rest) =
    (closingOffset '{' '}' .outside (depth + 1) rest).map (· + cs.length)

section Closing

variable {cs ds inner : List Char} {c : Char}

theorem Closes.nil : Closes [] := by
  intro depth rest
  simp

theorem Closes.append (hc : Closes cs) (hd : Closes ds) : Closes (cs ++ ds) := by
  intro depth rest
  rw [List.append_assoc, hc, hd, map_add_add, List.length_append]

/-- A character outside of literals that is neither a quote nor a brace. -/
theorem Closes.cons (hquote : isQuote c = false) (hopener : c ≠ '{') (hcloser : c ≠ '}')
    (h : Closes cs) : Closes (c :: cs) := by
  intro depth rest
  rw [List.cons_append, closingOffset, if_neg hopener, if_neg hcloser, Quoting.step, hquote]
  simp only [Bool.false_eq_true, if_false]
  rw [h, map_add_add, List.length_cons, Nat.add_comm]

theorem closes_of_bare (h : ∀ c ∈ cs, isBare c = true) : Closes cs := by
  induction cs with
  | nil => exact .nil
  | cons c cs ih =>
    obtain ⟨hq, ho, hc⟩ := isBare_iff.1 (h c List.mem_cons_self)
    refine .cons hq ?_ ?_ (ih fun d hd => h d (List.mem_cons_of_mem c hd))
    · rintro rfl
      revert ho
      decide
    · rintro rfl
      revert hc
      decide

/-- In a literal the search passes over the content and the quote behind it. -/
theorem closingOffset_content (content : List LiteralChar) (depth : Nat) (rest : List Char) :
    closingOffset '{' '}' (.inside '\'') depth (content.flatMap LiteralChar.print ++ '\'' :: rest) =
      (closingOffset '{' '}' .outside depth rest).map
        (· + ((content.flatMap LiteralChar.print).length + 1)) := by
  induction content with
  | nil => simp [closingOffset, Quoting.step]
  | cons first others ih =>
    cases first with
    | plain c single double escape =>
      simp only [List.flatMap_cons, LiteralChar.print, List.cons_append, List.nil_append,
        closingOffset, Quoting.step, if_neg escape, if_neg single, ih, map_add_add,
        List.length_cons, Nat.add_comm 1]
    | covered c double =>
      simp only [List.flatMap_cons, LiteralChar.print, List.cons_append, List.nil_append,
        closingOffset, Quoting.step, if_true, ih, map_add_add, List.length_cons, Nat.add_comm 1]

theorem closes_literal (content : List LiteralChar) :
    Closes (inQuotes (content.flatMap LiteralChar.print)) := by
  intro depth rest
  rw [inQuotes, List.cons_append, List.append_assoc, closingOffset, if_neg (by decide),
    if_neg (by decide), show Quoting.step .outside '\'' = .inside '\'' by decide,
    List.singleton_append, closingOffset_content, map_add_add]
  simp [Nat.add_comm]

/-- Brackets of other kinds do not count, and braces balance. -/
theorem closes_inPair (bracket : Bracket) (h : Closes inner) : Closes (inPair bracket inner) := by
  unfold inPair
  cases bracket with
  | round =>
    simp only [Bracket.opener, Bracket.closer]
    exact .cons (by decide) (by decide) (by decide)
      (h.append (.cons (by decide) (by decide) (by decide) .nil))
  | square =>
    simp only [Bracket.opener, Bracket.closer]
    exact .cons (by decide) (by decide) (by decide)
      (h.append (.cons (by decide) (by decide) (by decide) .nil))
  | curly =>
    intro depth rest
    simp only [Bracket.opener, Bracket.closer]
    rw [List.cons_append, List.append_assoc, closingOffset, if_pos rfl, h, List.singleton_append,
      closingOffset, if_neg (by decide), if_pos rfl, if_neg (by omega), Nat.add_sub_cancel,
      map_add_add, map_add_add]
    have hlen : ('{' :: (inner ++ ['}'])).length = 1 + inner.length + 1 := by
      simp only [List.length_cons, List.length_append, List.length_nil]
      omega
    rw [hlen]

/-- **The search for a closing brace passes over every nested text.** -/
theorem closes_nested (nested : NestedText) : Closes nested.print := by
  induction nested with
  | nil => exact .nil
  | char c bare rest ih =>
    have single : Closes [c] := closes_of_bare (by simpa using bare)
    exact single.append ih
  | literal content rest ih => exact (closes_literal content).append ih
  | brackets bracket inner rest ihInner ihRest =>
    exact (closes_inPair bracket ihInner).append ihRest

/-- The brace that opens in front of such a stretch is closed by the one behind. -/
theorem Closes.closingOffset_eq (h : Closes cs) (rest : List Char) :
    closingOffset '{' '}' .outside 0 ('{' :: (cs ++ '}' :: rest)) = some (cs.length + 1) := by
  rw [closingOffset, if_pos rfl, h, closingOffset, if_neg (by decide), if_pos rfl]
  simp

end Closing

end TemplateAnalysis.Expression
