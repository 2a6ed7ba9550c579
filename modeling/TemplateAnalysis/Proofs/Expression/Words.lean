import TemplateAnalysis.Proofs.Expression.Lexeme

/-! # Names and words

    A body is not read word by word: where no token starts, one character is
    passed over, and that character may be the first of a word. What a name can
    be is still narrow:

    * **`exists_wholeWord_of_mem_tokenize`**: a name is what is left of a whole
      word of the text from its first ASCII letter or underscore on.

    So a name is a whole word unless its word starts with a digit or with a
    letter of another script. The step lemma (`between_drop`) says what stands in
    front of a place at which a token may start, and the run over a text carries
    it along.
-/

namespace TemplateAnalysis.Expression

open Text

variable {cs front rest part whole text word : List Char} {c : Char}

/-! ## Words of a text -/

/-- Does the text end in a word character? -/
def endsInWord (text : List Char) : Bool :=
  text.getLast?.any isWordChar

theorem endsInWord_concat (front : List Char) (c : Char) :
    endsInWord (front ++ [c]) = isWordChar c := by
  rw [endsInWord, List.getLast?_concat]
  rfl

theorem endsInWord_append_of_ne_nil (hne : rest ≠ []) (front : List Char) :
    endsInWord (front ++ rest) = endsInWord rest := by
  rw [endsInWord, List.getLast?_append_of_ne_nil front hne]
  rfl

theorem startsWithWord_append_of_ne_nil (hne : front ≠ []) (rest : List Char) :
    startsWithWord (front ++ rest) = startsWithWord front := by
  cases front with
  | nil => contradiction
  | cons c more => rfl

theorem endsInWord_of_any (h : text.any isWordChar = false) : endsInWord text = false := by
  cases hl : text.getLast? with
  | none => simp [endsInWord, hl]
  | some c =>
    rw [endsInWord, hl]
    simpa using List.any_eq_false.1 h c (List.mem_of_getLast? hl)

theorem startsWithWord_of_any (h : text.any isWordChar = false) : startsWithWord text = false := by
  cases text with
  | nil => rfl
  | cons c rest => exact (Bool.or_eq_false_iff.1 h).1

/-- The part stands in the text at a place where no word goes on beyond it, on
    neither side. -/
def Delimited (part text : List Char) : Prop :=
  ∃ before after, text = before ++ (part ++ after) ∧ endsInWord before = false ∧
    startsWithWord after = false

theorem Delimited.refl (text : List Char) : Delimited text text :=
  ⟨[], [], (List.append_nil text).symm, rfl, rfl⟩

theorem Delimited.trans (h : Delimited part whole) (h' : Delimited whole text) :
    Delimited part text := by
  obtain ⟨before, after, rfl, hbefore, hafter⟩ := h
  obtain ⟨front, back, rfl, hfront, hback⟩ := h'
  refine ⟨front ++ before, after ++ back, by simp only [List.append_assoc], ?_, ?_⟩
  · by_cases hne : before = []
    · rw [hne, List.append_nil, hfront]
    · rw [endsInWord_append_of_ne_nil hne, hbefore]
  · by_cases hne : after = []
    · rw [hne, List.nil_append, hback]
    · rw [startsWithWord_append_of_ne_nil hne, hafter]

theorem Delimited.isInfix (h : Delimited part text) : part <:+: text := by
  obtain ⟨before, after, rfl, -, -⟩ := h
  exact ⟨before, after, List.append_assoc before part after⟩

/-- A word of the text, with nothing of it left out. -/
structure WholeWord (word text : List Char) : Prop where
  chars : ∀ c ∈ word, isWordChar c = true
  delimited : Delimited word text

theorem WholeWord.trans (h : WholeWord word whole) (h' : Delimited whole text) :
    WholeWord word text :=
  ⟨h.chars, h.delimited.trans h'⟩

/-- What can be the name in a word: all of it from its first ASCII letter or
    underscore on. -/
def nameOf (word : List Char) : List Char :=
  word.dropWhile fun c => !isNameStart c

/-- A word that is a name is read as a whole. -/
theorem nameOf_of_isIdentifier (h : isIdentifier word = true) : nameOf word = word := by
  obtain ⟨c, rest, rfl, hc, -⟩ := exists_cons_of_isIdentifier h
  exact List.dropWhile_cons_of_neg (by simp [hc])

/-! ## Between two tokens -/

/-- The word in which the text ends has no name in it so far. -/
def BehindNoName (text : List Char) : Prop :=
  ∃ outer run, text = outer ++ run ∧ endsInWord outer = false ∧
    ∀ c ∈ run, isWordChar c = true ∧ isNameStart c = false

theorem behindNoName_of_endsInWord (h : endsInWord text = false) : BehindNoName text :=
  ⟨text, [], (List.append_nil text).symm, h, by simp⟩

/-- What is passed over is in no word, or it is no start of a name. -/
theorem BehindNoName.concat (h : isWordChar c = true → BehindNoName front)
    (hc : isNameStart c = false) : BehindNoName (front ++ [c]) := by
  cases hw : isWordChar c with
  | false => exact behindNoName_of_endsInWord (by rw [endsInWord_concat, hw])
  | true =>
    obtain ⟨outer, run, rfl, houter, hrun⟩ := h hw
    refine ⟨outer, run ++ [c], List.append_assoc outer run [c], houter, ?_⟩
    intro d hd
    rcases List.mem_append.1 hd with hd | hd
    · exact hrun d hd
    · obtain rfl := List.mem_singleton.1 hd
      exact ⟨hw, hc⟩

/-- Where a lexeme may start: in no word, or in a word without a name in it so
    far. -/
def Between (front rest : List Char) : Prop :=
  startsWithWord rest = false ∨ BehindNoName front

/-- What one lexeme preserves. -/
theorem between_drop (hne : cs ≠ []) (h : Between front cs) :
    Between (front ++ cs.take (lexeme cs).length) (cs.drop (lexeme cs).length) := by
  rcases endsApart_lexeme cs with ⟨hnoName, hsingle⟩ | ⟨c, hlast, hc⟩ | hapart
  · -- Only here can a word be entered in its middle.
    obtain ⟨c, more, rfl⟩ := List.exists_cons_of_ne_nil hne
    rw [hsingle]
    refine .inr (BehindNoName.concat (fun hw => ?_) ?_)
    · rcases h with h | h
      · rw [startsWithWord, hw] at h
        contradiction
      · exact h
    · cases hc : isNameStart c with
      | false => rfl
      | true => simp [identifierLexeme?, identifierLength, hc] at hnoName
  · refine .inr (behindNoName_of_endsInWord ?_)
    have hne' : cs.take (lexeme cs).length ≠ [] := by
      intro hnil
      rw [hnil] at hlast
      contradiction
    rw [endsInWord_append_of_ne_nil hne', endsInWord, hlast]
    exact hc
  · exact .inl hapart

/-! ## Names -/

theorem isIdentifier_take_identifierLength (h : identifierLength cs ≠ 0) :
    isIdentifier (cs.take (identifierLength cs)) = true := by
  cases cs with
  | nil => contradiction
  | cons c rest =>
    cases hc : isNameStart c with
    | false => simp [identifierLength, hc] at h
    | true =>
      have htake : rest.take (rest.takeWhile isWordChar).length = rest.takeWhile isWordChar :=
        (List.prefix_iff_eq_take.1 (List.takeWhile_prefix isWordChar)).symm
      simp only [identifierLength, hc, if_true, List.take_succ_cons, htake, isIdentifier,
        Bool.true_and]
      exact List.all_takeWhile

theorem isIdentifier_of_lexeme (h : (lexeme cs).kind = some .identifier) :
    isIdentifier (cs.take (lexeme cs).length) = true := by
  have hread := identifierLexeme?_of_lexeme h
  simp only [identifierLexeme?] at hread
  split at hread
  · contradiction
  · rename_i hne
    rw [← Option.some.inj hread]
    exact isIdentifier_take_identifierLength hne

/-- A name goes to the end of its word, and in front of it stands only what
    starts no name. -/
theorem exists_wholeWord_of_lexeme (h : Between front cs)
    (hk : (lexeme cs).kind = some .identifier) :
    ∃ word, WholeWord word (front ++ cs) ∧ nameOf word = cs.take (lexeme cs).length := by
  have hname := isIdentifier_of_lexeme hk
  have hapart : startsWithWord (cs.drop (lexeme cs).length) = false := by
    have hread := identifierLexeme?_of_lexeme hk
    simp only [identifierLexeme?] at hread
    split at hread
    · contradiction
    · rename_i hne
      rw [← Option.some.inj hread]
      exact startsWithWord_drop_identifierLength hne
  have hsplit := (List.take_append_drop (lexeme cs).length cs).symm
  generalize cs.take (lexeme cs).length = name at hname hsplit
  generalize cs.drop (lexeme cs).length = behind at hapart hsplit
  obtain ⟨first, more, rfl, hfirst, hmore⟩ := exists_cons_of_isIdentifier hname
  have hword := isWordChar_of_isNameStart hfirst
  rcases h with h | ⟨outer, run, rfl, houter, hrun⟩
  · -- A name starts with a word character, so its place is in a word.
    rw [hsplit, List.cons_append, startsWithWord, hword] at h
    contradiction
  · refine ⟨run ++ first :: more, ⟨?_, outer, behind, ?_, houter, hapart⟩, ?_⟩
    · intro d hd
      rcases List.mem_append.1 hd with hd | hd
      · exact (hrun d hd).1
      · exact isWordChar_of_mem_identifier hname hd
    · rw [hsplit]
      simp only [List.append_assoc]
    · rw [nameOf, List.dropWhile_append_of_pos fun d hd => by simp [(hrun d hd).2]]
      exact nameOf_of_isIdentifier hname

/-! ## Tokens of a text -/

section Tokens

variable {position : Nat} {t : Token}

/-- Where the reading goes on behind a lexeme. -/
theorem drop_pred (c : Char) (rest : List Char) :
    rest.drop ((lexeme (c :: rest)).length - 1) = (c :: rest).drop (lexeme (c :: rest)).length := by
  obtain ⟨n, hn⟩ := Nat.exists_eq_succ_of_ne_zero (lexeme_length_ne_zero (c :: rest))
  rw [hn]
  rfl

/-- **What a token is**: it is read as a lexeme of what is left of the text, at a
    place where one may start. -/
theorem exists_lexeme_of_mem_tokensFrom (hbetween : Between front cs)
    (h : t ∈ tokensFrom position cs) :
    ∃ before rest, front ++ cs = before ++ rest ∧ Between before rest ∧
      (lexeme rest).kind = some t.kind ∧ rest.take (lexeme rest).length = t.text := by
  fun_induction tokensFrom position cs generalizing front
  case case1 => simp at h
  case case2 position c rest found others kind hfound ih =>
    rcases List.mem_cons.1 h with rfl | h
    · exact ⟨front, c :: rest, rfl, hbetween, hfound, rfl⟩
    · have hdrop := drop_pred c rest
      obtain ⟨before, rest', hsplit, hread⟩ := ih (hdrop ▸ between_drop (by simp) hbetween) h
      exact ⟨before, rest', by rw [← hsplit, hdrop, List.append_assoc, List.take_append_drop],
        hread⟩
  case case3 position c rest found others hfound ih =>
    have hdrop := drop_pred c rest
    obtain ⟨before, rest', hsplit, hread⟩ := ih (hdrop ▸ between_drop (by simp) hbetween) h
    exact ⟨before, rest', by rw [← hsplit, hdrop, List.append_assoc, List.take_append_drop],
      hread⟩

/-- The same for the tokens of a whole text. -/
theorem exists_lexeme_of_mem_tokenize (h : t ∈ tokenize text) :
    ∃ before rest, text = before ++ rest ∧ Between before rest ∧
      (lexeme rest).kind = some t.kind ∧ rest.take (lexeme rest).length = t.text := by
  have front : BehindNoName [] := behindNoName_of_endsInWord rfl
  exact exists_lexeme_of_mem_tokensFrom (.inr front) h

theorem infix_of_mem_tokenize (h : t ∈ tokenize text) : t.text <:+: text := by
  obtain ⟨before, rest, rfl, -, -, htext⟩ := exists_lexeme_of_mem_tokenize h
  rw [← htext]
  exact (List.take_prefix _ rest).isInfix.trans (List.suffix_append before rest).isInfix

/-- A nested expression is complete. -/
theorem isExpression_of_mem_tokenize (h : t ∈ tokenize text) (hk : t.kind = .nested) :
    IsExpression t.text := by
  obtain ⟨before, rest, -, -, hkind, htext⟩ := exists_lexeme_of_mem_tokenize h
  rw [hk] at hkind
  rw [← htext]
  exact isExpression_take
    (expressionLength?_of_nestedLexeme? (nestedLexeme?_of_lexeme hkind) hkind)

/-- A literal stands between two quotes, which set apart what it says. -/
theorem exists_quoted_of_mem_tokenize (h : t ∈ tokenize text) (hk : t.kind = .string) :
    ∃ (quote : Quote) (inner : List Char), t.text = quote.char :: inner ++ [quote.char] ∧
      Delimited inner text := by
  obtain ⟨before, rest, rfl, -, hkind, htext⟩ := exists_lexeme_of_mem_tokenize h
  rw [hk] at hkind
  obtain ⟨quote, inner, hquoted⟩ := take_of_stringLexeme? (stringLexeme?_of_lexeme hkind)
  have hquote : isWordChar quote.char = false := by cases quote <;> decide
  refine ⟨quote, inner, htext ▸ hquoted, before ++ [quote.char],
    quote.char :: rest.drop (lexeme rest).length, ?_, by rw [endsInWord_concat, hquote], hquote⟩
  calc before ++ rest
      = before ++ (rest.take (lexeme rest).length ++ rest.drop (lexeme rest).length) := by
        rw [List.take_append_drop]
    _ = before ++ [quote.char] ++ (inner ++ quote.char :: rest.drop (lexeme rest).length) := by
        rw [hquoted]
        simp

/-- A token of the kind of an identifier is one. -/
theorem isIdentifier_of_mem_tokenize (h : t ∈ tokenize text) (hk : t.kind = .identifier) :
    isIdentifier t.text = true := by
  obtain ⟨before, rest, -, -, hkind, htext⟩ := exists_lexeme_of_mem_tokenize h
  rw [← htext]
  exact isIdentifier_of_lexeme (hk ▸ hkind)

/-- **A name goes to the end of its word**, and in front of it stands only what
    starts no name. -/
theorem exists_wholeWord_of_mem_tokenize (h : t ∈ tokenize text) (hk : t.kind = .identifier) :
    ∃ word, WholeWord word text ∧ nameOf word = t.text := by
  obtain ⟨before, rest, rfl, hbetween, hkind, htext⟩ := exists_lexeme_of_mem_tokenize h
  rw [← htext]
  exact exists_wholeWord_of_lexeme hbetween (hk ▸ hkind)

end Tokens

end TemplateAnalysis.Expression
