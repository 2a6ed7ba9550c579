import TemplateAnalysis.Proofs.Expression.Spans
import TemplateAnalysis.Proofs.Expression.Syntax
import TemplateAnalysis.Proofs.Text.Character

/-! # Lexemes

    What can stand at the front of a text, by the reader that has found it
    (`ReadBy`), and where it ends: no word goes on behind a lexeme
    (`endsApart_lexeme`), unless it is a single character that is passed over.
-/

namespace TemplateAnalysis.Expression

open Text

variable {cs : List Char} {l : Lexeme}

/-! ## What a lexeme is -/

/-- The lexeme is what the reader of its kind has found, or without any reader
    a single character that starts no name. -/
inductive ReadBy (cs : List Char) (l : Lexeme) : Prop
  | blank (read : blankLexeme? cs = some l) (kind : l.kind = none)
  | string (read : stringLexeme? cs = some l) (kind : l.kind = some .string)
  | nested (read : nestedLexeme? cs = some l) (kind : l.kind = some .nested ∨ l.kind = none)
  | utility (read : signedLexeme? '#' .utility cs = some l) (kind : l.kind = some .utility)
  | bean (read : signedLexeme? '@' .bean cs = some l) (kind : l.kind = some .bean)
  | number (read : numberLexeme? cs = some l) (kind : l.kind = some .number)
  | identifier (read : identifierLexeme? cs = some l) (kind : l.kind = some .identifier)
  | filter (read : filterLexeme? cs = some l) (kind : l.kind = some .filter)
  | safe (read : safeLexeme? cs = some l) (kind : l.kind = some .safe)
  | sign (read : signLexeme? cs = some l)
      (kind : l.kind ∈ [some .dot, some .opening, some .closing, some .operator])
  | skipped (noName : identifierLexeme? cs = none) (single : l = ⟨none, 1⟩)

theorem readBy_of_some (h : (blankLexeme? cs <|> stringLexeme? cs <|> nestedLexeme? cs <|>
    signedLexeme? '#' .utility cs <|> signedLexeme? '@' .bean cs <|>
    numberLexeme? cs <|> identifierLexeme? cs <|>
    filterLexeme? cs <|> safeLexeme? cs <|> signLexeme? cs) = some l) : ReadBy cs l := by
  simp only [Option.orElse_apply, Option.orElse_eq_or, Option.or_eq_some_iff] at h
  rcases h with h | ⟨-, h | ⟨-, h | ⟨-, h | ⟨-, h | ⟨-, h | ⟨-, h | ⟨-, h | ⟨-, h | ⟨-, h⟩⟩⟩⟩⟩⟩⟩⟩⟩
  · refine .blank h ?_
    unfold blankLexeme? at h
    grind
  · refine .string h ?_
    unfold stringLexeme? at h
    split at h
    · obtain ⟨n, -, rfl⟩ := Option.map_eq_some_iff.1 h
      rfl
    · obtain ⟨n, -, rfl⟩ := Option.map_eq_some_iff.1 h
      rfl
    · contradiction
  · refine .nested h ?_
    unfold nestedLexeme? at h
    grind
  · refine .utility h ?_
    unfold signedLexeme? at h
    grind
  · refine .bean h ?_
    unfold signedLexeme? at h
    grind
  · refine .number h ?_
    simp only [numberLexeme?] at h
    split at h
    · contradiction
    · obtain ⟨n, -, rfl⟩ := Option.map_eq_some_iff.1 h
      rfl
  · refine .identifier h ?_
    simp only [identifierLexeme?] at h
    grind
  · refine .filter h ?_
    unfold filterLexeme? at h
    grind
  · refine .safe h ?_
    unfold safeLexeme? at h
    grind
  · refine .sign h ?_
    unfold signLexeme? at h
    grind

theorem readBy_lexeme (cs : List Char) : ReadBy cs (lexeme cs) := by
  unfold lexeme
  generalize hfound : (blankLexeme? cs <|> stringLexeme? cs <|> nestedLexeme? cs <|>
    signedLexeme? '#' .utility cs <|> signedLexeme? '@' .bean cs <|>
    numberLexeme? cs <|> identifierLexeme? cs <|>
    filterLexeme? cs <|> safeLexeme? cs <|> signLexeme? cs) = found
  cases found with
  | some l => exact readBy_of_some hfound
  | none =>
    simp only [Option.orElse_apply, Option.orElse_eq_or, Option.or_eq_none_iff] at hfound
    exact .skipped hfound.2.2.2.2.2.2.1 rfl

theorem stringLexeme?_of_lexeme (h : (lexeme cs).kind = some .string) :
    stringLexeme? cs = some (lexeme cs) := by
  cases readBy_lexeme cs <;> simp_all

theorem nestedLexeme?_of_lexeme (h : (lexeme cs).kind = some .nested) :
    nestedLexeme? cs = some (lexeme cs) := by
  cases readBy_lexeme cs <;> simp_all

theorem signedLexeme?_of_lexeme (h : (lexeme cs).kind = some .utility) :
    signedLexeme? '#' .utility cs = some (lexeme cs) := by
  cases readBy_lexeme cs <;> simp_all

theorem identifierLexeme?_of_lexeme (h : (lexeme cs).kind = some .identifier) :
    identifierLexeme? cs = some (lexeme cs) := by
  cases readBy_lexeme cs <;> simp_all

/-! ## Where a lexeme ends -/

/-- No word goes on behind the first `n` characters: the last of them is in no
    word, or the next one is not. -/
def EndsApart (cs : List Char) (n : Nat) : Prop :=
  (∃ c, (cs.take n).getLast? = some c ∧ isWordChar c = false) ∨ startsWithWord (cs.drop n) = false

theorem getLast?_cons_of_some {last : Char} {rest : List Char} (first : Char)
    (h : rest.getLast? = some last) : (first :: rest).getLast? = some last := by
  cases rest with
  | nil => contradiction
  | cons second rest => rwa [List.getLast?_cons_cons]

/-- A literal in single quotes ends in one. -/
theorem getLast?_take_singleQuotedLength {n : Nat} (h : singleQuotedLength cs = some n) :
    (cs.take n).getLast? = some '\'' := by
  fun_induction singleQuotedLength cs generalizing n with
  | case1 => contradiction
  | case2 more m hmore ih =>
    obtain rfl := Option.some.inj h
    exact getLast?_cons_of_some _ (getLast?_cons_of_some _ (ih hmore))
  | case3 more hmore ih =>
    obtain rfl := Option.some.inj h
    rfl
  | case4 rest hrest =>
    obtain rfl := Option.some.inj h
    simp
  | case5 => contradiction
  | case6 => contradiction
  | case7 d more hd ih =>
    obtain ⟨m, hm, rfl⟩ := Option.map_eq_some_iff.1 h
    exact getLast?_cons_of_some _ (getLast?_cons_of_some _ (ih hm))
  | case8 c rest hquote hescape ih =>
    obtain ⟨m, hm, rfl⟩ := Option.map_eq_some_iff.1 h
    exact getLast?_cons_of_some _ (ih hm)

theorem getLast?_take_doubleQuotedLength {n : Nat} (h : doubleQuotedLength cs = some n) :
    (cs.take n).getLast? = some '"' := by
  fun_induction doubleQuotedLength cs generalizing n with
  | case1 => contradiction
  | case2 rest =>
    obtain rfl := Option.some.inj h
    simp
  | case3 => contradiction
  | case4 => contradiction
  | case5 d more hd ih =>
    obtain ⟨m, hm, rfl⟩ := Option.map_eq_some_iff.1 h
    exact getLast?_cons_of_some _ (getLast?_cons_of_some _ (ih hm))
  | case6 c rest hquote hescape ih =>
    obtain ⟨m, hm, rfl⟩ := Option.map_eq_some_iff.1 h
    exact getLast?_cons_of_some _ (ih hm)

/-- A string literal stands between two equal quotes. -/
theorem take_of_stringLexeme? (h : stringLexeme? cs = some l) :
    ∃ (quote : Quote) (inner : List Char),
      cs.take l.length = quote.char :: inner ++ [quote.char] := by
  unfold stringLexeme? at h
  split at h
  · obtain ⟨n, hn, rfl⟩ := Option.map_eq_some_iff.1 h
    obtain ⟨inner, hinner⟩ := List.getLast?_eq_some_iff.1 (getLast?_take_singleQuotedLength hn)
    exact ⟨.single, inner, congrArg ('\'' :: ·) hinner⟩
  · obtain ⟨n, hn, rfl⟩ := Option.map_eq_some_iff.1 h
    obtain ⟨inner, hinner⟩ := List.getLast?_eq_some_iff.1 (getLast?_take_doubleQuotedLength hn)
    exact ⟨.double, inner, congrArg ('"' :: ·) hinner⟩
  · contradiction

theorem endsApart_string (h : stringLexeme? cs = some l) : EndsApart cs l.length := by
  obtain ⟨quote, inner, hquoted⟩ := take_of_stringLexeme? h
  refine .inl ⟨quote.char, ?_, by cases quote <;> decide⟩
  rw [hquoted, List.getLast?_concat]

theorem getLast?_take_of_getElem? {n : Nat} {c : Char} (h : cs[n]? = some c) :
    (cs.take (n + 1)).getLast? = some c := by
  rw [List.take_add_one, h]
  simp

/-- A nested expression is complete. -/
theorem expressionLength?_of_nestedLexeme? (h : nestedLexeme? cs = some l)
    (hk : l.kind = some .nested) : expressionLength? cs = some l.length := by
  unfold nestedLexeme? at h
  split at h
  · rename_i c d rest
    split at h
    · rename_i hopen
      simp only [Bool.and_eq_true, beq_iff_eq] at hopen
      obtain ⟨hs, rfl⟩ := hopen
      split at h
      · rename_i k hclose
        obtain rfl := Option.some.inj h
        simp only [expressionLength?, hs, hclose, if_true, Option.map_some]
      · obtain rfl := Option.some.inj h
        contradiction
    · contradiction
  · contradiction

theorem endsApart_nested (h : nestedLexeme? cs = some l) : EndsApart cs l.length := by
  unfold nestedLexeme? at h
  split at h
  · rename_i c d rest
    split at h
    · rename_i hopen
      simp only [Bool.and_eq_true, beq_iff_eq] at hopen
      obtain ⟨-, rfl⟩ := hopen
      split at h
      · rename_i k hclose
        obtain rfl := Option.some.inj h
        refine .inl ⟨'}', getLast?_cons_of_some c ?_, by decide⟩
        exact getLast?_take_of_getElem? (getElem?_closingOffset hclose)
      · obtain rfl := Option.some.inj h
        exact .inl ⟨'{', rfl, by decide⟩
    · contradiction
  · contradiction

/-- No word goes on behind an identifier. -/
theorem startsWithWord_drop_takeWhile (cs : List Char) :
    startsWithWord (cs.drop (cs.takeWhile isWordChar).length) = false := by
  induction cs with
  | nil => rfl
  | cons c rest ih =>
    cases hc : isWordChar c with
    | false => simp [hc, startsWithWord]
    | true => simpa [hc] using ih

theorem startsWithWord_drop_identifierLength (h : identifierLength cs ≠ 0) :
    startsWithWord (cs.drop (identifierLength cs)) = false := by
  cases cs with
  | nil => contradiction
  | cons c rest =>
    cases hc : isNameStart c with
    | false => simp [identifierLength, hc] at h
    | true =>
      rw [identifierLength, if_pos hc, List.drop_succ_cons]
      exact startsWithWord_drop_takeWhile rest

theorem endsApart_identifier (h : identifierLexeme? cs = some l) : EndsApart cs l.length := by
  simp only [identifierLexeme?] at h
  split at h
  · contradiction
  · rename_i hne
    obtain rfl := Option.some.inj h
    exact .inr (startsWithWord_drop_identifierLength hne)

theorem endsApart_signed {sign : Char} {kind : TokenKind}
    (h : signedLexeme? sign kind cs = some l) : EndsApart cs l.length := by
  unfold signedLexeme? at h
  split at h
  · rename_i c rest
    dsimp only at h
    split at h
    · rename_i hc
      obtain rfl := Option.some.inj h
      have hne : identifierLength rest ≠ 0 := by simp_all
      exact .inr (startsWithWord_drop_identifierLength hne)
    · contradiction
  · contradiction

theorem endsApart_number (h : numberLexeme? cs = some l) : EndsApart cs l.length := by
  have apart : ∀ {mantissa n : Nat}, numberLengthFrom mantissa cs = some n →
      startsWithWord (cs.drop n) = false := by
    intro mantissa n hn
    simp only [numberLengthFrom] at hn
    grind
  simp only [numberLexeme?] at h
  split at h
  · contradiction
  · obtain ⟨n, hn, rfl⟩ := Option.map_eq_some_iff.1 h
    simp only [Option.orElse_apply, Option.orElse_eq_or, Option.or_eq_some_iff] at hn
    rcases hn with hn | ⟨-, hn⟩
    · exact .inr (apart hn)
    · exact .inr (apart hn)

theorem isWordChar_eq_false_of_isFilterSign {c : Char} (h : isFilterSign c = true) :
    isWordChar c = false := by
  have signs : ((c = '?' ∨ c = '^') ∨ c = '$') ∨ c = '!' := by simpa [isFilterSign] using h
  rcases signs with ((rfl | rfl) | rfl) | rfl <;> decide

theorem endsApart_filter (h : filterLexeme? cs = some l) : EndsApart cs l.length := by
  unfold filterLexeme? at h
  split at h
  · rename_i c rest
    split at h
    · rename_i hc
      obtain rfl := Option.some.inj h
      exact .inl ⟨c, rfl, isWordChar_eq_false_of_isFilterSign hc⟩
    · contradiction
  · rename_i c rest _
    split at h
    · rename_i hc
      obtain rfl := Option.some.inj h
      exact .inl ⟨c, rfl, isWordChar_eq_false_of_isFilterSign hc⟩
    · contradiction
  · contradiction

theorem endsApart_safe (h : safeLexeme? cs = some l) : EndsApart cs l.length := by
  unfold safeLexeme? at h
  split at h
  · split at h
    · obtain rfl := Option.some.inj h
      exact .inl ⟨'.', rfl, by decide⟩
    · contradiction
  · contradiction

theorem isWordChar_eq_false_of_isOpener {c : Char} (h : isOpener c = true) :
    isWordChar c = false := by
  have brackets : c = '(' ∨ c = '[' ∨ c = '{' := by
    unfold isOpener closerOf? at h
    grind
  rcases brackets with rfl | rfl | rfl <;> decide

theorem isWordChar_eq_false_of_isCloser {c : Char} (h : isCloser c = true) :
    isWordChar c = false := by
  have brackets : c = ')' ∨ c = ']' ∨ c = '}' := by
    unfold isCloser openerOf? at h
    grind
  rcases brackets with rfl | rfl | rfl <;> decide

theorem isWordChar_eq_false_of_doubleOperator {pair : Char × Char} (h : pair ∈ doubleOperators) :
    isWordChar pair.2 = false := by
  have none : doubleOperators.any (fun pair => isWordChar pair.2) = false := by decide
  simpa using List.any_eq_false.1 none pair h

theorem isWordChar_eq_false_of_singleOperator {c : Char} (h : c ∈ singleOperators) :
    isWordChar c = false := by
  have none : singleOperators.any isWordChar = false := by decide
  simpa using List.any_eq_false.1 none c h

theorem endsApart_sign (h : signLexeme? cs = some l) : EndsApart cs l.length := by
  unfold signLexeme? at h
  split at h
  · contradiction
  · rename_i c rest
    split at h
    · rename_i hdot
      obtain rfl := Option.some.inj h
      obtain rfl : c = '.' := by simpa using hdot
      exact .inl ⟨'.', rfl, by decide⟩
    · split at h
      · rename_i hc
        obtain rfl := Option.some.inj h
        exact .inl ⟨c, rfl, isWordChar_eq_false_of_isOpener hc⟩
      · split at h
        · rename_i hc
          obtain rfl := Option.some.inj h
          exact .inl ⟨c, rfl, isWordChar_eq_false_of_isCloser hc⟩
        · split at h
          · rename_i hpair
            obtain rfl := Option.some.inj h
            obtain ⟨d, hd, hmem⟩ := (Option.any_eq_true _ _).1 hpair
            obtain ⟨more, rfl⟩ := List.head?_eq_some_iff.1 hd
            have hd := isWordChar_eq_false_of_doubleOperator (List.contains_iff_mem.1 hmem)
            exact .inl ⟨d, rfl, hd⟩
          · split at h
            · rename_i hc
              obtain rfl := Option.some.inj h
              have hc := isWordChar_eq_false_of_singleOperator (List.contains_iff_mem.1 hc)
              exact .inl ⟨c, rfl, hc⟩
            · contradiction

theorem endsApart_blank (h : blankLexeme? cs = some l) : EndsApart cs l.length := by
  unfold blankLexeme? at h
  split at h
  · rename_i c rest
    split at h
    · rename_i hc
      obtain rfl := Option.some.inj h
      exact .inl ⟨c, rfl, isWordChar_eq_false_of_isBlank hc⟩
    · contradiction
  · contradiction

/-- No word goes on behind a lexeme, unless it is a character that is passed
    over. -/
theorem endsApart_lexeme (cs : List Char) :
    (identifierLexeme? cs = none ∧ lexeme cs = ⟨none, 1⟩) ∨ EndsApart cs (lexeme cs).length := by
  cases readBy_lexeme cs with
  | blank read => exact .inr (endsApart_blank read)
  | string read => exact .inr (endsApart_string read)
  | nested read => exact .inr (endsApart_nested read)
  | utility read => exact .inr (endsApart_signed read)
  | bean read => exact .inr (endsApart_signed read)
  | number read => exact .inr (endsApart_number read)
  | identifier read => exact .inr (endsApart_identifier read)
  | filter read => exact .inr (endsApart_filter read)
  | safe read => exact .inr (endsApart_safe read)
  | sign read => exact .inr (endsApart_sign read)
  | skipped noName single => exact .inl ⟨noName, single⟩

theorem length_ne_zero_of_numberLexeme? (h : numberLexeme? cs = some l) : l.length ≠ 0 := by
  simp only [numberLexeme?] at h
  split at h
  · contradiction
  · rename_i hdigits
    obtain ⟨n, hn, rfl⟩ := Option.map_eq_some_iff.1 h
    simp only [Option.orElse_apply, Option.orElse_eq_or, Option.or_eq_some_iff,
      numberLengthFrom] at hn
    grind

/-- A lexeme takes up at least one character. -/
theorem lexeme_length_ne_zero (cs : List Char) : (lexeme cs).length ≠ 0 := by
  cases readBy_lexeme cs with
  | blank read =>
    unfold blankLexeme? at read
    grind
  | string read =>
    obtain ⟨quote, inner, hquoted⟩ := take_of_stringLexeme? read
    intro hzero
    simp [hzero] at hquoted
  | nested read =>
    unfold nestedLexeme? at read
    grind
  | utility read | bean read =>
    unfold signedLexeme? at read
    grind
  | number read => exact length_ne_zero_of_numberLexeme? read
  | identifier read =>
    simp only [identifierLexeme?] at read
    grind
  | filter read =>
    unfold filterLexeme? at read
    grind
  | safe read =>
    unfold safeLexeme? at read
    grind
  | sign read =>
    unfold signLexeme? at read
    grind
  | skipped noName single =>
    rw [single]
    decide

end TemplateAnalysis.Expression
