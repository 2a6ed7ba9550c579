import TemplateAnalysis.Proofs.Expression.Lexeme
import TemplateAnalysis.Proofs.Expression.Standing

/-! # Literals

    A literal goes from the quote that opens it to the one that ends it. In between
    a backslash covers the character behind it. There are two ways to read one: the
    reading that matches brackets tells at every position whether it stands in a
    literal, and the readers of strings tell where one ends.

    * **`exists_literal`**: when the reading of a text ends outside, whoever stands
      in a literal stands in one that is closed;
    * **`behind_string`**: where a string ends, the reading is outside again;
    * **`coversNewline_of_unread`**: a literal that is no string covers a newline.

    A newline is the only character that the readers of strings do not let a
    backslash cover. A string may hold more than one literal, for two quotes in a
    row end one literal and open the next.
-/

namespace TemplateAnalysis.Expression

open Text

variable {body cs : List Char} {i k n : Nat} {c quote : Char} {found : Option Nat}
  {literal span : Span} {l : Lexeme}

/-! ## Where literals stand -/

/-- Where the reading from the beginning of a text stands in front of the
    character at `position`, with respect to literals. -/
def quotingAt (text : List Char) (position : Nat) : Quoting :=
  Quoting.behind .outside (text.take position)

theorem quotingAt_add (text : List Char) (start k : Nat) :
    quotingAt text (start + k) = (quotingAt text start).behind ((text.drop start).take k) := by
  unfold quotingAt
  rw [← Quoting.behind_append, ← List.take_add]

theorem quotingAt_succ (h : body[i]? = some c) :
    quotingAt body (i + 1) = (quotingAt body i).step c := by
  unfold quotingAt
  rw [List.take_add_one, h, Quoting.behind_append]
  rfl

theorem quotingAt_of_length_le (h : body.length ≤ i) :
    quotingAt body i = quotingAt body body.length := by
  rw [quotingAt, quotingAt, List.take_of_length_le h, List.take_length]

/-- A literal of a text: the reading enters it at the quote in front, and leaves
    it at the quote that ends it. -/
structure IsLiteral (text : List Char) (literal : Span) : Prop where
  quote : ∃ quote, text[literal.start]? = some quote ∧ isQuote quote = true
  opens : quotingAt text literal.start = .outside
  inside : ∀ i, literal.start < i → i < literal.stop → quotingAt text i ≠ .outside
  closes : quotingAt text literal.stop = .outside
  start_lt : literal.start < literal.stop
  stop_le : literal.stop ≤ text.length

/-- Whoever stands in a literal has read the quote that opens it. -/
theorem exists_opening (h : quotingAt body i ≠ .outside) :
    ∃ start < i, quotingAt body start = .outside ∧
      (∃ quote, body[start]? = some quote ∧ isQuote quote = true) ∧
      ∀ j, start < j → j ≤ i → quotingAt body j ≠ .outside := by
  induction i with
  | zero => exact absurd rfl h
  | succ i ih =>
    by_cases hout : quotingAt body i = .outside
    · refine ⟨i, Nat.lt_succ_self i, hout, ?_, ?_⟩
      · cases hc : body[i]? with
        | none =>
          have hend := List.getElem?_eq_none_iff.1 hc
          rw [quotingAt_of_length_le (Nat.le_succ_of_le hend), ← quotingAt_of_length_le hend] at h
          contradiction
        | some c =>
          refine ⟨c, rfl, ?_⟩
          rw [quotingAt_succ hc, hout, Quoting.step] at h
          by_cases hquote : isQuote c = true
          · exact hquote
          · rw [if_neg hquote] at h
            contradiction
      · intro j hlt hle
        obtain rfl : j = i + 1 := by omega
        exact h
    · obtain ⟨start, hstart, hopens, hquote, hinside⟩ := ih hout
      refine ⟨start, by omega, hopens, hquote, ?_⟩
      intro j hlt hle
      by_cases hj : j = i + 1
      · rwa [hj]
      · exact hinside j hlt (by omega)

/-- **Whoever stands in a literal stands in one that is closed**, when the reading
    ends outside of literals. -/
theorem exists_literal (hclosed : quotingAt body body.length = .outside)
    (h : quotingAt body i ≠ .outside) :
    ∃ literal, IsLiteral body literal ∧ literal.start < i ∧ i < literal.stop := by
  classical
  obtain ⟨start, hstart, hopens, hquote, hinside⟩ := exists_opening h
  have hlt : i < body.length := by
    by_contra hge
    exact h (by rw [quotingAt_of_length_le (Nat.le_of_not_lt hge), hclosed])
  -- It is closed where the reading is outside for the first time.
  have hexists : ∃ stop, i < stop ∧ quotingAt body stop = .outside := ⟨_, hlt, hclosed⟩
  have hfirst := Nat.find_spec hexists
  refine ⟨⟨start, Nat.find hexists⟩,
    ⟨hquote, hopens, ?_, hfirst.2, Nat.lt_trans hstart hfirst.1, Nat.find_le ⟨hlt, hclosed⟩⟩,
    hstart, hfirst.1⟩
  intro j hj hstop
  by_cases hle : j ≤ i
  · exact hinside j hj hle
  · intro hout
    exact Nat.find_min hexists hstop ⟨by omega, hout⟩

/-- So a quote that stands outside of literals opens one. -/
theorem exists_literal_at (hclosed : quotingAt body body.length = .outside)
    (hout : quotingAt body i = .outside) (hquote : body[i]? = some quote)
    (hopens : isQuote quote = true) : ∃ stop, IsLiteral body ⟨i, stop⟩ := by
  have hbehind : quotingAt body (i + 1) ≠ .outside := by
    rw [quotingAt_succ hquote, hout, Quoting.step, if_pos hopens]
    exact Quoting.noConfusion
  obtain ⟨⟨start, stop⟩, hliteral, hstart, hstop⟩ := exists_literal hclosed hbehind
  simp only at hstart hstop
  have heq : start = i := by
    by_contra hne
    exact hliteral.inside i (by show start < i; omega) (Nat.lt_of_succ_lt hstop) hout
  exact ⟨stop, heq ▸ hliteral⟩

/-! ## Covered newlines -/

/-- In the stretch stands a newline, behind a backslash of a literal. -/
def CoversNewline (text : List Char) (span : Span) : Prop :=
  ∃ i quote, span.start ≤ i ∧ i < span.stop ∧ quotingAt text i = .covered quote ∧
    text[i]? = some '\n'

theorem CoversNewline.mono (h : CoversNewline body span) {outer : Span}
    (hstart : outer.start ≤ span.start) (hstop : span.stop ≤ outer.stop) :
    CoversNewline body outer := by
  obtain ⟨i, quote, hle, hlt, hnewline⟩ := h
  exact ⟨i, quote, Nat.le_trans hstart hle, Nat.lt_of_lt_of_le hlt hstop, hnewline⟩

/-- The same for a text that the reading enters at `s`. -/
def MeetsNewline (s : Quoting) (cs : List Char) : Prop :=
  ∃ i quote, s.behind (cs.take i) = .covered quote ∧ cs[i]? = some '\n'

theorem coversNewline_iff :
    CoversNewline body span ↔ MeetsNewline (quotingAt body span.start) (span.slice body) := by
  have hslice : span.slice body = (body.drop span.start).take (span.stop - span.start) :=
    List.extract_eq_take_drop
  have hstanding : ∀ k < span.stop - span.start, quotingAt body (span.start + k) =
      (quotingAt body span.start).behind ((span.slice body).take k) := by
    intro k hk
    rw [quotingAt_add, hslice, List.take_take, Nat.min_eq_left hk.le]
  -- The two count the positions from the text's beginning and from the stretch's.
  constructor
  · intro ⟨i, quote, hstart, hstop, hcovered, hnewline⟩
    obtain ⟨k, rfl⟩ := Nat.exists_eq_add_of_le hstart
    have hk : k < span.stop - span.start := by omega
    exact ⟨k, quote, (hstanding k hk).symm.trans hcovered, (getElem?_slice hk).trans hnewline⟩
  · intro ⟨k, quote, hcovered, hnewline⟩
    obtain ⟨hlength, -⟩ := List.getElem?_eq_some_iff.1 hnewline
    have hk : k < span.stop - span.start := by
      rw [hslice, List.length_take] at hlength
      omega
    exact ⟨span.start + k, quote, Nat.le_add_right _ k, by omega,
      (hstanding k hk).trans hcovered, (getElem?_slice hk).symm.trans hnewline⟩

theorem not_meetsNewline_nil (s : Quoting) : ¬MeetsNewline s [] := by
  intro ⟨i, quote, _, hnewline⟩
  contradiction

theorem meetsNewline_cons : MeetsNewline s (c :: cs) ↔
    ((∃ quote, s = .covered quote) ∧ c = '\n') ∨ MeetsNewline (s.step c) cs := by
  constructor
  · intro ⟨i, quote, hcovered, hnewline⟩
    cases i with
    | zero => exact .inl ⟨⟨quote, hcovered⟩, Option.some.inj hnewline⟩
    | succ i => exact .inr ⟨i, quote, hcovered, hnewline⟩
  · rintro (⟨⟨quote, rfl⟩, rfl⟩ | ⟨i, quote, hcovered, hnewline⟩)
    · exact ⟨0, quote, rfl, rfl⟩
    · exact ⟨i + 1, quote, hcovered, hnewline⟩

/-! ## Reading one literal -/

/-- How a literal is read behind its opening quote, and how many characters are
    found to belong to it. Two quotes may stand for one, and a backslash covers
    no newline. -/
inductive ReadsLiteral (quote : Char) : List Char → Option Nat → Prop
  | nil : ReadsLiteral quote [] none
  | close (rest : List Char) : ReadsLiteral quote (quote :: rest) (some 1)
  | doubled {more : List Char} {n : Nat} : ReadsLiteral quote more (some n) →
      ReadsLiteral quote (quote :: quote :: more) (some (n + 2))
  | lone : ReadsLiteral quote ['\\'] none
  | newline (more : List Char) : ReadsLiteral quote ('\\' :: '\n' :: more) none
  | covered {d : Char} {more : List Char} {found : Option Nat} : d ≠ '\n' →
      ReadsLiteral quote more found → ReadsLiteral quote ('\\' :: d :: more) (found.map (· + 2))
  | plain {c : Char} {rest : List Char} {found : Option Nat} : c ≠ quote → c ≠ '\\' →
      ReadsLiteral quote rest found → ReadsLiteral quote (c :: rest) (found.map (· + 1))

theorem readsLiteral_single (cs : List Char) : ReadsLiteral '\'' cs (singleQuotedLength cs) := by
  fun_induction singleQuotedLength cs with
  | case1 => exact .nil
  | case2 more n hmore ih => exact .doubled (hmore ▸ ih)
  | case3 more hmore ih => exact .close _
  | case4 rest hrest => exact .close rest
  | case5 => exact .lone
  | case6 more => exact .newline more
  | case7 d more hd ih => exact .covered hd ih
  | case8 c rest hquote hescape ih => exact .plain hquote hescape ih

theorem readsLiteral_double (cs : List Char) : ReadsLiteral '"' cs (doubleQuotedLength cs) := by
  fun_induction doubleQuotedLength cs with
  | case1 => exact .nil
  | case2 rest => exact .close rest
  | case3 => exact .lone
  | case4 more => exact .newline more
  | case5 d more hd ih => exact .covered hd ih
  | case6 c rest hquote hescape ih => exact .plain hquote hescape ih

theorem step_close (hquote : isQuote quote = true) :
    (Quoting.inside quote).step quote = .outside := by
  have hne : quote ≠ '\\' := by
    rintro rfl
    contradiction
  rw [Quoting.step, if_neg hne, if_pos rfl]

theorem step_backslash (quote : Char) : (Quoting.inside quote).step '\\' = .covered quote := by
  rw [Quoting.step, if_pos rfl]

theorem step_plain (hquote : c ≠ quote) (hescape : c ≠ '\\') :
    (Quoting.inside quote).step c = .inside quote := by
  rw [Quoting.step, if_neg hescape, if_neg hquote]

theorem step_opens (hquote : isQuote quote = true) :
    Quoting.outside.step quote = .inside quote := by
  rw [Quoting.step, if_pos hquote]

/-- **What is read ends outside**, and no newline is covered in it. -/
theorem ReadsLiteral.closed (h : ReadsLiteral quote cs found) (hquote : isQuote quote = true)
    (hn : found = some n) : Quoting.behind (.inside quote) (cs.take n) = .outside ∧
      ¬MeetsNewline (.inside quote) (cs.take n) := by
  induction h generalizing n with
  | nil => contradiction
  | close rest =>
    obtain rfl := Option.some.inj hn
    rw [List.take_succ_cons, List.take_zero, Quoting.behind_cons, meetsNewline_cons,
      step_close hquote]
    simp [Quoting.behind, not_meetsNewline_nil]
  | @doubled more m _ ih =>
    -- The first of the two quotes ends a literal, the second opens another.
    obtain rfl := Option.some.inj hn
    obtain ⟨hends, hclean⟩ := ih rfl
    rw [List.take_succ_cons, List.take_succ_cons]
    simp only [Quoting.behind_cons, meetsNewline_cons, step_close hquote, step_opens hquote]
    simpa using ⟨hends, hclean⟩
  | lone => contradiction
  | newline => contradiction
  | @covered d more found hd _ ih =>
    obtain ⟨m, rfl, rfl⟩ := Option.map_eq_some_iff.1 hn
    obtain ⟨hends, hclean⟩ := ih rfl
    rw [List.take_succ_cons, List.take_succ_cons]
    simp only [Quoting.behind_cons, meetsNewline_cons, step_backslash]
    simpa [hd] using ⟨hends, hclean⟩
  | @plain c rest found hc hescape _ ih =>
    obtain ⟨m, rfl, rfl⟩ := Option.map_eq_some_iff.1 hn
    obtain ⟨hends, hclean⟩ := ih rfl
    rw [List.take_succ_cons]
    simp only [Quoting.behind_cons, meetsNewline_cons, step_plain hc hescape]
    simpa using ⟨hends, hclean⟩

/-- **What cannot be read** does not end outside before a newline is covered. -/
theorem ReadsLiteral.unread (h : ReadsLiteral quote cs found) (hnone : found = none)
    (hends : Quoting.behind (.inside quote) (cs.take k) = .outside) :
    MeetsNewline (.inside quote) (cs.take k) := by
  induction h generalizing k with
  | nil =>
    rw [List.take_nil] at hends
    contradiction
  | close => contradiction
  | doubled => contradiction
  | lone =>
    cases k with
    | zero => contradiction
    | succ k =>
      rw [List.take_succ_cons, List.take_nil, Quoting.behind_cons, step_backslash] at hends
      contradiction
  | newline more =>
    -- Behind the backslash the newline is met, wherever the literal ends.
    match k with
    | 0 => contradiction
    | 1 =>
      rw [List.take_succ_cons, List.take_zero, Quoting.behind_cons, step_backslash] at hends
      contradiction
    | k + 2 =>
      rw [List.take_succ_cons, List.take_succ_cons, meetsNewline_cons, step_backslash,
        meetsNewline_cons]
      exact .inr (.inl ⟨⟨quote, rfl⟩, rfl⟩)
  | @covered d more found _ _ ih =>
    match k with
    | 0 => contradiction
    | 1 =>
      rw [List.take_succ_cons, List.take_zero, Quoting.behind_cons, step_backslash] at hends
      contradiction
    | k + 2 =>
      rw [List.take_succ_cons, List.take_succ_cons, Quoting.behind_cons, Quoting.behind_cons,
        step_backslash] at hends
      rw [List.take_succ_cons, List.take_succ_cons, meetsNewline_cons, step_backslash,
        meetsNewline_cons]
      exact .inr (.inr (ih (Option.map_eq_none_iff.1 hnone) hends))
  | @plain c rest found hc hescape _ ih =>
    cases k with
    | zero => contradiction
    | succ k =>
      rw [List.take_succ_cons, Quoting.behind_cons, step_plain hc hescape] at hends
      rw [List.take_succ_cons, meetsNewline_cons, step_plain hc hescape]
      exact .inr (ih (Option.map_eq_none_iff.1 hnone) hends)

/-- The reader of a literal, whichever quote it begins with. -/
theorem exists_readsLiteral (hquote : isQuote quote = true) (cs : List Char) :
    ∃ found, ReadsLiteral quote cs found ∧
      stringLexeme? (quote :: cs) = found.map fun n => ⟨some .string, n + 1⟩ := by
  rcases isQuote_cases hquote with rfl | rfl
  · exact ⟨singleQuotedLength cs, readsLiteral_single cs, rfl⟩
  · exact ⟨doubleQuotedLength cs, readsLiteral_double cs, rfl⟩

theorem exists_quote_of_stringLexeme? (h : stringLexeme? cs = some l) :
    ∃ quote rest, cs = quote :: rest ∧ isQuote quote = true := by
  unfold stringLexeme? at h
  split at h
  · exact ⟨_, _, rfl, rfl⟩
  · exact ⟨_, _, rfl, rfl⟩
  · contradiction

/-- A string is looked for before all else, blanks apart. -/
theorem lexeme_of_stringLexeme? (h : stringLexeme? cs = some l) : lexeme cs = l := by
  obtain ⟨quote, rest, rfl, hquote⟩ := exists_quote_of_stringLexeme? h
  have hblank : blankLexeme? (quote :: rest) = none := by
    rw [blankLexeme?, isBlank_eq_false_of_isQuote hquote]
    rfl
  unfold lexeme
  rw [hblank, h]
  rfl

theorem behind_string (h : stringLexeme? cs = some l) :
    Quoting.behind .outside (cs.take l.length) = .outside ∧
      ¬MeetsNewline .outside (cs.take l.length) := by
  obtain ⟨quote, rest, rfl, hquote⟩ := exists_quote_of_stringLexeme? h
  obtain ⟨found, hreads, hlexeme⟩ := exists_readsLiteral hquote rest
  rw [hlexeme] at h
  obtain ⟨n, rfl, rfl⟩ := Option.map_eq_some_iff.1 h
  obtain ⟨hends, hclean⟩ := hreads.closed hquote rfl
  show Quoting.behind .outside ((quote :: rest).take (n + 1)) = .outside ∧
    ¬MeetsNewline .outside ((quote :: rest).take (n + 1))
  rw [List.take_succ_cons, Quoting.behind_cons, meetsNewline_cons, step_opens hquote]
  simpa using ⟨hends, hclean⟩

/-- **A literal that cannot be read covers a newline.** -/
theorem coversNewline_of_unread (hliteral : IsLiteral body literal)
    (h : stringLexeme? (body.drop literal.start) = none) : CoversNewline body literal := by
  obtain ⟨quote, hquote, hopens⟩ := hliteral.quote
  obtain ⟨hlt, hget⟩ := List.getElem?_eq_some_iff.1 hquote
  have hdrop : body.drop literal.start = quote :: body.drop (literal.start + 1) := by
    rw [List.drop_eq_getElem_cons hlt, hget]
  obtain ⟨k, hk⟩ := Nat.exists_eq_add_of_lt hliteral.start_lt
  have hslice : literal.slice body = quote :: (body.drop (literal.start + 1)).take k := by
    rw [Span.slice, List.extract_eq_take_drop, hdrop, hk,
      show literal.start + k + 1 - literal.start = k + 1 by omega, List.take_succ_cons]
  obtain ⟨found, hreads, hlexeme⟩ := exists_readsLiteral hopens (body.drop (literal.start + 1))
  rw [hdrop, hlexeme, Option.map_eq_none_iff] at h
  have hends : Quoting.behind (.inside quote) ((body.drop (literal.start + 1)).take k) =
      .outside := by
    have hentered : quotingAt body (literal.start + 1) = .inside quote := by
      rw [quotingAt_succ hquote, hliteral.opens, step_opens hopens]
    rw [← hentered, ← quotingAt_add, show literal.start + 1 + k = literal.stop by omega]
    exact hliteral.closes
  rw [coversNewline_iff, hliteral.opens, hslice, meetsNewline_cons, step_opens hopens]
  exact .inr (hreads.unread h hends)

end TemplateAnalysis.Expression
