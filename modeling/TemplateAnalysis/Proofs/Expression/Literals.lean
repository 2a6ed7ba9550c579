import Mathlib.Data.List.TakeWhile
import TemplateAnalysis.Proofs.Expression.Lexing
import TemplateAnalysis.Proofs.Expression.Quoting
import TemplateAnalysis.Proofs.Expression.Words

/-! # Literals and tokens

    The brackets of a body are matched by one reading, its tokens are made by
    another. Both have to find the same literals, or the tokens are made of what
    stands in a literal, and what stands behind it is taken for one:

    * **`lexeme_cases`**: a lexeme is a string or a nested expression, or it holds
      no quote, or it is passed over where a literal cannot be read;
    * **`lexeme_step`**, **`Lexes.covers`**: so a reading of tokens that is outside
      of literals stays outside, as long as all of them can be read;
    * **`tokenize_keepsLiterals_iff`**: the tokens leave the literals whole unless
      one covers a newline outside of the nested expressions.
-/

namespace TemplateAnalysis.Expression

open Text

variable {body cs ds : List Char} {s : Quoting} {position k n : Nat} {c : Char}
  {literal : Span} {t : Token} {tokens : List Token} {l : Lexeme}

/-! ## Reading one lexeme -/

/-- A text that holds no quote. -/
def Quoteless (cs : List Char) : Prop :=
  ∀ c ∈ cs, isQuote c = false

theorem quoteless_nil : Quoteless [] := by
  intro c hc
  contradiction

theorem quoteless_cons : Quoteless (c :: cs) ↔ isQuote c = false ∧ Quoteless cs :=
  List.forall_mem_cons

theorem quoteless_append : Quoteless (cs ++ ds) ↔ Quoteless cs ∧ Quoteless ds :=
  List.forall_mem_append

theorem behind_quoteless (h : Quoteless cs) : Quoting.behind .outside cs = .outside := by
  induction cs with
  | nil => rfl
  | cons c rest ih =>
    obtain ⟨hc, hrest⟩ := quoteless_cons.1 h
    rw [Quoting.behind_cons, Quoting.step, hc]
    exact ih hrest

/-- A run of characters of a class without quotes. -/
theorem quoteless_takeWhile {p : Char → Bool} (hquotes : p '\'' = false ∧ p '"' = false)
    (cs : List Char) : Quoteless (cs.take (cs.takeWhile p).length) := by
  rw [← List.prefix_iff_eq_take.1 (List.takeWhile_prefix p)]
  intro c hc
  exact isQuote_eq_false_of_class (List.mem_takeWhile_imp hc) hquotes

theorem quoteless_take_add (hfirst : Quoteless (cs.take k))
    (hsecond : Quoteless ((cs.drop k).take n)) : Quoteless (cs.take (k + n)) := by
  rw [List.take_add, quoteless_append]
  exact ⟨hfirst, hsecond⟩

theorem quoteless_identifier (cs : List Char) : Quoteless (cs.take (identifierLength cs)) := by
  cases cs with
  | nil => exact quoteless_nil
  | cons c rest =>
    rw [identifierLength]
    split
    · rename_i hc
      exact quoteless_cons.2
        ⟨isQuote_eq_false_of_class hc (by decide), quoteless_takeWhile (by decide) rest⟩
    · exact quoteless_nil

theorem quoteless_name (h : identifierLexeme? cs = some l) : Quoteless (cs.take l.length) := by
  simp only [identifierLexeme?] at h
  split at h
  · contradiction
  · obtain rfl := Option.some.inj h
    exact quoteless_identifier cs

theorem quoteless_blank (h : blankLexeme? cs = some l) : Quoteless (cs.take l.length) := by
  unfold blankLexeme? at h
  split at h
  · split at h
    · rename_i hc
      obtain rfl := Option.some.inj h
      exact quoteless_cons.2 ⟨isQuote_eq_false_of_class hc (by decide), quoteless_nil⟩
    · contradiction
  · contradiction

theorem quoteless_digits (cs : List Char) : Quoteless (cs.take (cs.takeWhile isDigit).length) :=
  quoteless_takeWhile (by decide) cs

theorem quoteless_fraction (cs : List Char) : Quoteless (cs.take (fractionLength cs)) := by
  unfold fractionLength
  split
  · rename_i rest
    dsimp only
    split
    · exact quoteless_nil
    · exact quoteless_cons.2 ⟨by decide, quoteless_digits rest⟩
  · exact quoteless_nil

theorem quoteless_exponent (cs : List Char) : Quoteless (cs.take (exponentLength cs)) := by
  unfold exponentLength
  split
  · rename_i c rest
    split
    · rename_i hc
      have hquote : isQuote c = false :=
        isQuote_eq_false_of_class (p := fun c => c == 'e' || c == 'E') hc (by decide)
      split
      · rename_i d more
        dsimp only
        split
        · rename_i hd
          have hsign : isQuote d = false :=
            isQuote_eq_false_of_class (p := fun d => d == '+' || d == '-') hd (by decide)
          split
          · exact quoteless_nil
          · exact quoteless_cons.2 ⟨hquote, quoteless_cons.2 ⟨hsign, quoteless_digits more⟩⟩
        · split
          · exact quoteless_nil
          · exact quoteless_cons.2 ⟨hquote, quoteless_digits (d :: more)⟩
      · exact quoteless_nil
    · exact quoteless_nil
  · exact quoteless_nil

theorem quoteless_suffix (cs : List Char) : Quoteless (cs.take (suffixLength cs)) := by
  unfold suffixLength
  split
  · rename_i c rest
    split
    · rename_i hc
      have hquote : isQuote c = false :=
        isQuote_eq_false_of_class (p := "lLfFdD".toList.contains) hc (by decide)
      exact quoteless_cons.2 ⟨hquote, quoteless_nil⟩
    · exact quoteless_nil
  · exact quoteless_nil

theorem quoteless_number (h : numberLexeme? cs = some l) : Quoteless (cs.take l.length) := by
  have hbehind : ∀ {mantissa n : Nat}, Quoteless (cs.take mantissa) →
      numberLengthFrom mantissa cs = some n → Quoteless (cs.take n) := by
    intro mantissa n hmantissa hn
    simp only [numberLengthFrom] at hn
    split at hn
    · contradiction
    · obtain rfl := Option.some.inj hn
      exact quoteless_take_add (quoteless_take_add hmantissa (quoteless_exponent _))
        (quoteless_suffix _)
  simp only [numberLexeme?] at h
  split at h
  · contradiction
  · obtain ⟨n, hn, rfl⟩ := Option.map_eq_some_iff.1 h
    simp only [Option.orElse_apply, Option.orElse_eq_or, Option.or_eq_some_iff] at hn
    rcases hn with hn | ⟨-, hn⟩
    · exact hbehind (quoteless_take_add (quoteless_digits cs) (quoteless_fraction _)) hn
    · exact hbehind (quoteless_digits cs) hn

theorem quoteless_signed {sign : Char} {kind : TokenKind} (hsign : isQuote sign = false)
    (h : signedLexeme? sign kind cs = some l) : Quoteless (cs.take l.length) := by
  unfold signedLexeme? at h
  split at h
  · rename_i c rest
    dsimp only at h
    split at h
    · rename_i hc
      obtain rfl := Option.some.inj h
      obtain rfl : c = sign := by simp_all
      exact quoteless_cons.2 ⟨hsign, quoteless_identifier rest⟩
    · contradiction
  · contradiction

theorem quoteless_filter (h : filterLexeme? cs = some l) : Quoteless (cs.take l.length) := by
  have hsign : ∀ {c : Char}, isFilterSign c = true → Quoteless [c] := fun hc =>
    quoteless_cons.2 ⟨isQuote_eq_false_of_class hc (by decide), quoteless_nil⟩
  unfold filterLexeme? at h
  split at h
  · split at h
    · rename_i hc
      obtain rfl := Option.some.inj h
      exact quoteless_cons.2 ⟨by decide, hsign hc⟩
    · contradiction
  · split at h
    · rename_i hc
      obtain rfl := Option.some.inj h
      exact hsign hc
    · contradiction
  · contradiction

theorem quoteless_safe (h : safeLexeme? cs = some l) : Quoteless (cs.take l.length) := by
  unfold safeLexeme? at h
  split at h
  · split at h
    · obtain rfl := Option.some.inj h
      exact quoteless_cons.2 ⟨by decide, quoteless_cons.2 ⟨by decide, quoteless_nil⟩⟩
    · contradiction
  · contradiction

theorem isQuote_eq_false_of_doubleOperator {pair : Char × Char} (h : pair ∈ doubleOperators) :
    isQuote pair.1 = false ∧ isQuote pair.2 = false := by
  have none : doubleOperators.any (fun pair => isQuote pair.1 || isQuote pair.2) = false := by
    decide
  simpa using List.any_eq_false.1 none pair h

theorem quoteless_sign (h : signLexeme? cs = some l) : Quoteless (cs.take l.length) := by
  have hone : ∀ {c : Char} {rest : List Char}, isQuote c = false →
      Quoteless ((c :: rest).take 1) := fun hc => quoteless_cons.2 ⟨hc, quoteless_nil⟩
  unfold signLexeme? at h
  split at h
  · contradiction
  · rename_i c rest
    split at h
    · rename_i hdot
      obtain rfl := Option.some.inj h
      exact hone (isQuote_eq_false_of_class (p := (· == '.')) hdot (by decide))
    · split at h
      · rename_i hc
        obtain rfl := Option.some.inj h
        exact hone (isQuote_eq_false_of_class hc (by decide))
      · split at h
        · rename_i hc
          obtain rfl := Option.some.inj h
          exact hone (isQuote_eq_false_of_class hc (by decide))
        · split at h
          · rename_i hpair
            obtain rfl := Option.some.inj h
            obtain ⟨d, hd, hmem⟩ := (Option.any_eq_true _ _).1 hpair
            obtain ⟨more, rfl⟩ := List.head?_eq_some_iff.1 hd
            obtain ⟨hfirst, hsecond⟩ :=
              isQuote_eq_false_of_doubleOperator (List.contains_iff_mem.1 hmem)
            exact quoteless_cons.2 ⟨hfirst, hone hsecond⟩
          · split at h
            · rename_i hc
              obtain rfl := Option.some.inj h
              exact hone (isQuote_eq_false_of_class (p := singleOperators.contains) hc (by decide))
            · contradiction

/-- The search for a closing bracket ends outside of literals. -/
theorem behind_closingOffset (bracket : Bracket) {depth : Nat}
    (h : closingOffset bracket.opener bracket.closer s depth cs = some k) :
    s.behind (cs.take (k + 1)) = .outside := by
  induction cs generalizing s depth k with
  | nil =>
    rw [closingOffset_nil] at h
    contradiction
  | cons c rest ih =>
    rw [closingOffset_step] at h
    split at h
    · rename_i hend
      obtain ⟨rfl, rfl, -⟩ := hend
      obtain rfl := Option.some.inj h
      rw [List.take_succ_cons, Quoting.behind_cons, Quoting.step, bracket.isQuote_closer]
      rfl
    · obtain ⟨j, hj, rfl⟩ := Option.map_eq_some_iff.1 h
      rw [List.take_succ_cons, Quoting.behind_cons]
      exact ih hj

theorem behind_nested (h : nestedLexeme? cs = some l) :
    (l.kind = some .nested ∧ Quoting.behind .outside (cs.take l.length) = .outside) ∨
      Quoteless (cs.take l.length) := by
  unfold nestedLexeme? at h
  split at h
  · rename_i c d rest
    split at h
    · rename_i hopen
      simp only [Bool.and_eq_true, beq_iff_eq] at hopen
      obtain ⟨hsigil, rfl⟩ := hopen
      have hquote : isQuote c = false := isQuote_eq_false_of_class hsigil (by decide)
      split at h
      · rename_i k hclose
        obtain rfl := Option.some.inj h
        refine .inl ⟨rfl, ?_⟩
        show Quoting.behind .outside ((c :: '{' :: rest).take (k + 2)) = .outside
        rw [List.take_succ_cons, Quoting.behind_cons, Quoting.step, hquote]
        exact behind_closingOffset .curly hclose
      · obtain rfl := Option.some.inj h
        exact .inr (quoteless_cons.2 ⟨hquote, quoteless_cons.2 ⟨by decide, quoteless_nil⟩⟩)
    · contradiction
  · contradiction

/-- **What a lexeme does to literals**: it is a string or a nested expression and
    ends outside of literals, or it holds no quote, or it is passed over where no
    string can be read. -/
theorem lexeme_cases (cs : List Char) :
    ((lexeme cs).kind = some .string ∨ (lexeme cs).kind = some .nested) ∧
        Quoting.behind .outside (cs.take (lexeme cs).length) = .outside ∨
      Quoteless (cs.take (lexeme cs).length) ∨
      stringLexeme? cs = none ∧ lexeme cs = ⟨none, 1⟩ := by
  cases readBy_lexeme cs with
  | blank read => exact .inr (.inl (quoteless_blank read))
  | string read kind => exact .inl ⟨.inl kind, (behind_string read).1⟩
  | nested read =>
    rcases behind_nested read with ⟨kind, hends⟩ | hquoteless
    · exact .inl ⟨.inr kind, hends⟩
    · exact .inr (.inl hquoteless)
  | utility read => exact .inr (.inl (quoteless_signed (by decide) read))
  | bean read => exact .inr (.inl (quoteless_signed (by decide) read))
  | number read => exact .inr (.inl (quoteless_number read))
  | identifier read => exact .inr (.inl (quoteless_name read))
  | filter read => exact .inr (.inl (quoteless_filter read))
  | safe read => exact .inr (.inl (quoteless_safe read))
  | sign read => exact .inr (.inl (quoteless_sign read))
  | skipped _ single =>
    refine .inr (.inr ⟨?_, single⟩)
    cases hstring : stringLexeme? cs with
    | none => rfl
    | some l =>
      have hends := (behind_string hstring).1
      obtain ⟨quote, rest, rfl, hquote⟩ := exists_quote_of_stringLexeme? hstring
      -- The quote alone is no string.
      rw [← lexeme_of_stringLexeme? hstring, single] at hends
      rw [List.take_succ_cons, List.take_zero, Quoting.behind_cons, step_opens hquote] at hends
      contradiction

/-! ## Reading a body -/

/-- The position behind a token. -/
def Token.stop (t : Token) : Nat :=
  t.position + t.text.length

/-- The stretch lies in the token. -/
def Token.Covers (t : Token) (span : Span) : Prop :=
  t.position ≤ span.start ∧ span.stop ≤ t.stop

/-- Behind what is read as one at a position. -/
def behindLexeme (body : List Char) (position : Nat) : Nat :=
  position + (lexeme (body.drop position)).length

/-- A token made of what is read as one. -/
def tokenAt (body : List Char) (kind : TokenKind) (position : Nat) : Token :=
  ⟨kind, Span.slice ⟨position, behindLexeme body position⟩ body, position⟩

/-- The reading of a body from a position on, with the tokens it makes. -/
inductive Lexes (body : List Char) : Nat → List Token → Prop
  /-- The body is at its end. -/
  | done {position : Nat} : body.length ≤ position → Lexes body position []
  /-- A token is made of a lexeme that has a kind. -/
  | token {position : Nat} {kind : TokenKind} {tokens : List Token} : position < body.length →
      (lexeme (body.drop position)).kind = some kind →
      Lexes body (behindLexeme body position) tokens →
      Lexes body position (tokenAt body kind position :: tokens)
  /-- Any other is passed over. -/
  | pass {position : Nat} {tokens : List Token} : position < body.length →
      (lexeme (body.drop position)).kind = none →
      Lexes body (behindLexeme body position) tokens → Lexes body position tokens

theorem lt_behindLexeme (body : List Char) (position : Nat) :
    position < behindLexeme body position := by
  have := lexeme_length_ne_zero (body.drop position)
  unfold behindLexeme
  omega

theorem tokensFrom_of_kind {kind : TokenKind} (hne : cs ≠ [])
    (hkind : (lexeme cs).kind = some kind) (position : Nat) :
    tokensFrom position cs = ⟨kind, cs.take (lexeme cs).length, position⟩ ::
      tokensFrom (position + (lexeme cs).length) (cs.drop (lexeme cs).length) := by
  obtain ⟨c, rest, rfl⟩ := List.exists_cons_of_ne_nil hne
  rw [tokensFrom_cons, hkind, drop_pred]

theorem tokensFrom_of_no_kind (hne : cs ≠ []) (hkind : (lexeme cs).kind = none) (position : Nat) :
    tokensFrom position cs =
      tokensFrom (position + (lexeme cs).length) (cs.drop (lexeme cs).length) := by
  obtain ⟨c, rest, rfl⟩ := List.exists_cons_of_ne_nil hne
  rw [tokensFrom_cons, hkind, drop_pred]

/-- **The tokens of a body come from such a reading**, by induction on what is
    left of it. -/
theorem lexes_tokensFrom (body : List Char) (position : Nat) :
    Lexes body position (tokensFrom position (body.drop position)) := by
  induction hleft : body.length - position using Nat.strong_induction_on generalizing position with
  | _ left ih =>
    by_cases hend : body.length ≤ position
    · rw [List.drop_eq_nil_of_le hend, tokensFrom_nil]
      exact .done hend
    · have hlt : position < body.length := Nat.lt_of_not_le hend
      have hbehind := lt_behindLexeme body position
      have hrest := ih _ (by omega) (behindLexeme body position) rfl
      have htext : (body.drop position).take (lexeme (body.drop position)).length =
          Span.slice ⟨position, behindLexeme body position⟩ body := by
        rw [Span.slice, List.extract_eq_take_drop, behindLexeme, Nat.add_sub_cancel_left]
      have hne : body.drop position ≠ [] := by
        rw [ne_eq, List.drop_eq_nil_iff]
        exact hend
      cases hkind : (lexeme (body.drop position)).kind with
      | none =>
        rw [tokensFrom_of_no_kind hne hkind, List.drop_drop]
        exact .pass hlt hkind hrest
      | some kind =>
        rw [tokensFrom_of_kind hne hkind, htext, List.drop_drop]
        exact .token hlt hkind hrest

/-! ## What a reading makes -/

theorem Lexes.le_position (h : Lexes body position tokens) :
    ∀ t ∈ tokens, position ≤ t.position := by
  induction h with
  | done _ => simp
  | @token position _ tokens _ _ _ ih =>
    intro t ht
    rcases List.mem_cons.1 ht with rfl | ht
    · exact Nat.le_refl _
    · exact Nat.le_trans (lt_behindLexeme body position).le (ih t ht)
  | @pass position tokens _ _ _ ih =>
    intro t ht
    exact Nat.le_trans (lt_behindLexeme body position).le (ih t ht)

/-- The token is made of the lexeme at its position. -/
structure MadeAt (body : List Char) (t : Token) : Prop where
  position_lt : t.position < body.length
  kind : (lexeme (body.drop t.position)).kind = some t.kind
  text : t.text = Span.slice ⟨t.position, behindLexeme body t.position⟩ body

theorem madeAt_tokenAt {kind : TokenKind} (hlt : position < body.length)
    (hkind : (lexeme (body.drop position)).kind = some kind) :
    MadeAt body (tokenAt body kind position) :=
  ⟨hlt, hkind, rfl⟩

theorem Lexes.made (h : Lexes body position tokens) : ∀ t ∈ tokens, MadeAt body t := by
  induction h with
  | done _ => simp
  | token hlt hkind _ ih => exact List.forall_mem_cons.2 ⟨madeAt_tokenAt hlt hkind, ih⟩
  | pass _ _ _ ih => exact ih

theorem MadeAt.stop_eq (h : MadeAt body t) :
    t.stop = min (behindLexeme body t.position) body.length := by
  have hbehind := lt_behindLexeme body t.position
  have hlt := h.position_lt
  rw [Token.stop, h.text, Span.slice, List.extract_eq_take_drop, List.length_take,
    List.length_drop]
  dsimp only
  omega

theorem MadeAt.text_eq (h : MadeAt body t) : t.text = Span.slice ⟨t.position, t.stop⟩ body := by
  rw [h.stop_eq, h.text, Span.slice, Span.slice, List.extract_eq_take_drop,
    List.extract_eq_take_drop, List.take_eq_take_iff, List.length_drop]
  dsimp only
  omega

theorem Lexes.pairwise (h : Lexes body position tokens) :
    tokens.Pairwise fun t other => t.stop ≤ other.position := by
  induction h with
  | done _ => exact .nil
  | token hlt hkind hrest ih =>
    refine .cons ?_ ih
    intro other hother
    rw [(madeAt_tokenAt hlt hkind).stop_eq]
    exact Nat.le_trans (Nat.min_le_left _ _) (hrest.le_position other hother)
  | pass _ _ _ ih => exact ih

/-! ## Literals and tokens -/

/-- No literal begins in a lexeme that holds no quote. -/
theorem outside_of_quoteless (hout : quotingAt body position = .outside)
    (hnone : Quoteless ((body.drop position).take (lexeme (body.drop position)).length)) :
    quotingAt body (behindLexeme body position) = .outside ∧
    ∀ literal, IsLiteral body literal → position ≤ literal.start →
      behindLexeme body position ≤ literal.start := by
  constructor
  · rw [behindLexeme, quotingAt_add, hout, behind_quoteless hnone]
  · intro literal hliteral hstart
    by_contra hlt
    obtain ⟨quote, hquote, hopens⟩ := hliteral.quote
    obtain ⟨k, hk⟩ := Nat.exists_eq_add_of_le hstart
    have hinside : k < (lexeme (body.drop position)).length := by
      unfold behindLexeme at hlt
      omega
    rw [hk, ← List.getElem?_drop, ← List.getElem?_take_of_lt hinside] at hquote
    rw [hnone quote (List.mem_of_getElem? hquote)] at hopens
    contradiction

/-- A character that is passed over is no quote, when every literal that begins
    here can be read. -/
theorem quoteless_of_unread (hclosed : quotingAt body body.length = .outside)
    (hout : quotingAt body position = .outside)
    (hunread : stringLexeme? (body.drop position) = none)
    (hclean : ∀ literal, IsLiteral body literal → literal.start = position →
      ¬CoversNewline body literal) : Quoteless ((body.drop position).take 1) := by
  intro quote hmem
  by_contra hopens
  have hquote : body[position]? = some quote := by
    rw [← List.head?_drop]
    cases hdrop : body.drop position with
    | nil =>
      rw [hdrop] at hmem
      contradiction
    | cons c rest =>
      rw [hdrop] at hmem
      rw [List.mem_singleton.1 hmem]
      rfl
  obtain ⟨stop, hliteral⟩ := exists_literal_at hclosed hout hquote (Bool.not_eq_false _ ▸ hopens)
  exact hclean _ hliteral rfl (coversNewline_of_unread hliteral hunread)

/-- **What one lexeme does**: read outside of literals it ends outside of them, and
    a literal that begins in it lies in it and makes it a string or a nested
    expression. No literal may begin there that covers a newline, unless the lexeme
    is a nested expression. -/
theorem lexeme_step (hclosed : quotingAt body body.length = .outside)
    (hout : quotingAt body position = .outside)
    (hnested : ∀ literal, IsLiteral body literal → literal.start = position →
      CoversNewline body literal → (lexeme (body.drop position)).kind = some .nested) :
    quotingAt body (behindLexeme body position) = .outside ∧
    ∀ literal, IsLiteral body literal → position ≤ literal.start →
      literal.start < behindLexeme body position →
      literal.stop ≤ behindLexeme body position ∧
        ((lexeme (body.drop position)).kind = some .string ∨
          (lexeme (body.drop position)).kind = some .nested) := by
  have hquoteless : ((lexeme (body.drop position)).kind = some .string ∨
        (lexeme (body.drop position)).kind = some .nested) ∧
        quotingAt body (behindLexeme body position) = .outside ∨
      Quoteless ((body.drop position).take (lexeme (body.drop position)).length) := by
    rcases lexeme_cases (body.drop position) with ⟨hkind, hends⟩ | hnone | ⟨hunread, hsingle⟩
    · refine .inl ⟨hkind, ?_⟩
      rw [behindLexeme, quotingAt_add, hout, hends]
    · exact .inr hnone
    · refine .inr ?_
      rw [hsingle] at hnested ⊢
      refine quoteless_of_unread hclosed hout hunread ?_
      intro literal hliteral hstart hnewline
      have hkind := hnested literal hliteral hstart hnewline
      contradiction
  rcases hquoteless with ⟨hkind, hbehind⟩ | hnone
  · refine ⟨hbehind, ?_⟩
    intro literal hliteral hstart hlt
    refine ⟨?_, hkind⟩
    -- Behind the lexeme the reading is outside, so the literal has ended.
    by_contra hstop
    exact hliteral.inside _ hlt (Nat.lt_of_not_le hstop) hbehind
  · obtain ⟨hbehind, hapart⟩ := outside_of_quoteless hout hnone
    refine ⟨hbehind, ?_⟩
    intro literal hliteral hstart hlt
    exact absurd (hapart literal hliteral hstart) (Nat.not_le_of_lt hlt)

/-- **What a run does**: a reading that is outside of literals makes all its
    tokens there, and each literal lies in one of them. -/
theorem Lexes.covers (h : Lexes body position tokens)
    (hclosed : quotingAt body body.length = .outside) (hout : quotingAt body position = .outside)
    (hnested : ∀ literal, IsLiteral body literal → position ≤ literal.start →
      CoversNewline body literal → ∃ t ∈ tokens, t.kind = .nested ∧ t.Covers literal) :
    (∀ t ∈ tokens, quotingAt body t.position = .outside) ∧
    ∀ literal, IsLiteral body literal → position ≤ literal.start →
      ∃ t ∈ tokens, (t.kind = .string ∨ t.kind = .nested) ∧ t.Covers literal := by
  induction h with
  | done hend =>
    refine ⟨by simp, ?_⟩
    intro literal hliteral hstart
    have := hliteral.start_lt
    have := hliteral.stop_le
    omega
  | @token position kind tokens hlt hkind hrest ih =>
    have hstop : (tokenAt body kind position).stop =
        min (behindLexeme body position) body.length := (madeAt_tokenAt hlt hkind).stop_eq
    -- A literal that begins here lies in no later token.
    obtain ⟨hbehind, hwithin⟩ := lexeme_step hclosed hout <| by
      intro literal hliteral hstart hnewline
      obtain ⟨t, ht, htkind, hcovers⟩ := hnested literal hliteral hstart.ge hnewline
      rcases List.mem_cons.1 ht with rfl | ht
      · exact hkind.trans (congrArg some htkind)
      · have := hrest.le_position t ht
        have := lt_behindLexeme body position
        have := hcovers.1
        omega
    -- One that begins behind this token does not lie in it.
    obtain ⟨houtside, hliterals⟩ := ih hbehind <| by
      intro literal hliteral hstart hnewline
      obtain ⟨t, ht, htkind, hcovers⟩ := hnested literal hliteral
        (Nat.le_trans (lt_behindLexeme body position).le hstart) hnewline
      rcases List.mem_cons.1 ht with rfl | ht
      · have := hcovers.2
        have := hliteral.start_lt
        omega
      · exact ⟨t, ht, htkind, hcovers⟩
    refine ⟨List.forall_mem_cons.2 ⟨hout, houtside⟩, ?_⟩
    intro literal hliteral hstart
    by_cases hhere : literal.start < behindLexeme body position
    · obtain ⟨hends, hcases⟩ := hwithin literal hliteral hstart hhere
      rw [hkind, Option.some.injEq, Option.some.injEq] at hcases
      refine ⟨_, List.mem_cons_self, hcases, hstart, ?_⟩
      have := hliteral.stop_le
      omega
    · obtain ⟨t, ht, hcovers⟩ := hliterals literal hliteral (Nat.le_of_not_lt hhere)
      exact ⟨t, List.mem_cons_of_mem _ ht, hcovers⟩
  | @pass position tokens hlt hkind hrest ih =>
    obtain ⟨hbehind, hwithin⟩ := lexeme_step hclosed hout <| by
      intro literal hliteral hstart hnewline
      obtain ⟨t, ht, -, hcovers⟩ := hnested literal hliteral hstart.ge hnewline
      have := hrest.le_position t ht
      have := lt_behindLexeme body position
      have := hcovers.1
      omega
    obtain ⟨houtside, hliterals⟩ := ih hbehind fun literal hliteral hstart =>
      hnested literal hliteral (Nat.le_trans (lt_behindLexeme body position).le hstart)
    refine ⟨houtside, ?_⟩
    intro literal hliteral hstart
    by_cases hhere : literal.start < behindLexeme body position
    · obtain ⟨-, hcases⟩ := hwithin literal hliteral hstart hhere
      simp [hkind] at hcases
    · exact hliterals literal hliteral (Nat.le_of_not_lt hhere)

/-- A string that is read outside of literals covers no newline. -/
theorem not_coversNewline_string (hmade : MadeAt body t) (hkind : t.kind = .string)
    (hout : quotingAt body t.position = .outside) :
    ¬CoversNewline body ⟨t.position, behindLexeme body t.position⟩ := by
  have hstring : stringLexeme? (body.drop t.position) = some (lexeme (body.drop t.position)) :=
    stringLexeme?_of_lexeme (hmade.kind.trans (congrArg some hkind))
  rw [coversNewline_iff, hout, Span.slice, List.extract_eq_take_drop, behindLexeme,
    Nat.add_sub_cancel_left]
  exact (behind_string hstring).2

/-- The tokens of a body leave its literals whole: each lies in a string or in a
    nested expression, and no token begins inside of one. -/
def KeepsLiterals (body : List Char) : Prop :=
  ∀ literal, IsLiteral body literal →
    (∃ t ∈ tokenize body, (t.kind = .string ∨ t.kind = .nested) ∧ t.Covers literal) ∧
    ∀ t ∈ tokenize body, ¬(literal.start < t.position ∧ t.position < literal.stop)

/-- **The literals are left whole** unless one covers a newline outside of the
    nested expressions. -/
theorem keepsLiterals_iff (hclosed : quotingAt body body.length = .outside) :
    KeepsLiterals body ↔ ∀ literal, IsLiteral body literal → CoversNewline body literal →
      ∃ t ∈ tokenize body, t.kind = .nested ∧ t.Covers literal := by
  have hlexes : Lexes body 0 (tokenize body) := lexes_tokensFrom body 0
  constructor
  · intro hkeeps literal hliteral hnewline
    obtain ⟨⟨t, ht, hkind, hcovers⟩, -⟩ := hkeeps literal hliteral
    refine ⟨t, ht, ?_, hcovers⟩
    rcases hkind with hstring | hnested
    · have hmade := hlexes.made t ht
      -- A token that began inside of a literal would not leave that one whole.
      have hout : quotingAt body t.position = .outside := by
        by_contra hinside
        obtain ⟨around, haround, hstart, hstop⟩ := exists_literal hclosed hinside
        exact (hkeeps around haround).2 t ht ⟨hstart, hstop⟩
      have hstop : literal.stop ≤ behindLexeme body t.position := by
        have hle := hcovers.2
        rw [hmade.stop_eq] at hle
        omega
      exact absurd (hnewline.mono hcovers.1 hstop) (not_coversNewline_string hmade hstring hout)
    · exact hnested
  · intro hnested
    obtain ⟨houtside, hliterals⟩ := hlexes.covers hclosed rfl
      fun literal hliteral _ hnewline => hnested literal hliteral hnewline
    intro literal hliteral
    refine ⟨hliterals literal hliteral (Nat.zero_le _), ?_⟩
    intro t ht ⟨hstart, hstop⟩
    exact hliteral.inside _ hstart hstop (houtside t ht)

/-- **The two readings of a body** that ends outside of literals: its tokens are in
    order and apart, none is empty, and each is the stretch of the body at its
    position. They leave the literals whole unless one covers a newline outside of
    the nested expressions. Such a literal is never read as a string, so what
    stands in it is read as if it stood outside. -/
theorem tokenize_keepsLiterals_iff (hclosed : quotingAt body body.length = .outside) :
    (tokenize body).Pairwise (fun t other => t.stop ≤ other.position) ∧
    (∀ t ∈ tokenize body,
      t.position < t.stop ∧ t.text = Span.slice ⟨t.position, t.stop⟩ body) ∧
    (KeepsLiterals body ↔ ∀ literal, IsLiteral body literal → CoversNewline body literal →
      ∃ t ∈ tokenize body, t.kind = .nested ∧ t.Covers literal) := by
  have hlexes : Lexes body 0 (tokenize body) := lexes_tokensFrom body 0
  refine ⟨hlexes.pairwise, ?_, keepsLiterals_iff hclosed⟩
  intro t ht
  have hmade := hlexes.made t ht
  have hbehind := lt_behindLexeme body t.position
  have hlt := hmade.position_lt
  have hstop := hmade.stop_eq
  exact ⟨by omega, hmade.text_eq⟩

/-- A literal in which a newline is covered. -/
def coveredSample : List Char :=
  "'a\\\nb'".toList

/-- It is cut into the words that stand in it. -/
theorem not_keepsLiterals_coveredSample :
    quotingAt coveredSample coveredSample.length = .outside ∧ ¬KeepsLiterals coveredSample := by
  refine ⟨by decide, ?_⟩
  intro hkeeps
  have hliteral : IsLiteral coveredSample ⟨0, 6⟩ :=
    { quote := ⟨'\'', rfl, rfl⟩
      opens := rfl
      inside := by
        intro i hstart hstop
        have hall : ∀ i < 6, 0 < i → quotingAt coveredSample i ≠ .outside := by decide
        exact hall i hstop hstart
      closes := by decide
      start_lt := by decide
      stop_le := by decide }
  have hnewline : CoversNewline coveredSample ⟨0, 6⟩ := ⟨3, '\'', by decide, by decide, rfl, rfl⟩
  have htokens : tokenize coveredSample =
      [⟨.identifier, ['a'], 1⟩, ⟨.identifier, ['b'], 4⟩] := by decide +kernel
  obtain ⟨t, ht, hkind, -⟩ :=
    (tokenize_keepsLiterals_iff (by decide)).2.2.1 hkeeps ⟨0, 6⟩ hliteral hnewline
  rw [htokens] at ht
  rcases List.mem_cons.1 ht with rfl | ht
  · contradiction
  · rw [List.mem_singleton.1 ht] at hkind
    contradiction

end TemplateAnalysis.Expression
