import TemplateAnalysis.Proofs.Expression.Spans

/-! # Searches in a window

    An expression lies in a window of a text when both of its ends do; the brace
    that closes it is looked for in the whole text.

    * **`complete_iff`**: an expression is complete when its length can be told;
    * **`scans_spansFrom`**: the reading takes every complete expression of the
      window as a whole, and passes over one character where none stands;
    * **`expressionSpansIn_exact`**: so what is found is in order, apart, complete
      and in the window, and whatever else is complete in the window opens inside
      of it;
    * **`mem_expressionSpans_of_mem_in`**: a search of the whole text finds it as
      well, unless it finds an expression across an end of the window;
    * **`window_eq_slice`**: and it is what a search of the window's stretch alone
      finds, as is the place of a token at the top level.
-/

namespace TemplateAnalysis.Expression

variable {text : List Char} {start stop position n : Nat} {span : Span} {spans : List Span}

/-! ## Complete expressions of a text -/

/-- A sigil stands at the position, and a brace behind it. -/
structure OpensAt (text : List Char) (position : Nat) : Prop where
  sigil : ∃ c, text[position]? = some c ∧ isSigil c = true
  brace : text[position + 1]? = some '{'

/-- The span begins where an expression opens, and ends right behind the brace
    that closes it. -/
structure Complete (text : List Char) (span : Span) : Prop where
  opens : OpensAt text span.start
  closes : ∃ close, findClosing text (span.start + 1) = some close ∧
    text[close]? = some '}' ∧ span.stop = close + 1

theorem opensAt_iff : OpensAt text position ↔
    ∃ sigil rest, text.drop position = sigil :: '{' :: rest ∧ isSigil sigil = true := by
  constructor
  · intro h
    obtain ⟨c, hc, hsigil⟩ := h.sigil
    have hbrace := h.brace
    rw [List.getElem?_eq_some_iff] at hc hbrace
    obtain ⟨hlt, rfl⟩ := hc
    obtain ⟨hlt', hbrace⟩ := hbrace
    refine ⟨_, text.drop (position + 2), ?_, hsigil⟩
    rw [List.drop_eq_getElem_cons hlt, List.drop_eq_getElem_cons hlt', hbrace]
  · intro ⟨sigil, rest, hdrop, hsigil⟩
    have hget : ∀ k, text[position + k]? = (sigil :: '{' :: rest)[k]? := by
      intro k
      rw [← hdrop, List.getElem?_drop]
    exact ⟨⟨sigil, hget 0, hsigil⟩, hget 1⟩

/-- The closing brace is looked for from the opening one. -/
theorem findClosing_of_drop {sigil : Char} {rest : List Char}
    (h : text.drop position = sigil :: '{' :: rest) :
    findClosing text (position + 1) =
      (closingOffset '{' '}' .outside 0 ('{' :: rest)).map (· + (position + 1)) := by
  have hbrace : text.drop (position + 1) = '{' :: rest := by
    rw [← List.drop_drop, h]
    rfl
  unfold findClosing
  rw [hbrace]
  rfl

/-- What is found behind an opening brace is a closing one. -/
theorem complete_of_findClosing {close : Nat} (hopens : OpensAt text position)
    (hclose : findClosing text (position + 1) = some close) :
    Complete text ⟨position, close + 1⟩ := by
  refine ⟨hopens, close, hclose, ?_, rfl⟩
  obtain ⟨sigil, rest, hdrop, -⟩ := opensAt_iff.1 hopens
  rw [findClosing_of_drop hdrop] at hclose
  obtain ⟨k, hk, rfl⟩ := Option.map_eq_some_iff.1 hclose
  calc text[k + (position + 1)]?
      = (text.drop position)[k + 1]? := by rw [List.getElem?_drop]; congr 1; omega
    _ = ('{' :: rest)[k]? := by rw [hdrop]; rfl
    _ = some '}' := getElem?_closingOffset hk

/-- **An expression is complete when its length can be told.** -/
theorem complete_iff : Complete text ⟨position, position + n⟩ ↔
    expressionLength? (text.drop position) = some n := by
  constructor
  · intro h
    obtain ⟨sigil, rest, hdrop, hsigil⟩ := opensAt_iff.1 h.opens
    obtain ⟨close, hclose, -, hstop⟩ := h.closes
    simp only at hdrop hclose hstop
    rw [findClosing_of_drop hdrop] at hclose
    obtain ⟨k, hk, rfl⟩ := Option.map_eq_some_iff.1 hclose
    have hn : n = k + 2 := by omega
    rw [hdrop, expressionLength?, if_pos hsigil, hk, hn]
    rfl
  · intro h
    obtain ⟨sigil, rest, k, hdrop, hsigil, hk, rfl⟩ := expressionLength?_eq_some h
    have hclose : findClosing text (position + 1) = some (k + (position + 1)) := by
      rw [findClosing_of_drop hdrop, hk]
      rfl
    have hcomplete := complete_of_findClosing (opensAt_iff.2 ⟨sigil, rest, hdrop, hsigil⟩) hclose
    rwa [show position + (k + 2) = k + (position + 1) + 1 by omega]

theorem Complete.exists_length (h : Complete text span) : ∃ n, span.stop = span.start + n ∧
    expressionLength? (text.drop span.start) = some n := by
  obtain ⟨sigil, rest, hdrop, -⟩ := opensAt_iff.1 h.opens
  obtain ⟨close, hclose, -, hstop⟩ := h.closes
  rw [findClosing_of_drop hdrop] at hclose
  obtain ⟨k, -, rfl⟩ := Option.map_eq_some_iff.1 hclose
  refine ⟨k + 2, by omega, complete_iff.1 ?_⟩
  rwa [show span.start + (k + 2) = span.stop by omega]

/-! ## Reading a window -/

/-- The reading of a window from a position on, with the spans it takes. -/
inductive Scans (text : List Char) (stop : Nat) : Nat → List Span → Prop
  /-- The text is at its end. -/
  | done {position : Nat} : text.length ≤ position → Scans text stop position []
  /-- An expression that ends in the window is taken as a whole. -/
  | take {position behind : Nat} {spans : List Span} : Complete text ⟨position, behind⟩ →
      behind ≤ stop → Scans text stop behind spans →
      Scans text stop position (⟨position, behind⟩ :: spans)
  /-- One character is passed over where no such expression begins. -/
  | pass {position : Nat} {spans : List Span} :
      (∀ behind, Complete text ⟨position, behind⟩ → stop < behind) →
      Scans text stop (position + 1) spans → Scans text stop position spans

/-- **What is found comes from such a reading**, by induction on what is left of
    the text. -/
theorem scans_spansFrom (text : List Char) (stop position : Nat) :
    Scans text stop position (spansFrom stop position (text.drop position)) := by
  induction hleft : text.length - position using Nat.strong_induction_on generalizing position with
  | _ left ih =>
    by_cases hend : text.length ≤ position
    · rw [List.drop_eq_nil_of_le hend, spansFrom]
      exact .done hend
    · have hlt : position < text.length := by omega
      rw [List.drop_eq_getElem_cons hlt, spansFrom_cons, ← List.drop_eq_getElem_cons hlt]
      unfold lengthWithin?
      cases hwithin : (expressionLength? (text.drop position)).filter
          fun n => position + n ≤ stop with
      | none =>
        refine .pass ?_ (ih _ (by omega) _ rfl)
        intro behind hcomplete
        obtain ⟨n, hbehind, hn⟩ := hcomplete.exists_length
        rw [Option.filter_eq_none_iff] at hwithin
        have hout := hwithin n hn
        simp only [decide_eq_true_eq] at hout hbehind
        omega
      | some n =>
        rw [Option.filter_eq_some_iff] at hwithin
        obtain ⟨hn, hstop⟩ := hwithin
        have hpos := (expressionLength?_bounds hn).1
        refine .take (complete_iff.2 hn) (by simpa using hstop) ?_
        -- The character in front has already been split off.
        rw [List.drop_drop, show position + 1 + (n - 1) = position + n by omega]
        exact ih _ (by omega) _ rfl

/-! ## What a reading finds -/

/-- Nothing is taken before the reading begins. -/
theorem Scans.le_start (h : Scans text stop position spans) :
    ∀ span ∈ spans, position ≤ span.start := by
  induction h with
  | done _ => simp
  | @take position behind spans hcomplete _ _ ih =>
    intro span hspan
    obtain ⟨n, hbehind, -⟩ := hcomplete.exists_length
    simp only at hbehind
    rcases List.mem_cons.1 hspan with rfl | hspan
    · exact Nat.le_refl _
    · have := ih span hspan
      omega
  | pass _ _ ih =>
    intro span hspan
    have := ih span hspan
    omega

theorem Scans.pairwise (h : Scans text stop position spans) :
    spans.Pairwise fun span other => span.stop ≤ other.start := by
  induction h with
  | done _ => exact .nil
  | take _ _ hrest ih => exact .cons hrest.le_start ih
  | pass _ _ ih => exact ih

theorem Scans.complete (h : Scans text stop position spans) :
    ∀ span ∈ spans, Complete text span ∧ span.stop ≤ stop := by
  induction h with
  | done _ => simp
  | take hcomplete hstop _ ih => exact List.forall_mem_cons.2 ⟨⟨hcomplete, hstop⟩, ih⟩
  | pass _ _ ih => exact ih

/-- **No complete expression of the window is passed over**: the reading stops at
    every position that lies in none of those it has taken. -/
theorem Scans.covers (h : Scans text stop position spans) {other : Span}
    (hcomplete : Complete text other) (hstop : other.stop ≤ stop)
    (hstart : position ≤ other.start) :
    ∃ span ∈ spans, span.start ≤ other.start ∧ other.start < span.stop := by
  induction h with
  | @done position hend =>
    -- Nothing opens behind the end of the text.
    have hlt : other.start + 1 < text.length := by
      obtain ⟨hlt, -⟩ := List.getElem?_eq_some_iff.1 hcomplete.opens.brace
      exact hlt
    omega
  | @take position behind spans _ _ _ ih =>
    by_cases hinside : other.start < behind
    · exact ⟨_, List.mem_cons_self, hstart, hinside⟩
    · obtain ⟨span, hspan, hbounds⟩ := ih (by omega)
      exact ⟨span, List.mem_cons_of_mem _ hspan, hbounds⟩
  | @pass position spans hnone _ ih =>
    apply ih
    -- It cannot open right here, since it ends in the window.
    by_cases hhere : other.start = position
    · have hout := hnone other.stop (by rwa [← hhere])
      omega
    · omega

/-- Spans that are taken and overlap are the same. -/
theorem Scans.eq_of_overlap (h : Scans text stop position spans) {other : Span}
    (hspan : span ∈ spans) (hother : other ∈ spans) (hle : other.start ≤ span.start)
    (hlt : span.start < other.stop) : span = other := by
  induction h with
  | done _ => cases hspan
  | @take position behind spans hcomplete _ hrest ih =>
    rcases List.mem_cons.1 hother with rfl | hother
    · rcases List.mem_cons.1 hspan with rfl | hspan
      · rfl
      · have := hrest.le_start span hspan
        simp only at hlt
        omega
    · rcases List.mem_cons.1 hspan with rfl | hspan
      · -- What is taken later begins behind the end of what is taken first.
        obtain ⟨n, hbehind, hn⟩ := hcomplete.exists_length
        have hpos := (expressionLength?_bounds hn).1
        have := hrest.le_start other hother
        simp only at hbehind hle
        omega
      · exact ih hspan hother
  | pass _ _ ih => exact ih hspan hother

/-- **What is found in a window**: the spans are in order and apart, each is that
    of a complete expression with both of its ends in the window, and every
    expression that is complete in the window begins in one of them. So one that
    is never finished hides no other, neither inside of it nor behind it. -/
theorem expressionSpansIn_exact (text : List Char) (start stop : Nat) :
    (expressionSpansIn text start stop).Pairwise (fun span other => span.stop ≤ other.start) ∧
    (∀ span ∈ expressionSpansIn text start stop,
      start ≤ span.start ∧ span.start < span.stop ∧ span.stop ≤ stop ∧ Complete text span) ∧
    ∀ position close, start ≤ position → OpensAt text position →
      findClosing text (position + 1) = some close → close < stop →
      ∃ span ∈ expressionSpansIn text start stop,
        span.start ≤ position ∧ position < span.stop := by
  have hscans : Scans text stop start (expressionSpansIn text start stop) :=
    scans_spansFrom text stop start
  refine ⟨hscans.pairwise, ?_, ?_⟩
  · intro span hspan
    obtain ⟨hcomplete, hstop⟩ := hscans.complete span hspan
    obtain ⟨n, hlast, hn⟩ := hcomplete.exists_length
    have hpos := (expressionLength?_bounds hn).1
    exact ⟨hscans.le_start span hspan, by omega, hstop, hcomplete⟩
  · intro position close hstart hopens hclose hstop
    exact hscans.covers (complete_of_findClosing hopens hclose) hstop hstart

/-- An unfinished expression with a complete one in it, which is found. -/
example : expressionSpansIn "$\x7ba + *{b} ~\x7bc".toList 0 14 = [⟨6, 10⟩] := by
  decide +kernel

/-! ## Windows and stretches -/

/-- A search at the top level reads no further than its window. -/
theorem topLevelOffset_take (token : List Char) (s : Nesting) (window : Nat) (cs : List Char) :
    topLevelOffset token s window cs =
      topLevelOffset token s (cs.take window).length (cs.take window) := by
  induction cs generalizing s window with
  | nil => cases window <;> rfl
  | cons c rest ih =>
    cases window with
    | zero => rfl
    | succ window =>
      have hlength : (rest.take window).length = min window rest.length := List.length_take
      -- A token that stands in front of the text and fits into the window stands in
      -- front of the stretch.
      have hhere : (token.isPrefixOf (c :: rest) && decide (token.length ≤ window + 1)) =
          (token.isPrefixOf (c :: rest.take window) &&
            decide (token.length ≤ (rest.take window).length + 1)) := by
        rw [Bool.eq_iff_iff]
        simp only [Bool.and_eq_true, List.isPrefixOf_iff_prefix, decide_eq_true_eq]
        rw [← List.take_succ_cons, List.prefix_take_iff, and_assoc]
        refine and_congr_right fun hfront => ?_
        have := hfront.length_le
        rw [List.length_cons] at this
        omega
      rw [List.take_succ_cons, List.length_cons, topLevelOffset, topLevelOffset, ih, Bool.and_assoc,
        Bool.and_assoc, hhere]

theorem findTopLevelIn_eq (token text : List Char) (start stop : Nat) :
    findTopLevelIn token text start stop =
      (findTopLevel token (Span.slice ⟨start, stop⟩ text)).map (start + ·) := by
  rw [findTopLevel, findTopLevelIn, findTopLevelIn, topLevelOffset_take, Span.slice,
    List.extract_eq_take_drop, List.drop_zero, Nat.sub_zero, Option.map_map]
  congr 1
  funext k
  exact Nat.add_comm k start

theorem expressionSpansIn_eq (text : List Char) (start stop : Nat) :
    expressionSpansIn text start stop =
      (expressionSpans (Span.slice ⟨start, stop⟩ text)).map fun span =>
        ⟨start + span.start, start + span.stop⟩ := by
  rw [expressionSpansIn, spansFrom_eq_completeFrom, expressionSpans_eq, Span.slice,
    List.extract_eq_take_drop]
  conv_lhs => rw [← Nat.zero_add start]
  rw [completeFrom_add]
  simp [Nat.add_comm]

/-- The span begins in front of the position and ends behind it. -/
def Span.Crosses (span : Span) (position : Nat) : Prop :=
  span.start < position ∧ position < span.stop

/-- **What is found in a window is found in the whole text**, unless an expression of
    the text begins or ends across an end of the window. -/
theorem mem_expressionSpans_of_mem_in (h : span ∈ expressionSpansIn text start stop)
    (hstart : ∀ other ∈ expressionSpans text, ¬ other.Crosses start)
    (hstop : ∀ other ∈ expressionSpans text, ¬ other.Crosses stop) :
    span ∈ expressionSpans text := by
  have hin : Scans text stop start (expressionSpansIn text start stop) :=
    scans_spansFrom text stop start
  have hall : Scans text text.length 0 (expressionSpans text) :=
    scans_spansFrom text text.length 0
  obtain ⟨hcomplete, hlast⟩ := hin.complete span h
  have hfirst := hin.le_start span h
  obtain ⟨n, hbehind, hn⟩ := hcomplete.exists_length
  have hlength := expressionLength?_bounds hn
  rw [List.length_drop] at hlength
  -- An expression of the text covers its beginning, and has both ends in the window.
  obtain ⟨other, hother, hle, hlt⟩ := hall.covers hcomplete (by omega) (Nat.zero_le _)
  have hstart' := hstart other hother
  have hstop' := hstop other hother
  unfold Span.Crosses at hstart' hstop'
  have hmem : other ∈ expressionSpansIn text start stop := by
    have hslice := @mem_expressionSpans_slice other text ⟨start, stop⟩ hother (by simp only; omega)
      (by simp only; omega) hstart
    rw [expressionSpansIn_eq]
    refine List.mem_map.2 ⟨_, hslice, ?_⟩
    simp only [Nat.add_sub_cancel' (show start ≤ other.start by omega),
      Nat.add_sub_cancel' (show start ≤ other.stop by omega)]
  rwa [hin.eq_of_overlap h hmem hle hlt]

/-- **A search in a window is a search in the stretch of the window**: a token stands
    at the same place, and the same expressions are found, though the brace that
    closes one is looked for behind the window as well. -/
theorem window_eq_slice (text : List Char) (start stop : Nat) :
    (∀ token, findTopLevelIn token text start stop =
      (findTopLevel token (Span.slice ⟨start, stop⟩ text)).map (start + ·)) ∧
    expressionSpansIn text start stop =
      (expressionSpans (Span.slice ⟨start, stop⟩ text)).map fun span =>
        ⟨start + span.start, start + span.stop⟩ :=
  ⟨fun token => findTopLevelIn_eq token text start stop, expressionSpansIn_eq text start stop⟩

end TemplateAnalysis.Expression
