import TemplateAnalysis.Expression.Span
import Mathlib.Data.List.Infix

/-! # Complete expressions and stretches of a text

    Whether an expression is complete can be seen on the expression alone, and
    which expressions a stretch of a text holds can mostly be seen on the whole
    text:

    * **`isExpression_slice`**: every span that is found is a complete expression
      when it is cut out;
    * **`mem_expressionSpans_slice`**: an expression of the text that lies in a
      stretch is one of the stretch, unless the stretch begins inside of another
      expression of the text.

    Both rest on what one character does to the search for a closing bracket
    (`closingOffset_cons`): what stands behind the bracket does not count.
-/

namespace TemplateAnalysis.Expression

open Text

variable {cs : List Char}

/-! ## Stretches -/

theorem length_slice {text : List Char} {span : Span} (h : span.stop ≤ text.length) :
    (span.slice text).length = span.stop - span.start := by
  rw [Span.slice, List.extract_eq_take_drop, List.length_take, List.length_drop]
  omega

theorem getElem?_slice {text : List Char} {span : Span} {k : Nat}
    (h : k < span.stop - span.start) : (span.slice text)[k]? = text[span.start + k]? := by
  rw [Span.slice, List.extract_eq_take_drop, List.getElem?_take_of_lt h, List.getElem?_drop]

/-! ## The closing bracket -/

section Closing

variable {opener closer : Char} {quoting : Quoting} {depth k n : Nat}

theorem closingOffset_nil (opener closer : Char) (quoting : Quoting) (depth : Nat) :
    closingOffset opener closer quoting depth [] = none := by
  cases quoting <;> rfl

/-- What one character does to the search for a closing bracket: it ends it, or
    the search goes on behind it. -/
theorem closingOffset_cons (opener closer : Char) (quoting : Quoting) (depth : Nat) (c : Char) :
    (c = closer ∧ ∀ rest, closingOffset opener closer quoting depth (c :: rest) = some 0) ∨
      ∃ quoting' depth', ∀ rest, closingOffset opener closer quoting depth (c :: rest) =
        (closingOffset opener closer quoting' depth' rest).map (· + 1) := by
  cases quoting with
  | outside =>
    by_cases ho : c = opener
    · exact .inr ⟨.outside, depth + 1, fun rest => by rw [closingOffset, if_pos ho]⟩
    · by_cases hc : c = closer
      · by_cases hd : depth ≤ 1
        · exact .inl ⟨hc, fun rest => by rw [closingOffset, if_neg ho, if_pos hc, if_pos hd]⟩
        · exact .inr ⟨.outside, depth - 1,
            fun rest => by rw [closingOffset, if_neg ho, if_pos hc, if_neg hd]⟩
      · exact .inr ⟨Quoting.outside.step c, depth,
          fun rest => by rw [closingOffset, if_neg ho, if_neg hc]⟩
  | inside quote => exact .inr ⟨_, depth, fun rest => closingOffset.eq_3 _ _ _ _ _ _ (by simp)⟩
  | covered quote => exact .inr ⟨_, depth, fun rest => closingOffset.eq_3 _ _ _ _ _ _ (by simp)⟩

/-- The search ends at a closing bracket. -/
theorem getElem?_closingOffset
    (h : closingOffset opener closer quoting depth cs = some k) : cs[k]? = some closer := by
  induction cs generalizing quoting depth k with
  | nil =>
    rw [closingOffset_nil] at h
    contradiction
  | cons c rest ih =>
    rcases closingOffset_cons opener closer quoting depth c with
      ⟨hc, hend⟩ | ⟨quoting', depth', hstep⟩
    · rw [hend] at h
      obtain rfl := Option.some.inj h
      rw [hc]
      rfl
    · rw [hstep] at h
      obtain ⟨j, hj, rfl⟩ := Option.map_eq_some_iff.1 h
      exact ih hj

/-- What stands behind the closing bracket does not count. -/
theorem closingOffset_append_of_some
    (h : closingOffset opener closer quoting depth cs = some k) (more : List Char) :
    closingOffset opener closer quoting depth (cs ++ more) = some k := by
  induction cs generalizing quoting depth k with
  | nil =>
    rw [closingOffset_nil] at h
    contradiction
  | cons c rest ih =>
    rcases closingOffset_cons opener closer quoting depth c with
      ⟨-, hend⟩ | ⟨quoting', depth', hstep⟩
    · rw [List.cons_append, hend, ← hend rest, h]
    · rw [hstep] at h
      obtain ⟨j, hj, rfl⟩ := Option.map_eq_some_iff.1 h
      rw [List.cons_append, hstep, ih hj]
      rfl

theorem closingOffset_take (h : closingOffset opener closer quoting depth cs = some k)
    (hn : k < n) : closingOffset opener closer quoting depth (cs.take n) = some k := by
  induction cs generalizing quoting depth k n with
  | nil =>
    rw [closingOffset_nil] at h
    contradiction
  | cons c rest ih =>
    obtain ⟨n, rfl⟩ := Nat.exists_eq_succ_of_ne_zero (Nat.ne_zero_of_lt hn)
    rw [List.take_succ_cons]
    rcases closingOffset_cons opener closer quoting depth c with
      ⟨-, hend⟩ | ⟨quoting', depth', hstep⟩
    · rw [hend, ← hend rest, h]
    · rw [hstep] at h
      obtain ⟨j, hj, rfl⟩ := Option.map_eq_some_iff.1 h
      rw [hstep, ih hj (Nat.lt_of_succ_lt_succ hn)]
      rfl

end Closing

/-! ## Complete expressions -/

/-- The length of the complete expression at the front of a text. -/
def expressionLength? : List Char → Option Nat
  | sigil :: '{' :: rest =>
    if isSigil sigil then (closingOffset '{' '}' .outside 0 ('{' :: rest)).map (· + 2) else none
  | _ => none

variable {n : Nat}

theorem expressionLength?_eq_some (h : expressionLength? cs = some n) :
    ∃ sigil rest k, cs = sigil :: '{' :: rest ∧ isSigil sigil = true ∧
      closingOffset '{' '}' .outside 0 ('{' :: rest) = some k ∧ n = k + 2 := by
  unfold expressionLength? at h
  split at h
  · rename_i sigil rest
    split at h
    · rename_i hs
      obtain ⟨k, hk, rfl⟩ := Option.map_eq_some_iff.1 h
      exact ⟨sigil, rest, k, rfl, hs, hk, rfl⟩
    · contradiction
  · contradiction

theorem expressionLength?_bounds (h : expressionLength? cs = some n) : 2 ≤ n ∧ n ≤ cs.length := by
  obtain ⟨sigil, rest, k, rfl, -, hk, rfl⟩ := expressionLength?_eq_some h
  have := closingOffset_lt hk
  simp only [List.length_cons] at this ⊢
  omega

/-- What stands behind an expression does not count. -/
theorem expressionLength?_take {m : Nat} (h : expressionLength? cs = some n) (hm : n ≤ m) :
    expressionLength? (cs.take m) = some n := by
  obtain ⟨sigil, rest, k, rfl, hs, hk, rfl⟩ := expressionLength?_eq_some h
  obtain ⟨m, rfl⟩ := Nat.exists_eq_add_of_le hm
  have htake := closingOffset_take hk (show k < k + 1 + m by omega)
  rw [show k + 1 + m = k + m + 1 by omega, List.take_succ_cons] at htake
  rw [show k + 2 + m = k + m + 2 by omega]
  simp only [List.take_succ_cons, expressionLength?, hs, if_true, htake, Option.map_some]

/-- What is complete at the front of a text is complete in all of it. -/
theorem expressionLength?_of_take {m : Nat} (h : expressionLength? (cs.take m) = some n) :
    expressionLength? cs = some n := by
  obtain ⟨sigil, rest, k, hcs, hs, hk, rfl⟩ := expressionLength?_eq_some h
  have hwhole : cs = sigil :: '{' :: (rest ++ cs.drop m) := calc
    cs = cs.take m ++ cs.drop m := (List.take_append_drop m cs).symm
    _ = sigil :: '{' :: (rest ++ cs.drop m) := by rw [hcs]; rfl
  have hall := closingOffset_append_of_some hk (cs.drop m)
  rw [hwhole, expressionLength?, if_pos hs, ← List.cons_append, hall]
  rfl

/-- What is not complete is not complete before its end either. -/
theorem expressionLength?_take_eq_none (h : expressionLength? cs = none) (m : Nat) :
    expressionLength? (cs.take m) = none := by
  cases hn : expressionLength? (cs.take m) with
  | none => rfl
  | some n =>
    rw [expressionLength?_of_take hn] at h
    contradiction

/-- A complete expression: a sigil, a brace, and the brace that closes it at the
    end. -/
structure IsExpression (text : List Char) : Prop where
  opens : ∃ sigil rest, text = sigil :: '{' :: rest ∧ isSigil sigil = true
  closes : findClosing text 1 = some (text.length - 1)

/-- What is cut out at the front of a text, up to and with the closing brace. -/
theorem isExpression_take (h : expressionLength? cs = some n) : IsExpression (cs.take n) := by
  have hbounds := expressionLength?_bounds h
  have htake := expressionLength?_take h (Nat.le_refl n)
  obtain ⟨sigil, rest, k, hcs, hs, hk, hn⟩ := expressionLength?_eq_some htake
  refine ⟨⟨sigil, rest, hcs, hs⟩, ?_⟩
  have hclosing : findClosing (cs.take n) 1 =
      (closingOffset '{' '}' .outside 0 ('{' :: rest)).map (· + 1) := by
    rw [hcs]
    rfl
  rw [hclosing, hk, List.length_take, Nat.min_eq_left hbounds.2, hn]
  rfl

/-! ## The expressions of a text -/

/-- The complete expressions of the text `cs` that stands at `position`: where
    one stands it is taken as a whole, and else one character is passed over. -/
def completeFrom (position : Nat) : List Char → List Span
  | [] => []
  | c :: rest =>
    match expressionLength? (c :: rest) with
    | some n => ⟨position, position + n⟩ :: completeFrom (position + n) (rest.drop (n - 1))
    | none => completeFrom (position + 1) rest
termination_by cs => cs.length

/-- No expression opens with a brace. -/
theorem spansFrom_brace (stop position : Nat) (rest : List Char) :
    spansFrom stop position ('{' :: rest) = spansFrom stop (position + 1) rest := by
  cases rest with
  | nil => rw [spansFrom, spansFrom]
  | cons d rest =>
    rw [spansFrom, if_neg]
    simp [isSigil]

/-- The length of the complete expression at the front of a text that stands at
    `position`, when it ends before `stop`. -/
def lengthWithin? (stop position : Nat) (cs : List Char) : Option Nat :=
  (expressionLength? cs).filter fun n => position + n ≤ stop

/-- One step through a window: an expression that ends in it is taken as a whole,
    and else one character is passed over. -/
theorem spansFrom_cons (stop position : Nat) (c : Char) (rest : List Char) :
    spansFrom stop position (c :: rest) =
      match lengthWithin? stop position (c :: rest) with
      | some n => ⟨position, position + n⟩ :: spansFrom stop (position + n) (rest.drop (n - 1))
      | none => spansFrom stop (position + 1) rest := by
  cases rest with
  | nil => simp [spansFrom, lengthWithin?, expressionLength?]
  | cons d rest =>
    by_cases hd : d = '{'
    · subst hd
      cases hs : isSigil c with
      | false => simp [spansFrom, lengthWithin?, expressionLength?, hs]
      | true =>
        have hlength : expressionLength? (c :: '{' :: rest) =
            (closingOffset '{' '}' .outside 0 ('{' :: rest)).map (· + 2) := by
          rw [expressionLength?, if_pos hs]
        by_cases hroom : position + 2 ≤ stop
        · rw [spansFrom, if_pos (by simp [hs, hroom])]
          cases hk : closingOffset '{' '}' .outside 0 ('{' :: rest) with
          | none =>
            -- An unfinished expression is passed over with its brace, which opens nothing.
            simp [lengthWithin?, hlength, hk, spansFrom_brace]
          | some k =>
            simp only [lengthWithin?, hlength, hk, Option.map_some]
            by_cases hend : position + 1 + k < stop
            · have hlast : position + (k + 2) ≤ stop := by omega
              rw [if_pos hend, Option.filter_some_pos (by simpa using hlast)]
              simp only
              rw [Nat.add_assoc, Nat.add_comm 2]
              rfl
            · have hlast : ¬position + (k + 2) ≤ stop := by omega
              rw [if_neg hend, Option.filter_some_neg (by simpa using hlast)]
              exact (spansFrom_brace ..).symm
        · -- Not even the brace lies in the window.
          have hnone : lengthWithin? stop position (c :: '{' :: rest) = none := by
            unfold lengthWithin?
            rw [Option.filter_eq_none_iff]
            intro n hn
            have := (expressionLength?_bounds hn).1
            simp only [decide_eq_true_eq]
            omega
          rw [spansFrom, if_neg (by simp [hroom]), hnone]
    · rw [spansFrom, if_neg (by simp [hd])]
      have hnone : expressionLength? (c :: d :: rest) = none := by
        unfold expressionLength?
        grind
      rw [lengthWithin?, hnone]
      rfl

/-- Whether an expression ends in a window can be seen on the stretch in it. -/
theorem lengthWithin?_eq (stop position : Nat) (cs : List Char) :
    lengthWithin? stop position cs = expressionLength? (cs.take (stop - position)) := by
  unfold lengthWithin?
  cases hlength : expressionLength? cs with
  | none => rw [expressionLength?_take_eq_none hlength]; rfl
  | some n =>
    have hbounds := expressionLength?_bounds hlength
    by_cases hend : position + n ≤ stop
    · rw [Option.filter_some_pos (by simpa using hend), expressionLength?_take hlength (by omega)]
    · rw [Option.filter_some_neg (by simpa using hend)]
      cases htake : expressionLength? (cs.take (stop - position)) with
      | none => rfl
      | some m =>
        -- It would be the same expression, which is longer than the stretch.
        have hm : n = m := Option.some.inj (hlength.symm.trans (expressionLength?_of_take htake))
        have hroom := (expressionLength?_bounds htake).2
        rw [List.length_take] at hroom
        omega

/-- **The expressions of a window** are those of the stretch in it. -/
theorem spansFrom_eq_completeFrom (stop position : Nat) (cs : List Char) :
    spansFrom stop position cs = completeFrom position (cs.take (stop - position)) := by
  induction hleft : cs.length using Nat.strong_induction_on generalizing position cs with
  | _ left ih =>
    cases cs with
    | nil => rw [spansFrom, List.take_nil, completeFrom]
    | cons c rest =>
      rw [List.length_cons] at hleft
      rw [spansFrom_cons, lengthWithin?_eq]
      cases hwindow : stop - position with
      | zero =>
        -- The window is over, and so is the stretch.
        have hnone : expressionLength? [] = none := rfl
        rw [List.take_zero, hnone, completeFrom]
        simp only
        rw [ih rest.length (by omega) _ rest rfl, show stop - (position + 1) = 0 by omega,
          List.take_zero, completeFrom]
      | succ window =>
        rw [List.take_succ_cons, completeFrom]
        cases hlength : expressionLength? (c :: rest.take window) with
        | none =>
          simp only
          rw [ih rest.length (by omega) _ rest rfl, show stop - (position + 1) = window by omega]
        | some n =>
          have hpos := (expressionLength?_bounds hlength).1
          simp only
          rw [ih _ (by rw [List.length_drop]; omega) _ (rest.drop (n - 1)) rfl, List.drop_take,
            show window - (n - 1) = stop - (position + n) by omega]

theorem expressionSpans_eq (text : List Char) : expressionSpans text = completeFrom 0 text := by
  rw [expressionSpans, expressionSpansIn, List.drop_zero, spansFrom_eq_completeFrom, Nat.sub_zero,
    List.take_length]

section Spans

variable {position : Nat} {span : Span}

/-- Every span that is found is that of a complete expression. -/
theorem opens_of_mem_completeFrom (h : span ∈ completeFrom position cs) :
    ∃ i n, span = ⟨position + i, position + i + n⟩ ∧ expressionLength? (cs.drop i) = some n := by
  fun_induction completeFrom position cs with
  | case1 => simp at h
  | case2 position c rest n hn ih =>
    rcases List.mem_cons.1 h with rfl | h
    · exact ⟨0, n, rfl, hn⟩
    · obtain ⟨i, m, rfl, hm⟩ := ih h
      have hpos := Nat.le_of_succ_le (expressionLength?_bounds hn).1
      obtain ⟨n, rfl⟩ := Nat.exists_eq_add_of_le' hpos
      refine ⟨n + 1 + i, m, by rw [Nat.add_assoc position], ?_⟩
      rw [← List.drop_drop]
      exact hm
  | case3 position c rest hn ih =>
    obtain ⟨i, m, rfl, hm⟩ := ih h
    exact ⟨i + 1, m, by rw [Nat.add_assoc position, Nat.add_comm 1], hm⟩

/-- **What is found is complete**, also when it is cut out. -/
theorem isExpression_slice {text : List Char} (h : span ∈ expressionSpans text) :
    IsExpression (span.slice text) := by
  rw [expressionSpans_eq] at h
  obtain ⟨i, n, rfl, hn⟩ := opens_of_mem_completeFrom h
  simp only [Span.slice, List.extract_eq_take_drop, Nat.zero_add, Nat.add_sub_cancel_left]
  exact isExpression_take hn

/-! ## Stretches of a text -/

/-- Reading starts anew at every place that lies in no expression. -/
theorem mem_completeFrom_drop {d : Nat} (h : span ∈ completeFrom position cs)
    (hcut : ∀ other ∈ completeFrom position cs,
      ¬(other.start < position + d ∧ position + d < other.stop))
    (hd : position + d ≤ span.start) : span ∈ completeFrom (position + d) (cs.drop d) := by
  fun_induction completeFrom position cs generalizing d with
  | case1 => simp at h
  | case2 position c rest n hn ih =>
    have hbounds := expressionLength?_bounds hn
    have hfirst := hcut _ List.mem_cons_self
    simp only at hfirst
    by_cases hzero : d = 0
    · subst hzero
      rw [Nat.add_zero, List.drop_zero, completeFrom, hn]
      exact h
    · -- The place is not inside of the first expression, so it is behind it.
      obtain ⟨e, rfl⟩ := Nat.exists_eq_add_of_le (show n ≤ d by omega)
      rcases List.mem_cons.1 h with rfl | h
      · simp only at hd
        omega
      · obtain ⟨n, rfl⟩ := Nat.exists_eq_add_of_le' (Nat.le_of_succ_le hbounds.1)
        have hplace : position + (n + 1 + e) = position + (n + 1) + e := (Nat.add_assoc ..).symm
        rw [hplace] at hd hcut ⊢
        rw [← List.drop_drop]
        exact ih h (fun other ho => hcut other (List.mem_cons_of_mem _ ho)) hd
  | case3 position c rest hn ih =>
    cases d with
    | zero =>
      rw [Nat.add_zero, List.drop_zero, completeFrom, hn]
      exact h
    | succ d =>
      rw [Nat.add_comm d, ← Nat.add_assoc] at hd hcut ⊢
      rw [Nat.add_comm 1 d]
      exact ih h hcut hd

/-- What stands behind the end of an expression does not count. -/
theorem mem_completeFrom_take {m : Nat} (h : span ∈ completeFrom position cs)
    (hm : span.stop ≤ position + m) : span ∈ completeFrom position (cs.take m) := by
  fun_induction completeFrom position cs generalizing m with
  | case1 => simp at h
  | case2 position c rest n hn ih =>
    have hbounds := expressionLength?_bounds hn
    have hle : n ≤ m := by
      rcases List.mem_cons.1 h with rfl | h
      · exact Nat.le_of_add_le_add_left hm
      · obtain ⟨i, k, rfl, -⟩ := opens_of_mem_completeFrom h
        simp only at hm
        omega
    have htake := expressionLength?_take hn hle
    obtain ⟨n, rfl⟩ := Nat.exists_eq_add_of_le' (Nat.le_of_succ_le hbounds.1)
    obtain ⟨e, rfl⟩ := Nat.exists_eq_add_of_le hle
    rw [Nat.add_right_comm, List.take_succ_cons] at htake ⊢
    rw [completeFrom, htake]
    rcases List.mem_cons.1 h with rfl | h
    · exact List.mem_cons_self
    · refine List.mem_cons_of_mem _ ?_
      have hrest := ih h (m := e) (by omega)
      rw [Nat.add_sub_cancel] at hrest ⊢
      rwa [List.drop_take, Nat.add_sub_cancel_left]
  | case3 position c rest hn ih =>
    obtain ⟨i, k, rfl, -⟩ := opens_of_mem_completeFrom h
    simp only at hm
    obtain ⟨m, rfl⟩ := Nat.exists_eq_add_of_le' (show 1 ≤ m by omega)
    have htake := expressionLength?_take_eq_none hn (m + 1)
    rw [List.take_succ_cons] at htake ⊢
    rw [completeFrom, htake]
    exact ih h (by simp only; omega)

/-- Positions only count along. -/
theorem completeFrom_add (d : Nat) :
    completeFrom (position + d) cs =
      (completeFrom position cs).map fun span => ⟨span.start + d, span.stop + d⟩ := by
  fun_induction completeFrom position cs with
  | case1 => rw [completeFrom]; rfl
  | case2 position c rest n hn ih =>
    rw [completeFrom, hn]
    simp only [List.map_cons, ← ih, Nat.add_right_comm]
  | case3 position c rest hn ih =>
    rw [completeFrom, hn]
    simp only [← ih, Nat.add_right_comm]

/-- **The expressions of a stretch**: an expression of the text that lies in it is
    one of the stretch, too, unless the stretch begins inside of another. -/
theorem mem_expressionSpans_slice {text : List Char} {stretch : Span}
    (h : span ∈ expressionSpans text) (hstart : stretch.start ≤ span.start)
    (hstop : span.stop ≤ stretch.stop)
    (hcut : ∀ other ∈ expressionSpans text,
      ¬(other.start < stretch.start ∧ stretch.start < other.stop)) :
    ⟨span.start - stretch.start, span.stop - stretch.start⟩ ∈
      expressionSpans (stretch.slice text) := by
  rw [expressionSpans_eq] at h hcut
  rw [expressionSpans_eq]
  have hdrop := mem_completeFrom_drop (d := stretch.start) h (by simpa using hcut)
    (by simpa using hstart)
  have htake := mem_completeFrom_take (m := stretch.stop - stretch.start) hdrop (by omega)
  rw [completeFrom_add] at htake
  obtain ⟨inner, hinner, hspan⟩ := List.mem_map.1 htake
  rw [Span.slice, List.extract_eq_take_drop]
  rw [← hspan]
  simpa using hinner

end Spans

end TemplateAnalysis.Expression
