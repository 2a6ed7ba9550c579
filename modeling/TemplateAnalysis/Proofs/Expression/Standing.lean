import Mathlib.Data.Nat.Find
import TemplateAnalysis.Proofs.Expression.Nested
import TemplateAnalysis.Proofs.Text.Search

/-! # Where a reading stands

    A search at the top level reads a text from some place on. What it finds can
    be told from where the reading of the whole text stands, as long as the search
    begins outside of quotes and brackets:

    * **`topLevelOffset_eq_some_iff`**: a search ends at the first place at which
      its reading is at the top level and the token stands;
    * **`findTopLevelIn_eq_some_iff`**: begun at the top level, it sees the text as
      the reading from the beginning does.
-/

namespace TemplateAnalysis.Expression

open Text

variable {token text cs : List Char} {s : Nesting} {start stop i k window : Nat} {c : Char}

/-! ## Readings -/

/-- Where a reading stands behind a text, with respect to literals. -/
def Quoting.behind (quoting : Quoting) (cs : List Char) : Quoting :=
  cs.foldl Quoting.step quoting

/-- Where a reading stands behind a text. -/
def Nesting.behind (s : Nesting) (cs : List Char) : Nesting :=
  cs.foldl Nesting.step s

theorem Quoting.behind_cons (quoting : Quoting) (c : Char) (cs : List Char) :
    quoting.behind (c :: cs) = (quoting.step c).behind cs :=
  rfl

theorem Quoting.behind_append (quoting : Quoting) (cs ds : List Char) :
    quoting.behind (cs ++ ds) = (quoting.behind cs).behind ds :=
  List.foldl_append

theorem Nesting.behind_cons (s : Nesting) (c : Char) (cs : List Char) :
    s.behind (c :: cs) = (s.step c).behind cs :=
  rfl

theorem Nesting.behind_append (s : Nesting) (cs ds : List Char) :
    s.behind (cs ++ ds) = (s.behind cs).behind ds :=
  List.foldl_append

/-- The literal in which a reading stands was opened by a quote. -/
def Quoting.Opened : Quoting → Prop
  | .outside => True
  | .inside quote | .covered quote => isQuote quote = true

theorem Quoting.Opened.step {quoting : Quoting} (h : quoting.Opened) (c : Char) :
    (quoting.step c).Opened := by
  cases quoting with
  | outside =>
    cases hc : isQuote c with
    | true => simp [Quoting.step, Quoting.Opened, hc]
    | false => simp [Quoting.step, Quoting.Opened, hc]
  | inside quote =>
    unfold Quoting.step
    split
    · trivial
    · rename_i heq
      obtain rfl := Quoting.inside.inj heq
      split
      · exact h
      · split
        · trivial
        · exact h
    · contradiction
  | covered quote => exact h

theorem Nesting.opened_behind (h : s.quoting.Opened) (cs : List Char) :
    (s.behind cs).quoting.Opened := by
  induction cs generalizing s with
  | nil => exact h
  | cons c rest ih => exact ih (h.step c)

/-! ## The top level -/

/-- The top level is where every reading begins. -/
theorem isTop_iff : s.isTop = true ↔ s = {} := by
  obtain ⟨quoting, depth⟩ := s
  simp [Nesting.isTop]

/-- What neither a quote nor an opening bracket does not leave the top level: a
    closing bracket closes nothing there. -/
theorem step_top (hquote : isQuote c = false) (hopener : isOpener c = false) :
    Nesting.step {} c = {} := by
  simp [Nesting.step, Quoting.step, hquote, hopener]

theorem outside_of_step {quoting : Quoting} (hquoting : quoting.Opened) (hquote : isQuote c = false)
    (h : quoting.step c = .outside) : quoting = .outside := by
  cases quoting with
  | outside => rfl
  | inside quote =>
    have hne : c ≠ quote := by
      intro heq
      rw [heq, hquoting] at hquote
      contradiction
    by_cases hescape : c = '\\'
    · simp [Quoting.step, hescape] at h
    · simp [Quoting.step, hescape, hne] at h
  | covered quote => contradiction

/-- Only quotes and brackets lead to the top level. -/
theorem top_of_step (hs : s.quoting.Opened) (hbare : isBare c = true) (h : s.step c = {}) :
    s = {} := by
  obtain ⟨hquote, hopener, hcloser⟩ := isBare_iff.1 hbare
  obtain ⟨quoting, depth⟩ := s
  have hquoting : quoting.step c = .outside := congrArg Nesting.quoting h
  obtain rfl := outside_of_step hs hquote hquoting
  have hdepth := congrArg Nesting.depth h
  simpa [Nesting.step, hopener, hcloser] using hdepth

/-! ## Positions -/

/-- Where the reading from the beginning of a text stands in front of the
    character at `position`. -/
def standingAt (text : List Char) (position : Nat) : Nesting :=
  Nesting.behind {} (text.take position)

theorem standingAt_zero (text : List Char) : standingAt text 0 = {} :=
  rfl

theorem standingAt_add (text : List Char) (start k : Nat) :
    standingAt text (start + k) = (standingAt text start).behind ((text.drop start).take k) := by
  unfold standingAt
  rw [← Nesting.behind_append, ← List.take_add]

theorem standingAt_succ (h : text[i]? = some c) :
    standingAt text (i + 1) = (standingAt text i).step c := by
  unfold standingAt
  rw [List.take_add_one, h, Nesting.behind_append]
  rfl

theorem opened_standingAt (text : List Char) (i : Nat) : (standingAt text i).quoting.Opened :=
  @Nesting.opened_behind {} trivial _

/-! ## First places -/

/-- The first place behind one that is passed over. -/
theorem first_succ_iff {p : Nat → Prop} (hzero : ¬p 0) :
    (p (k + 1) ∧ ∀ j < k + 1, ¬p j) ↔ p (k + 1) ∧ ∀ j < k, ¬p (j + 1) := by
  refine and_congr_right fun _ => ?_
  constructor
  · intro hfirst j hj
    exact hfirst (j + 1) (Nat.succ_lt_succ hj)
  · intro hfirst j hj
    cases j with
    | zero => exact hzero
    | succ j => exact hfirst j (Nat.lt_of_succ_lt_succ hj)

/-- Where the first place is found when there is one, nothing is found only when
    there is none. -/
theorem eq_none_iff_of_first {found : Option Nat} {p : Nat → Prop}
    (hfound : ∀ k, found = some k ↔ p k ∧ ∀ j < k, ¬p j) : found = none ↔ ∀ k, ¬p k := by
  classical
  constructor
  · intro hnone k hk
    have hexists : ∃ k, p k := ⟨k, hk⟩
    have hfirst := (hfound _).2 ⟨Nat.find_spec hexists, fun j hj => Nat.find_min hexists hj⟩
    rw [hnone] at hfirst
    contradiction
  · intro hnone
    cases found with
    | none => rfl
    | some k => exact absurd ((hfound k).1 rfl).1 (hnone k)

/-! ## Searches -/

/-- A search that stands at `s` in front of the text `cs` may end behind `k`
    characters: it is at the top level there, and the token stands there and ends
    in the window. -/
structure EndsSearch (token : List Char) (s : Nesting) (window : Nat) (cs : List Char)
    (k : Nat) : Prop where
  top : s.behind (cs.take k) = {}
  here : token <+: cs.drop k
  room : k + token.length ≤ window

/-- The search for one more character further on. -/
theorem endsSearch_succ : EndsSearch token s (window + 1) (c :: cs) (k + 1) ↔
    EndsSearch token (s.step c) window cs k := by
  constructor
  · intro h
    exact ⟨h.top, h.here, by have := h.room; omega⟩
  · intro h
    exact ⟨h.top, h.here, by have := h.room; omega⟩

/-- **A search ends at the first place at which it may.** -/
theorem topLevelOffset_eq_some_iff (hne : token ≠ []) :
    topLevelOffset token s window cs = some k ↔
      EndsSearch token s window cs k ∧ ∀ j < k, ¬EndsSearch token s window cs j := by
  have hlength := List.length_pos_iff.2 hne
  induction cs generalizing s window k with
  | nil =>
    have hnone : topLevelOffset token s window [] = none := by cases window <;> rfl
    rw [hnone]
    refine iff_of_false (by simp) fun h => hne ?_
    simpa using h.1.here
  | cons c rest ih =>
    cases window with
    | zero =>
      refine iff_of_false (by simp [topLevelOffset]) fun h => ?_
      have := h.1.room
      omega
    | succ window =>
      have hhere : EndsSearch token s (window + 1) (c :: rest) 0 ↔
          (s.isTop && token.isPrefixOf (c :: rest) && token.length ≤ window + 1) = true := by
        simp only [Bool.and_eq_true, isTop_iff, List.isPrefixOf_iff_prefix, decide_eq_true_eq]
        constructor
        · intro h
          exact ⟨⟨h.top, h.here⟩, by have := h.room; omega⟩
        · intro h
          exact ⟨h.1.1, h.1.2, by have := h.2; omega⟩
      rw [topLevelOffset]
      by_cases hend : EndsSearch token s (window + 1) (c :: rest) 0
      · rw [if_pos (hhere.1 hend)]
        cases k with
        | zero => simp [hend]
        | succ k => exact iff_of_false (by simp) fun h => h.2 0 (Nat.succ_pos k) hend
      · rw [if_neg (mt hhere.2 hend)]
        cases k with
        | zero => exact iff_of_false (by simp) fun h => hend h.1
        | succ k =>
          rw [first_succ_iff hend]
          simp only [endsSearch_succ, ← ih]
          simp

/-- The token stands at the position, outside of quotes and brackets, and it ends
    before `stop`. -/
structure AtTop (token text : List Char) (stop position : Nat) : Prop where
  top : standingAt text position = {}
  here : occursAt token text position = true
  room : position + token.length ≤ stop

theorem atTop_iff_endsSearch (hne : token ≠ []) (htop : standingAt text start = {}) :
    AtTop token text stop (start + k) ↔
      EndsSearch token {} (stop - start) (text.drop start) k := by
  have hlength := List.length_pos_iff.2 hne
  have hstanding : standingAt text (start + k) = Nesting.behind {} ((text.drop start).take k) := by
    rw [standingAt_add, htop]
  have hstands : occursAt token text (start + k) = true ↔ token <+: (text.drop start).drop k := by
    rw [occursAt, List.isPrefixOf_iff_prefix, List.drop_drop]
  constructor
  · intro h
    exact ⟨hstanding ▸ h.top, hstands.1 h.here, by have := h.room; omega⟩
  · intro h
    exact ⟨hstanding.trans h.top, hstands.2 h.here, by have := h.room; omega⟩

/-- **Begun at the top level, a search sees the text as the reading from the
    beginning does.** -/
theorem findTopLevelIn_eq_some_iff (hne : token ≠ []) (htop : standingAt text start = {}) :
    findTopLevelIn token text start stop = some i ↔
      start ≤ i ∧ AtTop token text stop i ∧ ∀ j, start ≤ j → j < i → ¬AtTop token text stop j := by
  constructor
  · intro h
    obtain ⟨k, hk, rfl⟩ := Option.map_eq_some_iff.1 h
    obtain ⟨hend, hfirst⟩ := (topLevelOffset_eq_some_iff hne).1 hk
    rw [Nat.add_comm k]
    refine ⟨Nat.le_add_right start k, (atTop_iff_endsSearch hne htop).2 hend, ?_⟩
    intro j hj hlt
    obtain ⟨j, rfl⟩ := Nat.exists_eq_add_of_le hj
    exact mt (atTop_iff_endsSearch hne htop).1 (hfirst j (by omega))
  · intro ⟨hstart, hhere, hfirst⟩
    obtain ⟨k, rfl⟩ := Nat.exists_eq_add_of_le hstart
    have hk : topLevelOffset token {} (stop - start) (text.drop start) = some k := by
      refine (topLevelOffset_eq_some_iff hne).2 ⟨(atTop_iff_endsSearch hne htop).1 hhere, ?_⟩
      intro j hj
      exact mt (atTop_iff_endsSearch hne htop).2 (hfirst (start + j) (by omega) (by omega))
    rw [findTopLevelIn, hk, Option.map_some, Nat.add_comm]

theorem findTopLevelIn_eq_none_iff (hne : token ≠ []) (htop : standingAt text start = {}) :
    findTopLevelIn token text start stop = none ↔
      ∀ i, start ≤ i → ¬AtTop token text stop i := by
  have hfirst : ∀ i, findTopLevelIn token text start stop = some i ↔
      (start ≤ i ∧ AtTop token text stop i) ∧
        ∀ j < i, ¬(start ≤ j ∧ AtTop token text stop j) := by
    intro i
    rw [findTopLevelIn_eq_some_iff hne htop, and_assoc]
    simp only [not_and]
    exact and_congr_right fun _ => and_congr_right fun _ => forall_congr' fun _ => forall_comm
  rw [eq_none_iff_of_first hfirst]
  simp only [not_and]

/-- A character of the text, at the top level. -/
theorem atTop_singleton : AtTop [c] text text.length i ↔
    text[i]? = some c ∧ standingAt text i = {} := by
  constructor
  · intro h
    exact ⟨(occursAt_cons.1 h.here).1, h.top⟩
  · intro ⟨hc, htop⟩
    obtain ⟨hlt, -⟩ := List.getElem?_eq_some_iff.1 hc
    exact ⟨htop, occursAt_cons.2 ⟨hc, occursAt_nil text (i + 1)⟩, hlt⟩

end TemplateAnalysis.Expression
