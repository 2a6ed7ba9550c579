import Mathlib.Algebra.Group.Nat.Even
import TemplateAnalysis.Proofs.Expression.Standing

/-! # The sign of an assignment

    An assignment is told from a comparison by what stands next to its sign. The
    search steps over both characters of a comparison and reads on from there as
    if it were at the top level:

    * **`findAssignment_first`**: it ends at the first sign of an assignment, as long
      as no comparison stands right in front of a quote or an opening bracket. From
      the first that does, what is behind the quote or bracket is searched as a text
      of its own.

    The search keeps to the reading of the whole text from one comparison to the
    next (`SearchedTo.next`), and so a run of it does (`findAssignmentFrom_first`).
-/

namespace TemplateAnalysis.Expression

open Text

variable {text : List Char} {start i j d : Nat}

/-! ## Signs -/

/-- An equals sign behind one of these belongs to a comparison. -/
def comparisonSigns : List Char :=
  ['=', '!', '<', '>']

/-- None of them opens a literal or a bracket. -/
theorem not_opens_of_comparison {c : Char} (h : c ∈ comparisonSigns) :
    ¬(isQuote c = true ∨ isOpener c = true) := by
  have none : comparisonSigns.any (fun c => isQuote c || isOpener c) = false := by decide
  simpa using List.any_eq_false.1 none c h

/-- No equals sign stands behind the place, and no sign of a comparison in front
    of it. -/
structure StandsAlone (text : List Char) (i : Nat) : Prop where
  behind : text[i + 1]? ≠ some '='
  front : ∀ j c, j + 1 = i → text[j]? = some c → c ∉ comparisonSigns

/-- An equals sign outside of quotes and brackets that is no part of a comparison. -/
structure AssignmentSign (text : List Char) (i : Nat) : Prop where
  here : text[i]? = some '='
  top : standingAt text i = {}
  alone : StandsAlone text i

/-- The first of these signs. -/
structure FirstAssignment (text : List Char) (i : Nat) : Prop where
  sign : AssignmentSign text i
  first : ∀ j < i, ¬AssignmentSign text j

/-- How many equals signs stand in a row right in front of a position. -/
def equalsBefore (text : List Char) : Nat → Nat
  | 0 => 0
  | i + 1 => if text[i]? = some '=' then equalsBefore text i + 1 else 0

/-- The last sign of a comparison, right in front of a quote or an opening
    bracket. Of equals signs in a row every second one belongs to the one in front
    of it, and ends the comparison with it. -/
structure HidesOpening (text : List Char) (i : Nat) : Prop where
  here : text[i]? = some '='
  top : standingAt text i = {}
  comparison : ∃ j c, j + 1 = i ∧ text[j]? = some c ∧ c ∈ comparisonSigns
  unpaired : Even (equalsBefore text i)
  opening : ∃ c, text[i + 1]? = some c ∧ (isQuote c = true ∨ isOpener c = true)

theorem HidesOpening.not_assignment (h : HidesOpening text i) : ¬AssignmentSign text i := by
  intro hsign
  obtain ⟨j, c, hj, hc, hmem⟩ := h.comparison
  exact hsign.alone.front j c hj hc hmem

theorem FirstAssignment.unique (hi : FirstAssignment text i) (hj : FirstAssignment text j) :
    i = j := by
  rcases Nat.lt_trichotomy i j with hlt | heq | hlt
  · exact absurd hi.sign (hj.first i hlt)
  · exact heq
  · exact absurd hj.sign (hi.first j hlt)

/-- What the search tests. -/
theorem standsAlone_iff : StandsAlone text i ↔ text[i + 1]? ≠ some '=' ∧
    (if i = 0 then none else text[i - 1]?) ∉ ['=', '!', '<', '>'].map some := by
  have hfront : (∀ j c, j + 1 = i → text[j]? = some c → c ∉ comparisonSigns) ↔
      (if i = 0 then none else text[i - 1]?) ∉ ['=', '!', '<', '>'].map some := by
    cases i with
    | zero => simp
    | succ i =>
      rw [if_neg (Nat.succ_ne_zero i), Nat.add_sub_cancel, List.mem_map]
      constructor
      · rintro h ⟨c, hmem, hc⟩
        exact h i c rfl hc.symm hmem
      · intro h j c hj hc hmem
        obtain rfl := Nat.succ.inj hj
        exact h ⟨c, hmem, hc.symm⟩
  constructor
  · intro h
    exact ⟨h.behind, hfront.1 h.front⟩
  · intro ⟨hbehind, h⟩
    exact ⟨hbehind, hfront.2 h⟩

theorem findAssignmentFrom_of_none (h : findTopLevelIn ['='] text start text.length = none) :
    findAssignmentFrom text start = none := by
  rw [findAssignmentFrom]
  split
  · rfl
  · rename_i hsome
    rw [h] at hsome
    contradiction

theorem findAssignmentFrom_of_alone (h : findTopLevelIn ['='] text start text.length = some i)
    (halone : StandsAlone text i) : findAssignmentFrom text start = some i := by
  rw [findAssignmentFrom]
  split
  · rename_i hnone
    rw [h] at hnone
    contradiction
  · rename_i i' hsome
    rw [h] at hsome
    obtain rfl := Option.some.inj hsome
    exact if_pos (standsAlone_iff.1 halone)

theorem findAssignmentFrom_of_not_alone
    (h : findTopLevelIn ['='] text start text.length = some i) (halone : ¬StandsAlone text i) :
    findAssignmentFrom text start = findAssignmentFrom text (i + 2) := by
  rw [findAssignmentFrom]
  split
  · rename_i hnone
    rw [h] at hnone
    contradiction
  · rename_i i' hsome
    rw [h] at hsome
    obtain rfl := Option.some.inj hsome
    exact if_neg (mt standsAlone_iff.2 halone)

/-! ## One step of the search -/

/-- The search goes on from `start` as the reading from the beginning of the text
    does, and it has passed over no sign of an assignment. -/
structure SearchedTo (text : List Char) (start : Nat) : Prop where
  top : standingAt text start = {}
  paired : text[start]? = some '=' → Even (equalsBefore text start)
  passed : ∀ j < start, ¬AssignmentSign text j

theorem searchedTo_zero (text : List Char) : SearchedTo text 0 :=
  ⟨standingAt_zero text, fun _ => ⟨0, rfl⟩, by simp⟩

/-- An equals sign at the top level, the next one from `start` on. -/
structure NextSign (text : List Char) (start i : Nat) : Prop where
  le : start ≤ i
  here : text[i]? = some '='
  top : standingAt text i = {}
  first : ∀ j, start ≤ j → j < i → ¬(text[j]? = some '=' ∧ standingAt text j = {})

theorem SearchedTo.nextSign (h : SearchedTo text start)
    (hfound : findTopLevelIn ['='] text start text.length = some i) : NextSign text start i := by
  obtain ⟨hle, hat, hfirst⟩ :=
    (findTopLevelIn_eq_some_iff (List.cons_ne_nil '=' []) h.top).1 hfound
  obtain ⟨here, top⟩ := atTop_singleton.1 hat
  refine ⟨hle, here, top, ?_⟩
  intro j hj hlt hsign
  exact hfirst j hj hlt (atTop_singleton.2 hsign)

theorem SearchedTo.no_sign (h : SearchedTo text start)
    (hmissed : findTopLevelIn ['='] text start text.length = none) (hle : start ≤ i) :
    ¬(text[i]? = some '=' ∧ standingAt text i = {}) := by
  intro hsign
  exact (findTopLevelIn_eq_none_iff (List.cons_ne_nil '=' []) h.top).1 hmissed i hle
    (atTop_singleton.2 hsign)

theorem NextSign.not_alone (hnext : NextSign text start i) (h : ¬AssignmentSign text i) :
    ¬StandsAlone text i :=
  fun halone => h ⟨hnext.here, hnext.top, halone⟩

theorem SearchedTo.not_assignment (h : SearchedTo text start) (hnext : NextSign text start i) :
    ∀ j < i, ¬AssignmentSign text j := by
  intro j hj hsign
  by_cases hstart : j < start
  · exact h.passed j hstart hsign
  · exact hnext.first j (Nat.le_of_not_lt hstart) hj ⟨hsign.here, hsign.top⟩

/-- In front of what is found equals signs stand only in pairs. -/
theorem SearchedTo.even_equalsBefore (h : SearchedTo text start) (hnext : NextSign text start i) :
    Even (equalsBefore text i) := by
  rcases Nat.eq_or_lt_of_le hnext.le with rfl | hlt
  · exact h.paired hnext.here
  · obtain ⟨k, rfl⟩ := Nat.exists_eq_add_of_lt hlt
    rw [equalsBefore, if_neg]
    · exact ⟨0, rfl⟩
    · -- It would have been found before, as it does not lead to the top level.
      intro hequals
      refine hnext.first (start + k) (Nat.le_add_right start k) (Nat.lt_succ_self _) ⟨hequals, ?_⟩
      have htop := hnext.top
      rw [standingAt_succ hequals] at htop
      exact top_of_step (opened_standingAt text _) (by decide) htop

/-- An equals sign does not leave the top level. -/
theorem NextSign.top_behind (hnext : NextSign text start i) : standingAt text (i + 1) = {} := by
  rw [standingAt_succ hnext.here, hnext.top]
  decide

theorem SearchedTo.not_assignment_succ (h : SearchedTo text start)
    (hnext : NextSign text start i) (hrejected : ¬AssignmentSign text i) :
    ∀ j < i + 1, ¬AssignmentSign text j := by
  intro j hj
  rcases Nat.lt_succ_iff_lt_or_eq.1 hj with hlt | rfl
  · exact h.not_assignment hnext j hlt
  · exact hrejected

/-- A pair of equals signs: the second of them is no sign of an assignment either. -/
theorem SearchedTo.next_pair (h : SearchedTo text start) (hnext : NextSign text start i)
    (hrejected : ¬AssignmentSign text i) (hbehind : text[i + 1]? = some '=') :
    SearchedTo text (i + 2) := by
  refine ⟨?_, ?_, ?_⟩
  · rw [standingAt_succ hbehind, hnext.top_behind]
    decide
  · intro _
    rw [equalsBefore, if_pos hbehind, equalsBefore, if_pos hnext.here]
    exact (h.even_equalsBefore hnext).add (by decide : Even 2)
  · intro j hj
    rcases Nat.lt_succ_iff_lt_or_eq.1 hj with hlt | rfl
    · exact h.not_assignment_succ hnext hrejected j hlt
    · intro hsign
      exact hsign.alone.front i '=' rfl hnext.here (by decide)

/-- A sign without another behind it is rejected for what stands in front of it. -/
theorem NextSign.comparison (hnext : NextSign text start i) (hrejected : ¬AssignmentSign text i)
    (hbehind : text[i + 1]? ≠ some '=') :
    ∃ j c, j + 1 = i ∧ text[j]? = some c ∧ c ∈ comparisonSigns := by
  by_contra hnot
  refine hnext.not_alone hrejected ⟨hbehind, ?_⟩
  intro j c hj hc hmem
  exact hnot ⟨j, c, hj, hc, hmem⟩

/-- A comparison that ends here, when what is stepped over opens nothing. -/
theorem SearchedTo.next_behind (h : SearchedTo text start) (hnext : NextSign text start i)
    (hrejected : ¬AssignmentSign text i) (hopen : ¬HidesOpening text i)
    (hbehind : text[i + 1]? ≠ some '=') : SearchedTo text (i + 2) := by
  have htop := hnext.top_behind
  refine ⟨?_, ?_, ?_⟩
  · cases hc : text[i + 1]? with
    | none =>
      have hend : text.length ≤ i + 1 := List.getElem?_eq_none_iff.1 hc
      unfold standingAt at htop ⊢
      rwa [List.take_of_length_le (Nat.le_succ_of_le hend), ← List.take_of_length_le hend]
    | some c =>
      have hplain : ¬(isQuote c = true ∨ isOpener c = true) := by
        intro hopens
        exact hopen ⟨hnext.here, hnext.top, hnext.comparison hrejected hbehind,
          h.even_equalsBefore hnext, c, hc, hopens⟩
      rw [standingAt_succ hc, htop]
      exact step_top (by simpa using fun hquote => hplain (.inl hquote))
        (by simpa using fun hopener => hplain (.inr hopener))
  · intro _
    rw [equalsBefore, if_neg hbehind]
    exact ⟨0, rfl⟩
  · intro j hj
    rcases Nat.lt_succ_iff_lt_or_eq.1 hj with hlt | rfl
    · exact h.not_assignment_succ hnext hrejected j hlt
    · intro hsign
      exact hbehind hsign.here

/-- **One comparison**: behind it the search still keeps to the reading from the
    beginning, unless the comparison hides an opening. -/
theorem SearchedTo.next (h : SearchedTo text start) (hnext : NextSign text start i)
    (hrejected : ¬AssignmentSign text i) (hopen : ¬HidesOpening text i) :
    SearchedTo text (i + 2) := by
  by_cases hbehind : text[i + 1]? = some '='
  · exact h.next_pair hnext hrejected hbehind
  · exact h.next_behind hnext hrejected hopen hbehind

/-! ## A run of the search -/

/-- The search does not go back. -/
theorem le_of_findAssignmentFrom (h : findAssignmentFrom text start = some i) : start ≤ i := by
  fun_induction findAssignmentFrom text start with
  | case1 => contradiction
  | case2 start j hj before hsign =>
    obtain rfl := Option.some.inj h
    exact (findTopLevelIn_bounds hj).1
  | case3 start j hj before hsign ih =>
    have := (findTopLevelIn_bounds hj).1
    have := ih h
    omega

/-- **A run of the search** ends at the first sign, up to the first opening that a
    comparison hides. -/
theorem findAssignmentFrom_first (h : SearchedTo text start)
    (hopen : ∀ j < i, ¬HidesOpening text j) :
    findAssignmentFrom text start = some i ↔ FirstAssignment text i := by
  fun_induction findAssignmentFrom text start with
  | case1 start hmissed =>
    refine iff_of_false (by simp) fun hfirst => ?_
    by_cases hlt : i < start
    · exact h.passed i hlt hfirst.sign
    · exact h.no_sign hmissed (Nat.le_of_not_lt hlt) ⟨hfirst.sign.here, hfirst.sign.top⟩
  | case2 start j hj before hsign =>
    have hnext := h.nextSign hj
    have hfirst : FirstAssignment text j :=
      ⟨⟨hnext.here, hnext.top, standsAlone_iff.2 hsign⟩, h.not_assignment hnext⟩
    rw [Option.some.injEq]
    constructor
    · rintro rfl
      exact hfirst
    · exact hfirst.unique
  | case3 start j hj before hsign ih =>
    have hnext := h.nextSign hj
    have hrejected : ¬AssignmentSign text j := fun hassign =>
      hsign (standsAlone_iff.1 hassign.alone)
    by_cases hhides : HidesOpening text j
    · -- Nothing is asked of the places behind the opening.
      have hle : i ≤ j := by
        by_contra hlt
        exact hopen j (Nat.lt_of_not_le hlt) hhides
      refine iff_of_false (fun hfound => ?_) fun hfirst => ?_
      · have := le_of_findAssignmentFrom hfound
        omega
      · rcases Nat.eq_or_lt_of_le hle with rfl | hlt
        · exact hrejected hfirst.sign
        · exact h.not_assignment hnext i hlt hfirst.sign
    · exact ih (h.next hnext hrejected hhides)

/-- When it meets no sign before the first hidden opening, it steps over that one. -/
theorem findAssignmentFrom_hidden (h : SearchedTo text start) (hstart : start ≤ j)
    (hhides : HidesOpening text j) (hopen : ∀ k < j, ¬HidesOpening text k)
    (hnone : ∀ k < j, ¬AssignmentSign text k) :
    findAssignmentFrom text start = findAssignmentFrom text (j + 2) := by
  fun_induction findAssignmentFrom text start with
  | case1 start hmissed => exact absurd ⟨hhides.here, hhides.top⟩ (h.no_sign hmissed hstart)
  | case2 start i hi before hsign =>
    have hnext := h.nextSign hi
    have hassign : AssignmentSign text i := ⟨hnext.here, hnext.top, standsAlone_iff.2 hsign⟩
    rcases Nat.lt_trichotomy i j with hlt | rfl | hlt
    · exact absurd hassign (hnone i hlt)
    · exact absurd hassign hhides.not_assignment
    · exact absurd ⟨hhides.here, hhides.top⟩ (hnext.first j hstart hlt)
  | case3 start i hi before hsign ih =>
    have hnext := h.nextSign hi
    rcases Nat.lt_trichotomy i j with hlt | rfl | hlt
    · refine ih (h.next hnext (hnone i hlt) (hopen i hlt)) ?_
      -- The sign right behind one that is found is the second of a pair.
      by_contra hnot
      obtain rfl : j = i + 1 := by omega
      have heven := hhides.unpaired
      rw [equalsBefore, if_pos hnext.here, Nat.even_add_one] at heven
      exact heven (h.even_equalsBefore hnext)
    · rfl
    · exact absurd ⟨hhides.here, hhides.top⟩ (hnext.first j hstart hlt)

/-! ## The text behind a place -/

theorem findTopLevelIn_drop (token text : List Char) (start d : Nat) :
    findTopLevelIn token text (start + d) text.length =
      (findTopLevelIn token (text.drop d) start (text.drop d).length).map (· + d) := by
  unfold findTopLevelIn
  rw [Option.map_map, List.drop_drop, List.length_drop, Nat.add_comm start, Nat.sub_add_eq]
  congr 1
  funext k
  show k + (d + start) = k + start + d
  omega

/-- Behind what ends no comparison, what stands next to a sign is the same for the
    text from there on. -/
theorem standsAlone_drop (hfront : ∀ j c, j + 1 = d → text[j]? = some c → c ∉ comparisonSigns) :
    StandsAlone (text.drop d) i ↔ StandsAlone text (i + d) := by
  have hget : ∀ k, (text.drop d)[k]? = text[k + d]? := by
    intro k
    rw [List.getElem?_drop, Nat.add_comm]
  constructor
  · intro h
    refine ⟨?_, ?_⟩
    · rw [show i + d + 1 = i + 1 + d by omega, ← hget]
      exact h.behind
    · intro j c hj hc
      by_cases hd : j < d
      · exact hfront j c (by omega) hc
      · obtain ⟨k, rfl⟩ := Nat.exists_eq_add_of_le' (Nat.le_of_not_lt hd)
        exact h.front k c (by omega) ((hget k).trans hc)
  · intro h
    refine ⟨?_, ?_⟩
    · rw [hget, show i + 1 + d = i + d + 1 by omega]
      exact h.behind
    · intro j c hj hc
      exact h.front (j + d) c (by omega) ((hget j).symm.trans hc)

/-- A search that begins behind what ends no comparison sees only the text from
    there on. -/
theorem findAssignmentFrom_drop
    (hfront : ∀ j c, j + 1 = d → text[j]? = some c → c ∉ comparisonSigns) (start : Nat) :
    findAssignmentFrom text (start + d) =
      (findAssignmentFrom (text.drop d) start).map (· + d) := by
  fun_induction findAssignmentFrom (text.drop d) start with
  | case1 start hnone =>
    refine findAssignmentFrom_of_none ?_
    rw [findTopLevelIn_drop, hnone]
    rfl
  | case2 start i hi before hsign =>
    refine findAssignmentFrom_of_alone ?_ ((standsAlone_drop hfront).1 (standsAlone_iff.2 hsign))
    rw [findTopLevelIn_drop, hi]
    rfl
  | case3 start i hi before hsign ih =>
    have hcompared : ¬StandsAlone text (i + d) := fun halone =>
      hsign (standsAlone_iff.1 ((standsAlone_drop hfront).2 halone))
    have hfound : findTopLevelIn ['='] text (start + d) text.length = some (i + d) := by
      rw [findTopLevelIn_drop, hi]
      rfl
    rw [findAssignmentFrom_of_not_alone hfound hcompared, ← ih]
    congr 1
    omega

/-! ## The sign that is found -/

/-- **The sign of an assignment**: up to the first opening that a comparison hides,
    the search finds the first sign of an assignment outside of quotes and brackets;
    without such an opening it finds none when there is none; and when no sign stands
    before the first such opening, what is found is found in the text behind it. -/
theorem findAssignment_first (text : List Char) :
    (∀ i, (∀ j < i, ¬HidesOpening text j) →
      (findAssignment text = some i ↔ FirstAssignment text i)) ∧
    ((∀ j, ¬HidesOpening text j) →
      (findAssignment text = none ↔ ∀ i, ¬AssignmentSign text i)) ∧
    ∀ j, HidesOpening text j → (∀ k < j, ¬HidesOpening text k) →
      (∀ k < j, ¬AssignmentSign text k) →
      findAssignment text = (findAssignment (text.drop (j + 2))).map (· + (j + 2)) := by
  have hrun : ∀ i, (∀ j < i, ¬HidesOpening text j) →
      (findAssignment text = some i ↔ FirstAssignment text i) :=
    fun i hopen => findAssignmentFrom_first (searchedTo_zero text) hopen
  refine ⟨hrun, ?_, ?_⟩
  · intro hopen
    constructor
    · classical
      intro hnone i hi
      have hexists : ∃ i, AssignmentSign text i := ⟨i, hi⟩
      have hfirst : FirstAssignment text (Nat.find hexists) :=
        ⟨Nat.find_spec hexists, fun j hj => Nat.find_min hexists hj⟩
      rw [(hrun _ fun j _ => hopen j).2 hfirst] at hnone
      contradiction
    · intro hnone
      cases hfound : findAssignment text with
      | none => rfl
      | some i => exact absurd ((hrun i fun j _ => hopen j).1 hfound).sign (hnone i)
  · intro j hhides hopen hnone
    have hbehind : ∀ k c, k + 1 = j + 2 → text[k]? = some c → c ∉ comparisonSigns := by
      intro k c hk hc
      obtain rfl : k = j + 1 := Nat.succ.inj hk
      obtain ⟨opening, hopening, hopens⟩ := hhides.opening
      obtain rfl := Option.some.inj (hc.symm.trans hopening)
      intro hmem
      exact not_opens_of_comparison hmem hopens
    have hdrop := findAssignmentFrom_drop hbehind 0
    rw [Nat.zero_add] at hdrop
    exact (findAssignmentFrom_hidden (searchedTo_zero text) (Nat.zero_le j) hhides hopen
      hnone).trans hdrop

/-- A comparison with a literal that holds an equals sign. -/
def comparedSample : List Char :=
  "x<='a=b'".toList

/-- The quote is stepped over, and the sign that is found stands in the literal. -/
theorem findAssignment_comparedSample :
    HidesOpening comparedSample 2 ∧ ¬AssignmentSign comparedSample 5 ∧
      findAssignment comparedSample = some 5 := by
  have hhides : HidesOpening comparedSample 2 :=
    ⟨by decide, by decide, ⟨1, '<', by decide⟩, by decide, ⟨'\'', by decide⟩⟩
  have hnone : ∀ j < 2, comparedSample[j]? ≠ some '=' := by decide
  have hbehind : findAssignment (comparedSample.drop 4) = some 1 := by
    have hfirst : ∀ j < 1, (comparedSample.drop 4)[j]? ≠ some '=' := by decide
    refine ((findAssignment_first (comparedSample.drop 4)).1 1 ?_).2
      ⟨⟨by decide, by decide, ?_⟩, ?_⟩
    · exact fun j hj h => hfirst j hj h.here
    · exact standsAlone_iff.2 (by decide)
    · exact fun j hj h => hfirst j hj h.here
  refine ⟨hhides, fun h => absurd h.top (by decide), ?_⟩
  rw [(findAssignment_first comparedSample).2.2 2 hhides (fun k hk h => hnone k hk h.here)
    fun k hk h => hnone k hk h.here, hbehind]
  rfl

end TemplateAnalysis.Expression
