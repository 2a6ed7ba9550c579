import Mathlib.Data.Bool.AllAny
import TemplateAnalysis.Proofs.Reference.Region

/-! # The order of references

    What a text refers to is reported place by place, whether the text is
    well-formed or not:

    * **`references_inText`**: every reference is the stretch of the text that
      its place says, not empty and without blanks at its ends; the places come
      one behind the other; and no path is reported twice.

    The places can only be in strict order if no two candidates share one. Those
    of one kind do not even touch (**`ReferredPath.Before`**). An expression outside
    of all attribute values may enclose attributes, but then its own reference starts
    in front of the first of them: whatever falls away before a path, no attribute
    starts in it.
-/

namespace TemplateAnalysis.Reference

open Text Expression Markup

variable {text : List Char} {region : Span} {reference : ReferredPath}

/-! ## References one behind the other -/

/-- One reference ends before the other starts, with something in between. -/
def ReferredPath.Before (a b : ReferredPath) : Prop :=
  a.stop < b.start

theorem ReferredPath.Before.start_lt {a b : ReferredPath} (h : a.Before b) : a.start < b.start :=
  Nat.lt_of_le_of_lt (Nat.le_add_right _ _) h

/-- The references of regions that lie one behind the other. -/
theorem pairwise_flatMap_regions (text : List Char) {regions : List Span}
    {make : Span → List ReferredPath}
    (hmake : ∀ region ∈ regions, ∀ reference ∈ make region, reference.InRegion text region)
    (heach : ∀ region ∈ regions, (make region).Pairwise ReferredPath.Before)
    (horder : regions.Pairwise fun a b => a.stop < b.start) :
    (regions.flatMap make).Pairwise ReferredPath.Before := by
  refine List.pairwise_flatMap.2 ⟨heach, horder.imp_of_mem fun {a b} ha hb hlt x hx y hy => ?_⟩
  have hstop := (hmake a ha x hx).stop_le
  have hstart := (hmake b hb y hy).start_le
  exact Nat.lt_of_le_of_lt hstop (Nat.lt_of_lt_of_le hlt hstart)

/-! ## References of a value -/

theorem branchColon?_bounds {position stop colon : Nat}
    (h : branchColon? text position stop = some colon) : position ≤ colon ∧ colon < stop := by
  fun_induction branchColon? text position stop with
  | case1 => contradiction
  | case2 position colon' hfind _ ih =>
    have := ih h
    have := findTopLevelIn_bounds hfind
    omega
  | case3 position colon' hfind _ =>
    obtain rfl := Option.some.inj h
    exact findTopLevelIn_bounds hfind

/-- The branches of a region lie in it, one behind the other. -/
theorem branches?_bounds {branches : List Span} (h : branches? text region = some branches) :
    (∀ branch ∈ branches, region.start ≤ branch.start ∧ branch.stop ≤ region.stop) ∧
      branches.Pairwise fun a b => a.stop < b.start := by
  obtain ⟨question, hquestion, rfl⟩ := Option.map_eq_some_iff.1 h
  have hq := findTopLevelIn_bounds hquestion
  split
  · simp only [List.mem_singleton, forall_eq, List.pairwise_singleton, and_true, Nat.le_refl]
    omega
  · split
    · simp only [List.mem_singleton, forall_eq, List.pairwise_singleton, and_true, Nat.le_refl]
      omega
    · rename_i colon hcolon
      have hc := branchColon?_bounds hcolon
      refine ⟨fun branch hb => ?_, List.pairwise_pair.2 (Nat.lt_succ_self _)⟩
      simp only [List.mem_cons, List.not_mem_nil, or_false] at hb
      rcases hb with rfl | rfl
      · exact ⟨by simp only; omega, Nat.le_of_lt hc.2⟩
      · exact ⟨by simp only; omega, Nat.le_refl _⟩

theorem inRegion_of_mem_branchReferences (hstop : region.stop ≤ text.length)
    (h : reference ∈ branchReferences text region) : reference.InRegion text region := by
  have inside : Inside plainTokens text _ region := inside_trimRegion text region
  have hle := inside.stop_le
  unfold branchReferences at h
  dsimp only at h
  split at h
  · simp at h
  · split at h
    · refine (opens_of_mem_referenceIn ?_ h).toInRegion.mono
        (Nat.le_trans inside.start_le (Nat.le_succ _)) (Nat.le_trans (Nat.sub_le _ _) hle)
      exact Nat.le_trans (Nat.sub_le _ _) (Nat.le_trans hle hstop)
    · split at h
      · refine (opens_of_mem_fragmentReferences ?_ h).toInRegion.mono
          (Nat.le_trans inside.start_le (Nat.le_add_right _ _)) (Nat.le_trans (Nat.sub_le _ _) hle)
        exact Nat.le_trans (Nat.sub_le _ _) (Nat.le_trans hle hstop)
      · simp at h

theorem inRegion_of_mem_valueReferences (hstop : region.stop ≤ text.length)
    (h : reference ∈ valueReferences text region) : reference.InRegion text region := by
  have inside := inside_stripBars text region
  have hle := inside.stop_le
  unfold valueReferences at h
  dsimp only at h
  split at h
  · simp at h
  · split at h
    · rename_i branches hbranches
      obtain ⟨branch, hb, h⟩ := List.mem_flatMap.1 h
      have hbounds := (branches?_bounds hbranches).1 branch hb
      exact (inRegion_of_mem_branchReferences (by omega) h).mono
        (Nat.le_trans inside.start_le hbounds.1) (Nat.le_trans hbounds.2 hle)
    · split at h
      · refine (opens_of_mem_fragmentReferences ?_ h).toInRegion.mono
          (Nat.le_trans inside.start_le (Nat.le_add_right _ _)) (Nat.le_trans (Nat.sub_le _ _) hle)
        exact Nat.le_trans (Nat.sub_le _ _) (Nat.le_trans hle hstop)
      · exact (opens_of_mem_referenceIn (Nat.le_trans hle hstop) h).toInRegion.mono
          inside.start_le hle

/-- A reference takes up room. -/
theorem ReferredPath.InRegion.start_lt (h : reference.InRegion text region) :
    reference.start < reference.stop :=
  Nat.lt_add_of_pos_right (List.length_pos_iff.2 h.ne_nil)

theorem pairwise_branchReferences (R : ReferredPath → ReferredPath → Prop) (text : List Char)
    (region : Span) : (branchReferences text region).Pairwise R := by
  unfold branchReferences
  dsimp only
  split
  · exact List.Pairwise.nil
  · split
    · exact pairwise_referenceIn R text _
    · split
      · exact pairwise_referenceIn R text _
      · exact List.Pairwise.nil

theorem pairwise_valueReferences (hstop : region.stop ≤ text.length) :
    (valueReferences text region).Pairwise ReferredPath.Before := by
  have hle := (inside_stripBars text region).stop_le
  unfold valueReferences
  dsimp only
  split
  · exact List.Pairwise.nil
  · split
    · rename_i branches hbranches
      obtain ⟨hbounds, horder⟩ := branches?_bounds hbranches
      refine pairwise_flatMap_regions text (fun branch hb _ h => ?_)
        (fun branch _ => pairwise_branchReferences _ text branch) horder
      have := (hbounds branch hb).2
      exact inRegion_of_mem_branchReferences (by omega) h
    · split
      · exact pairwise_referenceIn _ text _
      · exact pairwise_referenceIn _ text _

/-! ## References of expressions -/

/-- Does an expression that refers to something start at the position? -/
def opensReference (text : List Char) (position : Nat) : Bool :=
  charAt text position (fun c => c == '~' || c == '@') && charAt text (position + 1) (· == '{')

/-- Does one of the spans hold the position? -/
def isCovered (covered : List Span) (position : Nat) : Bool :=
  covered.any fun span => span.start ≤ position && position < span.stop

/-- A reference of an expression that starts at a position outside of the spans. -/
structure ReferredPath.OfExpression (text : List Char) (covered : List Span) (opening : Nat)
    (reference : ReferredPath) : Prop where
  opens : opensReference text opening = true
  uncovered : isCovered covered opening = false
  inBody : ∃ stop ≤ text.length, reference.Opens text ⟨opening + 2, stop⟩

/-- No attribute starts between the start of the expression and its reference. -/
theorem ReferredPath.OfExpression.idle {covered : List Span} {opening : Nat}
    (h : reference.OfExpression text covered opening) {i : Nat} (hs : opening ≤ i)
    (hi : i < reference.start) : Idle text i := by
  obtain ⟨hsigil, hbrace⟩ := Bool.and_eq_true _ _ ▸ h.opens
  obtain ⟨stop, -, hbody⟩ := h.inBody
  rcases Nat.lt_or_ge i (opening + 2) with hlt | hge
  · rcases (by omega : i = opening ∨ i = opening + 1) with rfl | rfl
    · refine .inl (charAt_eq_false_of hsigil fun c hc => ?_)
      rcases Bool.or_eq_true _ _ ▸ hc with hc | hc
      · obtain rfl : c = '~' := by simpa using hc
        decide
      · obtain rfl : c = '@' := by simpa using hc
        decide
    · refine .inl (charAt_eq_false_of hbrace fun c hc => ?_)
      obtain rfl : c = '{' := by simpa using hc
      decide
  · exact hbody.idle i hge hi

section Expressions

variable {covered : List Span} {position k : Nat} {c d : Char} {cs rest : List Char}

theorem opensReference_of_drop (hcs : text.drop position = c :: d :: rest)
    (hopen : ((c == '~' || c == '@') && d == '{') = true) :
    opensReference text position = true := by
  have here : ∀ j, text[position + j]? = (c :: d :: rest)[j]? := fun j => by
    rw [← hcs, List.getElem?_drop]
  have first := here 0
  have second := here 1
  simp only [Nat.add_zero, List.getElem?_cons_zero, List.getElem?_cons_succ] at first second
  simpa [opensReference, charAt, first, second] using hopen

/-- The references of one expression lie in its braces. -/
theorem opens_of_mem_body (hcs : text.drop position = c :: d :: rest)
    (hclose : closingOffset '{' '}' .outside 0 (d :: rest) = some k)
    (h : reference ∈ if c == '~' then fragmentReferences text ⟨position + 2, position + 1 + k⟩
      else linkReferences text ⟨position + 2, position + 1 + k⟩) :
    position + 1 + k ≤ text.length ∧ reference.Opens text ⟨position + 2, position + 1 + k⟩ := by
  have hlen : position + 1 + k ≤ text.length := by
    have hk := closingOffset_lt hclose
    have := congrArg List.length hcs
    simp only [List.length_drop, List.length_cons] at this hk
    omega
  refine ⟨hlen, ?_⟩
  split at h
  · exact opens_of_mem_fragmentReferences hlen h
  · exact opens_of_mem_linkReferences hlen h

/-- Every reference of the expressions behind a position belongs to one of them. -/
theorem ofExpression_of_mem (hcs : text.drop position = cs)
    (h : reference ∈ expressionReferencesFrom text covered position cs) :
    ∃ opening, position ≤ opening ∧ reference.OfExpression text covered opening := by
  fun_induction expressionReferencesFrom text covered position cs with
  | case1 => simp at h
  | case2 => simp at h
  | case3 position c d rest hopen hcovered ih =>
    obtain ⟨opening, hle, hof⟩ := ih (by rw [← List.drop_drop, hcs]; rfl) h
    exact ⟨opening, by omega, hof⟩
  | case4 position c d rest hopen hcovered hclose ih =>
    obtain ⟨opening, hle, hof⟩ := ih (by rw [← List.drop_drop, hcs]; rfl) h
    exact ⟨opening, by omega, hof⟩
  | case5 position c d rest hopen hcovered k hclose inner ih =>
    rcases List.mem_append.1 h with h | h
    · obtain ⟨hlen, hbody⟩ := opens_of_mem_body hcs hclose h
      exact ⟨position, Nat.le_refl _, opensReference_of_drop hcs hopen,
        by simpa [isCovered] using hcovered, _, hlen, hbody⟩
    · obtain ⟨opening, hle, hof⟩ := ih (by rw [← List.drop_drop, ← List.drop_drop, hcs]; rfl) h
      exact ⟨opening, by omega, hof⟩
  | case6 position c d rest hopen ih =>
    obtain ⟨opening, hle, hof⟩ := ih (by rw [← List.drop_drop, hcs]; rfl) h
    exact ⟨opening, by omega, hof⟩

theorem pairwise_expressionReferencesFrom (hcs : text.drop position = cs) :
    (expressionReferencesFrom text covered position cs).Pairwise ReferredPath.Before := by
  fun_induction expressionReferencesFrom text covered position cs with
  | case1 => exact List.Pairwise.nil
  | case2 => exact List.Pairwise.nil
  | case3 position c d rest hopen hcovered ih => exact ih (by rw [← List.drop_drop, hcs]; rfl)
  | case4 position c d rest hopen hcovered hclose ih =>
    exact ih (by rw [← List.drop_drop, hcs]; rfl)
  | case5 position c d rest hopen hcovered k hclose inner ih =>
    have hdrop : text.drop (position + 2 + k) = rest.drop k := by
      rw [← List.drop_drop, ← List.drop_drop, hcs]
      rfl
    refine List.pairwise_append.2 ⟨?_, ih hdrop, fun a ha b hb => ?_⟩
    · unfold fragmentReferences linkReferences
      dsimp only
      split
      · exact pairwise_referenceIn _ text _
      · exact pairwise_referenceIn _ text _
    · -- The next expression opens behind the brace that closes this one.
      obtain ⟨opening, hle, hof⟩ := ofExpression_of_mem hdrop hb
      obtain ⟨stop, -, later⟩ := hof.inBody
      have hstop : a.stop ≤ position + 1 + k := (opens_of_mem_body hcs hclose ha).2.stop_le
      have hstart : opening + 2 ≤ b.start := later.start_le
      unfold ReferredPath.Before
      omega
  | case6 position c d rest hopen ih => exact ih (by rw [← List.drop_drop, hcs]; rfl)

end Expressions

/-! ## Attributes and expressions -/

section Written

variable {attr : Attribute} {outer : List Char}

/-- Where the name of an attribute starts is not idle. -/
theorem not_idle_of_writtenBehind (hname : attr.name ∈ referenceAttributes.map String.toList)
    (h : attr.WrittenBehind outer text) : ¬ Idle text outer.length := by
  obtain ⟨sign, quote, rest, -, -, -, rfl⟩ := h.spelled
  have starts : ∀ name ∈ referenceAttributes.map String.toList,
      name.head?.any startsAttribute = true := by decide
  have first := starts attr.name hname
  rintro (hidle | hidle)
  · unfold charAt at hidle
    rw [List.getElem?_append_right (Nat.le_refl _), Nat.sub_self, ← List.head?_eq_getElem?,
      List.head?_append] at hidle
    cases hh : attr.name.head? with
    | none => simp [hh] at first
    | some c => simp_all
  · rw [List.take_left, h.apart] at hidle
    contradiction

/-- What stands between the start of a name and the value behind it. -/
theorem exists_front_of_writtenBehind (h : attr.WrittenBehind outer text) :
    ∃ (sign : Sign) (quote : Char), isQuote quote = true ∧
      attr.start = outer.length + (attr.name ++ sign.print).length + 1 ∧
      ∀ k, k ≤ (attr.name ++ sign.print).length →
        text[outer.length + k]? = (attr.name ++ sign.print ++ [quote])[k]? := by
  obtain ⟨sign, quote, rest, hq, -, hstart, htext⟩ := h.spelled
  refine ⟨sign, quote, by simpa [isQuote] using hq, ?_, fun k hk => ?_⟩
  · rw [hstart, List.length_append, Nat.add_assoc outer.length]
  · have regroup : text = outer ++ ((attr.name ++ sign.print ++ [quote]) ++
        (attr.value ++ quote :: rest)) := by simp [htext]
    rw [regroup, List.getElem?_append_right (Nat.le_add_right _ _), Nat.add_sub_cancel_left,
      List.getElem?_append_left]
    rw [List.length_append, List.length_singleton]
    exact Nat.lt_succ_of_le hk

/-- No expression opens between the start of a name and the value behind it. -/
theorem opensReference_eq_false_of_writtenBehind
    (hname : attr.name ∈ referenceAttributes.map String.toList)
    (h : attr.WrittenBehind outer text) {i : Nat} (hs : outer.length ≤ i) (hi : i < attr.start) :
    opensReference text i = false := by
  obtain ⟨sign, quote, hq, hstart, hfront⟩ := exists_front_of_writtenBehind h
  have plain : ∀ c ∈ attr.name ++ sign.print ++ [quote], (c == '~' || c == '@') = false := by
    intro c hc
    simp only [Sign.print, List.mem_append, List.mem_cons, List.not_mem_nil, or_false] at hc
    have blank : isBlank c = true → (c == '~' || c == '@') = false := fun hb => by
      rw [Bool.or_eq_false_iff, beq_eq_false_iff_ne, beq_eq_false_iff_ne]
      constructor <;> rintro rfl <;> revert hb <;> decide
    rcases hc with (hc | hc | rfl | hc) | rfl
    · have names : ∀ c ∈ (referenceAttributes.map String.toList).flatten,
          (c == '~' || c == '@') = false := List.all_iff_forall_prop.1 (by decide)
      exact names c (List.mem_flatten_of_mem hname hc)
    · exact blank (sign.front_blank c hc)
    · decide
    · exact blank (sign.back_blank c hc)
    · have quotes : c = '\'' ∨ c = '"' := by simpa [isQuote] using hq
      rcases quotes with rfl | rfl <;> decide
  obtain ⟨k, rfl⟩ := Nat.exists_eq_add_of_le hs
  have here := hfront k (by omega)
  unfold opensReference charAt
  rw [here]
  cases hc : (attr.name ++ sign.print ++ [quote])[k]? with
  | none => rfl
  | some c => simp [plain c (List.mem_of_getElem? hc)]

theorem stop_lt_of_writtenBehind (h : attr.WrittenBehind outer text) : attr.stop < text.length := by
  obtain ⟨sign, quote, rest, -, -, hstart, rfl⟩ := h.spelled
  simp only [Attribute.stop, List.length_append, List.length_cons]
  omega

/-- **A reference in an attribute and one of an expression outside of all values**:
    the expression opens behind the value, or its reference starts no later than the
    name of the attribute. -/
theorem before_or_le_of_ofExpression {covered : List Span} {opening : Nat} {other : ReferredPath}
    (hname : attr.name ∈ referenceAttributes.map String.toList)
    (h : attr.WrittenBehind outer text) (hcovered : ⟨attr.start, attr.stop⟩ ∈ covered)
    (hin : reference.InRegion text ⟨attr.start, attr.stop⟩)
    (hother : other.OfExpression text covered opening) :
    reference.Before other ∨ other.start ≤ outer.length := by
  have hstop : reference.stop ≤ attr.stop := hin.stop_le
  obtain ⟨stop, -, hbody⟩ := hother.inBody
  have hbehind : opening + 2 ≤ other.start := hbody.start_le
  rcases Nat.lt_or_ge opening attr.stop with hlt | hge
  · right
    -- The expression opens in front of the name, in front of the value, or in the value.
    rcases Nat.lt_or_ge opening outer.length with hfront | hname'
    · refine Nat.le_of_not_lt fun hlater => ?_
      exact not_idle_of_writtenBehind hname h (hother.idle (Nat.le_of_lt hfront) hlater)
    · rcases Nat.lt_or_ge opening attr.start with hsign | hvalue
      · have hopens := hother.opens
        rw [opensReference_eq_false_of_writtenBehind hname h hname' hsign] at hopens
        contradiction
      · have inside : isCovered covered opening = true :=
          List.any_eq_true.2 ⟨_, hcovered, by
            simp only [Bool.and_eq_true, decide_eq_true_eq]
            omega⟩
        rw [hother.uncovered] at inside
        contradiction
  · left
    unfold ReferredPath.Before
    omega

/-- The value of an attribute starts behind its name. -/
theorem length_lt_start_of_writtenBehind (h : attr.WrittenBehind outer text) :
    outer.length < attr.start := by
  obtain ⟨sign, quote, rest, -, -, hstart, -⟩ := h.spelled
  omega

end Written

/-! ## All references -/

/-- Attributes that refer to templates are written in the text. -/
theorem exists_written_of_mem_attributesNamed {attr : Attribute}
    (h : attr ∈ attributesNamed referenceAttributes text) :
    ∃ outer, attr.name ∈ referenceAttributes.map String.toList ∧
      attr.WrittenBehind outer text := by
  obtain ⟨outer, -, hname, hwritten⟩ :=
    exists_written_of_mem_attributesFrom List.length_nil.symm rfl h
  exact ⟨outer, hname, hwritten⟩

theorem stop_le_of_mem_attributesNamed {attr : Attribute}
    (h : attr ∈ attributesNamed referenceAttributes text) : attr.stop ≤ text.length := by
  obtain ⟨outer, -, hwritten⟩ := exists_written_of_mem_attributesNamed h
  exact Nat.le_of_lt (stop_lt_of_writtenBehind hwritten)

/-- The values of the attributes that refer to templates. -/
def referenceValues (text : List Char) : List Span :=
  (attributesNamed referenceAttributes text).map fun attr => ⟨attr.start, attr.stop⟩

theorem inRegion_of_mem_referenceValues {value : Span} (hvalue : value ∈ referenceValues text)
    (h : reference ∈ valueReferences text value) : reference.InRegion text value := by
  obtain ⟨attr, hattr, rfl⟩ := List.mem_map.1 hvalue
  exact inRegion_of_mem_valueReferences (stop_le_of_mem_attributesNamed hattr) h

theorem exists_inRegion_of_mem_candidates (h : reference ∈ candidates text) :
    ∃ region : Span, region.stop ≤ text.length ∧ reference.InRegion text region := by
  rcases List.mem_append.1 h with h | h
  · obtain ⟨value, hvalue, h⟩ := List.mem_flatMap.1 h
    have hin := inRegion_of_mem_referenceValues hvalue h
    obtain ⟨attr, hattr, rfl⟩ := List.mem_map.1 hvalue
    exact ⟨_, stop_le_of_mem_attributesNamed hattr, hin⟩
  · obtain ⟨opening, -, hof⟩ := ofExpression_of_mem List.drop_zero h
    obtain ⟨stop, hstop, hbody⟩ := hof.inBody
    exact ⟨_, hstop, hbody.toInRegion⟩

/-- The references of attributes come one behind the other. -/
theorem pairwise_values (text : List Char) :
    ((referenceValues text).flatMap (valueReferences text)).Pairwise ReferredPath.Before := by
  refine pairwise_flatMap_regions text
    (fun value hvalue r => inRegion_of_mem_referenceValues hvalue)
    (fun value hvalue => ?_) (List.pairwise_map.2 (pairwise_attributesFrom _ _ _ _))
  obtain ⟨attr, hattr, rfl⟩ := List.mem_map.1 hvalue
  exact pairwise_valueReferences (stop_le_of_mem_attributesNamed hattr)

/-- The attribute that makes a reference opens in the path of another reference: its
    name starts there, and so does what it refers to. -/
def ReferredPath.Within (text : List Char) (inner outer : ReferredPath) : Prop :=
  ∃ attr ∈ attributesNamed referenceAttributes text, ∃ front, attr.WrittenBehind front text ∧
    inner ∈ valueReferences text ⟨attr.start, attr.stop⟩ ∧
    outer.start ≤ front.length ∧ inner.start ≤ outer.stop

theorem ReferredPath.Within.start_lt {inner outer : ReferredPath} (h : inner.Within text outer) :
    outer.start < inner.start := by
  obtain ⟨attr, hattr, front, hwritten, hinner, hfront, -⟩ := h
  have hvalue := length_lt_start_of_writtenBehind hwritten
  have hstart : attr.start ≤ inner.start :=
    (inRegion_of_mem_valueReferences (stop_le_of_mem_attributesNamed hattr) hinner).start_le
  omega

theorem ReferredPath.Within.start_le {inner outer : ReferredPath} (h : inner.Within text outer) :
    inner.start ≤ outer.stop := by
  obtain ⟨attr, -, front, -, -, -, hle⟩ := h
  exact hle

/-- **Two candidates do not even touch**, unless one is made by an attribute that
    opens in the other. -/
theorem pairwise_before_or_within (text : List Char) : (candidates text).Pairwise fun a b =>
    a.Before b ∨ b.Before a ∨ a.Within text b := by
  refine List.pairwise_append.2 ⟨?_, ?_, fun a ha b hb => ?_⟩
  · exact (pairwise_values text).imp fun hbefore => .inl hbefore
  · exact (pairwise_expressionReferencesFrom List.drop_zero).imp fun hbefore => .inl hbefore
  · obtain ⟨value, hvalue, ha⟩ := List.mem_flatMap.1 ha
    have hin := inRegion_of_mem_referenceValues hvalue ha
    obtain ⟨attr, hattr, rfl⟩ := List.mem_map.1 hvalue
    obtain ⟨outer, hname, hwritten⟩ := exists_written_of_mem_attributesNamed hattr
    obtain ⟨opening, -, hof⟩ := ofExpression_of_mem List.drop_zero hb
    rcases before_or_le_of_ofExpression hname hwritten hvalue hin hof with hbefore | hle
    · exact .inl hbefore
    · -- The expression opens in front of the attribute; its path can end there as well.
      right
      rcases Nat.lt_or_ge b.stop a.start with hbefore | hreaches
      · exact .inl hbefore
      · exact .inr ⟨attr, hattr, outer, hwritten, ha, hle, hreaches⟩

/-- No two candidates start at one place. -/
theorem pairwise_candidates (text : List Char) :
    (candidates text).Pairwise fun a b => a.start ≠ b.start := by
  refine (pairwise_before_or_within text).imp fun {a b} h => ?_
  rcases h with hbefore | hbefore | hwithin
  · exact Nat.ne_of_lt hbefore.start_lt
  · exact Nat.ne_of_gt hbefore.start_lt
  · exact Nat.ne_of_gt hwithin.start_lt

/-- A candidate that reaches another one from the front encloses the attribute that
    makes it. -/
theorem within_of_reaches {inner outer : ReferredPath} (hinner : inner ∈ candidates text)
    (houter : outer ∈ candidates text) (hstart : outer.start < inner.start)
    (hstop : inner.start ≤ outer.stop) : inner.Within text outer := by
  have ordered := List.pairwise_iff_getElem.1 (pairwise_before_or_within text)
  obtain ⟨i, hi, rfl⟩ := List.getElem_of_mem hinner
  obtain ⟨j, hj, rfl⟩ := List.getElem_of_mem houter
  -- Either of the two can be listed first.
  rcases Nat.lt_trichotomy i j with hlt | rfl | hgt
  · rcases ordered i j hi hj hlt with hbefore | hbefore | hwithin
    · exact absurd hbefore.start_lt (Nat.lt_asymm hstart)
    · exact absurd hbefore (Nat.not_lt.2 hstop)
    · exact hwithin
  · exact absurd hstart (Nat.lt_irrefl _)
  · rcases ordered j i hj hi hgt with hbefore | hbefore | hwithin
    · exact absurd hbefore (Nat.not_lt.2 hstop)
    · exact absurd hbefore.start_lt (Nat.lt_asymm hstart)
    · exact absurd hwithin.start_lt (Nat.lt_asymm hstart)

/-- In the order of the text, candidates start one behind the other. -/
theorem pairwise_sorted_candidates (text : List Char) :
    ((candidates text).mergeSort fun a b => a.start ≤ b.start).Pairwise
      fun a b => a.start < b.start := by
  have sorted : ((candidates text).mergeSort fun a b => a.start ≤ b.start).Pairwise
      fun a b => decide (a.start ≤ b.start) = true :=
    List.pairwise_mergeSort (fun a b c hab hbc => by simp only [decide_eq_true_eq] at *; omega)
      (fun a b => by simp only [Bool.or_eq_true, decide_eq_true_eq]; omega) (candidates text)
  have apart := (List.mergeSort_perm (candidates text) fun a b => a.start ≤ b.start).symm.pairwise
    (pairwise_candidates text) fun h => h.symm
  refine (sorted.and apart).imp fun {a b} h => ?_
  exact Nat.lt_of_le_of_ne (by simpa using h.1) h.2

theorem distinct_sublist (seen : List (List Char)) (found : List ReferredPath) :
    (distinct seen found).Sublist found := by
  fun_induction distinct seen found with
  | case1 => exact List.Sublist.slnil
  | case2 seen reference rest path hseen ih => exact ih.cons reference
  | case3 seen reference rest path hseen ih => exact ih.cons_cons reference

/-- No path is left that has been seen, or twice. -/
theorem nodup_distinct (seen : List (List Char)) (found : List ReferredPath) :
    (∀ reference ∈ distinct seen found, withSlashes reference.path ∉ seen) ∧
      ((distinct seen found).map fun reference => withSlashes reference.path).Nodup := by
  fun_induction distinct seen found with
  | case1 => simp
  | case2 seen reference rest path hseen ih => exact ih
  | case3 seen reference rest path hseen ih =>
    refine ⟨fun other h => ?_, List.nodup_cons.2 ⟨fun hmem => ?_, ih.2⟩⟩
    · rcases List.mem_cons.1 h with rfl | h
      · simpa using hseen
      · exact fun hin => ih.1 other h (List.mem_cons_of_mem _ hin)
    · obtain ⟨other, hother, heq⟩ := List.mem_map.1 hmem
      exact ih.1 other hother (heq ▸ List.mem_cons_self)

theorem mem_candidates_of_mem_references (h : reference ∈ references text) :
    reference ∈ candidates text :=
  List.mem_mergeSort.1 ((distinct_sublist _ _).subset h)

/-- Attributes come first among the candidates, so that a text can have to be sorted. -/
theorem references_of_pair {first second : ReferredPath} (h : candidates text = [second, first])
    (hlt : first.start < second.start) (hne : withSlashes first.path ≠ withSlashes second.path) :
    references text = [first, second] := by
  have sorted : [second, first].mergeSort (fun a b => a.start ≤ b.start) = [first, second] := by
    have later : ¬ second.start ≤ first.start := Nat.not_le_of_lt hlt
    simp [List.mergeSort, List.MergeSort.Internal.splitInTwo, later]
  rw [references, h, sorted]
  simp [distinct, hne.symm]

/-- The references of a text come in the order of their starts. -/
theorem pairwise_references (text : List Char) :
    (references text).Pairwise fun a b => a.start < b.start :=
  (pairwise_sorted_candidates text).sublist (distinct_sublist _ _)

/-- References that start at one place are one. -/
theorem eq_of_start_eq {a b : ReferredPath} (ha : a ∈ references text) (hb : b ∈ references text)
    (h : a.start = b.start) : a = b := by
  have ordered := List.pairwise_iff_getElem.1 (pairwise_references text)
  obtain ⟨i, hi, rfl⟩ := List.getElem_of_mem ha
  obtain ⟨j, hj, rfl⟩ := List.getElem_of_mem hb
  rcases Nat.lt_trichotomy i j with hlt | rfl | hgt
  · exact absurd h (Nat.ne_of_lt (ordered i j hi hj hlt))
  · rfl
  · exact absurd h (Nat.ne_of_gt (ordered j i hj hi hgt))

/-- **References stand where they say**, one behind the other and each path
    once. -/
theorem references_inText (text : List Char) :
    (∀ reference ∈ references text,
        reference.path ≠ [] ∧ trim reference.path = reference.path ∧
          reference.start < reference.stop ∧ reference.stop ≤ text.length ∧
          Span.slice ⟨reference.start, reference.stop⟩ text = reference.path) ∧
      (references text).Pairwise (fun a b => a.start < b.start) ∧
      ((references text).map fun reference => withSlashes reference.path).Nodup := by
  refine ⟨fun reference h => ?_, (pairwise_sorted_candidates text).sublist (distinct_sublist _ _),
    (nodup_distinct _ _).2⟩
  obtain ⟨region, hstop, hin⟩ :=
    exists_inRegion_of_mem_candidates (mem_candidates_of_mem_references h)
  exact ⟨hin.ne_nil, hin.trim_eq, hin.start_lt, Nat.le_trans hin.stop_le hstop, hin.slice_eq⟩

end TemplateAnalysis.Reference
