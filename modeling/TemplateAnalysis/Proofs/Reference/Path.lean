import TemplateAnalysis.Proofs.Reference.Order

/-! # What paths hold

    * **`literal_of_mem_references`**: outside of its embedded expressions every
      reported path holds something, and none of the characters that no path
      holds unless two underscores stand at either end of it.

    A path between underscores is computed before all else and is reported as it
    stands. Its selector stays with it, so the exception is one that occurs.
-/

namespace TemplateAnalysis.Reference

open Text Expression Markup

variable {text path : List Char} {region : Span} {reference : ReferredPath}

/-- What a path holds outside of its embedded expressions. -/
def literalPart (path : List Char) : List Char :=
  outsideSpans path 0 (expressionSpans path)

/-- A character that no path holds is no blank. -/
theorem isBlank_eq_false_of_isForbidden {c : Char} (h : isForbidden c = true) :
    isBlank c = false := by
  have blank : ∀ c ∈ "<>:\"|?*".toList, isBlank c = false :=
    List.all_iff_forall_prop.1 (by decide)
  exact blank c (List.contains_iff_mem.1 h)

/-- Trimming takes away nothing but blanks. -/
theorem mem_trim_of_isBlank_eq_false {cs : List Char} {c : Char} (h : c ∈ cs)
    (hc : isBlank c = false) : c ∈ trim cs := by
  have keeps : ∀ {ds : List Char}, c ∈ ds → c ∈ trimLeft ds := fun {ds} hd => by
    obtain ⟨blanks, hblanks, hds⟩ := exists_eq_append_trimLeft ds
    rw [hds] at hd
    refine (List.mem_append.1 hd).resolve_left fun hin => ?_
    rw [hblanks c hin] at hc
    contradiction
  exact List.mem_reverse.2 (keeps (List.mem_reverse.2 (keeps h)))

/-- A text that is not blank holds something else than blanks. -/
theorem exists_of_trim_ne_nil {cs : List Char} (h : trim cs ≠ []) :
    ∃ c ∈ cs, isBlank c = false := by
  refine Classical.byContradiction fun hnone => ?_
  have blanks : ∀ c ∈ cs, isBlank c = true := by simpa using hnone
  refine h ?_
  rw [trim, ← List.append_nil cs, trimLeft_append blanks]
  rfl

theorem literal_of_isPath (h : isPath path = true) :
    (∃ c ∈ literalPart path, isBlank c = false) ∧
      ∀ c ∈ literalPart path, isForbidden c = false := by
  obtain ⟨hne, hany⟩ := Bool.and_eq_true _ _ ▸ h
  refine ⟨exists_of_trim_ne_nil (by simpa [literalPart] using hne), fun c hc => ?_⟩
  cases hf : isForbidden c with
  | false => rfl
  | true =>
    have hmem := mem_trim_of_isBlank_eq_false hc (isBlank_eq_false_of_isForbidden hf)
    rw [Bool.not_eq_true', List.any_eq_false] at hany
    exact absurd hf (hany c hmem)

/-! ## Preprocessed paths -/

theorem le_start_of_mem_spansFrom {stop position : Nat} {cs : List Char} {span : Span}
    (h : span ∈ spansFrom stop position cs) : position ≤ span.start := by
  fun_induction spansFrom stop position cs with
  | case1 => simp at h
  | case2 => simp at h
  | case3 position c d rest hopen hclose ih =>
    have := ih h
    omega
  | case4 position c d rest hopen k hclose hin ih =>
    rcases List.mem_cons.1 h with rfl | h
    · exact Nat.le_refl _
    · have := ih h
      omega
  | case5 position c d rest hopen k hclose hin ih =>
    have := ih h
    omega
  | case6 position c d rest hopen ih =>
    have := ih h
    omega

/-- The first character of a path is outside of all expressions unless it is a
    sigil. -/
theorem head_mem_literalPart {c : Char} {rest : List Char} (h : isSigil c = false) :
    c ∈ literalPart (c :: rest) := by
  have behind : ∀ span ∈ expressionSpans (c :: rest), 1 ≤ span.start := by
    intro span hspan
    rw [expressionSpans, expressionSpansIn, List.drop_zero] at hspan
    cases rest with
    | nil => simp [spansFrom] at hspan
    | cons d rest =>
      rw [spansFrom] at hspan
      simp only [h, Bool.false_and, Bool.false_eq_true, if_false] at hspan
      exact le_start_of_mem_spansFrom hspan
  unfold literalPart
  cases hs : expressionSpans (c :: rest) with
  | nil => simp [outsideSpans]
  | cons span spans =>
    have hfirst := behind span (hs ▸ List.mem_cons_self)
    obtain ⟨k, hk⟩ := Nat.exists_eq_add_of_le hfirst
    refine List.mem_append_left _ ?_
    rw [List.extract_eq_take_drop, hk]
    simp [Nat.add_comm 1 k]

theorem literal_of_isPreprocessed (h : isPreprocessed path = true) :
    ∃ c ∈ literalPart path, isBlank c = false := by
  obtain ⟨hfirst, -⟩ := ends_of_isPreprocessed h
  obtain ⟨rest, rfl⟩ : ∃ rest, path = '_' :: rest := by
    cases path with
    | nil => contradiction
    | cons c rest => exact ⟨rest, by rw [Option.some.inj hfirst]⟩
  exact ⟨'_', head_mem_literalPart (by decide), by decide⟩

/-! ## Reported paths -/

/-- **What a reported path holds** outside of its embedded expressions: not only
    blanks, and none of the characters that no path holds, unless the path is
    preprocessed. -/
theorem literal_of_mem_references (h : reference ∈ references text) :
    (∃ c ∈ literalPart reference.path, isBlank c = false) ∧
      (isPreprocessed reference.path = false →
        ∀ c ∈ literalPart reference.path, isForbidden c = false) := by
  obtain ⟨region, -, hin⟩ :=
    exists_inRegion_of_mem_candidates (mem_candidates_of_mem_references h)
  rcases hin.kind with hpath | hpre
  · obtain ⟨hsome, hnone⟩ := literal_of_isPath hpath
    exact ⟨hsome, fun _ => hnone⟩
  · refine ⟨literal_of_isPreprocessed hpre, fun hnot => ?_⟩
    rw [hpre] at hnot
    contradiction

/-- A fragment of a layout, where the template and the fragment are both computed
    before all else. -/
def preprocessedSample : List Char :=
  "<div th:replace=\"__${layout}__ :: __${fragment}__\"></div>".toList

/-- A fragment of a template that is named as it is. -/
def namedSample : List Char :=
  "<div th:replace=\"layout :: fragment\"></div>".toList

/-- The selector of a preprocessed path stays with it, and that of any other path
    goes. -/
theorem literal_of_mem_references_preprocessedSample :
    let path := "__${layout}__ :: __${fragment}__".toList
    (⟨path, 17⟩ ∈ references preprocessedSample ∧ isPreprocessed path = true ∧
      ':' ∈ literalPart path ∧ isForbidden ':' = true ∧
      ∃ c ∈ literalPart path, isBlank c = false) ∧
    ⟨"layout".toList, 17⟩ ∈ references namedSample ∧
      isPreprocessed "layout".toList = false ∧
      ∀ c ∈ literalPart "layout".toList, isForbidden c = false :=
  have reported : (⟨"__${layout}__ :: __${fragment}__".toList, 17⟩ : ReferredPath) ∈
      references preprocessedSample := by decide +kernel
  have named : (⟨"layout".toList, 17⟩ : ReferredPath) ∈ references namedSample := by decide +kernel
  ⟨⟨reported, by decide, by decide +kernel, by decide, (literal_of_mem_references reported).1⟩,
    named, by decide, (literal_of_mem_references named).2 (by decide)⟩

end TemplateAnalysis.Reference
