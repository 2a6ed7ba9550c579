import TemplateAnalysis.Proofs.Reference.Trailing
import TemplateAnalysis.Proofs.Resolver.Links

/-! # Which fragment is asked for

    A template is asked for the fragment that is written at a separator of the source
    of its path, but only when nothing but blanks stands between the path and the
    separator (**`exists_selector_of_mem_references`**). The selector is read from the
    line, where the path has lost its quotes, its bars and its parameters: any of
    them that stands behind the path hides the separator, and then the template is
    asked for no fragment at all. It never is asked for one that is not written.
-/

namespace TemplateAnalysis.Resolver

open Text Expression Markup Reference

variable {line : List Char} {reference : ReferredPath}

/-- **A template is asked for the fragment at a separator right behind its path**, up
    to blanks, and for none when no separator stands there. This holds for every path
    that is not taken out of a link, unless its source is mistaken for one. -/
theorem exists_selector_of_mem_references (h : reference ∈ references line) :
    (∃ source ∈ sources line, reference ∈ source.references line) ∧
      ∀ source ∈ sources line, reference ∈ source.references line →
        source.fromLink line = false → ¬ source.Mistaken line →
        ∃ selector : Option (List Char),
          (∀ name, selector = some name ↔ ∃ separator, source.Separates line separator ∧
            BlankTo line reference.stop separator ∧ NameAt line (separator + 2) name) ∧
          ∀ project, follow project line reference = findFragment project reference.path selector ∧
            ∀ position, (references line).find? (reaches position) = some reference →
              resolve project line position = findFragment project reference.path selector := by
  refine ⟨exists_source_of_mem_references h, fun source hsource hmade hlink hright => ?_⟩
  have template : isLink line reference = false :=
    ((isLink_eq_fromLink_iff hsource hmade).2 hright).trans hlink
  have followed : ∀ project, follow project line reference =
      findFragment project reference.path (selectorAt? line reference.stop) := by
    intro project
    rw [follow, template]
    rfl
  refine ⟨selectorAt? line reference.stop, fun name => selectorAt?_of_mem_references hsource hmade,
    fun project => ⟨followed project, fun position hfound => ?_⟩⟩
  rw [resolve_of_find? hfound, followed]

/-! ## A quote behind the path -/

/-- A line that refers to a fragment of a template whose name is quoted. -/
def quotedLine : List Char :=
  "<div th:replace=\"~\x7b'p' :: card\x7d\">".toList

/-- The fragment expression, up to its separator. -/
def quotedSource : Source :=
  .fragment ⟨19, 23⟩

theorem references_quotedLine : references quotedLine = [⟨['p'], 20⟩] := by
  have found : candidates quotedLine = [⟨['p'], 20⟩] := by decide +kernel
  rw [references, found]
  simp [distinct]

/-- The quote hides the separator, and the fragment that is written behind it is not
    asked for. -/
theorem exists_selector_of_quotedLine :
    quotedSource.Separates quotedLine 23 ∧ NameAt quotedLine 25 "card".toList ∧
      ∀ project, follow project quotedLine ⟨['p'], 20⟩ = findFragment project ['p'] none ∧
        resolve project quotedLine 20 = findFragment project ['p'] none := by
  have separator : quotedSource.Separates quotedLine 23 :=
    .ofBody (show findTopLevelIn [':', ':'] quotedLine 19 31 = some 23 by decide)
  have name : NameAt quotedLine 25 "card".toList := nameAt_iff.2 ⟨by decide, by decide⟩
  have hmem : (⟨['p'], 20⟩ : ReferredPath) ∈ references quotedLine := by
    rw [references_quotedLine]
    exact List.mem_singleton.2 rfl
  obtain ⟨-, hselect⟩ := exists_selector_of_mem_references hmem
  obtain ⟨selector, hselector, hfollow⟩ :=
    hselect quotedSource (by decide +kernel) (by decide +kernel) (by decide +kernel) id
  have none : selector = none := by
    cases selector with
    | none => rfl
    | some other =>
      obtain ⟨position, hseparates, hblank, -⟩ := (hselector other).1 rfl
      -- The quote stands right behind the path, and it is no blank.
      have closed : Closed quotedLine 21 :=
        .of_beq (show charAt quotedLine 21 (· == '\'') by decide) (by decide)
      exact absurd hseparates.occursAt (closed.not_separator hblank)
  rw [none] at hfollow
  refine ⟨separator, name, fun project => ⟨(hfollow project).1, (hfollow project).2 20 ?_⟩⟩
  rw [references_quotedLine]
  decide

end TemplateAnalysis.Resolver
