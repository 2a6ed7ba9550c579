import TemplateAnalysis.Proofs.Reference.Origin
import TemplateAnalysis.Proofs.Resolver.Links

/-! # Where references are looked up

    A path that is taken out of a link is looked up among the static resources, any
    other among the templates. Since it is guessed from the line what the path was
    taken out of, this fails for the sources that are mistaken, and only for those
    (**`exists_lookUp_of_mem_references`**).
-/

namespace TemplateAnalysis.Resolver

open Text Expression Markup Reference

/-- Look a reference up, as a link or as a template. -/
def lookUp (project : Project) (line : List Char) (reference : ReferredPath) (asLink : Bool) :
    Query (Option Location) :=
  if asLink then findStatic project reference.path
  else findFragment project reference.path (selectorAt? line reference.stop)

variable {line : List Char} {reference : ReferredPath}

/-- **A reference is looked up as what it was taken out of**, unless its source is a
    mistaken one: then it is looked up as the other. -/
theorem exists_lookUp_of_mem_references (h : reference ∈ references line) :
    (∃ source ∈ sources line, reference ∈ source.references line) ∧
      ∀ source ∈ sources line, reference ∈ source.references line →
        ∃ asLink, (asLink = source.fromLink line ↔ ¬ source.Mistaken line) ∧
          ∀ project, follow project line reference = lookUp project line reference asLink ∧
            ∀ position, (references line).find? (reaches position) = some reference →
              resolve project line position = lookUp project line reference asLink := by
  refine ⟨exists_source_of_mem_references h, fun source hsource hmade => ?_⟩
  have followed : ∀ project, follow project line reference =
      lookUp project line reference (isLink line reference) := fun project => rfl
  refine ⟨isLink line reference, isLink_eq_fromLink_iff hsource hmade, fun project => ?_⟩
  refine ⟨followed project, fun position hfound => ?_⟩
  rw [resolve_of_find? hfound, followed]

/-- A line with a link, and behind it an attribute whose sign stands between blanks. -/
def spacedLine : List Char :=
  "<a th:href=\"@{/x}\" th:insert = \"card\">".toList

/-- The attribute with its value. -/
def spacedAttribute : Attribute :=
  ⟨"th:insert".toList, 32, "card".toList⟩

/-- The blank behind the sign makes a link of the template. -/
theorem mistaken_spacedAttribute : (Source.value spacedAttribute).Mistaken spacedLine := by
  have blank : isBlank ' ' = true := by decide
  have written : spacedAttribute.WrittenBehind (spacedLine.take 19) spacedLine :=
    ⟨⟨⟨[' '], [' '], List.forall_mem_singleton.2 blank, List.forall_mem_singleton.2 blank⟩, '"',
      ['>'], .inr rfl, by decide, rfl, rfl⟩, by decide⟩
  have behind : isLink spacedLine ⟨[], (spacedLine.take 19).length⟩ = true := by decide
  exact ⟨by decide +kernel, by decide +kernel, by decide, _, written, isLink_iff.1 behind⟩

theorem references_spacedLine :
    references spacedLine = [⟨"x".toList, 15⟩, ⟨"card".toList, 32⟩] :=
  references_of_pair (by decide +kernel) (by decide) (by decide)

/-- The template is looked up among the static resources. -/
theorem exists_lookUp_of_mem_references_spaced :
    ⟨"card".toList, 32⟩ ∈ references spacedLine ∧
      Source.fromLink spacedLine (.value spacedAttribute) = false ∧
      ∀ project, follow project spacedLine ⟨"card".toList, 32⟩ =
        findStatic project "card".toList := by
  have hmem : ⟨"card".toList, 32⟩ ∈ references spacedLine := by
    rw [references_spacedLine]
    decide
  have hplain : Source.fromLink spacedLine (.value spacedAttribute) = false := by decide +kernel
  refine ⟨hmem, hplain, fun project => ?_⟩
  obtain ⟨-, hlook⟩ := exists_lookUp_of_mem_references hmem
  obtain ⟨asLink, hguess, hfollow⟩ :=
    hlook (.value spacedAttribute) (by decide +kernel) (by decide +kernel)
  have wrong : asLink ≠ false := fun heq =>
    hguess.1 (heq.trans hplain.symm) mistaken_spacedAttribute
  rw [(hfollow project).1, eq_true_of_ne_false wrong]
  rfl

end TemplateAnalysis.Resolver
