import TemplateAnalysis.Proofs.Reference.Order
import TemplateAnalysis.Resolver

/-! # Following the links of a document

    A link of a document is a reference of one of its lines, and it is followed by
    asking for the reference at its first character. When paths overlap, the first of
    them is followed.

    * **`exists_found`**: the reference found at the start of another one is that one
      itself, or one in which the attribute opens that makes it;
    * **`follow_documentLink`**: so a link leads where its own reference leads as long
      as its attribute does not open in another path.
-/

namespace TemplateAnalysis.Resolver

open Text Expression Markup Reference

variable {text line : List Char}

/-- A link is a reference of its line. -/
theorem exists_line_of_mem_documentLinks {link : DocumentLink} (h : link ∈ documentLinks text) :
    ∃ line, (lines text)[link.line]? = some line ∧ ∃ reference ∈ references line,
      link = ⟨link.line, reference.start, reference.stop, reference.path⟩ := by
  obtain ⟨links, hlinks, hlink⟩ := List.mem_flatten.1 h
  obtain ⟨number, hnumber, rfl⟩ := List.mem_mapIdx.1 hlinks
  unfold lineLinks at hlink
  split at hlink
  · contradiction
  · obtain ⟨reference, hreference, rfl⟩ := List.mem_map.1 hlink
    exact ⟨_, List.getElem?_eq_getElem hnumber, reference, hreference, rfl⟩

/-- A reference that starts no later than a position and reaches it. -/
def reaches (position : Nat) (reference : ReferredPath) : Bool :=
  reference.start ≤ position && position ≤ reference.stop

theorem reaches_iff {position : Nat} {reference : ReferredPath} :
    reaches position reference = true ↔
      reference.start ≤ position ∧ position ≤ reference.stop := by
  rw [reaches, Bool.and_eq_true, decide_eq_true_eq, decide_eq_true_eq]

/-- The first reference that reaches a position is followed. -/
theorem resolve_of_find? {position : Nat} {found : ReferredPath}
    (h : (references line).find? (reaches position) = some found) (project : Project) :
    resolve project line position = follow project line found := by
  have here : (references line).find? (fun reference =>
      reference.start ≤ position && position ≤ reference.stop) = some found := h
  unfold resolve
  rw [here]

/-- **What is found at the start of a reference** is the reference itself, unless the
    attribute that makes it opens in the path of another one. -/
theorem exists_found {own : ReferredPath} (hown : own ∈ references line) :
    ∃ found ∈ references line, (references line).find? (reaches own.start) = some found ∧
      (found = own ↔ ∀ other ∈ references line, ¬ own.Within line other) ∧
      (found ≠ own → own.Within line found) := by
  have hreaches : reaches own.start own = true :=
    reaches_iff.2 ⟨Nat.le_refl _, Nat.le_add_right _ _⟩
  obtain ⟨found, hfound⟩ := Option.isSome_iff_exists.1 (List.find?_isSome.2 ⟨own, hown, hreaches⟩)
  obtain ⟨hat, before, behind, hsplit, hbefore⟩ := List.find?_eq_some_iff_append.1 hfound
  have ordered := pairwise_references line
  have hmem : found ∈ references line := List.mem_of_find?_eq_some hfound
  obtain ⟨hstart, hstop⟩ := reaches_iff.1 hat
  have within : found ≠ own → own.Within line found := by
    intro hne
    refine within_of_reaches (mem_candidates_of_mem_references hown)
      (mem_candidates_of_mem_references hmem) (Nat.lt_of_le_of_ne hstart fun heq => hne ?_) hstop
    exact eq_of_start_eq hmem hown heq
  refine ⟨found, hmem, hfound, ⟨?_, fun hnone => ?_⟩, within⟩
  · rintro rfl other hother hwithin
    -- The other one starts earlier and reaches as far, so it would have been found.
    rw [hsplit] at hother ordered
    rcases List.mem_append.1 hother with hfront | hback
    · have hmissed := hbefore other hfront
      rw [reaches_iff.2 ⟨Nat.le_of_lt hwithin.start_lt, hwithin.start_le⟩] at hmissed
      contradiction
    · rcases List.mem_cons.1 hback with rfl | hback
      · exact Nat.lt_irrefl _ hwithin.start_lt
      · have later := (List.pairwise_cons.1 (List.pairwise_append.1 ordered).2.1).1 other hback
        exact Nat.lt_asymm later hwithin.start_lt
  · exact Decidable.byContradiction fun hne => hnone found hmem (within hne)

/-- **A link is followed to where its own reference leads**, unless the attribute that
    makes the reference opens in the path of another one: then it is that other one
    that is followed. -/
theorem follow_documentLink {link : DocumentLink} (h : link ∈ documentLinks text) :
    ∃ line, (lines text)[link.line]? = some line ∧
      Span.slice ⟨link.start, link.stop⟩ line = link.path ∧
      ⟨link.path, link.start⟩ ∈ references line ∧
      ∃ followed ∈ references line,
        (∀ project, resolve project line link.start = follow project line followed) ∧
        (followed = ⟨link.path, link.start⟩ ↔
          ∀ other ∈ references line, ¬ ReferredPath.Within line ⟨link.path, link.start⟩ other) ∧
        (followed ≠ ⟨link.path, link.start⟩ →
          ReferredPath.Within line ⟨link.path, link.start⟩ followed) := by
  obtain ⟨line, hline, reference, hreference, hlink⟩ := exists_line_of_mem_documentLinks h
  obtain ⟨region, -, hregion⟩ :=
    exists_inRegion_of_mem_candidates (mem_candidates_of_mem_references hreference)
  obtain ⟨found, hmem, hfound, hiff, hwithin⟩ := exists_found hreference
  rw [hlink]
  exact ⟨line, hline, hregion.slice_eq, hreference, found, hmem, resolve_of_find? hfound, hiff,
    hwithin⟩

/-! ## A path that is not finished

    The braces of the last attribute close the expression of the first one, so its path
    reaches over the attribute between them. -/

/-- A line whose first expression is not finished. -/
def unfinishedLine : List Char :=
  "<a th:href=\"@\x7b/u/$\x7bid\" th:insert=\"card\" title=\"\x7d\x7d\">".toList

/-- The path of the expression that is not finished. -/
def overlongPath : List Char :=
  "u/$\x7bid\" th:insert=\"card\" title=\"\x7d".toList

theorem references_unfinishedLine :
    references unfinishedLine = [⟨overlongPath, 15⟩, ⟨"card".toList, 34⟩] :=
  references_of_pair (by decide +kernel) (by decide) (by decide)

theorem documentLinks_unfinishedLine :
    documentLinks unfinishedLine = [⟨0, 15, 48, overlongPath⟩, ⟨0, 34, 38, "card".toList⟩] := by
  have whole : lines unfinishedLine = [unfinishedLine] := by decide +kernel
  have shown : (isFragmentDeclaration unfinishedLine || isComputedLink unfinishedLine) = false := by
    decide +kernel
  simp only [documentLinks, lineLinks, whole, shown, references_unfinishedLine, List.mapIdx_cons,
    List.mapIdx_nil, Bool.false_eq_true, if_false]
  decide

/-- The link to the template is not followed to it. -/
theorem follow_documentLink_unfinished :
    ⟨0, 34, 38, "card".toList⟩ ∈ documentLinks unfinishedLine ∧
      ∀ project, resolve project unfinishedLine 34 =
        follow project unfinishedLine ⟨overlongPath, 15⟩ := by
  have hlink : ⟨0, 34, 38, "card".toList⟩ ∈ documentLinks unfinishedLine := by
    rw [documentLinks_unfinishedLine]
    decide
  have hfirst : (lines unfinishedLine)[0]? = some unfinishedLine := by decide +kernel
  refine ⟨hlink, ?_⟩
  obtain ⟨line, hline, -, hcard, followed, hfollowed, hresolve, hown, -⟩ :=
    follow_documentLink hlink
  obtain rfl : line = unfinishedLine := Option.some.inj (hline.symm.trans hfirst)
  have hlong : (⟨overlongPath, 15⟩ : ReferredPath) ∈ references unfinishedLine := by
    rw [references_unfinishedLine]
    decide
  have covers : ReferredPath.Within unfinishedLine ⟨"card".toList, 34⟩ ⟨overlongPath, 15⟩ :=
    within_of_reaches (mem_candidates_of_mem_references hcard)
      (mem_candidates_of_mem_references hlong) (by decide) (by decide)
  rw [references_unfinishedLine] at hfollowed
  rcases List.mem_cons.1 hfollowed with rfl | hsecond
  · exact hresolve
  · exact absurd covers (hown.1 (List.mem_singleton.1 hsecond) _ hlong)

end TemplateAnalysis.Resolver
