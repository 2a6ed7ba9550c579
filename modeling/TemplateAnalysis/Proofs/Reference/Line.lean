import TemplateAnalysis.Proofs.Reference.Page
import TemplateAnalysis.Reference.Selector

/-! # Reading a line with a reference

    What a line says about a reference is read several times: the path is extracted,
    the line in front of it tells a template from a link, and the selector is read
    again behind it. For a tag that is replaced by a template they agree:

    * **`references_referenceLine`**: the line refers to the path alone;
    * **`isLink_referenceLine`**: it is no link;
    * **`selectorAt?_referenceLine`**: behind the path the fragment is read.
-/

namespace TemplateAnalysis.Reference

open Text Expression Markup

/-! ## Lines with a reference -/

/-- The path of a template as it is written: names between slashes. -/
structure PagePath where
  segments : List (List Char)
  ne_nil : segments ≠ []
  named : ∀ segment ∈ segments, segment ≠ [] ∧ ∀ c ∈ segment, isNameChar c = true
  not_preprocessed : ['_', '_'].isPrefixOf (joinWith ['/'] segments) = false

/-- The text of a path. -/
def PagePath.text (path : PagePath) : List Char :=
  joinWith ['/'] path.segments

/-- What a reference is put into. -/
inductive Wrapping
  | none
  | fragment
  | quotes
  | bars
  deriving DecidableEq, Repr

/-- The text of a wrapping in front of the path. -/
def Wrapping.front : Wrapping → List Char
  | .none => []
  | .fragment => ['~', '{']
  | .quotes => ['\'']
  | .bars => ['|']

/-- The text of a wrapping at the end. -/
def Wrapping.back : Wrapping → List Char
  | .none => []
  | .fragment => ['}']
  | .quotes => ['\'']
  | .bars => ['|']

/-- The text of a fragment behind a path. -/
def selectorText : Option FragmentName → List Char
  | none => []
  | some fragment => ' ' :: ':' :: ':' :: ' ' :: fragment.text

/-- A tag up to the value of its attribute. -/
def tagFront : List Char :=
  "<div th:replace=\"".toList

/-- The text in front of the path. -/
def referenceFront (wrapping : Wrapping) : List Char :=
  tagFront ++ wrapping.front

/-- A tag that is replaced by a template, or by a fragment of it. -/
def referenceLine (wrapping : Wrapping) (path : PagePath) (fragment : Option FragmentName) :
    List Char :=
  referenceFront wrapping ++
    (path.text ++ (selectorText fragment ++ (wrapping.back ++ ['"', '>'])))

/-! ### The line as a tree -/

variable {wrapping : Wrapping} {path : PagePath} {fragment : Option FragmentName}

theorem PagePath.mem_text {c : Char} (h : c ∈ path.text) : isNameChar c = true ∨ c = '/' := by
  rcases mem_joinWith h with hslash | ⟨segment, hsegment, hc⟩
  · exact .inr (List.mem_singleton.1 hslash)
  · exact .inl ((path.named segment hsegment).2 c hc)

theorem PagePath.notMem_text {c : Char} (hname : isNameChar c = false) (hslash : c ≠ '/') :
    c ∉ path.text := by
  intro hc
  rcases path.mem_text hc with h | h
  · rw [h] at hname
    contradiction
  · exact hslash h

/-- A path starts with a character of a name. -/
theorem PagePath.exists_cons (path : PagePath) :
    ∃ c rest, path.text = c :: rest ∧ isNameChar c = true := by
  obtain ⟨first, others, hsegments⟩ := List.exists_cons_of_ne_nil path.ne_nil
  obtain ⟨hne, hchars⟩ := path.named first (hsegments ▸ List.mem_cons_self)
  obtain ⟨c, cs, rfl⟩ := List.exists_cons_of_ne_nil hne
  refine ⟨c, joinWith ['/'] (cs :: others), ?_, hchars c List.mem_cons_self⟩
  rw [PagePath.text, hsegments, joinWith_cons_head]

/-- The path as one that can be read. -/
def PagePath.templatePath (path : PagePath) : TemplatePath where
  text := path.text
  ne_nil := by
    obtain ⟨c, rest, htext, -⟩ := path.exists_cons
    simp [htext]
  chars c hc := by
    rcases path.mem_text hc with h | rfl
    · exact isPathChar_of_isNameChar h
    · decide
  relative := by
    obtain ⟨c, rest, htext, hc⟩ := path.exists_cons
    rw [htext]
    intro heq
    rw [Option.some.inj heq] at hc
    revert hc
    decide
  not_preprocessed := path.not_preprocessed

/-- One blank. -/
def oneBlank : Space where
  text := [' ']
  blank := List.all_iff_forall_prop.1 (by decide)
  ne_nil := by simp

/-- What the line refers to. -/
def lineTarget (path : PagePath) (fragment : Option FragmentName) : BareTarget where
  origin := .none
  path := path.templatePath
  selector := fragment.map fun name => ⟨oneBlank, oneBlank.toGap, name, none⟩
  no_arguments := by
    intro selected hselected
    obtain ⟨name, -, rfl⟩ := Option.map_eq_some_iff.1 hselected
    rfl

/-- The value of the attribute of the line. -/
def lineValue (wrapping : Wrapping) (path : PagePath) (fragment : Option FragmentName) : Value :=
  match wrapping with
  | .none => .direct (lineTarget path fragment).toTarget
  | .fragment => .alone (.fragment (lineTarget path fragment).toTarget) nofun
  | .quotes => .alone (.quoted (lineTarget path fragment)) nofun
  | .bars => .bars (lineTarget path fragment).toTarget

/-- The tag of the line. -/
def lineTag (wrapping : Wrapping) (path : PagePath) (fragment : Option FragmentName) :
    ReferenceTag where
  before := ⟨"<div".toList, by decide, by decide, by decide⟩
  blank := ' '
  isBlank_blank := by decide
  name := "th:replace"
  name_mem := by decide
  sign := ⟨[], [], List.forall_mem_nil _, List.forall_mem_nil _⟩
  value := lineValue wrapping path fragment
  behind := ⟨['>'], by decide, by decide, by decide⟩

theorem print_lineTarget :
    (lineTarget path fragment).print = path.text ++ selectorText fragment := by
  cases fragment with
  | none => rfl
  | some name =>
    show [] ++ (path.text ++ Selector.print _) = _
    simp [Selector.print, selectorText, oneBlank, argumentText]

theorem spell_lineValue : spell (lineValue wrapping path fragment).stretches =
    wrapping.front ++ (path.text ++ (selectorText fragment ++ wrapping.back)) := by
  cases wrapping with
  | none =>
    show spell (lineTarget path fragment).stretches = _
    rw [Target.spell_stretches, print_lineTarget]
    simp [Wrapping.front, Wrapping.back]
  | fragment =>
    show spell ((lineTarget path fragment).within ['~', '{'] ['}']) = _
    rw [Target.spell_within, print_lineTarget, List.append_assoc]
    rfl
  | quotes =>
    show spell ((lineTarget path fragment).within ['\''] ['\'']) = _
    rw [Target.spell_within, print_lineTarget, List.append_assoc]
    rfl
  | bars =>
    show spell ((lineTarget path fragment).within ['|'] ['|']) = _
    rw [Target.spell_within, print_lineTarget, List.append_assoc]
    rfl

theorem front_lineTag : (lineTag wrapping path fragment).front = tagFront := by
  show "<div".toList ++ ' ' :: ("th:replace".toList ++ (['='] ++ ['"'])) = tagFront
  decide

theorem value_lineTag :
    (lineTag wrapping path fragment).value = lineValue wrapping path fragment := rfl

theorem behind_lineTag : (lineTag wrapping path fragment).behind.text = ['>'] := rfl

theorem spell_lineTag : spell (pageStretches [lineTag wrapping path fragment]) =
    referenceLine wrapping path fragment := by
  rw [pageStretches, ReferenceTag.spell_stretches, front_lineTag, value_lineTag, behind_lineTag,
    spell_lineValue, referenceLine, referenceFront]
  simp only [List.append_assoc]

theorem marksFrom_lineValue (position : Nat) :
    marksFrom position (lineValue wrapping path fragment).stretches =
      [⟨path.text, position + wrapping.front.length⟩] := by
  cases wrapping <;> rfl

theorem marksFrom_lineTag : marksFrom 0 (pageStretches [lineTag wrapping path fragment]) =
    [⟨path.text, (referenceFront wrapping).length⟩] := by
  rw [pageStretches, ReferenceTag.stretches, List.cons_append, marksFrom, value_lineTag,
    marksFrom_append, marksFrom_lineValue, front_lineTag, referenceFront, List.length_append,
    Nat.zero_add, marksFrom, marksFrom, List.append_nil]

/-! ### Reading the line -/

/-- **The line refers to the path, and to nothing else.** -/
theorem references_referenceLine : references (referenceLine wrapping path fragment) =
    [⟨path.text, (referenceFront wrapping).length⟩] := by
  rw [← spell_lineTag]
  unfold references
  rw [candidates_page, marksFrom_lineTag, List.mergeSort_singleton]
  rfl

/-- What is referred to is no link. -/
theorem isLink_referenceLine : isLink (referenceLine wrapping path fragment)
    ⟨path.text, (referenceFront wrapping).length⟩ = false := by
  have before : (referenceLine wrapping path fragment).take (referenceFront wrapping).length =
      referenceFront wrapping := List.take_left
  have none : lastIndexOf? ['@', '{'] (referenceFront wrapping) = none := by
    cases wrapping <;> decide
  -- No link is opened in front of the path.
  unfold isLink
  dsimp only
  rw [before, none]

/-- **Behind the path the fragment is read that was written.** -/
theorem selectorAt?_referenceLine : selectorAt? (referenceLine wrapping path fragment)
    ((referenceFront wrapping).length + path.text.length) = fragment.map FragmentName.text := by
  have behind : (referenceLine wrapping path fragment).drop
      ((referenceFront wrapping).length + path.text.length) =
        selectorText fragment ++ (wrapping.back ++ ['"', '>']) := by
    rw [← List.drop_drop, referenceLine, List.drop_left, List.drop_left]
  unfold selectorAt?
  rw [behind]
  cases fragment with
  | none => cases wrapping <;> rfl
  | some name =>
    obtain ⟨c, cs, hname⟩ := List.exists_cons_of_ne_nil name.ne_nil
    have hc : isBlank c = false :=
      isBlank_eq_false_of_isPathChar
        (isPathChar_of_isNameChar (name.chars c (hname ▸ List.mem_cons_self)))
    have word : (name.text ++ (wrapping.back ++ ['"', '>'])).takeWhile isNameChar = name.text := by
      rw [List.takeWhile_append_of_pos name.chars]
      cases wrapping <;> exact List.append_nil _
    have start : trimLeft ([' '] ++ (name.text ++ (wrapping.back ++ ['"', '>']))) =
        name.text ++ (wrapping.back ++ ['"', '>']) := by
      have hblanks := trimLeft_append oneBlank.blank (name.text ++ (wrapping.back ++ ['"', '>']))
      refine hblanks.trans ?_
      rw [hname]
      exact trimLeft_cons hc _
    show (if ((trimLeft ([' '] ++ (name.text ++ (wrapping.back ++ ['"', '>'])))).takeWhile
        isNameChar).isEmpty then none
      else some ((trimLeft ([' '] ++ (name.text ++ (wrapping.back ++ ['"', '>'])))).takeWhile
        isNameChar)) = some name.text
    rw [start, word, if_neg (by simp [name.ne_nil])]

end TemplateAnalysis.Reference
