import Mathlib.Data.List.Basic
import TemplateAnalysis.Proofs.Reference.Opening
import TemplateAnalysis.Proofs.Reference.Order

/-! # Where references come from

    A path is cut out of the value of an attribute, out of a quoted branch of a
    condition, or out of the braces of an expression. Which of them it was is forgotten
    with the extraction, and guessed again from the nearest opening in front of the
    path:

    * **`candidates_eq_flatMap`**: the extraction, with the sources of the paths kept;
    * **`isLink_iff`**: the guess, as a statement about the text in front of the path;
    * **`isLink_eq_fromLink_iff`**: the guess is right but for the mistaken sources.

    What falls away between a source and its path opens nothing, but for a wrapper. So
    the guess depends on what stands in front of the source.
-/

namespace TemplateAnalysis.Reference

open Text Expression Markup

/-! ## Sources -/

/-- What a path is cut out of. -/
inductive Source
  /-- The whole value of an attribute. -/
  | value (attr : Attribute)
  /-- The text between the quotes of a branch. -/
  | quoted (region : Span)
  /-- A fragment expression, up to its selector. -/
  | fragment (region : Span)
  /-- A link, without parameters, query and anchor. -/
  | link (region : Span)
  deriving DecidableEq

/-- The region of a source. -/
def Source.region (text : List Char) : Source → Span
  | .value attr => stripBars text ⟨attr.start, attr.stop⟩
  | .quoted region => region
  | .fragment region => region
  | .link region => region

/-- The reference that a source makes, if it makes one. -/
def Source.references (text : List Char) (source : Source) : List ReferredPath :=
  referenceIn text (source.region text)

/-- The source in a branch of a condition. -/
def branchSources (text : List Char) (region : Span) : List Source :=
  let branch := trimRegion text region
  if branch.stop < branch.start + 2 then []
  else if charAt text branch.start isQuote && text[branch.stop - 1]? == text[branch.start]? then
    [.quoted ⟨branch.start + 1, branch.stop - 1⟩]
  else if isFragmentExpression text branch then
    [.fragment (cutAt [':', ':'] text ⟨branch.start + 2, branch.stop - 1⟩)]
  else []

/-- The sources in the value of an attribute. -/
def valueSources (text : List Char) (attr : Attribute) : List Source :=
  let region := stripBars text ⟨attr.start, attr.stop⟩
  if region.stop ≤ region.start then []
  else match branches? text region with
    | some branches => branches.flatMap (branchSources text)
    | none =>
      if isFragmentExpression text region then
        [.fragment (cutAt [':', ':'] text ⟨region.start + 2, region.stop - 1⟩)]
      else [.value attr]

/-- The source in the braces of an expression. -/
def bodySource (text : List Char) (sigil : Char) (inner : Span) : Source :=
  if sigil == '~' then .fragment (cutAt [':', ':'] text inner)
  else .link (cutAt ['#'] text (cutAt ['?'] text (cutAt ['('] text (stripBars text inner))))

/-- The sources in the expressions of the text `cs` that stands at `position`, but for
    those that start in a covered span. -/
def expressionSourcesFrom (text : List Char) (covered : List Span) (position : Nat) :
    List Char → List Source
  | [] => []
  | [_] => []
  | c :: d :: rest =>
    if (c == '~' || c == '@') && d == '{' then
      if covered.any fun span => span.start ≤ position && position < span.stop then
        expressionSourcesFrom text covered (position + 2) rest
      else match closingOffset '{' '}' .outside 0 (d :: rest) with
        | none => expressionSourcesFrom text covered (position + 2) rest
        | some k =>
          bodySource text c ⟨position + 2, position + 1 + k⟩ ::
            expressionSourcesFrom text covered (position + 2 + k) (rest.drop k)
    else expressionSourcesFrom text covered (position + 1) (d :: rest)
termination_by cs => cs.length
decreasing_by
  all_goals
    simp only [List.length_cons, List.length_drop]
    omega

/-- The sources of all paths of a text. -/
def sources (text : List Char) : List Source :=
  (attributesNamed referenceAttributes text).flatMap (valueSources text) ++
    expressionSourcesFrom text (referenceValues text) 0 text

/-! ### The extraction with its sources -/

theorem branchReferences_eq (text : List Char) (region : Span) :
    branchReferences text region =
      (branchSources text region).flatMap (Source.references text) := by
  unfold branchReferences branchSources
  dsimp only
  split
  · rfl
  · split
    · rw [List.flatMap_singleton]
      rfl
    · split
      · rw [List.flatMap_singleton]
        rfl
      · rfl

theorem valueReferences_eq (text : List Char) (attr : Attribute) :
    valueReferences text ⟨attr.start, attr.stop⟩ =
      (valueSources text attr).flatMap (Source.references text) := by
  unfold valueReferences valueSources
  dsimp only
  split
  · rfl
  · cases branches? text (stripBars text ⟨attr.start, attr.stop⟩) with
    | some branches =>
      dsimp only
      rw [List.flatMap_assoc]
      exact congrArg (List.flatMap · branches) (funext (branchReferences_eq text))
    | none =>
      dsimp only
      split
      · rw [List.flatMap_singleton]
        rfl
      · rw [List.flatMap_singleton]
        rfl

theorem references_bodySource (text : List Char) (sigil : Char) (inner : Span) :
    (bodySource text sigil inner).references text =
      if sigil == '~' then fragmentReferences text inner else linkReferences text inner := by
  unfold bodySource
  split <;> rfl

theorem expressionReferencesFrom_eq (text : List Char) (covered : List Span) (position : Nat)
    (cs : List Char) : expressionReferencesFrom text covered position cs =
      (expressionSourcesFrom text covered position cs).flatMap (Source.references text) := by
  fun_induction expressionReferencesFrom text covered position cs with
  | case1 => rw [expressionSourcesFrom]; rfl
  | case2 => rw [expressionSourcesFrom]; rfl
  | case3 position c d rest hopen hcovered ih =>
    rw [expressionSourcesFrom, if_pos hopen, if_pos hcovered, ih]
  | case4 position c d rest hopen hcovered hclose ih =>
    rw [expressionSourcesFrom, if_pos hopen, if_neg hcovered, hclose, ih]
  | case5 position c d rest hopen hcovered k hclose inner ih =>
    rw [expressionSourcesFrom, if_pos hopen, if_neg hcovered, hclose, ih]
    dsimp only
    rw [List.flatMap_cons, references_bodySource]
  | case6 position c d rest hopen ih =>
    rw [expressionSourcesFrom, if_neg hopen, ih]

/-- **Every candidate has a source.** -/
theorem candidates_eq_flatMap (text : List Char) :
    candidates text = (sources text).flatMap (Source.references text) := by
  unfold candidates sources
  dsimp only
  rw [List.flatMap_append, expressionReferencesFrom_eq, List.flatMap_assoc, List.flatMap_map]
  simp only [valueReferences_eq]
  rfl

theorem exists_source_of_mem_references {text : List Char} {reference : ReferredPath}
    (h : reference ∈ references text) :
    ∃ source ∈ sources text, reference ∈ source.references text := by
  have listed := mem_candidates_of_mem_references h
  rw [candidates_eq_flatMap] at listed
  exact List.mem_flatMap.1 listed

/-! ## What stands in front of a source -/

/-- What is known of the text in front of a source. -/
def Source.Opened (text : List Char) : Source → Prop
  | .value attr => attr ∈ attributesNamed referenceAttributes text
  | .quoted region => ∃ quote, region.start = quote + 1 ∧ charAt text quote isQuote = true
  | .fragment region =>
    ∃ opening, region.start = opening + 2 ∧ occursAt ['~', '{'] text opening = true
  | .link region =>
    ∃ opening, occursAt ['@', '{'] text opening = true ∧
      Shed plainTokens text (opening + 2) region.start

section Opened

variable {text : List Char} {source : Source} {region : Span} {reference : ReferredPath}

/-- A fragment expression that fills a region opens there. -/
theorem opened_fragment (h : isFragmentExpression text region = true) (stop : Nat) :
    (Source.fragment (cutAt [':', ':'] text ⟨region.start + 2, stop⟩)).Opened text := by
  refine ⟨region.start, ?_, (Bool.and_eq_true _ _ ▸ h).1⟩
  unfold cutAt
  split <;> rfl

theorem opened_of_mem_branchSources (h : source ∈ branchSources text region) :
    source.Opened text := by
  unfold branchSources at h
  dsimp only at h
  split at h
  · contradiction
  · split at h
    · rename_i hquoted
      rw [List.mem_singleton.1 h]
      exact ⟨_, rfl, (Bool.and_eq_true _ _ ▸ hquoted).1⟩
    · split at h
      · rename_i hfragment
        rw [List.mem_singleton.1 h]
        exact opened_fragment hfragment _
      · contradiction

theorem opened_of_mem_valueSources {attr : Attribute}
    (hattr : attr ∈ attributesNamed referenceAttributes text)
    (h : source ∈ valueSources text attr) :
    source.Opened text := by
  unfold valueSources at h
  dsimp only at h
  split at h
  · contradiction
  · split at h
    · obtain ⟨branch, -, hbranch⟩ := List.mem_flatMap.1 h
      exact opened_of_mem_branchSources hbranch
    · split at h
      · rename_i hfragment
        rw [List.mem_singleton.1 h]
        exact opened_fragment hfragment _
      · rw [List.mem_singleton.1 h]
        exact hattr

/-- The braces of an expression open behind its sigil. -/
theorem opened_bodySource {position stop : Nat} {c d : Char} {rest : List Char}
    (hcs : text.drop position = c :: d :: rest)
    (hopen : ((c == '~' || c == '@') && d == '{') = true) :
    (bodySource text c ⟨position + 2, stop⟩).Opened text := by
  obtain ⟨hsigil, hbrace⟩ := Bool.and_eq_true _ _ ▸ hopen
  have opening : occursAt [c, '{'] text position = true := by
    rw [occursAt, hcs, List.isPrefixOf, List.isPrefixOf, beq_iff_eq.1 hbrace]
    simp [List.isPrefixOf]
  unfold bodySource
  by_cases hc : c = '~'
  · subst hc
    refine ⟨position, ?_, opening⟩
    unfold cutAt
    split <;> rfl
  · obtain rfl : c = '@' := by simpa [hc] using hsigil
    have body := (inside_cutAt ['#'] text _).trans <| (inside_cutAt ['?'] text _).trans <|
      (inside_cutAt ['('] text _).trans (inside_stripBars text ⟨position + 2, stop⟩)
    exact ⟨position, opening, body.shed⟩

theorem opened_of_mem_expressionSourcesFrom {covered : List Span} {position : Nat} {cs : List Char}
    (hcs : text.drop position = cs) (h : source ∈ expressionSourcesFrom text covered position cs) :
    source.Opened text := by
  fun_induction expressionSourcesFrom text covered position cs with
  | case1 => contradiction
  | case2 => contradiction
  | case3 position c d rest hopen hcovered ih => exact ih (by rw [← List.drop_drop, hcs]; rfl) h
  | case4 position c d rest hopen hcovered hclose ih =>
    exact ih (by rw [← List.drop_drop, hcs]; rfl) h
  | case5 position c d rest hopen hcovered k hclose ih =>
    rcases List.mem_cons.1 h with rfl | h
    · exact opened_bodySource hcs hopen
    · exact ih (by rw [← List.drop_drop, ← List.drop_drop, hcs]; rfl) h
  | case6 position c d rest hopen ih => exact ih (by rw [← List.drop_drop, hcs]; rfl) h

/-- **What stands in front of the sources of a text.** -/
theorem opened_of_mem_sources (h : source ∈ sources text) : source.Opened text := by
  rcases List.mem_append.1 h with h | h
  · obtain ⟨attr, hattr, h⟩ := List.mem_flatMap.1 h
    exact opened_of_mem_valueSources hattr h
  · exact opened_of_mem_expressionSourcesFrom List.drop_zero h

/-! ### The front of a value -/

section Written

variable {attr : Attribute} {outer : List Char}

/-- A quote stands in front of a value. -/
theorem unsigned_start (h : attr.WrittenBehind outer text) : Unsigned text attr.start := by
  obtain ⟨sign, quote, hq, hstart, hfront⟩ := exists_front_of_writtenBehind h
  intro i hi
  have here := hfront _ (Nat.le_refl _)
  rw [List.getElem?_concat_length] at here
  obtain rfl : i = outer.length + (attr.name ++ sign.print).length := by omega
  rw [charAt, here, Option.any_some]
  have quotes : quote = '\'' ∨ quote = '"' := by simpa [isQuote] using hq
  rcases quotes with rfl | rfl <;> decide

/-- Between a name and the quote no opening ends. -/
theorem endsOpening_eq_false_of_mem {sign : Sign}
    (hname : attr.name ∈ referenceAttributes.map String.toList) {c : Char}
    (hc : c ∈ attr.name ++ sign.print) : endsOpening c = false := by
  have blank : isBlank c = true → endsOpening c = false := fun hb =>
    (Bool.or_eq_false_iff.1 (inOpening_eq_false_of_isBlank hb)).2
  simp only [Sign.print, List.mem_append, List.mem_cons] at hc
  rcases hc with hc | hc | rfl | hc
  · have names : ∀ c ∈ (referenceAttributes.map String.toList).flatten, endsOpening c = false :=
      List.all_iff_forall_prop.1 (by decide)
    exact names c (List.mem_flatten_of_mem hname hc)
  · exact blank (sign.front_blank c hc)
  · decide
  · exact blank (sign.back_blank c hc)

/-- **In front of a value** its sign opens it. Only where a blank follows the sign it
    does not, and what stands in front of the attribute decides. -/
theorem behindLink_start (hname : attr.name ∈ referenceAttributes.map String.toList)
    (h : attr.WrittenBehind outer text) :
    BehindLink text attr.start ↔
      charAt text (attr.start - 2) isBlank = true ∧ BehindLink text outer.length := by
  obtain ⟨sign, quote, hq, hstart, hfront⟩ := exists_front_of_writtenBehind h
  obtain ⟨n, hn⟩ : ∃ n, (attr.name ++ sign.print).length = n + 1 :=
    Nat.exists_eq_add_one.2 (List.length_pos_iff.2 (by simp [Sign.print]))
  have hquote := hfront _ (Nat.le_refl _)
  rw [List.getElem?_concat_length, hn] at hquote
  -- What the quote follows: the sign, or the last blank behind it.
  have hlast : text[outer.length + n]? = ('=' :: sign.back).getLast? := by
    rw [hfront n (by omega), List.getElem?_append_left (by omega),
      show n = (attr.name ++ sign.print).length - 1 by omega, ← List.getLast?_eq_getElem?,
      Sign.print, ← List.append_assoc, List.getLast?_append_cons]
  rw [show attr.start - 2 = outer.length + n by omega, charAt, hlast]
  obtain hback | ⟨blanks, blank, hback⟩ := List.eq_nil_or_concat sign.back
  · rw [hback, List.getLast?_singleton] at hlast ⊢
    refine iff_of_false ?_ fun hb => absurd hb.1 (by decide)
    rw [show attr.start = outer.length + n + 2 by omega]
    refine not_behindLink_of_occursAt ?_ (occursAt_pair.2 ⟨hlast, hquote⟩)
    have quotes : quote = '\'' ∨ quote = '"' := by simpa [isQuote] using hq
    rcases quotes with rfl | rfl <;> decide
  · have hb : isBlank blank = true := sign.back_blank blank (by simp [hback])
    rw [hback, List.concat_eq_append, ← List.cons_append, List.getLast?_concat] at hlast ⊢
    rw [Option.any_some, and_iff_right hb]
    -- Up to the quote no opening ends, and it makes none with a blank.
    have front : Unopened text outer.length (outer.length + n + 1) := by
      refine unopened_of_chars fun i hle hlt => (Option.any_eq_false _ _).2 fun c hc => ?_
      obtain ⟨k, rfl⟩ := Nat.exists_eq_add_of_le hle
      rw [hfront k (by omega), List.getElem?_append_left (by omega)] at hc
      exact endsOpening_eq_false_of_mem hname (List.mem_of_getElem? hc)
    have quoted : Unopened text (outer.length + n + 1) (outer.length + n + 2) := by
      refine unopened_of_quote ?_ fun i hi => ?_
      · rw [charAt, show outer.length + n + 1 = outer.length + (n + 1) by omega, hquote]
        exact hq
      · obtain rfl : i = outer.length + n := by omega
        rw [charAt, hlast, Option.any_some, beq_eq_false_iff_ne]
        rintro rfl
        exact absurd hb (by decide)
    rw [show attr.start = outer.length + n + 2 by omega]
    exact ((behindLink_congr (by omega) front).trans (behindLink_congr (Nat.le_succ _) quoted)).symm

end Written

/-! ## Telling links -/

/-- Is the path taken out of a link? -/
def Source.fromLink (text : List Char) (source : Source) : Bool :=
  (match source with
    | .link _ => true
    | _ => false) || wrappedAsLink text (source.region text)

/-- The sources whose paths are taken for what they are not: a link that wraps its path
    as a fragment expression; and a value or a branch that does not wrap it, but is the
    first to open behind a link, the value because a blank follows its sign. -/
def Source.Mistaken (text : List Char) (source : Source) : Prop :=
  match source with
  | .link region => wrappedAsFragment text region = true
  | .fragment _ => False
  | .quoted region =>
    wrappedAsLink text region = false ∧ wrappedAsFragment text region = false ∧
      BehindLink text region.start
  | .value attr =>
    wrappedAsLink text (source.region text) = false ∧
      wrappedAsFragment text (source.region text) = false ∧
      charAt text (attr.start - 2) isBlank = true ∧
      ∃ front, attr.WrittenBehind front text ∧ BehindLink text front.length

/-- The front of a value, without its bars. -/
theorem front_value {attr : Attribute} (hattr : attr ∈ attributesNamed referenceAttributes text) :
    Unsigned text ((Source.value attr).region text).start ∧
      (BehindLink text ((Source.value attr).region text).start ↔
        charAt text (attr.start - 2) isBlank = true ∧
          ∃ front, attr.WrittenBehind front text ∧ BehindLink text front.length) := by
  obtain ⟨outer, hname, hwritten⟩ := exists_written_of_mem_attributesNamed hattr
  have bars := (inside_stripBars text ⟨attr.start, attr.stop⟩).shed
  refine ⟨bars.unsigned (unsigned_start hwritten), bars.behindLink_iff.symm.trans ?_⟩
  constructor
  · intro hbehind
    obtain ⟨hblank, hfront⟩ := (behindLink_start hname hwritten).1 hbehind
    exact ⟨hblank, outer, hwritten, hfront⟩
  · rintro ⟨hblank, front, hwritten, hfront⟩
    exact (behindLink_start hname hwritten).2 ⟨hblank, hfront⟩

/-- A source is mistaken, when it is no expression, by what is in front of it. -/
theorem isLink_eq_wrappedAsLink_iff (hsign : Unsigned text region.start)
    (h : reference ∈ referenceIn text region) :
    isLink text reference = wrappedAsLink text region ↔
      ¬ (wrappedAsLink text region = false ∧ wrappedAsFragment text region = false ∧
        BehindLink text region.start) := by
  rw [Bool.eq_iff_iff, isLink_iff_of_mem_referenceIn hsign h]
  cases wrappedAsLink text region with
  | true => simp
  | false => simp

/-- **The guess is right**, but for the mistaken sources. -/
theorem isLink_eq_fromLink_iff (hsource : source ∈ sources text)
    (h : reference ∈ source.references text) :
    isLink text reference = source.fromLink text ↔ ¬ source.Mistaken text := by
  have opened := opened_of_mem_sources hsource
  cases source with
  | value attr =>
    obtain ⟨hsign, hfront⟩ := front_value opened
    have guess := isLink_eq_wrappedAsLink_iff hsign h
    rw [hfront] at guess
    exact guess
  | quoted region =>
    obtain ⟨quote, hstart, hquote⟩ := opened
    have hsign : charAt text quote (· == '=') = false := by
      refine charAt_eq_false_of hquote fun c hc => beq_eq_false_iff_ne.2 ?_
      rintro rfl
      exact absurd hc (by decide)
    exact isLink_eq_wrappedAsLink_iff (hstart ▸ unsigned_succ hsign) h
  | fragment region =>
    obtain ⟨opening, hstart, hopening⟩ := opened
    have hsign : Unsigned text region.start := hstart ▸ unsigned_of_occursAt hopening
    have hfront : ¬ BehindLink text region.start :=
      hstart ▸ not_behindLink_of_occursAt (by decide) hopening
    exact (isLink_eq_wrappedAsLink_iff hsign h).trans (by simp [Source.Mistaken, hfront])
  | link region =>
    obtain ⟨opening, hopening, hshed⟩ := opened
    have hsign : Unsigned text region.start := hshed.unsigned (unsigned_of_occursAt hopening)
    have hfront : BehindLink text region.start :=
      hshed.behindLink_iff.1 (behindLink_of_occursAt hopening)
    have guess : isLink text reference = true ↔ wrappedAsLink text region = true ∨
        (wrappedAsFragment text region = false ∧ BehindLink text region.start) :=
      isLink_iff_of_mem_referenceIn hsign h
    show isLink text reference = true ↔ ¬ wrappedAsFragment text region = true
    rw [guess, and_iff_left hfront, Bool.not_eq_true]
    exact or_iff_right_of_imp wrappedAsFragment_eq_false

end Opened

end TemplateAnalysis.Reference
