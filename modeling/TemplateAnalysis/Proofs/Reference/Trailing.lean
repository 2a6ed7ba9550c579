import Mathlib.Data.List.TakeWhile
import TemplateAnalysis.Proofs.Reference.Origin
import TemplateAnalysis.Proofs.Variable.Parts
import TemplateAnalysis.Reference.Selector

/-! # What stands behind a path

    A path is cut out of its source step by step, and the selector is read again
    from the line, right behind the path. What falls away at the end of a region is
    blank, or a character of which no selector is made:

    * **`selectorAt?_eq_some_iff`**: a selector is read where a separator follows
      behind blanks, and a name behind it;
    * **`separated_or_closed`**: behind a path that a source makes, and behind
      blanks, stands a separator of the source, or something that closes the path;
    * **`selectorAt?_of_mem_references`**: so what is read is always written at a
      separator of the source, and a separator that does not stand right behind the
      path is not seen.
-/

namespace TemplateAnalysis.Reference

open Text Expression Markup

variable {text name : List Char} {region outer : Span} {start middle stop : Nat} {c : Char}

/-! ## Blanks -/

/-- Between the two positions are only blanks. -/
structure BlankTo (text : List Char) (start stop : Nat) : Prop where
  le : start ≤ stop
  blank : ∀ i, start ≤ i → i < stop → charAt text i isBlank = true

theorem BlankTo.refl (text : List Char) (start : Nat) : BlankTo text start start :=
  ⟨Nat.le_refl start, fun _ hle hlt => absurd hle (Nat.not_le_of_lt hlt)⟩

theorem BlankTo.trans (h : BlankTo text start middle) (h' : BlankTo text middle stop) :
    BlankTo text start stop := by
  refine ⟨Nat.le_trans h.le h'.le, fun i hle hlt => ?_⟩
  rcases Nat.lt_or_ge i middle with hfront | hback
  · exact h.blank i hle hfront
  · exact h'.blank i hback hlt

theorem BlankTo.succ (h : BlankTo text start stop) (hblank : charAt text stop isBlank = true) :
    BlankTo text start (stop + 1) := by
  refine h.trans ⟨Nat.le_succ stop, fun i hle hlt => ?_⟩
  obtain rfl : i = stop := Nat.le_antisymm (Nat.le_of_lt_succ hlt) hle
  exact hblank

/-- Blanks end in one place. -/
theorem BlankTo.unique (h : BlankTo text start middle) (h' : BlankTo text start stop)
    (hmiddle : charAt text middle isBlank = false) (hstop : charAt text stop isBlank = false) :
    middle = stop := by
  rcases Nat.lt_trichotomy middle stop with hlt | heq | hlt
  · rw [h'.blank middle h.le hlt] at hmiddle
    contradiction
  · exact heq
  · rw [h.blank stop h'.le hlt] at hstop
    contradiction

/-- Trimming goes on behind blanks. -/
theorem BlankTo.trimLeft_eq (h : BlankTo text start stop) :
    trimLeft (text.drop start) = trimLeft (text.drop stop) := by
  obtain ⟨k, rfl⟩ := Nat.exists_eq_add_of_le h.le
  induction k with
  | zero => rfl
  | succ k ih =>
    have front : BlankTo text start (start + k) :=
      ⟨Nat.le_add_right start k, fun i hle hlt => h.blank i hle (Nat.lt_succ_of_lt hlt)⟩
    obtain ⟨c, hc, hblank⟩ :=
      (Option.any_eq_true _ _).1
        (h.blank (start + k) (Nat.le_add_right start k) (Nat.lt_succ_self _))
    rw [ih front, ← List.getElem_cons_drop (List.getElem?_eq_some_iff.1 hc).1,
      (List.getElem?_eq_some_iff.1 hc).2]
    exact @trimLeft_append [c] (by simpa using hblank) _

/-- What is left by trimming stands behind blanks. -/
theorem exists_blankTo (text : List Char) (start : Nat) :
    ∃ stop, BlankTo text start stop ∧ trimLeft (text.drop start) = text.drop stop := by
  obtain ⟨blanks, hblanks, hdrop⟩ := exists_eq_append_trimLeft (text.drop start)
  refine ⟨start + blanks.length, ⟨Nat.le_add_right start _, fun i hle hlt => ?_⟩, ?_⟩
  · obtain ⟨k, rfl⟩ := Nat.exists_eq_add_of_le hle
    have hk : k < blanks.length := Nat.lt_of_add_lt_add_left hlt
    have here : text[start + k]? = some blanks[k] := by
      rw [← List.getElem?_drop, hdrop, List.getElem?_append_left hk, List.getElem?_eq_getElem hk]
    rw [charAt, here]
    exact hblanks _ (List.getElem_mem hk)
  · rw [← List.drop_drop]
    conv => rhs; rw [hdrop]
    exact List.drop_left.symm

/-! ## Selectors -/

/-- A name stands at the position, behind blanks, with all the word characters and
    dashes that follow. -/
def NameAt (text : List Char) (position : Nat) (name : List Char) : Prop :=
  ∃ blanks rest, text.drop position = blanks ++ (name ++ rest) ∧
    (∀ c ∈ blanks, isBlank c = true) ∧ name ≠ [] ∧ (∀ c ∈ name, isNameChar c = true) ∧
    ∀ c, rest.head? = some c → isNameChar c = false

theorem isBlank_eq_false_of_isNameChar (h : isNameChar c = true) : isBlank c = false := by
  cases hblank : isBlank c with
  | false => rfl
  | true =>
    rw [isNameChar_eq_false_of_isBlank hblank] at h
    contradiction

theorem nameAt_iff : NameAt text start name ↔
    name ≠ [] ∧ (trimLeft (text.drop start)).takeWhile isNameChar = name := by
  constructor
  · rintro ⟨blanks, rest, hdrop, hblanks, hne, hname, hrest⟩
    refine ⟨hne, ?_⟩
    obtain ⟨c, more, rfl⟩ := List.exists_cons_of_ne_nil hne
    rw [hdrop, trimLeft_append hblanks, List.cons_append,
      trimLeft_cons (isBlank_eq_false_of_isNameChar (hname c List.mem_cons_self)),
      ← List.cons_append, List.takeWhile_append_of_pos hname]
    cases rest with
    | nil => simp
    | cons d others => rw [List.takeWhile_cons_of_neg (by simp [hrest d rfl]), List.append_nil]
  · rintro ⟨hne, rfl⟩
    obtain ⟨blanks, hblanks, hdrop⟩ := exists_eq_append_trimLeft (text.drop start)
    refine ⟨blanks, (trimLeft (text.drop start)).dropWhile isNameChar, ?_, hblanks, hne,
      fun c hc => List.mem_takeWhile_imp hc, fun c hc => ?_⟩
    · rwa [List.takeWhile_append_dropWhile]
    · have hfirst := List.head?_dropWhile_not isNameChar (trimLeft (text.drop start))
      rw [hc] at hfirst
      simpa using hfirst

theorem drop_of_separator (h : occursAt [':', ':'] text stop = true) :
    text.drop stop = ':' :: ':' :: text.drop (stop + 2) := by
  obtain ⟨rest, hrest⟩ := List.isPrefixOf_iff_prefix.1 h
  rw [← List.drop_drop, ← hrest]
  rfl

/-- **A selector is read** where a separator follows behind blanks, and a name
    behind it. -/
theorem selectorAt?_eq_some_iff : selectorAt? text start = some name ↔
    ∃ separator, BlankTo text start separator ∧ occursAt [':', ':'] text separator = true ∧
      NameAt text (separator + 2) name := by
  have read : ∀ run : List Char, (if run.isEmpty then none else some run) = some name ↔
      name ≠ [] ∧ run = name := by
    intro run
    split
    · rename_i hempty
      rw [List.isEmpty_iff.1 hempty]
      exact iff_of_false (by simp) fun h => h.1 h.2.symm
    · rename_i hne
      constructor
      · rintro h
        obtain rfl := Option.some.inj h
        exact ⟨by simpa using hne, rfl⟩
      · rintro ⟨-, rfl⟩
        rfl
  obtain ⟨separator, hblank, htrim⟩ := exists_blankTo text start
  constructor
  · intro h
    unfold selectorAt? at h
    rw [htrim] at h
    split at h
    · rename_i rest hrest
      have here : occursAt [':', ':'] text separator = true := by
        rw [occursAt, hrest]
        rfl
      have hdrop := drop_of_separator here
      rw [hrest] at hdrop
      obtain rfl : rest = text.drop (separator + 2) := by simpa using hdrop
      exact ⟨separator, hblank, here, nameAt_iff.2 ((read _).1 h)⟩
    · contradiction
  · rintro ⟨separator, hblank, here, hname⟩
    unfold selectorAt?
    rw [hblank.trimLeft_eq, drop_of_separator here, trimLeft_cons (by decide)]
    exact (read _).2 (nameAt_iff.1 hname)

/-! ## What falls away at the end of a region -/

/-- A character that ends a path without a selector. -/
def endsPath (c : Char) : Bool :=
  !isBlank c && c != ':'

/-- Behind blanks stands a character that ends the path. -/
def Closed (text : List Char) (position : Nat) : Prop :=
  ∃ stop, BlankTo text position stop ∧ charAt text stop endsPath = true

/-- Behind the first position follow blanks up to the second one, or something
    closes the path before that. -/
def LeadsUpTo (text : List Char) (start stop : Nat) : Prop :=
  BlankTo text start stop ∨ Closed text start

theorem Closed.of_char {test : Char → Bool} (h : charAt text stop test = true)
    (htest : ∀ c, test c = true → endsPath c = true) : Closed text stop := by
  obtain ⟨c, hc, hc'⟩ := (Option.any_eq_true _ _).1 h
  exact ⟨stop, .refl text stop, (Option.any_eq_true _ _).2 ⟨c, hc, htest c hc'⟩⟩

/-- A single character, tested by its name. -/
theorem Closed.of_beq (h : charAt text stop (· == c) = true) (hc : endsPath c = true) :
    Closed text stop :=
  .of_char h fun d hd => by rwa [beq_iff_eq.1 hd]

theorem Closed.behind (hblank : BlankTo text start stop) (h : Closed text stop) :
    Closed text start := by
  obtain ⟨position, hblank', hends⟩ := h
  exact ⟨position, hblank.trans hblank', hends⟩

theorem LeadsUpTo.refl (text : List Char) (start : Nat) : LeadsUpTo text start start :=
  .inl (.refl text start)

theorem LeadsUpTo.trans (h : LeadsUpTo text start middle) (h' : LeadsUpTo text middle stop) :
    LeadsUpTo text start stop := by
  rcases h with hblank | hclosed
  · rcases h' with hblank' | hclosed'
    · exact .inl (hblank.trans hblank')
    · exact .inr (hclosed'.behind hblank)
  · exact .inr hclosed

theorem LeadsUpTo.closed (h : LeadsUpTo text start stop) (hclosed : Closed text stop) :
    Closed text start :=
  h.elim (fun hblank => hclosed.behind hblank) id

/-- Nothing is selected behind a closed path. -/
theorem Closed.not_separator (h : Closed text start) (hblank : BlankTo text start stop) :
    ¬ occursAt [':', ':'] text stop = true := by
  intro hseparator
  obtain ⟨position, hblank', hends⟩ := h
  obtain ⟨c, hc, hends⟩ := (Option.any_eq_true _ _).1 hends
  have here := (occursAt_cons.1 hseparator).1
  obtain rfl : position = stop := by
    refine hblank'.unique hblank ?_ ?_
    · have hsolid := (Bool.and_eq_true _ _ ▸ hends).1
      simpa [charAt, hc] using hsolid
    · rw [charAt, here]
      decide
  obtain rfl : c = ':' := Option.some.inj (hc.symm.trans here)
  contradiction

section Narrowing

theorem stop_trimFront (text : List Char) (region : Span) :
    (trimFront text region).stop = region.stop := by
  fun_induction trimFront text region with
  | case1 region _ _ ih => exact ih
  | case2 region _ _ => rfl
  | case3 region _ => rfl

theorem blankTo_trimBack (text : List Char) (region : Span) :
    BlankTo text (trimBack text region).stop region.stop := by
  fun_induction trimBack text region with
  | case1 region hlt hblank ih =>
    have last := ih.succ hblank
    rwa [Nat.sub_add_cancel (by omega)] at last
  | case2 region _ _ => exact .refl text region.stop
  | case3 region _ => exact .refl text region.stop

theorem blankTo_trimRegion (text : List Char) (region : Span) :
    BlankTo text (trimRegion text region).stop region.stop := by
  have back := blankTo_trimBack text (trimFront text region)
  rwa [stop_trimFront] at back

theorem leadsUpTo_trimRegion (text : List Char) (region : Span) :
    LeadsUpTo text (trimRegion text region).stop region.stop :=
  .inl (blankTo_trimRegion text region)

theorem leadsUpTo_stripBars (text : List Char) (region : Span) :
    LeadsUpTo text (stripBars text region).stop region.stop := by
  unfold stripBars
  dsimp only
  split
  · rename_i h
    exact .inr ((leadsUpTo_trimRegion text _).closed
      (.of_beq (Bool.and_eq_true _ _ ▸ h).2 (by decide)))
  · exact leadsUpTo_trimRegion text region

theorem leadsUpTo_stripQuotes (text : List Char) (region : Span) :
    LeadsUpTo text (stripQuotes text region).stop region.stop := by
  unfold stripQuotes
  split
  · rename_i quote _
    split
    · rename_i h
      dsimp only
      split
      · rename_i hlast
        have hquote := (Bool.and_eq_true _ _ ▸ h).2
        refine .inr (.of_beq (Bool.and_eq_true _ _ ▸ hlast).2 ?_)
        rcases isQuote_cases hquote with rfl | rfl <;> decide
      · exact .refl text _
    · exact .refl text _
  · exact .refl text _

theorem leadsUpTo_stripWrapper (text : List Char) (region : Span) :
    LeadsUpTo text (stripWrapper text region).stop region.stop := by
  unfold stripWrapper
  split
  · dsimp only
    split
    · rename_i hlast
      exact .inr (.of_beq (Bool.and_eq_true _ _ ▸ hlast).2 (by decide))
    · exact .refl text _
  · exact .refl text _

theorem stop_stripResolver (text : List Char) (region : Span) :
    (stripResolver text region).stop = region.stop := by
  unfold stripResolver
  split <;> rfl

theorem stop_dropToken (token text : List Char) (region : Span) :
    (dropToken token text region).stop = region.stop := by
  unfold dropToken
  split <;> rfl

/-- From the end of a path with its selector to the end of its region. -/
theorem leadsUpTo_pathRegion (text : List Char) (region : Span) :
    LeadsUpTo text (pathRegion text region).stop region.stop := by
  unfold pathRegion
  rw [stop_dropToken, stop_dropToken, stop_stripResolver]
  exact (leadsUpTo_stripBars text _).trans <| (leadsUpTo_stripWrapper text _).trans <|
    (leadsUpTo_stripQuotes text _).trans (leadsUpTo_trimRegion text region)

theorem occursAt_of_findTopLevelIn {token : List Char}
    (h : findTopLevelIn token text start stop = some middle) :
    occursAt token text middle = true := by
  obtain ⟨before, after, rfl, rfl⟩ := exists_of_findTopLevelIn h
  rw [occursAt, List.drop_left, List.isPrefixOf_iff_prefix]
  exact List.prefix_append token after

/-- What cuts a path short closes it, unless it is a separator. -/
theorem leadsUpTo_cutAt (hc : endsPath c = true) (text : List Char) (region : Span) :
    LeadsUpTo text (cutAt [c] text region).stop region.stop := by
  unfold cutAt
  split
  · rename_i stop hstop
    refine .inr (.of_beq ?_ hc)
    rw [charAt, (occursAt_cons.1 (occursAt_of_findTopLevelIn hstop)).1]
    simp
  · exact .refl text _

end Narrowing

/-! ## Separators -/

/-- A separator of a source: the first `::` outside of quotes and brackets, in the
    body of a fragment expression or in what is left of the source without blanks,
    quotes, wrapper, bars and prefixes. -/
inductive Source.Separates (text : List Char) : Source → Nat → Prop
  | ofBody {region : Span} {stop : Nat}
      (h : findTopLevelIn [':', ':'] text region.start stop = some region.stop) :
      Separates text (.fragment region) region.stop
  | ofPath {source : Source} {separator : Nat}
      (h : findTopLevelIn [':', ':'] text (pathRegion text (source.region text)).start
        (pathRegion text (source.region text)).stop = some separator) :
      Separates text source separator

variable {source : Source} {reference : ReferredPath} {position : Nat}

theorem Source.Separates.occursAt (h : source.Separates text position) :
    occursAt [':', ':'] text position = true := by
  cases h with
  | ofBody h => exact occursAt_of_findTopLevelIn h
  | ofPath h => exact occursAt_of_findTopLevelIn h

/-- The position is a separator of the source, or it is closed. -/
def Source.EndsAt (text : List Char) (source : Source) (position : Nat) : Prop :=
  source.Separates text position ∨ Closed text position

theorem lt_length_of_charAt {test : Char → Bool} (h : charAt text position test = true) :
    position < text.length := by
  obtain ⟨c, hc, -⟩ := (Option.any_eq_true _ _).1 h
  exact (List.getElem?_eq_some_iff.1 hc).1

theorem Source.EndsAt.lt_length (h : source.EndsAt text position) : position < text.length := by
  rcases h with hseparates | ⟨stop, hblank, hends⟩
  · exact (List.getElem?_eq_some_iff.1 (occursAt_cons.1 hseparates.occursAt).1).1
  · exact Nat.lt_of_le_of_lt hblank.le (lt_length_of_charAt hends)

/-- The body of a fragment expression is cut at its separator, or it ends at its
    brace. -/
theorem endsAt_fragment (h : charAt text stop (· == '}') = true) (start : Nat) :
    (Source.fragment (cutAt [':', ':'] text ⟨start, stop⟩)).EndsAt text
      (cutAt [':', ':'] text ⟨start, stop⟩).stop := by
  unfold cutAt
  split
  · rename_i separator hseparator
    exact .inl (.ofBody hseparator)
  · exact .inr (.of_beq h (by decide))

theorem charAt_of_isFragmentExpression (h : isFragmentExpression text region = true) :
    charAt text (region.stop - 1) (· == '}') = true := by
  obtain ⟨hopens, hcloses⟩ := Bool.and_eq_true _ _ ▸ h
  have hbrace := (occursAt_cons.1 (occursAt_cons.1 hopens).2).1
  have hdrop := List.getElem_cons_drop (List.getElem?_eq_some_iff.1 hbrace).1
  rw [(List.getElem?_eq_some_iff.1 hbrace).2] at hdrop
  rw [beq_iff_eq, findClosing, ← hdrop] at hcloses
  obtain ⟨k, hk, hstop⟩ := Option.map_eq_some_iff.1 hcloses
  have hcloser := getElem?_closingOffset hk
  rw [hdrop, List.getElem?_drop, Nat.add_comm] at hcloser
  rw [charAt, ← hstop, hcloser]
  simp

theorem endsAt_of_mem_branchSources (h : source ∈ branchSources text region) :
    source.EndsAt text (source.region text).stop := by
  unfold branchSources at h
  dsimp only at h
  split at h
  · contradiction
  · split at h
    · rename_i hquoted
      obtain ⟨hquote, hsame⟩ := Bool.and_eq_true _ _ ▸ hquoted
      rw [List.mem_singleton.1 h]
      have last : charAt text ((trimRegion text region).stop - 1) isQuote = true := by
        rwa [charAt, beq_iff_eq.1 hsame]
      refine .inr (.of_char last fun c hc => ?_)
      rcases isQuote_cases hc with rfl | rfl <;> decide
    · split at h
      · rename_i hfragment
        rw [List.mem_singleton.1 h]
        exact endsAt_fragment (charAt_of_isFragmentExpression hfragment) _
      · contradiction

/-- The quote that closes a value closes what is left of it. -/
theorem closed_value {attr : Attribute} (hattr : attr ∈ attributesNamed referenceAttributes text) :
    Closed text ((Source.value attr).region text).stop := by
  obtain ⟨front, -, hwritten⟩ := exists_written_of_mem_attributesNamed hattr
  obtain ⟨sign, quote, rest, hquote, -, hstart, htext⟩ := hwritten.spelled
  have here : text[attr.stop]? = some quote := by
    have regroup : text = (front ++ (attr.name ++ (sign.print ++ quote :: attr.value))) ++
        quote :: rest := by simp [htext]
    have hstop : attr.stop =
        (front ++ (attr.name ++ (sign.print ++ quote :: attr.value))).length := by
      simp only [Attribute.stop, hstart, List.length_append, List.length_cons]
      omega
    rw [hstop, regroup, List.getElem?_append_right (Nat.le_refl _), Nat.sub_self]
    rfl
  refine (leadsUpTo_stripBars text ⟨attr.start, attr.stop⟩).closed (.of_beq (c := quote) ?_ ?_)
  · rw [charAt, here]
    simp
  · rcases hquote with rfl | rfl <;> decide

theorem endsAt_of_mem_valueSources {attr : Attribute}
    (hattr : attr ∈ attributesNamed referenceAttributes text)
    (h : source ∈ valueSources text attr) : source.EndsAt text (source.region text).stop := by
  unfold valueSources at h
  dsimp only at h
  split at h
  · contradiction
  · split at h
    · obtain ⟨branch, -, hbranch⟩ := List.mem_flatMap.1 h
      exact endsAt_of_mem_branchSources hbranch
    · split at h
      · rename_i hfragment
        rw [List.mem_singleton.1 h]
        exact endsAt_fragment (charAt_of_isFragmentExpression hfragment) _
      · rw [List.mem_singleton.1 h]
        exact .inr (closed_value hattr)

theorem endsAt_bodySource (h : charAt text stop (· == '}') = true) (sigil : Char) (start : Nat) :
    (bodySource text sigil ⟨start, stop⟩).EndsAt text
      ((bodySource text sigil ⟨start, stop⟩).region text).stop := by
  unfold bodySource
  split
  · exact endsAt_fragment h start
  · -- A link ends at the first of its signs, or at its brace.
    refine .inr (LeadsUpTo.closed ?_ (.of_beq h (by decide)))
    exact (leadsUpTo_cutAt (by decide) text _).trans <|
      (leadsUpTo_cutAt (by decide) text _).trans <|
      (leadsUpTo_cutAt (by decide) text _).trans (leadsUpTo_stripBars text ⟨start, stop⟩)

theorem endsAt_of_mem_expressionSourcesFrom {covered : List Span} {cs : List Char}
    (hcs : text.drop position = cs) (h : source ∈ expressionSourcesFrom text covered position cs) :
    source.EndsAt text (source.region text).stop := by
  fun_induction expressionSourcesFrom text covered position cs with
  | case1 => contradiction
  | case2 => contradiction
  | case3 position c d rest hopen hcovered ih => exact ih (by rw [← List.drop_drop, hcs]; rfl) h
  | case4 position c d rest hopen hcovered hclose ih =>
    exact ih (by rw [← List.drop_drop, hcs]; rfl) h
  | case5 position c d rest hopen hcovered k hclose ih =>
    rcases List.mem_cons.1 h with rfl | h
    · refine endsAt_bodySource ?_ c (position + 2)
      have hcloser := getElem?_closingOffset hclose
      have hdrop : text.drop (position + 1) = d :: rest := by rw [← List.drop_drop, hcs]; rfl
      rw [← hdrop, List.getElem?_drop] at hcloser
      rw [charAt, hcloser]
      simp
    · exact ih (by rw [← List.drop_drop, ← List.drop_drop, hcs]; rfl) h
  | case6 position c d rest hopen ih => exact ih (by rw [← List.drop_drop, hcs]; rfl) h

/-- **Where sources end**: at a separator, or at something that closes the path. -/
theorem endsAt_of_mem_sources (h : source ∈ sources text) :
    source.EndsAt text (source.region text).stop := by
  rcases List.mem_append.1 h with h | h
  · obtain ⟨attr, hattr, h⟩ := List.mem_flatMap.1 h
    exact endsAt_of_mem_valueSources hattr h
  · exact endsAt_of_mem_expressionSourcesFrom List.drop_zero h

/-! ## Behind a path -/

/-- A reference ends where the region does that it fills. -/
theorem stop_slice (hstop : region.stop ≤ text.length) (hne : region.slice text ≠ []) :
    ReferredPath.stop ⟨region.slice text, region.start⟩ = region.stop := by
  have hpos := List.length_pos_iff.2 hne
  have hlen := length_slice hstop
  simp only [ReferredPath.stop]
  omega

/-- Behind the path that a region makes follows its separator, or the end of the
    region, or something that closes the path. -/
theorem separator_or_leadsUpTo (hstop : region.stop ≤ text.length)
    (h : reference ∈ referenceIn text region) :
    (∃ separator, findTopLevelIn [':', ':'] text (pathRegion text region).start
        (pathRegion text region).stop = some separator ∧ BlankTo text reference.stop separator) ∨
      LeadsUpTo text reference.stop region.stop := by
  have whole := (inside_pathRegion text region).stop_le
  unfold referenceIn at h
  dsimp only at h
  split at h
  · -- A preprocessed path keeps everything up to its last underscore, with the
    -- separator if there is one.
    rename_i hpre
    obtain rfl := List.mem_singleton.1 h
    have hne : (pathRegion text region).slice text ≠ [] := by
      intro hnil
      have hfirst := (ends_of_isPreprocessed hpre).1
      simp [hnil] at hfirst
    rw [stop_slice (Nat.le_trans whole hstop) hne]
    exact .inr (leadsUpTo_pathRegion text region)
  · split at h
    · rename_i hpath
      obtain rfl := List.mem_singleton.1 h
      have inside : Inside shedTokens text _ region := (inside_trimRegion text _).trans <|
        (inside_cutAt ['('] text _).trans <| (inside_cutAt [':', ':'] text _).trans
          (inside_pathRegion text region)
      rw [stop_slice (Nat.le_trans inside.stop_le hstop) (ne_nil_of_isPath hpath)]
      -- From the path to where the name of the template was cut off at its separator.
      have named := (leadsUpTo_trimRegion text _).trans
        (leadsUpTo_cutAt (c := '(') (by decide) text
          (cutAt [':', ':'] text (pathRegion text region)))
      cases hseparator : findTopLevelIn [':', ':'] text (pathRegion text region).start
          (pathRegion text region).stop with
      | some separator =>
        have hcut : (cutAt [':', ':'] text (pathRegion text region)).stop = separator := by
          rw [cutAt, hseparator]
        rw [hcut] at named
        rcases named with hblank | hclosed
        · exact .inl ⟨separator, rfl, hblank⟩
        · exact .inr (.inr hclosed)
      | none =>
        have hcut : cutAt [':', ':'] text (pathRegion text region) = pathRegion text region := by
          rw [cutAt, hseparator]
        rw [hcut] at named ⊢
        exact .inr (named.trans (leadsUpTo_pathRegion text region))
    · simp at h

/-- **What stands behind a path**: behind blanks a separator of its source, or
    something that closes it. -/
theorem separated_or_closed (hsource : source ∈ sources text)
    (h : reference ∈ source.references text) :
    (∃ separator, source.Separates text separator ∧ BlankTo text reference.stop separator) ∨
      Closed text reference.stop := by
  have hends := endsAt_of_mem_sources hsource
  rcases separator_or_leadsUpTo (Nat.le_of_lt hends.lt_length) h with
    ⟨separator, hseparator, hblank⟩ | hleads
  · exact .inl ⟨separator, .ofPath hseparator, hblank⟩
  · rcases hends with hseparates | hclosed
    · rcases hleads with hblank | hclosed
      · exact .inl ⟨_, hseparates, hblank⟩
      · exact .inr hclosed
    · exact .inr (hleads.closed hclosed)

/-- **What is selected behind a path** is the name at a separator of its source, but
    only at one that follows the path behind nothing but blanks. -/
theorem selectorAt?_of_mem_references (hsource : source ∈ sources text)
    (h : reference ∈ source.references text) :
    selectorAt? text reference.stop = some name ↔
      ∃ separator, source.Separates text separator ∧ BlankTo text reference.stop separator ∧
        NameAt text (separator + 2) name := by
  rw [selectorAt?_eq_some_iff]
  constructor
  · rintro ⟨position, hblank, hhere, hname⟩
    rcases separated_or_closed hsource h with ⟨separator, hseparates, hblank'⟩ | hclosed
    · -- Both separators stand right behind the same blanks.
      have colon : ∀ {i : Nat}, occursAt [':', ':'] text i = true →
          charAt text i isBlank = false := by
        intro i hi
        rw [charAt, (occursAt_cons.1 hi).1]
        decide
      obtain rfl := hblank'.unique hblank (colon hseparates.occursAt) (colon hhere)
      exact ⟨_, hseparates, hblank, hname⟩
    · exact absurd hhere (hclosed.not_separator hblank)
  · rintro ⟨separator, hseparates, hblank, hname⟩
    exact ⟨separator, hblank, hseparates.occursAt, hname⟩

end TemplateAnalysis.Reference
