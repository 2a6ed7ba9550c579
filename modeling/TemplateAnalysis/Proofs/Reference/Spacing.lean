import TemplateAnalysis.Proofs.Reference.Page
import TemplateAnalysis.Proofs.Reference.Path

/-! # Blanks around a selector

    The path of a reference ends where its selector begins, with blanks around the two
    colons or without. There is one exception: a resolver prefix is taken off before
    the selector is, so a template that is named like a resolver loses its name when
    the colons follow directly.

    * **`stripResolver_path`**: what is taken off in front of two colons;
    * **`referenceIn_selected`**: what a region refers to that holds a path and its
      selector;
    * **`references_spaced`**: what a tag refers to, with a plain reference or with one
      in a fragment expression.
-/

namespace TemplateAnalysis.Reference

open Text Expression Markup

variable {text rest tail more : List Char} {region : Span}

/-! ## References with blanks -/

/-- A reference to a fragment of a template, with any blanks around the colons. -/
structure SpacedReference where
  path : TemplatePath
  before : Gap
  behind : Gap
  name : FragmentName

/-- The text of the selector from its colons on. -/
def SpacedReference.selector (written : SpacedReference) : List Char :=
  ':' :: ':' :: (written.behind.text ++ written.name.text)

/-- The text of a reference. -/
def SpacedReference.print (written : SpacedReference) : List Char :=
  written.path.text ++ (written.before.text ++ written.selector)

/-- Does the reference begin like a path behind a resolver prefix? -/
def SpacedReference.NamesResolver (written : SpacedReference) : Prop :=
  written.before.text = [] ∧ written.path.text ++ [':'] ∈ resolverPrefixes

instance (written : SpacedReference) : Decidable written.NamesResolver :=
  inferInstanceAs (Decidable (_ ∧ _))

/-- What is reported for a reference whose path stands at a position. -/
def SpacedReference.reported (written : SpacedReference) (position : Nat) : List ReferredPath :=
  if written.NamesResolver then [] else [⟨written.path.text, position⟩]

theorem SpacedReference.idle_print (written : SpacedReference) :
    ∀ c ∈ written.print, isIdleChar c = true := by
  intro c hc
  simp only [SpacedReference.print, SpacedReference.selector, List.mem_append, List.mem_cons] at hc
  rcases hc with hc | hc | rfl | rfl | hc | hc
  · exact isIdleChar_of_isPathChar (written.path.chars c hc)
  · exact isIdleChar_of_isBlank (written.before.blank c hc)
  · decide
  · decide
  · exact isIdleChar_of_isBlank (written.behind.blank c hc)
  · exact isIdleChar_of_isPathChar (isPathChar_of_isNameChar (written.name.chars c hc))

theorem SpacedReference.solid (written : SpacedReference) : Solid written.print := by
  apply written.path.solid.append
  intro c hc
  have hname : Solid written.name.text :=
    solid_of_pathChars written.name.ne_nil fun c hc =>
      isPathChar_of_isNameChar (written.name.chars c hc)
  rw [SpacedReference.selector, ← List.cons_append, ← List.cons_append, ← List.append_assoc,
    List.getLast?_append_of_ne_nil _ hname.ne_nil] at hc
  exact hname.last c hc

theorem SpacedReference.first_print (written : SpacedReference) :
    ∃ c others, written.print = c :: others ∧ isPathChar c = true := by
  obtain ⟨c, others, hpath, hc, -⟩ := written.path.eq_cons
  refine ⟨c, others ++ (written.before.text ++ written.selector), ?_, hc⟩
  rw [SpacedReference.print, hpath, List.cons_append]

/-! ## Colons directly behind a path -/

/-- **In front of two colons** a path is taken off together with the first of them
    when it is a resolver prefix with it. -/
theorem stripResolver_path (path : TemplatePath)
    (h : text.drop region.start = path.text ++ ':' :: more) :
    stripResolver text region =
      if path.text ++ [':'] ∈ resolverPrefixes then
        ⟨region.start + path.text.length + 1, region.stop⟩
      else region := by
  have hend : ∀ c, (':' :: more).head? = some c → isPathChar c = false := by
    intro c hc
    obtain rfl := Option.some.inj hc
    decide
  have honly : ∀ token ∈ resolverPrefixes, occursAt token text region.start = true →
      token = path.text ++ [':'] := by
    intro token htoken hoccurs
    rw [occursAt, h] at hoccurs
    exact (path.eq_of_resolver hend htoken hoccurs).1
  have hfits : occursAt (path.text ++ [':']) text region.start = true := by
    rw [occursAt, h, List.isPrefixOf_iff_prefix]
    exact ⟨more, by rw [List.append_assoc, List.singleton_append]⟩
  by_cases hmem : path.text ++ [':'] ∈ resolverPrefixes
  · have hsome : (resolverPrefixes.find? fun token => occursAt token text region.start).isSome =
        true := List.find?_isSome.2 ⟨_, hmem, hfits⟩
    obtain ⟨found, hfound⟩ := Option.isSome_iff_exists.1 hsome
    have hoccurs : occursAt found text region.start = true := by
      have hsat := List.find?_some hfound
      exact hsat
    rw [stripResolver, hfound, if_pos hmem, honly found (List.mem_of_find?_eq_some hfound) hoccurs,
      Nat.add_assoc]
    dsimp only
    rw [List.length_append, List.length_singleton]
  · have hnone : (resolverPrefixes.find? fun token => occursAt token text region.start) = none := by
      rw [List.find?_eq_none]
      intro token htoken hoccurs
      exact hmem (honly token htoken hoccurs ▸ htoken)
    rw [stripResolver, hnone, if_neg hmem]

/-- No other token is dropped there. -/
theorem dropToken_colon {token : List Char} (h : text.drop region.start = ':' :: more)
    (htoken : token.isPrefixOf (':' :: more) = false) : dropToken token text region = region := by
  unfold dropToken occursAt
  rw [h, htoken, if_neg Bool.false_ne_true]

/-- What stands around a region that begins with a path falls away, up to the
    prefix of a resolver. -/
theorem pathRegion_solid (path : TemplatePath) (h : Holds text region (path.text ++ tail) rest)
    (hsolid : Solid (path.text ++ tail)) :
    pathRegion text region =
      dropToken ['/'] text (dropToken ['~', '/'] text (stripResolver text region)) := by
  obtain ⟨c, others, hpath, hc, -⟩ := path.eq_cons
  have hat : c ≠ '@' := ne_of_class hc (by decide)
  have htilde : c ≠ '~' := ne_of_class hc (by decide)
  have hquote : ∀ d, (path.text ++ tail).head? = some d → isQuote d = false := by
    intro d hd
    rw [hpath] at hd
    obtain rfl := Option.some.inj hd
    exact (isBare_iff.1 (isBare_of_isPathChar hc)).1
  have hbar : (path.text ++ tail).head? ≠ some '|' := by
    rw [hpath]
    intro hd
    exact ne_of_class hc (by decide) (Option.some.inj hd)
  have hwrapper : ['@', '{'].isPrefixOf ((path.text ++ tail) ++ rest) = false ∧
      ['~', '{'].isPrefixOf ((path.text ++ tail) ++ rest) = false := by
    simp [hpath, List.isPrefixOf, hat.symm, htilde.symm]
  exact pathRegion_of_trimmed (trimRegion_eq_self h hsolid) h hsolid hquote hwrapper hbar

/-! ### Regions that begin with a colon -/

theorem isPath_colon (cs : List Char) : isPath (':' :: cs) = false := by
  rw [Bool.eq_false_iff]
  intro h
  have hplain := (literal_of_isPath h).2 ':' (head_mem_literalPart (by decide))
  revert hplain
  decide

/-- A slice from a colon on is no path, and not preprocessed either. -/
theorem slice_colon (h : text.drop region.start = ':' :: more) :
    isPath (region.slice text) = false ∧ isPreprocessed (region.slice text) = false := by
  rw [Span.slice, List.extract_eq_take_drop, h]
  cases region.stop - region.start with
  | zero =>
    rw [List.take_zero]
    exact ⟨by decide +kernel, by decide⟩
  | succ n =>
    refine ⟨isPath_colon _, ?_⟩
    simp [isPreprocessed, List.isPrefixOf]

/-- **What begins with a colon refers to nothing**, wherever it ends. -/
theorem referenceIn_colon (h : text.drop (pathRegion text region).start = ':' :: more) :
    referenceIn text region = [] := by
  have cut : ∀ (token : List Char) (region : Span),
      (cutAt token text region).start = region.start := by
    intro token region
    unfold cutAt
    split <;> rfl
  have trimmed : ∀ region : Span, text.drop region.start = ':' :: more →
      (trimRegion text region).start = region.start := by
    intro region hregion
    have hplain : charAt text region.start isBlank = false := by
      rw [charAt, ← List.head?_drop, hregion]
      rfl
    rw [trimRegion, start_trimBack, trimFront]
    simp only [hplain, Bool.false_eq_true, if_false, ite_self]
  have hcut : text.drop (cutAt ['('] text (cutAt [':', ':'] text (pathRegion text region))).start =
      ':' :: more := by
    rw [cut, cut, h]
  have hnamed := trimmed _ hcut
  rw [← hnamed] at hcut
  unfold referenceIn
  dsimp only
  rw [(slice_colon h).2, if_neg Bool.false_ne_true, (slice_colon hcut).1, if_neg Bool.false_ne_true]

/-! ### Regions that begin with a path -/

/-- A region that begins with a path and ends behind it or behind its selector. -/
theorem referenceIn_path (path : TemplatePath) (hmem : path.text ++ [':'] ∉ resolverPrefixes)
    (h : Holds text region (path.text ++ tail) rest) (hsolid : Solid (path.text ++ tail))
    (hcolons : tail ++ rest = ':' :: ':' :: more)
    (htail : tail = [] ∨ ∃ cs, tail = [':', ':'] ++ cs) :
    referenceIn text region = [⟨path.text, region.start⟩] := by
  have hdrop : text.drop region.start = path.text ++ ':' :: (':' :: more) := by
    rw [h.drop_start, List.append_assoc, hcolons]
  obtain ⟨hslash, hhome⟩ := dropTokens_path path h
  have hwhole : pathRegion text region = region := by
    rw [pathRegion_solid path h hsolid, stripResolver_path path hdrop, if_neg hmem, hhome, hslash]
  have hend : ∀ c, tail.head? = some c → isPathChar c = false := by
    intro c hc
    rcases htail with rfl | ⟨cs, rfl⟩
    · contradiction
    · obtain rfl := Option.some.inj hc
      decide
  have hcut : cutAt [':', ':'] text region = ⟨region.start, region.start + path.text.length⟩ := by
    rcases htail with rfl | ⟨cs, rfl⟩
    · rw [List.append_nil] at h
      rw [cutAt_eq_self (passes_path path (by decide) 0) h, ← h.stop_eq]
    · exact cutAt_token (by simp) (passes_path path (by decide) 0) h
  have hpath := h.left
  unfold referenceIn
  dsimp only
  rw [hwhole, h.slice_eq, path.isPreprocessed_eq_false hend, if_neg Bool.false_ne_true, hcut,
    cutAt_eq_self (passes_path path (by decide) 0) hpath, trimRegion_eq_self hpath path.solid,
    hpath.slice_eq, path.isPath_text, if_pos rfl]

/-- **What a path with colons directly behind it refers to**, in a region that ends
    before the colons or goes on with them. -/
theorem referenceIn_selected (path : TemplatePath)
    (h : Holds text region (path.text ++ tail) rest) (hsolid : Solid (path.text ++ tail))
    (hcolons : tail ++ rest = ':' :: ':' :: more)
    (htail : tail = [] ∨ ∃ cs, tail = [':', ':'] ++ cs) :
    referenceIn text region =
      if path.text ++ [':'] ∈ resolverPrefixes then [] else [⟨path.text, region.start⟩] := by
  by_cases hmem : path.text ++ [':'] ∈ resolverPrefixes
  · rw [if_pos hmem]
    have hdrop : text.drop region.start = path.text ++ ':' :: (':' :: more) := by
      rw [h.drop_start, List.append_assoc, hcolons]
    -- The prefix takes the first of the two colons with it, and the second is left.
    have hcolon : text.drop (region.start + path.text.length + 1) = ':' :: more := by
      rw [← List.drop_drop, ← List.drop_drop, hdrop, List.drop_left, List.drop_succ_cons,
        List.drop_zero]
    have hwhole : pathRegion text region =
        ⟨region.start + path.text.length + 1, region.stop⟩ := by
      have hhome := @dropToken_colon text more
        ⟨region.start + path.text.length + 1, region.stop⟩ ['~', '/'] hcolon
          (by simp [List.isPrefixOf])
      rw [pathRegion_solid path h hsolid, stripResolver_path path hdrop, if_pos hmem, hhome]
      exact dropToken_colon hcolon (by simp [List.isPrefixOf])
    apply referenceIn_colon
    rw [hwhole]
    exact hcolon
  · rw [if_neg hmem]
    exact referenceIn_path path hmem h hsolid hcolons htail

/-! ## Values with a reference -/

/-- A plain reference is read as it is. -/
theorem valueReferences_plain (written : SpacedReference)
    (h : Holds text region written.print rest) :
    valueReferences text region = referenceIn text region := by
  obtain ⟨c, others, hprint, hc⟩ := written.first_print
  have hbar : c ≠ '|' := ne_of_class hc (by decide)
  have htilde : c ≠ '~' := ne_of_class hc (by decide)
  have hpass : Passes ['?'] ⟨.outside, 0⟩ ⟨.outside, 0⟩ written.print := by
    apply passes_of_bare
    intro d hd
    obtain ⟨hbare, hquestion, -⟩ := isIdleChar_iff.1 (written.idle_print d hd)
    exact ⟨hbare, fun _ => hquestion⟩
  have hfragment : isFragmentExpression text region = false := by
    rw [isFragmentExpression, h.occursAt_eq, hprint]
    simp [List.isPrefixOf, htilde.symm]
  have hself := stripBars_eq_self h written.solid (by simp [hprint, hbar])
  rw [valueReferences_single hself written.solid.ne_nil hpass h, hfragment,
    if_neg Bool.false_ne_true]

/-- In a fragment expression its inside is read. -/
theorem valueReferences_inFragment (written : SpacedReference)
    (h : Holds text region (inFragment written.print) rest) :
    valueReferences text region =
      fragmentReferences text ⟨region.start + 2, region.stop - 1⟩ := by
  have hsolid : Solid (inFragment written.print) :=
    @solid_enclosed '~' '}' (by decide) (by decide) ('{' :: written.print)
  have hbare : ∀ c ∈ written.print, isBare c = true := by
    intro c hc
    exact (isIdleChar_iff.1 (written.idle_print c hc)).1
  have hinner : Passes ['?'] ⟨.outside, 1⟩ ⟨.outside, 1⟩ written.print := by
    apply passes_of_bare
    intro c hc
    exact ⟨hbare c hc, fun hdepth => absurd hdepth (by decide)⟩
  have hpass : Passes ['?'] ⟨.outside, 0⟩ ⟨.outside, 0⟩ (inFragment written.print) := by
    have htilde : Passes ['?'] ⟨.outside, 0⟩ ⟨.outside, 0⟩ ['~'] :=
      passes_of_bare (List.all_iff_forall_prop.1 (by decide))
    exact htilde.append (passes_inPair .curly (fun _ => by decide) hinner)
  have hself := stripBars_eq_self h hsolid (by simp [inFragment])
  rw [valueReferences_single hself hsolid.ne_nil hpass h,
    isFragmentExpression_inFragment (closes_of_bare hbare) h, if_pos rfl]

/-! ### With blanks in front of the colons -/

/-- The reference as a target, when blanks end its path. -/
def SpacedReference.target (written : SpacedReference)
    (hne : written.before.text ≠ []) : Target where
  origin := .none
  path := written.path
  selector := some ⟨⟨written.before, hne⟩, written.behind, written.name, none⟩

theorem SpacedReference.print_target (written : SpacedReference) (hne : written.before.text ≠ []) :
    (written.target hne).print = written.print := by
  simp [SpacedReference.target, Target.print, Target.tail, Selector.print, argumentText,
    SpacedReference.print, SpacedReference.selector]

/-! ### In both forms -/

theorem referenceIn_plain (written : SpacedReference) (hrest : EndsPath rest)
    (h : Holds text region written.print rest) :
    referenceIn text region = written.reported region.start := by
  by_cases hnone : written.before.text = []
  · have hprint : written.print = written.path.text ++ written.selector := by
      rw [SpacedReference.print, hnone, List.nil_append]
    have hsolid := written.solid
    rw [hprint] at h hsolid
    rw [referenceIn_selected written.path h hsolid rfl (.inr ⟨_, rfl⟩)]
    unfold SpacedReference.reported SpacedReference.NamesResolver
    simp only [hnone, true_and]
  · have hreported : written.reported region.start = [⟨written.path.text, region.start⟩] :=
      if_neg fun hresolver => hnone hresolver.1
    rw [← written.print_target hnone] at h
    rw [referenceIn_print (written.target hnone) hrest h, hreported]
    rfl

theorem fragmentReferences_plain (written : SpacedReference) (hrest : EndsPath rest)
    (h : Holds text region written.print rest) :
    fragmentReferences text region = written.reported region.start := by
  by_cases hnone : written.before.text = []
  · have hprint : written.print = written.path.text ++ written.selector := by
      rw [SpacedReference.print, hnone, List.nil_append]
    rw [hprint] at h
    have hcut : cutAt [':', ':'] text region =
        ⟨region.start, region.start + written.path.text.length⟩ :=
      cutAt_token (by simp) (passes_path written.path (by decide) 0) h
    have hpath : Holds text ⟨region.start, region.start + written.path.text.length⟩
        (written.path.text ++ []) (written.selector ++ rest) := by
      rw [List.append_nil]
      exact h.left
    have hsolid : Solid (written.path.text ++ []) := by
      rw [List.append_nil]
      exact written.path.solid
    rw [fragmentReferences, hcut, referenceIn_selected written.path hpath hsolid rfl (.inl rfl)]
    unfold SpacedReference.reported SpacedReference.NamesResolver
    simp only [hnone, true_and]
  · have hreported : written.reported region.start = [⟨written.path.text, region.start⟩] :=
      if_neg fun hresolver => hnone hresolver.1
    rw [← written.print_target hnone] at h
    rw [fragmentReferences_target (written.target hnone) hrest h, hreported]
    rfl

/-! ## Tags with a reference -/

/-- A tag up to the value of its attribute. -/
def insertFront : List Char :=
  "<div th:insert=\"".toList

/-- A tag that inserts what the value refers to. -/
def insertTag (value : List Char) : List Char :=
  insertFront ++ (value ++ ['"', '>'])

/-- The tag has one attribute that refers to templates. -/
theorem attributesNamed_insertTag {value : List Char} (hvalue : '"' ∉ value) :
    attributesNamed referenceAttributes (insertTag value) =
      [⟨"th:insert".toList, insertFront.length, value⟩] := by
  have hbefore : ∀ name ∈ referenceNames, ¬name <:+: "<div".toList := by decide
  have hbehind : ∀ name ∈ referenceNames, ¬name <:+: ['>'] := by decide
  show attributesFrom referenceNames 0 false ("<div".toList ++ ' ' :: ("th:insert".toList ++
    (Sign.print ⟨[], [], List.forall_mem_nil _, List.forall_mem_nil _⟩ ++
      '"' :: (value ++ '"' :: ['>'])))) = _
  rw [attributesFrom_append namesApart_referenceNames.ne_nil (not_mem_name (by decide)) (by decide)
      hbefore,
    attributesFrom_attribute namesApart_referenceNames (by decide) _ hvalue,
    attributesFrom_eq_nil hbehind]
  rfl

/-- **The tag makes the references of its value.** -/
theorem candidates_insertTag {value : List Char} (hvalue : '"' ∉ value) :
    candidates (insertTag value) =
      valueReferences (insertTag value)
        ⟨insertFront.length, insertFront.length + value.length⟩ := by
  have hexpressions : expressionReferencesFrom (insertTag value)
      [⟨insertFront.length, insertFront.length + value.length⟩] 0 (insertTag value) = [] := by
    apply expressionReferencesFrom_eq_nil
    intro i hi
    -- No expression opens in front of the value or behind it.
    rcases opensReference_append (.inr (by decide)) hi with hin | ⟨k, rfl, hvalue⟩
    · rw [opensReference_eq_false_of_not_mem (by decide)] at hin
      contradiction
    · rcases opensReference_append (.inl (by decide)) hvalue with hin | ⟨m, -, hbehind⟩
      · obtain ⟨c, hc, -⟩ := (Option.any_eq_true _ _).1 (Bool.and_eq_true _ _ ▸ hin).1
        have hlt := (List.getElem?_eq_some_iff.1 hc).1
        simp [isCovered, hlt]
      · rw [opensReference_eq_false_of_not_mem (by decide)] at hbehind
        contradiction
  unfold candidates
  rw [attributesNamed_insertTag hvalue]
  dsimp only
  rw [List.map_singleton, Attribute.stop, hexpressions, List.append_nil, List.flatMap_singleton]

/-- One reference is reported as it is. -/
theorem references_of_reported (written : SpacedReference) {position : Nat}
    (h : candidates text = written.reported position) :
    references text = written.reported position := by
  unfold references
  rw [h]
  unfold SpacedReference.reported
  by_cases hresolver : written.NamesResolver
  · rw [if_pos hresolver, List.mergeSort_nil, distinct]
  · rw [if_neg hresolver, List.mergeSort_singleton]
    rfl

/-- **Blanks around the colons do not matter**, in a plain reference and in a fragment
    expression: the path is reported that was written. It is lost where the colons
    follow directly on a name that a resolver has too. -/
theorem references_spaced (written : SpacedReference) :
    references (insertTag written.print) = written.reported 16 ∧
      references (insertTag (inFragment written.print)) = written.reported 18 := by
  have hquote : '"' ∉ written.print := by
    intro hc
    exact absurd (written.idle_print '"' hc) (by decide)
  refine ⟨?_, ?_⟩
  · apply references_of_reported
    have h : Holds (insertTag written.print)
        ⟨insertFront.length, insertFront.length + written.print.length⟩ written.print ['"', '>'] :=
      ⟨List.drop_left, rfl⟩
    rw [candidates_insertTag hquote, valueReferences_plain written h,
      referenceIn_plain written (endsPath_cons (by decide) (by decide) _) h]
    rfl
  · apply references_of_reported
    have h : Holds (insertTag (inFragment written.print))
        ⟨insertFront.length, insertFront.length + (inFragment written.print).length⟩
        (inFragment written.print) ['"', '>'] := ⟨List.drop_left, rfl⟩
    have hwhole : '"' ∉ inFragment written.print := by
      simpa [inFragment] using not_mem_inPair .curly hquote
    rw [candidates_insertTag hwhole, valueReferences_inFragment written h,
      fragmentReferences_plain written (endsPath_cons (by decide) (by decide) _) h.inFragment]
    rfl

-- A template that is named like a resolver keeps its name behind a blank only.
example : references (insertTag "file :: main".toList) = [⟨"file".toList, 16⟩] ∧
    references (insertTag "file::main".toList) = [] := by
  decide +kernel

end TemplateAnalysis.Reference
