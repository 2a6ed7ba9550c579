import Mathlib.Data.Bool.AllAny
import TemplateAnalysis.Proofs.Reference.Holding
import TemplateAnalysis.Proofs.Reference.Syntax
import TemplateAnalysis.Proofs.Variable.Extraction

/-! # Reading written targets

    * **`referenceIn_target`**: a region that holds a target makes one reference,
      to the path of the target, whatever stands around the path.

    The selector is cut off first. What stands in front of a path cannot be
    confused with it: a path starts with no slash, and nothing that may end a
    path completes a resolver prefix.
-/

namespace TemplateAnalysis.Reference

open Text Expression

/-! ## Characters of paths -/

theorem isBlank_eq_false_of_isPathChar {c : Char} (h : isPathChar c = true) :
    isBlank c = false := by
  cases hb : isBlank c with
  | false => rfl
  | true =>
    have hword := isWordChar_eq_false_of_isBlank hb
    unfold isPathChar isNameChar at h
    simp only [hword, Bool.false_or, Bool.or_eq_true, beq_iff_eq] at h
    rcases h with (rfl | rfl) | rfl <;> revert hb <;> decide

theorem isPathChar_eq_false_of_isBlank {c : Char} (h : isBlank c = true) :
    isPathChar c = false := by
  cases hp : isPathChar c with
  | false => rfl
  | true =>
    rw [isBlank_eq_false_of_isPathChar hp] at h
    contradiction

theorem isBare_of_isPathChar {c : Char} (h : isPathChar c = true) : isBare c = true :=
  isBare_of_class h (by decide) (by decide) (by decide)

theorem isPathChar_of_isNameChar {c : Char} (h : isNameChar c = true) : isPathChar c = true := by
  simp [isPathChar, h]

theorem solid_of_pathChars {cs : List Char} (hne : cs ≠ [])
    (h : ∀ c ∈ cs, isPathChar c = true) : Solid cs where
  ne_nil := hne
  first c hc := isBlank_eq_false_of_isPathChar (h c (List.mem_of_head? hc))
  last c hc := isBlank_eq_false_of_isPathChar (h c (List.mem_of_getLast? hc))

/-! ## Paths of targets -/

/-- No path goes on with the text, and no prefix of a path either. -/
def EndsPath (cs : List Char) : Prop :=
  ∀ c, cs.head? = some c → isPathChar c = false ∧ c ≠ ':'

theorem EndsPath.left {cs ds : List Char} (h : EndsPath (cs ++ ds)) : EndsPath cs := by
  intro c hc
  refine h c ?_
  rw [List.head?_append, hc]
  rfl

/-- Quotes end a path, and so do braces and bars. -/
theorem endsPath_cons {c : Char} (h : isPathChar c = false) (hcolon : c ≠ ':') (rest : List Char) :
    EndsPath (c :: rest) := by
  intro d hd
  obtain rfl := Option.some.inj hd
  exact ⟨h, hcolon⟩

theorem endsPath_of_blanks {spaces : List Char} (hne : spaces ≠ [])
    (h : ∀ c ∈ spaces, isBlank c = true) (behind : List Char) : EndsPath (spaces ++ behind) := by
  obtain ⟨c, others, rfl⟩ := List.exists_cons_of_ne_nil hne
  have hblank := h c List.mem_cons_self
  exact endsPath_cons (isPathChar_eq_false_of_isBlank hblank) (ne_of_class hblank (by decide)) _

theorem TemplatePath.eq_cons (path : TemplatePath) :
    ∃ c others, path.text = c :: others ∧ isPathChar c = true ∧ c ≠ '/' := by
  obtain ⟨c, others, hp⟩ := List.exists_cons_of_ne_nil path.ne_nil
  refine ⟨c, others, hp, path.chars c (hp ▸ List.mem_cons_self), ?_⟩
  rintro rfl
  exact path.relative (by rw [hp]; rfl)

theorem TemplatePath.solid (path : TemplatePath) : Solid path.text :=
  solid_of_pathChars path.ne_nil path.chars

theorem TemplatePath.not_mem {c : Char} (path : TemplatePath) (h : isPathChar c = false) :
    c ∉ path.text :=
  not_mem_of_class path.chars h

/-- A resolver prefix at the front of a path is all of the path, and the colon of the
    prefix stands behind it. -/
theorem TemplatePath.eq_of_resolver (path : TemplatePath) {behind token : List Char}
    (hend : ∀ c, behind.head? = some c → isPathChar c = false) (htoken : token ∈ resolverPrefixes)
    (h : token.isPrefixOf (path.text ++ behind) = true) :
    token = path.text ++ [':'] ∧ behind.head? = some ':' := by
  have colon : ∀ token ∈ resolverPrefixes, token = token.takeWhile (· != ':') ++ [':'] := by decide
  have chars : ∀ c ∈ resolverPrefixes.flatten, isPathChar c = true ∨ c = ':' :=
    List.all_iff_forall_prop.1 (by decide)
  have miss := path.not_mem (show isPathChar ':' = false by decide)
  have hcolon : ':' ∈ token := by
    rw [colon token htoken]
    exact List.mem_append_right _ List.mem_cons_self
  obtain ⟨others, heq⟩ := List.isPrefixOf_iff_prefix.1 h
  rcases List.append_eq_append_iff.1 heq with ⟨more, hpath, -⟩ | ⟨more, hmore, hbehind⟩
  · exact absurd (hpath ▸ List.mem_append_left _ hcolon) miss
  · cases more with
    | nil =>
      rw [List.append_nil] at hmore
      exact absurd (hmore ▸ hcolon) miss
    | cons d more =>
      have hhead : behind.head? = some d := by rw [hbehind]; rfl
      have hd : isPathChar d = true ∨ d = ':' :=
        chars d (List.mem_flatten_of_mem htoken (hmore ▸ by simp))
      obtain rfl : d = ':' := by
        rcases hd with hd | hd
        · exact absurd ((hend d hhead).symm.trans hd) Bool.false_ne_true
        · exact hd
      -- The path is what stands in front of the only colon of the prefix.
      have hname : token.takeWhile (· != ':') = path.text := by
        have passed : ∀ c ∈ path.text, (c != ':') = true := by
          intro c hc
          rw [bne_iff_ne]
          exact fun hcolon => miss (hcolon ▸ hc)
        rw [hmore, List.takeWhile_append_of_pos passed, List.takeWhile_cons_of_neg (by simp),
          List.append_nil]
      refine ⟨?_, hhead⟩
      rw [← hname]
      exact colon token htoken

/-- A path does not look like a resolver prefix, whatever ends it. -/
theorem TemplatePath.resolver_eq_false (path : TemplatePath) {behind : List Char}
    (hend : EndsPath behind) {token : List Char} (htoken : token ∈ resolverPrefixes) :
    token.isPrefixOf (path.text ++ behind) = false := by
  rw [Bool.eq_false_iff]
  intro h
  obtain ⟨-, hcolon⟩ := path.eq_of_resolver (fun c hc => (hend c hc).1) htoken h
  exact (hend ':' hcolon).2 rfl

/-- A path is not preprocessed, whatever ends it. -/
theorem TemplatePath.isPreprocessed_eq_false (path : TemplatePath) {behind : List Char}
    (hend : ∀ c, behind.head? = some c → isPathChar c = false) :
    isPreprocessed (path.text ++ behind) = false := by
  have miss : ['_', '_'].isPrefixOf (path.text ++ behind) = false := by
    have hnot := path.not_preprocessed
    obtain ⟨c, others, hp, -, -⟩ := path.eq_cons
    rw [hp] at hnot ⊢
    cases others with
    | cons d others => simpa [List.isPrefixOf] using hnot
    | nil =>
      cases behind with
      | nil => simp [List.isPrefixOf]
      | cons d behind =>
        have hd : '_' ≠ d := ne_of_class (show isPathChar '_' = true by decide) (hend d rfl)
        simp [List.isPrefixOf, hd]
  simp [isPreprocessed, miss]

/-- A path as it was written is one that is reported. -/
theorem TemplatePath.isPath_text (path : TemplatePath) : isPath path.text = true := by
  have brace := path.not_mem (show isPathChar '{' = false by decide)
  have literal : trim (outsideSpans path.text 0 (expressionSpans path.text)) = path.text := by
    rw [expressionSpans, expressionSpansIn, List.drop_zero,
      Variable.spansFrom_eq_nil (Variable.hasExpressionStart_eq_false brace),
      outsideSpans, List.drop_zero]
    exact trim_eq_self path.solid.first path.solid.last
  have forbidden : ∀ c ∈ "<>:\"|?*".toList, isPathChar c = false :=
    List.all_iff_forall_prop.1 (by decide)
  have none : path.text.any isForbidden = false := by
    rw [List.any_eq_false]
    intro c hc hf
    exact path.not_mem (forbidden c (List.contains_iff_mem.1 hf)) hc
  unfold isPath
  dsimp only
  rw [literal, none]
  simpa using path.ne_nil

/-! ## Reading targets -/

section Targets

variable {text rest gap : List Char} {region : Span}

/-- A path at the front of a region is not shortened any more. -/
theorem dropTokens_path (path : TemplatePath) {behind : List Char}
    (h : Holds text region (path.text ++ behind) rest) :
    dropToken ['/'] text region = region ∧ dropToken ['~', '/'] text region = region := by
  obtain ⟨c, others, hp, hc, hslash⟩ := path.eq_cons
  have htilde : c ≠ '~' := ne_of_class hc (by decide)
  rw [hp] at h
  exact ⟨dropToken_eq_self h (by simp [List.isPrefixOf, hslash.symm]),
    dropToken_eq_self h (by simp [List.isPrefixOf, htilde.symm])⟩

/-- No resolver is named in front of a region that starts in another way. -/
theorem stripResolver_other {cs behind : List Char}
    (hothers : ∀ token ∈ resolverPrefixes,
      (token.head?.any fun c => cs.head?.any (· != c)) = true)
    (h : Holds text region (cs ++ behind) rest) : stripResolver text region = region :=
  stripResolver_eq_self h fun token htoken => by
    rw [List.append_assoc]
    exact isPrefixOf_append_eq_false (hothers token htoken) _

/-- What stands directly before a path falls away. -/
theorem dropTokens_origin (origin : Origin) (path : TemplatePath) {behind : List Char}
    (h : Holds text region (origin.text ++ (path.text ++ behind)) rest)
    (hend : EndsPath (behind ++ rest)) :
    dropToken ['/'] text (dropToken ['~', '/'] text (stripResolver text region)) =
      ⟨region.start + origin.text.length, region.stop⟩ := by
  have hpath := h.right
  obtain ⟨hslash, hhome⟩ := dropTokens_path path hpath
  cases origin with
  | none =>
    rw [Origin.text_none, List.nil_append] at h
    have self : stripResolver text region = region :=
      stripResolver_eq_self h fun token htoken => by
        rw [List.append_assoc]
        exact path.resolver_eq_false hend htoken
    have unmoved : (⟨region.start + Origin.none.text.length, region.stop⟩ : Span) = region := rfl
    rw [unmoved] at hslash hhome ⊢
    rw [self, hhome, hslash]
  | root =>
    have self := stripResolver_other (by decide) h
    have home : dropToken ['~', '/'] text region = region := dropToken_eq_self h (by
      rw [List.append_assoc]
      exact isPrefixOf_append_eq_false (by decide) _)
    rw [self, home]
    exact dropToken_append h
  | home =>
    have self := stripResolver_other (by decide) h
    rw [self, ← Origin.text_home, dropToken_append h, hslash]
  | classpath =>
    -- The prefix that fits is the first that is tried.
    have resolved := stripResolver_append h
      (show resolverPrefixes = [] ++ Origin.classpath.text :: [Origin.file.text] from rfl) (by simp)
    rw [resolved, hhome, hslash]
  | file =>
    have resolved := stripResolver_append h
      (show resolverPrefixes = [Origin.classpath.text] ++ Origin.file.text :: [] from rfl)
      (fun other hother => by
        obtain rfl := List.mem_singleton.1 hother
        rw [List.append_assoc]
        exact isPrefixOf_append_eq_false (by decide) _)
    rw [resolved, hhome, hslash]

/-! ### The ends of a target -/

/-- The last character of a selector is no blank. -/
theorem Selector.last_print (selector : Selector) {c : Char}
    (h : selector.print.getLast? = some c) : isBlank c = false := by
  have hname : Solid selector.name.text :=
    solid_of_pathChars selector.name.ne_nil fun c hc =>
      isPathChar_of_isNameChar (selector.name.chars c hc)
  have solid : Solid (selector.name.text ++ argumentText selector.arguments) := by
    refine hname.append fun c hc => ?_
    cases ha : selector.arguments with
    | none => simp [ha, argumentText] at hc
    | some arguments =>
      rw [ha, argumentText, inPair, getLast?_enclosed] at hc
      obtain rfl := Option.some.inj hc
      decide
  have regroup : selector.print = (selector.space.text ++ (':' :: ':' :: selector.gap.text)) ++
      (selector.name.text ++ argumentText selector.arguments) := by
    simp [Selector.print]
  rw [regroup, List.getLast?_append_of_ne_nil _ solid.ne_nil] at h
  exact solid.last c h

/-- What stands behind a path ends it. -/
theorem Target.endsPath_tail (target : Target) {behind : List Char} (h : EndsPath behind) :
    EndsPath (target.tail ++ behind) := by
  cases hs : target.selector with
  | none => simpa [Target.tail, hs] using h
  | some selector =>
    have ends := endsPath_of_blanks selector.space.ne_nil selector.space.blank
      (':' :: ':' :: (selector.gap.text ++
        (selector.name.text ++ argumentText selector.arguments)) ++ behind)
    simpa [Target.tail, hs, Selector.print] using ends

theorem Origin.first_text (origin : Origin) {c : Char} (h : origin.text.head? = some c) :
    isPathChar c = true ∨ c = '~' := by
  have every : origin.text.head?.all (fun c => isPathChar c || c == '~') = true := by
    cases origin <;> decide
  simpa [h] using every

/-- A target starts with a character of a path, or with a tilde. -/
theorem Target.first_print (target : Target) {c : Char} (h : target.print.head? = some c) :
    isPathChar c = true ∨ c = '~' := by
  rw [Target.print, List.head?_append] at h
  cases ho : target.origin.text.head? with
  | some d =>
    rw [ho] at h
    obtain rfl := Option.some.inj h
    exact target.origin.first_text ho
  | none =>
    obtain ⟨d, others, hp, hd, -⟩ := target.path.eq_cons
    rw [ho, hp] at h
    obtain rfl := Option.some.inj h
    exact .inl hd

theorem Target.first_not_quote (target : Target) {c : Char} (h : target.print.head? = some c) :
    isQuote c = false := by
  rcases target.first_print h with hc | rfl
  · exact (isBare_iff.1 (isBare_of_isPathChar hc)).1
  · decide

theorem Target.first_ne_bar (target : Target) : target.print.head? ≠ some '|' := fun h => by
  rcases target.first_print h with hc | hc <;> revert hc <;> decide

theorem Target.solid (target : Target) : Solid target.print := by
  have last : ∀ c, target.tail.getLast? = some c → isBlank c = false := by
    intro c hc
    cases hs : target.selector with
    | none => simp [Target.tail, hs] at hc
    | some selector => exact selector.last_print (by simpa [Target.tail, hs] using hc)
  have behind := target.path.solid.append last
  refine ⟨by simp [Target.print, target.path.ne_nil], fun c hc => ?_, fun c hc => ?_⟩
  · rcases target.first_print hc with hc | rfl
    · exact isBlank_eq_false_of_isPathChar hc
    · decide
  · rw [Target.print, List.getLast?_append_of_ne_nil _ behind.ne_nil] at hc
    exact behind.last c hc

/-- A target is no link or fragment expression. -/
theorem Target.wrapper_eq_false (target : Target) (behind : List Char) :
    ['@', '{'].isPrefixOf (target.print ++ behind) = false ∧
      ['~', '{'].isPrefixOf (target.print ++ behind) = false := by
  obtain ⟨c, others, hp, hc, -⟩ := target.path.eq_cons
  have hat : c ≠ '@' := ne_of_class hc (by decide)
  have htilde : c ≠ '~' := ne_of_class hc (by decide)
  unfold Target.print
  rw [List.append_assoc]
  cases target.origin with
  | none => simp [hp, List.isPrefixOf, hat.symm, htilde.symm]
  | root =>
    exact ⟨isPrefixOf_append_eq_false (by decide) _, isPrefixOf_append_eq_false (by decide) _⟩
  | home => simp [List.isPrefixOf]
  | classpath =>
    exact ⟨isPrefixOf_append_eq_false (by decide) _, isPrefixOf_append_eq_false (by decide) _⟩
  | file =>
    exact ⟨isPrefixOf_append_eq_false (by decide) _, isPrefixOf_append_eq_false (by decide) _⟩

/-- A text that is neither quoted nor wrapped loses no more than what stands directly
    before its path. -/
theorem pathRegion_of_trimmed {cs behind : List Char} {trimmed : Span}
    (htrim : trimRegion text region = trimmed) (h : Holds text trimmed cs behind)
    (hsolid : Solid cs) (hquote : ∀ c, cs.head? = some c → isQuote c = false)
    (hwrapper : ['@', '{'].isPrefixOf (cs ++ behind) = false ∧
      ['~', '{'].isPrefixOf (cs ++ behind) = false)
    (hbar : cs.head? ≠ some '|') :
    pathRegion text region =
      dropToken ['/'] text (dropToken ['~', '/'] text (stripResolver text trimmed)) := by
  unfold pathRegion
  dsimp only
  rw [htrim, stripQuotes_eq_self h hsolid.ne_nil hquote,
    stripWrapper_eq_self h hwrapper.1 hwrapper.2, stripBars_eq_self h hsolid hbar]

/-- What stands around the path of a target falls away in front of it. -/
theorem pathRegion_target (target : Target) (hgap : ∀ c ∈ gap, isBlank c = true)
    (hend : EndsPath (gap ++ rest)) (h : Holds text region (target.print ++ gap) rest) :
    pathRegion text region =
      ⟨region.start + target.origin.text.length, region.start + target.print.length⟩ := by
  have inner := h.left
  have trimmed : trimRegion text region = ⟨region.start, region.start + target.print.length⟩ :=
    @trimRegion_eq text _ rest [] gap region h (by simp) hgap target.solid
  rw [pathRegion_of_trimmed trimmed inner target.solid (fun _ => target.first_not_quote)
    (target.wrapper_eq_false (gap ++ rest)) target.first_ne_bar]
  exact dropTokens_origin target.origin target.path inner (target.endsPath_tail hend)

/-! ### Selectors -/

theorem passes_path {first : Char} {more : List Char} (path : TemplatePath)
    (hfirst : isPathChar first = false) (depth : Nat) :
    Passes (first :: more) ⟨.outside, depth⟩ ⟨.outside, depth⟩ path.text :=
  passes_of_bare fun c hc => ⟨isBare_of_isPathChar (path.chars c hc),
    fun _ => ne_of_class (path.chars c hc) hfirst⟩

theorem passes_blanks {first : Char} {more spaces : List Char} (h : ∀ c ∈ spaces, isBlank c = true)
    (hfirst : isBlank first = false) (depth : Nat) :
    Passes (first :: more) ⟨.outside, depth⟩ ⟨.outside, depth⟩ spaces :=
  passes_of_bare fun c hc => ⟨isBare_of_isBlank (h c hc), fun _ => ne_of_class (h c hc) hfirst⟩

/-- The colon of a resolver prefix is not the start of a selector, because a path
    stands behind it. -/
theorem passes_origin_path (origin : Origin) (path : TemplatePath) :
    Passes [':', ':'] ⟨.outside, 0⟩ ⟨.outside, 0⟩ (origin.text ++ path.text) := by
  have hpath : Passes [':', ':'] ⟨.outside, 0⟩ ⟨.outside, 0⟩ path.text :=
    passes_path path (by decide) 0
  have resolver : Passes [':', ':'] ⟨.outside, 0⟩ ⟨.outside, 0⟩ (':' :: path.text) := by
    refine .cons (fun _ rest => ?_) ?_
    · obtain ⟨c, others, hp, hc, -⟩ := path.eq_cons
      have hne : c ≠ ':' := ne_of_class hc (by decide)
      simp [hp, List.isPrefixOf, hne.symm]
    · rw [step_of_isBare (by decide)]
      exact hpath
  cases origin with
  | none => exact hpath
  | root => exact .append (passes_of_bare (List.all_iff_forall_prop.1 (by decide))) hpath
  | home => exact .append (passes_of_bare (List.all_iff_forall_prop.1 (by decide))) hpath
  | classpath =>
    have name : Passes [':', ':'] ⟨.outside, 0⟩ ⟨.outside, 0⟩ "classpath".toList :=
      passes_of_bare (List.all_iff_forall_prop.1 (by decide))
    exact name.append resolver
  | file =>
    have name : Passes [':', ':'] ⟨.outside, 0⟩ ⟨.outside, 0⟩ "file".toList :=
      passes_of_bare (List.all_iff_forall_prop.1 (by decide))
    exact name.append resolver

/-- The selector is cut off, and what is left in front of it are blanks. -/
theorem holds_cutAt_selector (target : Target) {front : List Char}
    (hfront : Passes [':', ':'] ⟨.outside, 0⟩ ⟨.outside, 0⟩ front)
    (hgap : ∀ c ∈ gap, isBlank c = true) (hend : EndsPath (gap ++ rest))
    (h : Holds text region (front ++ (target.tail ++ gap)) rest) :
    ∃ spaces behind, (∀ c ∈ spaces, isBlank c = true) ∧ EndsPath (spaces ++ behind) ∧
      (cutAt [':', ':'] text region).start = region.start ∧
      Holds text (cutAt [':', ':'] text region) (front ++ spaces) behind := by
  cases hs : target.selector with
  | none =>
    have plain : Holds text region (front ++ gap) rest := by simpa [Target.tail, hs] using h
    have uncut := cutAt_eq_self (hfront.append (passes_blanks hgap (by decide) 0)) plain
    exact ⟨gap, rest, hgap, hend, by rw [uncut], by rw [uncut]; exact plain⟩
  | some selector =>
    have split : Holds text region ((front ++ selector.space.text) ++ ([':', ':'] ++
        (selector.gap.text ++ (selector.name.text ++ argumentText selector.arguments) ++ gap)))
        rest := by
      simpa [Target.tail, hs, Selector.print] using h
    have cut := cutAt_token (by simp)
      (hfront.append (passes_blanks selector.space.blank (by decide) 0)) split
    have named := split.left
    rw [← cut] at named
    exact ⟨selector.space.text, _, selector.space.blank,
      endsPath_of_blanks selector.space.ne_nil selector.space.blank _, by rw [cut], named⟩

/-- **A region that holds a target refers to its path.** -/
theorem referenceIn_target (target : Target) (hgap : ∀ c ∈ gap, isBlank c = true)
    (hend : EndsPath (gap ++ rest)) (h : Holds text region (target.print ++ gap) rest) :
    referenceIn text region =
      [⟨target.path.text, region.start + target.origin.text.length⟩] := by
  have whole : Holds text (pathRegion text region) (target.path.text ++ target.tail)
      (gap ++ rest) := by
    rw [pathRegion_target target hgap hend h]
    exact h.left.right
  have plain : Holds text (pathRegion text region) (target.path.text ++ (target.tail ++ []))
      (gap ++ rest) := by
    rwa [List.append_nil]
  obtain ⟨spaces, behind, hspaces, -, hstart, named⟩ :=
    holds_cutAt_selector target (passes_path target.path (by decide) 0) (List.forall_mem_nil _) hend
      plain
  have uncut : cutAt ['('] text (cutAt [':', ':'] text (pathRegion text region)) =
      cutAt [':', ':'] text (pathRegion text region) :=
    cutAt_eq_self ((passes_path target.path (by decide) 0).append
      (passes_blanks hspaces (by decide) 0)) named
  have trimmed := @trimRegion_eq text _ behind [] spaces _ named (by simp) hspaces target.path.solid
  have computed : isPreprocessed (target.path.text ++ target.tail) = false :=
    target.path.isPreprocessed_eq_false fun c hc => ((target.endsPath_tail hend).left c hc).1
  unfold referenceIn
  dsimp only
  rw [whole.slice_eq, computed, uncut, trimmed]
  simp only [Bool.false_eq_true, if_false, List.length_nil, Nat.add_zero]
  rw [named.left.slice_eq, target.path.isPath_text, if_pos rfl, hstart,
    pathRegion_target target hgap hend h]

/-- The same for the body of a fragment expression. -/
theorem fragmentReferences_target (target : Target) (hend : EndsPath rest)
    (h : Holds text region target.print rest) :
    fragmentReferences text region =
      [⟨target.path.text, region.start + target.origin.text.length⟩] := by
  have plain : Holds text region ((target.origin.text ++ target.path.text) ++ (target.tail ++ []))
      rest := by
    simpa [Target.print] using h
  obtain ⟨spaces, behind, hspaces, hends, hstart, named⟩ :=
    holds_cutAt_selector target (passes_origin_path target.origin target.path)
      (List.forall_mem_nil _) hend plain
  have bare : Holds text (cutAt [':', ':'] text region)
      (Target.print { target with selector := none } ++ spaces) behind := by
    simpa [Target.print, Target.tail] using named
  rw [fragmentReferences, referenceIn_target _ hspaces hends bare, hstart]

end Targets

end TemplateAnalysis.Reference
