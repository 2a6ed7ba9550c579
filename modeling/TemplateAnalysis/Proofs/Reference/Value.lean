import TemplateAnalysis.Proofs.Reference.Target

/-! # Reading written values

    * **`valueReferences_value`**: the value of an attribute that was written as
      a tree makes the references of that tree, where they stand.

    A search for a question mark passes over all that is not a condition, because
    arguments stand in brackets. Behind a condition the colon of a selector is
    out of sight in the quotes or braces of its branch.
-/

namespace TemplateAnalysis.Reference

open Text Expression Markup

variable {text rest front back : List Char} {region : Span}

/-! ## What targets are made of -/

/-- A character that no search for the parts of a value stops at. -/
def isIdleChar (c : Char) : Bool :=
  isBare c && c != '?' && c != '\\'

theorem isIdleChar_iff {c : Char} : isIdleChar c = true ↔ isBare c = true ∧ c ≠ '?' ∧ c ≠ '\\' := by
  simp [isIdleChar, and_assoc]

theorem isIdleChar_of_isPathChar {c : Char} (h : isPathChar c = true) : isIdleChar c = true :=
  isIdleChar_iff.2 ⟨isBare_of_isPathChar h, ne_of_class h (by decide), ne_of_class h (by decide)⟩

theorem isIdleChar_of_isBlank {c : Char} (h : isBlank c = true) : isIdleChar c = true :=
  isIdleChar_iff.2 ⟨isBare_of_isBlank h, ne_of_class h (by decide), ne_of_class h (by decide)⟩

theorem Origin.idle_text (origin : Origin) : ∀ c ∈ origin.text, isIdleChar c = true := by
  cases origin <;> exact List.all_iff_forall_prop.1 (by decide)

/-- A target consists of such characters, but for its arguments. -/
theorem Target.print_eq (target : Target) :
    ∃ idle, (∀ c ∈ idle, isIdleChar c = true) ∧
      target.print = idle ++ argumentText (target.selector.bind (·.arguments)) := by
  have path : ∀ c ∈ target.origin.text ++ target.path.text, isIdleChar c = true := by
    intro c hc
    rcases List.mem_append.1 hc with hc | hc
    · exact target.origin.idle_text c hc
    · exact isIdleChar_of_isPathChar (target.path.chars c hc)
  cases hs : target.selector with
  | none => exact ⟨_, path, by simp [Target.print, Target.tail, hs, argumentText]⟩
  | some selector =>
    refine ⟨(target.origin.text ++ target.path.text) ++ (selector.space.text ++
      (':' :: ':' :: (selector.gap.text ++ selector.name.text))), fun c hc => ?_, ?_⟩
    · rcases List.mem_append.1 hc with hc | hc
      · exact path c hc
      · simp only [List.mem_append, List.mem_cons] at hc
        rcases hc with hc | rfl | rfl | hc | hc
        · exact isIdleChar_of_isBlank (selector.space.blank c hc)
        · decide
        · decide
        · exact isIdleChar_of_isBlank (selector.gap.blank c hc)
        · exact isIdleChar_of_isPathChar (isPathChar_of_isNameChar (selector.name.chars c hc))
    · simp [Target.print, Target.tail, hs, Selector.print]

/-- In brackets every search passes over a target, and at the top level the
    search for a question mark does. -/
theorem passes_target {first : Char} {more : List Char} (target : Target) {depth : Nat}
    (hfirst : depth = 0 → first = '?') :
    Passes (first :: more) ⟨.outside, depth⟩ ⟨.outside, depth⟩ target.print := by
  obtain ⟨idle, hidle, hprint⟩ := target.print_eq
  rw [hprint]
  refine .append (passes_of_bare fun c hc => ?_) ?_
  · obtain ⟨hbare, hquestion, -⟩ := isIdleChar_iff.1 (hidle c hc)
    exact ⟨hbare, fun hdepth => hfirst hdepth ▸ hquestion⟩
  · cases target.selector.bind (·.arguments) with
    | none => exact .nil
    | some arguments =>
      refine passes_inPair .round (fun hdepth => ?_) (passes_nested arguments depth)
      rw [hfirst hdepth]
      decide

theorem closes_target (target : Target) : Closes target.print := by
  obtain ⟨idle, hidle, hprint⟩ := target.print_eq
  rw [hprint]
  refine .append (closes_of_bare fun c hc => (isIdleChar_iff.1 (hidle c hc)).1) ?_
  cases target.selector.bind (·.arguments) with
  | none => exact .nil
  | some arguments => exact closes_inPair .round (closes_nested arguments)

theorem BareTarget.idle_print (target : BareTarget) :
    ∀ c ∈ target.print, isIdleChar c = true := by
  obtain ⟨idle, hidle, hprint⟩ := target.print_eq
  have none : target.selector.bind (·.arguments) = none := by
    cases hs : target.selector with
    | none => rfl
    | some selector => exact target.no_arguments selector hs
  rw [none, argumentText, List.append_nil] at hprint
  rw [hprint]
  exact hidle

/-! ## Quotes and braces -/

theorem referenceIn_print (target : Target) (hend : EndsPath rest)
    (h : Holds text region target.print rest) :
    referenceIn text region =
      [⟨target.path.text, region.start + target.origin.text.length⟩] := by
  have plain : Holds text region (target.print ++ []) rest := by rwa [List.append_nil]
  exact referenceIn_target target (List.forall_mem_nil _) hend plain

/-- In quotes a target is read like without them. -/
theorem referenceIn_inQuotes (target : Target)
    (h : Holds text region (inQuotes target.print) rest) :
    referenceIn text region =
      [⟨target.path.text, region.start + 1 + target.origin.text.length⟩] := by
  have inner := h.inQuotes
  have same : pathRegion text region = pathRegion text ⟨region.start + 1, region.stop - 1⟩ := by
    unfold pathRegion
    rw [trimRegion_eq_self h (solid_enclosed (by decide) (by decide) _),
      trimRegion_eq_self inner target.solid, stripQuotes_inQuotes h target.solid.ne_nil,
      stripQuotes_eq_self inner target.solid.ne_nil fun _ => target.first_not_quote]
  have read : referenceIn text ⟨region.start + 1, region.stop - 1⟩ = _ :=
    referenceIn_print target (endsPath_cons (by decide) (by decide) rest) inner
  rw [← read]
  unfold referenceIn
  rw [same]

/-- The text of a fragment expression. -/
def inFragment (inner : List Char) : List Char :=
  '~' :: inPair .curly inner

theorem Holds.inFragment {inner : List Char} (h : Holds text region (inFragment inner) rest) :
    Holds text ⟨region.start + 2, region.stop - 1⟩ inner ('}' :: rest) :=
  @Holds.inner text inner rest ['~', '{'] ['}'] region h

theorem isFragmentExpression_inFragment {inner : List Char} (hinner : Closes inner)
    (h : Holds text region (inFragment inner) rest) :
    isFragmentExpression text region = true := by
  have opens : occursAt ['~', '{'] text region.start = true := by
    rw [h.occursAt_eq]
    simp [inFragment, inPair, Bracket.opener, List.isPrefixOf]
  have body : text.drop (region.start + 1) = '{' :: (inner ++ '}' :: rest) := by
    have behind := (@Holds.right text ['~'] _ rest region h).drop_start
    simpa [inPair, Bracket.opener, Bracket.closer] using behind
  have closes : findClosing text (region.start + 1) = some (region.stop - 1) := by
    unfold findClosing
    rw [body]
    simp only [show closerOf? '{' = some '}' by decide, hinner.closingOffset_eq,
      Option.map_some, Option.some.injEq]
    rw [h.stop_eq]
    simp only [inFragment, inPair, List.length_cons, List.length_append, List.length_nil]
    omega
  unfold isFragmentExpression
  rw [opens, closes]
  simp

theorem fragmentReferences_inFragment (target : Target)
    (h : Holds text region (inFragment target.print) rest) :
    fragmentReferences text ⟨region.start + 2, region.stop - 1⟩ =
      [⟨target.path.text, region.start + 2 + target.origin.text.length⟩] :=
  fragmentReferences_target target (endsPath_cons (by decide) (by decide) rest) h.inFragment

/-! ## Branches -/

theorem Branch.spell_stretches (branch : Branch) :
    spell branch.stretches = match branch with
      | .nothing => ['_']
      | .quoted target => inQuotes target.print
      | .fragment target => inFragment target.print := by
  cases branch with
  | nothing => rfl
  | quoted target => exact target.spell_within _ _
  | fragment target => exact target.spell_within _ _

/-- The first character of a branch. -/
theorem Branch.first_spell (branch : Branch) :
    ∃ c others, spell branch.stretches = c :: others ∧ (c = '_' ∨ c = '\'' ∨ c = '~') := by
  rw [branch.spell_stretches]
  cases branch with
  | nothing => exact ⟨_, _, rfl, by decide⟩
  | quoted target => exact ⟨_, _, rfl, by decide⟩
  | fragment target => exact ⟨_, _, rfl, by decide⟩

theorem Branch.solid (branch : Branch) : Solid (spell branch.stretches) := by
  rw [branch.spell_stretches]
  cases branch with
  | nothing => exact ⟨by simp, fun c hc => by cases hc; decide, fun c hc => by cases hc; decide⟩
  | quoted target => exact solid_enclosed (by decide) (by decide) _
  | fragment target => exact @solid_enclosed '~' '}' (by decide) (by decide) ('{' :: target.print)

/-- A search for a question mark or a colon passes over a branch. -/
theorem passes_branch {first : Char} (branch : Branch) (hfirst : first = '?' ∨ first = ':') :
    Passes [first] ⟨.outside, 0⟩ ⟨.outside, 0⟩ (spell branch.stretches) := by
  have other : ∀ c, c ≠ '?' → c ≠ ':' → c ≠ first := by
    rintro c hquestion hcolon rfl
    exact hfirst.elim hquestion hcolon
  rw [branch.spell_stretches]
  cases branch with
  | nothing =>
    exact passes_of_bare (by simpa [isBare] using ⟨by decide, other '_' (by decide) (by decide)⟩)
  | quoted target =>
    refine passes_inQuotes (fun _ => (other _ (by decide) (by decide)).symm) ?_
    refine passes_of_plain fun c hc => ?_
    obtain ⟨hbare, -, hescape⟩ := isIdleChar_iff.1 (target.idle_print c hc)
    refine ⟨?_, hescape⟩
    rintro rfl
    revert hbare
    decide
  | fragment target =>
    have tilde : Passes [first] ⟨.outside, 0⟩ ⟨.outside, 0⟩ ['~'] :=
      passes_of_bare fun c hc => by
        obtain rfl := List.mem_singleton.1 hc
        exact ⟨by decide, fun _ => other _ (by decide) (by decide)⟩
    exact tilde.append (passes_inPair .curly (fun _ => (other _ (by decide) (by decide)).symm)
      (passes_target target (fun h => absurd h (by decide))))

/-- **A branch makes its reference**, whatever blanks stand around it. -/
theorem branchReferences_branch (branch : Branch) (hfront : ∀ c ∈ front, isBlank c = true)
    (hback : ∀ c ∈ back, isBlank c = true)
    (h : Holds text region (front ++ (spell branch.stretches ++ back)) rest) :
    branchReferences text region = marksFrom (region.start + front.length) branch.stretches := by
  have trimmed := trimRegion_eq h hfront hback branch.solid
  have inner := h.right.left
  rw [← trimmed, branch.spell_stretches] at inner
  have hstart : (trimRegion text region).start = region.start + front.length := by rw [trimmed]
  have hstop := inner.stop_eq
  unfold branchReferences
  dsimp only
  rw [← hstart]
  cases branch with
  | nothing =>
    rw [if_pos (by simp only [hstop, List.length_cons, List.length_nil]; omega)]
    rfl
  | quoted target =>
    have hlast : (inQuotes target.print).getLast? = some '\'' := getLast?_enclosed _ _ _
    rw [if_neg (by simp only [hstop, inQuotes, List.length_cons, List.length_append]; omega),
      if_pos, referenceIn_print target.toTarget (endsPath_cons (by decide) (by decide) _)
        (Holds.inQuotes inner)]
    · exact (target.marksFrom_within ['\''] ['\''] _).symm
    · rw [inner.charAt_start, inner.getElem?_start, inner.getElem?_last (by simp [inQuotes]), hlast]
      rfl
  | fragment target =>
    rw [if_neg (by simp only [hstop, inFragment, inPair, List.length_cons]; omega), if_neg,
      if_pos (isFragmentExpression_inFragment (closes_target target) inner),
      fragmentReferences_inFragment target inner]
    · exact (target.marksFrom_within ['~', '{'] ['}'] _).symm
    · rw [inner.charAt_start]
      exact Bool.false_ne_true

/-! ## Values -/

theorem branches?_eq_none {cs : List Char} {after : Nesting}
    (hpass : Passes ['?'] ⟨.outside, 0⟩ after cs) (h : Holds text region cs rest) :
    branches? text region = none := by
  unfold branches?
  rw [h.findTopLevelIn_eq, hpass.eq_none]
  rfl

/-- A value without a question mark at the top level is a single reference. -/
theorem valueReferences_single {value : Span} {cs : List Char} {after : Nesting}
    (hvalue : stripBars text value = region) (hne : cs ≠ [])
    (hpass : Passes ['?'] ⟨.outside, 0⟩ after cs) (h : Holds text region cs rest) :
    valueReferences text value =
      if isFragmentExpression text region then
        fragmentReferences text ⟨region.start + 2, region.stop - 1⟩
      else referenceIn text region := by
  have hroom := h.start_lt_stop hne
  unfold valueReferences
  dsimp only
  rw [hvalue, if_neg (Nat.not_le_of_lt hroom), branches?_eq_none hpass h]

/-- A target alone is read as a whole. -/
theorem valueReferences_print {value : Span} (target : Target)
    (hvalue : stripBars text value = region) (hend : EndsPath rest)
    (h : Holds text region target.print rest) :
    valueReferences text value =
      [⟨target.path.text, region.start + target.origin.text.length⟩] := by
  have whole : isFragmentExpression text region = false := by
    rw [isFragmentExpression, h.occursAt_eq, (target.wrapper_eq_false rest).2, Bool.false_and]
  rw [valueReferences_single hvalue target.solid.ne_nil (passes_target target fun _ => rfl) h,
    whole, if_neg Bool.false_ne_true, referenceIn_print target hend h]

/-- A branch alone is read as one. -/
theorem valueReferences_branch (branch : Branch) (something : branch ≠ .nothing)
    (h : Holds text region (spell branch.stretches) rest) :
    valueReferences text region = marksFrom region.start branch.stretches := by
  have bar : (spell branch.stretches).head? ≠ some '|' := by
    obtain ⟨c, others, hspell, hc⟩ := branch.first_spell
    rw [hspell]
    intro heq
    obtain rfl := Option.some.inj heq
    revert hc
    decide
  rw [valueReferences_single (stripBars_eq_self h branch.solid bar) branch.solid.ne_nil
    (passes_branch branch (.inl rfl)) h]
  rw [branch.spell_stretches] at h
  cases branch with
  | nothing => contradiction
  | quoted target =>
    have whole : isFragmentExpression text region = false := by
      rw [isFragmentExpression, h.occursAt_eq]
      rfl
    rw [whole, if_neg Bool.false_ne_true, referenceIn_inQuotes target.toTarget h]
    exact (target.marksFrom_within ['\''] ['\''] _).symm
  | fragment target =>
    rw [isFragmentExpression_inFragment (closes_target target) h, if_pos rfl,
      fragmentReferences_inFragment target h]
    exact (target.marksFrom_within ['~', '{'] ['}'] _).symm

/-! ### Conditions -/

theorem isPrefixOf_pair_eq_false {c d : Char} {cs : List Char} (h : cs.head? ≠ some d) :
    [c, d].isPrefixOf (c :: cs) = false := by
  cases cs with
  | nil => simp [List.isPrefixOf]
  | cons a cs =>
    have hne : d ≠ a := by
      rintro rfl
      exact h rfl
    simp [List.isPrefixOf, hne]

/-- The colon between branches is the first one that is in sight. -/
theorem branchColon?_eq_some {cs more : List Char}
    (hpass : Passes [':'] ⟨.outside, 0⟩ ⟨.outside, 0⟩ cs)
    (h : Holds text region (cs ++ ':' :: more) rest) (hmore : (more ++ rest).head? ≠ some ':') :
    branchColon? text region.start region.stop = some (region.start + cs.length) := by
  have found := findTopLevelIn_append hpass h
  have single : occursAt [':', ':'] text (region.start + cs.length) = false := by
    rw [h.right.occursAt_eq]
    exact isPrefixOf_pair_eq_false hmore
  unfold branchColon?
  split
  · rename_i hnone
    rw [found] at hnone
    contradiction
  · rename_i colon hsome
    obtain rfl := Option.some.inj (found.symm.trans hsome)
    rw [single, if_neg Bool.false_ne_true]

/-- A search for a question mark passes over a condition. -/
theorem passes_condition (condition : NestedText) (gap : Gap) :
    Passes ['?'] ⟨.outside, 0⟩ ⟨.outside, 0⟩ (conditionText condition ++ gap.text) := by
  have sigil : Passes ['?'] ⟨.outside, 0⟩ ⟨.outside, 0⟩ ['$'] :=
    passes_of_bare (List.all_iff_forall_prop.1 (by decide))
  have braces : Passes ['?'] ⟨.outside, 0⟩ ⟨.outside, 0⟩ (inPair .curly condition.print) :=
    passes_inPair .curly (fun _ => by decide) (passes_nested condition 0)
  exact (sigil.append braces).append (passes_blanks gap.blank (by decide) 0)

/-- Neither a gap nor a branch starts with a colon. -/
theorem head?_branch_ne_colon (gap : Gap) (branch : Branch) (behind : List Char) :
    (gap.text ++ (spell branch.stretches ++ behind)).head? ≠ some ':' := by
  intro h
  rw [List.head?_append] at h
  cases hg : gap.text.head? with
  | some c =>
    rw [hg] at h
    obtain rfl := Option.some.inj h
    have := gap.blank ':' (List.mem_of_head? hg)
    revert this
    decide
  | none =>
    obtain ⟨c, others, hspell, hc⟩ := branch.first_spell
    rw [hg, hspell] at h
    obtain rfl := Option.some.inj h
    revert hc
    decide

/-- A condition with its branches has no blank at either end. -/
theorem solid_condition (condition : NestedText) (branch : Branch) (between : List Char) :
    Solid (conditionText condition ++ (between ++ spell branch.stretches)) := by
  have front : Solid (conditionText condition) :=
    @solid_enclosed '$' '}' (by decide) (by decide) ('{' :: condition.print)
  refine front.append fun c hc => ?_
  rw [List.getLast?_append_of_ne_nil _ branch.solid.ne_nil] at hc
  exact branch.solid.last c hc

/-- A condition is read branch by branch. -/
theorem valueReferences_condition (condition : NestedText) {cs : List Char}
    (hsolid : Solid (conditionText condition ++ cs))
    (h : Holds text region (conditionText condition ++ cs) rest) {branches : List Span}
    (hbranches : branches? text region = some branches) :
    valueReferences text region = branches.flatMap (branchReferences text) := by
  have hroom := h.start_lt_stop hsolid.ne_nil
  unfold valueReferences
  dsimp only
  rw [stripBars_eq_self h hsolid (by simp [conditionText]), if_neg (Nat.not_le_of_lt hroom),
    hbranches]

/-- The branches of a condition lie on either side of the colon. -/
theorem branches?_choice {cs yes no : List Char}
    (hcs : Passes ['?'] ⟨.outside, 0⟩ ⟨.outside, 0⟩ cs)
    (hyes : Passes [':'] ⟨.outside, 0⟩ ⟨.outside, 0⟩ yes)
    (hyesHead : (yes ++ ':' :: no ++ rest).head? ≠ some ':')
    (hnoHead : (no ++ rest).head? ≠ some ':')
    (h : Holds text region (cs ++ '?' :: (yes ++ ':' :: no)) rest) :
    branches? text region =
      some [⟨region.start + cs.length + 1, region.start + cs.length + 1 + yes.length⟩,
        ⟨region.start + cs.length + 1 + yes.length + 1, region.stop⟩] := by
  have question := findTopLevelIn_append hcs h
  have behind : Holds text ⟨region.start + cs.length + 1, region.stop⟩ (yes ++ ':' :: no) rest :=
    @Holds.right text ['?'] _ rest _ h.right
  have plain : occursAt ['?', ':'] text (region.start + cs.length) = false := by
    rw [h.right.occursAt_eq]
    exact isPrefixOf_pair_eq_false hyesHead
  unfold branches?
  rw [question, Option.map_some, plain, if_neg Bool.false_ne_true,
    branchColon?_eq_some hyes behind hnoHead]

/-- A default has one branch. -/
theorem branches?_fallback {cs other : List Char}
    (hcs : Passes ['?'] ⟨.outside, 0⟩ ⟨.outside, 0⟩ cs)
    (h : Holds text region (cs ++ '?' :: (':' :: other)) rest) :
    branches? text region = some [⟨region.start + cs.length + 2, region.stop⟩] := by
  have question := findTopLevelIn_append hcs h
  have double : occursAt ['?', ':'] text (region.start + cs.length) = true := by
    rw [h.right.occursAt_eq]
    simp [List.isPrefixOf]
  unfold branches?
  rw [question, Option.map_some, double, if_pos rfl]

/-- Both branches of a choice are read. -/
theorem valueReferences_choice (condition : NestedText) (before behind : Gap) (yes : Branch)
    (beforeColon behindColon : Gap) (no : Branch)
    (h : Holds text region
      (spell (Value.choice condition before behind yes beforeColon behindColon no).stretches)
      ('"' :: rest)) :
    valueReferences text region = marksFrom region.start
      (Value.choice condition before behind yes beforeColon behindColon no).stretches := by
  have written : Holds text region ((conditionText condition ++ before.text) ++ '?' ::
      ((behind.text ++ (spell yes.stretches ++ beforeColon.text)) ++ ':' ::
        (behindColon.text ++ (spell no.stretches ++ [])))) ('"' :: rest) := by
    simpa [Value.stretches, Stretch.text] using h
  have pass : Passes [':'] ⟨.outside, 0⟩ ⟨.outside, 0⟩
      (behind.text ++ (spell yes.stretches ++ beforeColon.text)) :=
    (passes_blanks behind.blank (by decide) 0).append <|
      (passes_branch yes (.inr rfl)).append (passes_blanks beforeColon.blank (by decide) 0)
  have branches := branches?_choice (passes_condition condition before) pass
    (by simpa using head?_branch_ne_colon behind yes (beforeColon.text ++ ':' ::
      (behindColon.text ++ (spell no.stretches ++ '"' :: rest))))
    (by simpa using head?_branch_ne_colon behindColon no ('"' :: rest)) written
  -- The regions of the branches, as `branches?_choice` names them.
  have behindQuestion := @Holds.right text ['?'] _ _ _ written.right
  have behindColonText := @Holds.right text [':'] _ _ _ behindQuestion.right
  have first := branchReferences_branch yes behind.blank beforeColon.blank behindQuestion.left
  have second :=
    branchReferences_branch no behindColon.blank (List.forall_mem_nil _) behindColonText
  have solid := solid_condition condition no (before.text ++ '?' :: (behind.text ++
    (spell yes.stretches ++ (beforeColon.text ++ ':' :: behindColon.text))))
  have whole : Holds text region (conditionText condition ++ ((before.text ++ '?' ::
      (behind.text ++ (spell yes.stretches ++ (beforeColon.text ++ ':' :: behindColon.text)))) ++
        spell no.stretches)) ('"' :: rest) := by
    simpa using written
  rw [valueReferences_condition condition solid whole branches, List.flatMap_cons,
    List.flatMap_singleton]
  refine (congrArg₂ (· ++ ·) first second).trans ?_
  simp only [Value.stretches, List.cons_append, marksFrom, marksFrom_append, List.length_append,
    List.length_cons, List.length_nil]
  congr 1
  · congr 1
    omega
  · congr 1
    omega

/-- The branch of a default is read. -/
theorem valueReferences_fallback (condition : NestedText) (before behind : Gap) (other : Branch)
    (h : Holds text region (spell (Value.fallback condition before behind other).stretches)
      ('"' :: rest)) :
    valueReferences text region =
      marksFrom region.start (Value.fallback condition before behind other).stretches := by
  have written : Holds text region ((conditionText condition ++ before.text) ++ '?' ::
      (':' :: (behind.text ++ (spell other.stretches ++ [])))) ('"' :: rest) := by
    simpa [Value.stretches, Stretch.text] using h
  have branches := branches?_fallback (passes_condition condition before) written
  have body : Holds text ⟨region.start + (conditionText condition ++ before.text).length + 2,
      region.stop⟩ (behind.text ++ (spell other.stretches ++ [])) ('"' :: rest) :=
    @Holds.right text ['?', ':'] _ _ _ written.right
  have solid := solid_condition condition other (before.text ++ '?' :: ':' :: behind.text)
  have whole : Holds text region (conditionText condition ++
      ((before.text ++ '?' :: ':' :: behind.text) ++ spell other.stretches)) ('"' :: rest) := by
    simpa using written
  rw [valueReferences_condition condition solid whole branches, List.flatMap_singleton,
    branchReferences_branch other behind.blank (List.forall_mem_nil _) body]
  simp only [Value.stretches, marksFrom, List.length_append, List.length_cons]
  congr 1
  omega

/-- **The value of an attribute is read as it was written.** -/
theorem valueReferences_value (value : Value)
    (h : Holds text region (spell value.stretches) ('"' :: rest)) :
    valueReferences text region = marksFrom region.start value.stretches := by
  cases value with
  | direct target =>
    have plain : Holds text region target.print ('"' :: rest) := target.spell_stretches ▸ h
    exact valueReferences_print target (stripBars_eq_self plain target.solid target.first_ne_bar)
      (endsPath_cons (by decide) (by decide) rest) plain
  | bars target =>
    have bars : Holds text region ('|' :: (target.print ++ ['|'])) ('"' :: rest) := by
      rwa [Value.stretches, target.spell_within] at h
    exact valueReferences_print target (stripBars_bars bars target.solid)
      (endsPath_cons (by decide) (by decide) _) bars.bars
  | alone branch something => exact valueReferences_branch branch something h
  | choice condition before behind yes beforeColon behindColon no =>
    exact valueReferences_choice condition before behind yes beforeColon behindColon no h
  | fallback condition before behind other =>
    exact valueReferences_fallback condition before behind other h

/-! ## Quotes of the attribute -/

theorem Target.not_mem_print (target : Target) : '"' ∉ target.print := by
  obtain ⟨idle, hidle, hprint⟩ := target.print_eq
  rw [hprint, List.mem_append, not_or]
  refine ⟨fun hc => absurd (hidle '"' hc) (by decide), ?_⟩
  cases target.selector.bind (·.arguments) with
  | none => simp [argumentText]
  | some arguments => exact not_mem_inPair .round arguments.not_mem_print

theorem Branch.not_mem_spell (branch : Branch) : '"' ∉ spell branch.stretches := by
  rw [branch.spell_stretches]
  cases branch with
  | nothing => decide
  | quoted target => simpa [inQuotes] using target.not_mem_print
  | fragment target => simpa [inFragment] using not_mem_inPair .curly target.not_mem_print

/-- A value can stand in double quotes. -/
theorem Value.not_mem_spell (value : Value) : '"' ∉ spell value.stretches := by
  have condition : ∀ condition : NestedText, '"' ∉ conditionText condition := fun condition => by
    simpa [conditionText] using not_mem_inPair .curly condition.not_mem_print
  have gap : ∀ gap : Gap, '"' ∉ gap.text := fun gap => not_mem_of_class gap.blank (by decide)
  cases value with
  | direct target => simpa [Value.stretches, target.spell_stretches] using target.not_mem_print
  | bars target => simpa [Value.stretches, target.spell_within] using target.not_mem_print
  | alone branch something => exact branch.not_mem_spell
  | choice => simp [Value.stretches, Stretch.text, condition, gap, Branch.not_mem_spell]
  | fallback => simp [Value.stretches, Stretch.text, condition, gap, Branch.not_mem_spell]

end TemplateAnalysis.Reference
