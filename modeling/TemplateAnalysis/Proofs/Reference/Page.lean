import TemplateAnalysis.Proofs.Reference.Order
import TemplateAnalysis.Proofs.Reference.Value

/-! # Reading written pages

    * **`references_print`**: the references of a page of tags are the paths that
      its trees say, at the places where they were printed, each path once.

    The attributes of a page are found tag by tag, because nothing around them
    names another. The expressions in their values have been read with them, and
    outside of values none opens.
-/

namespace TemplateAnalysis.Reference

open Text Expression Markup

/-- The names that attributes are looked for by. -/
def referenceNames : List (List Char) :=
  referenceAttributes.map String.toList

/-! ## Attributes of tags -/

theorem namesApart_referenceNames : NamesApart referenceNames :=
  ⟨by decide, by decide⟩

theorem isBlank_eq_false_of_mem_name {name : List Char} {c : Char} (hname : name ∈ referenceNames)
    (hc : c ∈ name) : isBlank c = false := by
  have blank : ∀ c ∈ referenceNames.flatten, isBlank c = false :=
    List.all_iff_forall_prop.1 (by decide)
  exact blank c (List.mem_flatten_of_mem hname hc)

theorem not_mem_name {c : Char} (h : isBlank c = true) : ∀ name ∈ referenceNames, c ∉ name := by
  intro name hname hc
  rw [isBlank_eq_false_of_mem_name hname hc] at h
  contradiction

theorem Inert.not_infix (inert : Inert) : ∀ name ∈ referenceNames, ¬ name <:+: inert.text := by
  intro name hname
  obtain ⟨spelling, hs, rfl⟩ := List.mem_map.1 hname
  exact inert.no_attribute spelling hs

/-- The attribute of a tag that stands at a position. -/
def ReferenceTag.attribute (tag : ReferenceTag) (position : Nat) : Attribute :=
  ⟨tag.name.toList, position + tag.front.length, spell tag.value.stretches⟩

theorem ReferenceTag.spell_stretches (tag : ReferenceTag) :
    spell tag.stretches = tag.front ++ (spell tag.value.stretches ++ '"' :: tag.behind.text) := by
  simp [ReferenceTag.stretches, Stretch.text]

/-- A tag has one attribute that refers to templates. -/
theorem attributesFrom_tag (tag : ReferenceTag) (position : Nat) (rest : List Char) :
    ∃ next behindName, attributesFrom referenceNames position false (spell tag.stretches ++ rest) =
        tag.attribute position ::
          attributesFrom referenceNames next behindName (tag.behind.text ++ rest) ∧
      next + tag.behind.text.length = position + (spell tag.stretches).length := by
  have hname : tag.name.toList ∈ referenceNames := List.mem_map_of_mem tag.name_mem
  have skipped : attributesFrom referenceNames position false (spell tag.stretches ++ rest) =
      attributesFrom referenceNames (position + tag.before.text.length + 1) false
        (tag.name.toList ++ (tag.sign.print ++ '"' :: (spell tag.value.stretches ++
          '"' :: (tag.behind.text ++ rest)))) := by
    rw [tag.spell_stretches, ReferenceTag.front]
    simp only [List.append_assoc, List.cons_append, List.nil_append]
    exact attributesFrom_append namesApart_referenceNames.ne_nil (not_mem_name tag.isBlank_blank)
      (isNameChar_eq_false_of_isBlank tag.isBlank_blank) tag.before.not_infix
  rw [skipped, attributesFrom_attribute namesApart_referenceNames hname tag.sign
    tag.value.not_mem_spell]
  refine ⟨_, false, congrArg₂ List.cons ?_ rfl, ?_⟩
  · unfold ReferenceTag.attribute ReferenceTag.front
    simp only [List.length_append, List.length_cons, List.length_nil, Attribute.mk.injEq, true_and,
      and_true]
    omega
  · rw [tag.spell_stretches, ReferenceTag.front]
    simp only [List.length_append, List.length_cons, List.length_nil]
    omega

theorem spell_line (tag : ReferenceTag) (stretches : List Stretch) :
    spell (tag.stretches ++ .plain ['\n'] :: stretches) =
      spell tag.stretches ++ '\n' :: spell stretches := by
  simp [Stretch.text]

/-- The attributes of a page, tag by tag. -/
theorem attributesFrom_last (tag : ReferenceTag) (position : Nat) :
    attributesFrom referenceNames position false (spell tag.stretches) =
      [tag.attribute position] := by
  obtain ⟨next, behindName, heq, -⟩ := attributesFrom_tag tag position []
  rw [List.append_nil, List.append_nil] at heq
  rw [heq, attributesFrom_eq_nil tag.behind.not_infix]

theorem attributesFrom_line (tag : ReferenceTag) (position : Nat) (rest : List Char) :
    attributesFrom referenceNames position false (spell tag.stretches ++ '\n' :: rest) =
      tag.attribute position ::
        attributesFrom referenceNames (position + (spell tag.stretches).length + 1) false rest := by
  obtain ⟨next, behindName, heq, hnext⟩ := attributesFrom_tag tag position ('\n' :: rest)
  rw [heq, attributesFrom_append namesApart_referenceNames.ne_nil (not_mem_name (by decide))
    (by decide) tag.behind.not_infix, hnext]

/-! ## References of attributes -/

/-- The stretch of the value of an attribute. -/
def valueSpan (attr : Attribute) : Span :=
  ⟨attr.start, attr.stop⟩

theorem valueReferences_attribute (tag : ReferenceTag) {text rest : List Char} {position : Nat}
    (h : text.drop position = spell tag.stretches ++ rest) :
    valueReferences text (valueSpan (tag.attribute position)) =
      marksFrom position tag.stretches := by
  have whole : Holds text ⟨position, position + (spell tag.stretches).length⟩ (spell tag.stretches)
      rest := ⟨h, rfl⟩
  rw [tag.spell_stretches] at whole
  have read := valueReferences_value tag.value whole.right.left
  refine read.trans ?_
  rw [ReferenceTag.stretches, List.cons_append, marksFrom, marksFrom_append]
  exact (List.append_nil _).symm

/-- **The attributes of a page** make the references that are written in it. -/
theorem valueReferences_page (tags : List ReferenceTag) {text : List Char} {position : Nat}
    (h : text.drop position = spell (pageStretches tags)) :
    ((attributesFrom referenceNames position false (spell (pageStretches tags))).map
        valueSpan).flatMap (valueReferences text) = marksFrom position (pageStretches tags) := by
  fun_induction pageStretches tags generalizing position
  case case1 => simp [attributesFrom, marksFrom]
  case case2 tag =>
    rw [attributesFrom_last, List.map_singleton, List.flatMap_singleton]
    exact @valueReferences_attribute tag text [] position (by rw [h, List.append_nil])
  case case3 tag rest hrest ih =>
    rw [spell_line] at h ⊢
    have next : text.drop (position + (spell tag.stretches).length + 1) =
        spell (pageStretches rest) := by
      rw [← List.drop_drop, ← List.drop_drop, h, List.drop_left, List.drop_succ_cons,
        List.drop_zero]
    rw [attributesFrom_line, List.map_cons, List.flatMap_cons, ih next,
      valueReferences_attribute tag h, marksFrom_append]
    rfl

/-! ## Expressions in values -/

section Opening

variable {cs ds : List Char} {i : Nat}

/-- Where an expression opens in two stretches in a row, it opens in one of
    them, unless its brace stands behind the seam. -/
theorem opensReference_append
    (hseam : ds.head? ≠ some '{' ∨ cs.getLast?.any (fun c => c == '~' || c == '@') = false)
    (h : opensReference (cs ++ ds) i = true) :
    opensReference cs i = true ∨ ∃ k, i = cs.length + k ∧ opensReference ds k = true := by
  obtain ⟨hsigil, hbrace⟩ := Bool.and_eq_true _ _ ▸ h
  unfold charAt at hsigil hbrace
  rcases Nat.lt_trichotomy (i + 1) cs.length with hlt | heq | hgt
  · rw [List.getElem?_append_left (by omega)] at hsigil
    rw [List.getElem?_append_left hlt] at hbrace
    exact .inl (Bool.and_eq_true_iff.2 ⟨hsigil, hbrace⟩)
  · rw [List.getElem?_append_left (by omega)] at hsigil
    rw [heq, List.getElem?_append_right (Nat.le_refl _), Nat.sub_self, ← List.head?_eq_getElem?]
      at hbrace
    rcases hseam with hhead | hlast
    · obtain ⟨c, hc, hb⟩ := (Option.any_eq_true _ _).1 hbrace
      obtain rfl : c = '{' := by simpa using hb
      exact absurd hc hhead
    · rw [List.getLast?_eq_getElem?, ← heq, Nat.add_sub_cancel, hsigil] at hlast
      contradiction
  · obtain ⟨k, rfl⟩ := Nat.exists_eq_add_of_le (Nat.le_of_lt_succ hgt)
    rw [List.getElem?_append_right (by omega), Nat.add_sub_cancel_left] at hsigil
    rw [List.getElem?_append_right (by omega), Nat.add_assoc, Nat.add_sub_cancel_left] at hbrace
    exact .inr ⟨k, rfl, Bool.and_eq_true_iff.2 ⟨hsigil, hbrace⟩⟩

theorem opensReference_eq_false_of_not_mem (h : '{' ∉ cs) : opensReference cs i = false := by
  unfold opensReference charAt
  cases hc : cs[i + 1]? with
  | none => simp
  | some c =>
    have hne : c ≠ '{' := by
      rintro rfl
      exact h (List.mem_of_getElem? hc)
    simp [hne]

/-- In text that refers to nothing no expression opens. -/
theorem Inert.opensReference_eq_false (inert : Inert) : opensReference inert.text i = false := by
  rw [Bool.eq_false_iff]
  intro h
  obtain ⟨hsigil, hbrace⟩ := Bool.and_eq_true _ _ ▸ h
  obtain ⟨c, hc, hsigil⟩ := (Option.any_eq_true _ _).1 hsigil
  obtain ⟨d, hd, hbrace⟩ := (Option.any_eq_true _ _).1 hbrace
  obtain rfl : d = '{' := by simpa using hbrace
  have within : [c, '{'] <:+: inert.text := by
    refine ⟨inert.text.take i, inert.text.drop (i + 2), ?_⟩
    obtain ⟨hi, rfl⟩ := List.getElem?_eq_some_iff.1 hc
    obtain ⟨hi', hd⟩ := List.getElem?_eq_some_iff.1 hd
    rw [← hd, List.append_assoc]
    simp
  rcases Bool.or_eq_true _ _ ▸ hsigil with hc | hc
  · obtain rfl : c = '~' := by simpa using hc
    exact inert.no_fragment within
  · obtain rfl : c = '@' := by simpa using hc
    exact inert.no_link within

end Opening

theorem ReferenceTag.not_mem_front (tag : ReferenceTag) :
    '{' ∉ tag.blank :: (tag.name.toList ++ (tag.sign.print ++ ['"'])) := by
  have brace : ∀ name ∈ referenceNames, '{' ∉ name := by decide
  have hname := brace tag.name.toList (List.mem_map_of_mem tag.name_mem)
  have blank : '{' ≠ tag.blank := (ne_of_class tag.isBlank_blank (by decide)).symm
  have front : '{' ∉ tag.sign.front := not_mem_of_class tag.sign.front_blank (by decide)
  have back : '{' ∉ tag.sign.back := not_mem_of_class tag.sign.back_blank (by decide)
  simp [Sign.print, hname, front, back, blank]

/-- Where an expression opens in a tag or behind it, it opens in the value of the
    attribute or behind the tag. -/
theorem opensReference_tag (tag : ReferenceTag) {rest : List Char} {i : Nat}
    (hrest : rest.head? ≠ some '{') (h : opensReference (spell tag.stretches ++ rest) i = true) :
    (tag.front.length ≤ i ∧ i < tag.front.length + (spell tag.value.stretches).length) ∨
      ∃ k, i = (spell tag.stretches).length + k ∧ opensReference rest k = true := by
  have regroup : spell tag.stretches ++ rest = tag.before.text ++
      ((tag.blank :: (tag.name.toList ++ (tag.sign.print ++ ['"']))) ++
        (spell tag.value.stretches ++ (['"'] ++ (tag.behind.text ++ rest)))) := by
    simp [tag.spell_stretches, ReferenceTag.front]
  have hfront : tag.front.length = tag.before.text.length +
      (tag.blank :: (tag.name.toList ++ (tag.sign.print ++ ['"']))).length := by
    rw [ReferenceTag.front, List.length_append]
  have hblank : tag.blank ≠ '{' := fun heq => tag.not_mem_front (heq ▸ List.mem_cons_self)
  have hquote : (tag.blank :: (tag.name.toList ++ (tag.sign.print ++ ['"']))).getLast? =
      some '"' := by
    rw [← List.append_assoc, ← List.cons_append, List.getLast?_concat]
  rw [regroup] at h
  -- The stretches in front of what is left are taken away one by one.
  rcases opensReference_append (.inl (by simpa using hblank)) h with hin | ⟨a, rfl, hname⟩
  · rw [tag.before.opensReference_eq_false] at hin
    contradiction
  rcases opensReference_append (.inr (by rw [hquote]; rfl)) hname with hin | ⟨b, rfl, hvalue⟩
  · rw [opensReference_eq_false_of_not_mem tag.not_mem_front] at hin
    contradiction
  rcases opensReference_append (.inl (by simp)) hvalue with hin | ⟨c, rfl, hclosing⟩
  · refine .inl ⟨by omega, ?_⟩
    obtain ⟨d, hd, -⟩ := (Option.any_eq_true _ _).1 (Bool.and_eq_true _ _ ▸ hin).1
    have := (List.getElem?_eq_some_iff.1 hd).1
    omega
  rcases opensReference_append (.inr rfl) hclosing with hin | ⟨d, rfl, hbehind⟩
  · rw [opensReference_eq_false_of_not_mem (by decide)] at hin
    contradiction
  rcases opensReference_append (.inl hrest) hbehind with hin | ⟨e, rfl, hlater⟩
  · rw [tag.behind.opensReference_eq_false] at hin
    contradiction
  refine .inr ⟨e, ?_, hlater⟩
  rw [tag.spell_stretches, List.length_append, List.length_append, hfront]
  simp only [List.length_cons, List.length_nil]
  omega

/-- The value of a tag is covered. -/
theorem isCovered_attribute (tag : ReferenceTag) (position : Nat) {i : Nat}
    (hle : tag.front.length ≤ i) (hlt : i < tag.front.length + (spell tag.value.stretches).length)
    (spans : List Span) :
    isCovered (valueSpan (tag.attribute position) :: spans) (position + i) = true := by
  unfold isCovered valueSpan Attribute.stop ReferenceTag.attribute
  rw [List.any_cons, Bool.or_eq_true, Bool.and_eq_true, decide_eq_true_eq, decide_eq_true_eq]
  dsimp only
  exact .inl ⟨by omega, by omega⟩

/-- Every expression of a page opens in the value of an attribute. -/
theorem isCovered_page (tags : List ReferenceTag) (position : Nat) {i : Nat}
    (h : opensReference (spell (pageStretches tags)) i = true) :
    isCovered ((attributesFrom referenceNames position false
      (spell (pageStretches tags))).map valueSpan) (position + i) = true := by
  fun_induction pageStretches tags generalizing position i
  case case1 => simp [opensReference, charAt] at h
  case case2 tag =>
    rw [attributesFrom_last]
    rcases @opensReference_tag tag [] i (by simp) (by simpa using h) with ⟨hle, hlt⟩ | ⟨k, -, hk⟩
    · exact isCovered_attribute tag position hle hlt _
    · simp [opensReference, charAt] at hk
  case case3 tag rest hrest ih =>
    rw [spell_line] at h ⊢
    rw [attributesFrom_line, List.map_cons]
    rcases opensReference_tag tag (by simp) h with ⟨hle, hlt⟩ | ⟨k, rfl, hk⟩
    · exact isCovered_attribute tag position hle hlt _
    · rcases @opensReference_append ['\n'] _ k (.inr rfl) hk with hk | ⟨m, rfl, hm⟩
      · rw [opensReference_eq_false_of_not_mem (by decide)] at hk
        contradiction
      · have later := ih (position + (spell tag.stretches).length + 1) hm
        unfold isCovered at later ⊢
        rw [List.any_cons, Bool.or_eq_true]
        refine .inr ?_
        rwa [show position + ((spell tag.stretches).length + (['\n'].length + m)) =
          position + (spell tag.stretches).length + 1 + m by
            simp only [List.length_singleton]; omega]

/-- Where every expression is covered, none is read on its own. -/
theorem expressionReferencesFrom_eq_nil {text cs : List Char} {covered : List Span} {position : Nat}
    (h : ∀ i, opensReference cs i = true → isCovered covered (position + i) = true) :
    expressionReferencesFrom text covered position cs = [] := by
  have behind : ∀ (n : Nat) (front rest : List Char), front.length = n → ∀ i,
      opensReference rest i = opensReference (front ++ rest) (n + i) := by
    rintro n front rest rfl i
    unfold opensReference charAt
    rw [List.getElem?_append_right (by omega), List.getElem?_append_right (by omega),
      Nat.add_sub_cancel_left, Nat.add_assoc, Nat.add_sub_cancel_left]
  fun_induction expressionReferencesFrom text covered position cs with
  | case1 => rfl
  | case2 => rfl
  | case3 position c d rest hopen hcovered ih =>
    refine ih fun i hi => ?_
    rw [Nat.add_assoc]
    exact h (2 + i) (behind 2 [c, d] rest rfl i ▸ hi)
  | case4 position c d rest hopen hcovered hclose ih =>
    exact absurd (h 0 (by simpa [opensReference, charAt] using hopen)) hcovered
  | case5 position c d rest hopen hcovered k hclose inner ih =>
    exact absurd (h 0 (by simpa [opensReference, charAt] using hopen)) hcovered
  | case6 position c d rest hopen ih =>
    refine ih fun i hi => ?_
    rw [Nat.add_assoc]
    exact h (1 + i) (behind 1 [c] (d :: rest) rfl i ▸ hi)

/-! ## References of a page -/

theorem candidates_page (tags : List ReferenceTag) :
    candidates (spell (pageStretches tags)) = marksFrom 0 (pageStretches tags) := by
  have attributes := @valueReferences_page tags (spell (pageStretches tags)) 0 List.drop_zero
  have expressions : expressionReferencesFrom (spell (pageStretches tags))
      ((attributesFrom referenceNames 0 false (spell (pageStretches tags))).map valueSpan) 0
      (spell (pageStretches tags)) = [] :=
    expressionReferencesFrom_eq_nil fun i hi => isCovered_page tags 0 hi
  exact (congrArg₂ (· ++ ·) attributes expressions).trans (List.append_nil _)

theorem le_start_of_mem_marksFrom {stretches : List Stretch} {position : Nat} {mark : ReferredPath}
    (h : mark ∈ marksFrom position stretches) : position ≤ mark.start := by
  fun_induction marksFrom position stretches with
  | case1 => simp at h
  | case2 position text rest ih => exact Nat.le_trans (Nat.le_add_right _ _) (ih h)
  | case3 position text rest ih =>
    rcases List.mem_cons.1 h with rfl | h
    · exact Nat.le_refl _
    · exact Nat.le_trans (Nat.le_add_right _ _) (ih h)

/-- Paths are marked in the order of the text. -/
theorem pairwise_marksFrom (position : Nat) (stretches : List Stretch) :
    (marksFrom position stretches).Pairwise fun a b => a.start ≤ b.start := by
  fun_induction marksFrom position stretches with
  | case1 => exact List.Pairwise.nil
  | case2 position text rest ih => exact ih
  | case3 position text rest ih =>
    refine List.pairwise_cons.2 ⟨fun mark hmark => ?_, ih⟩
    exact Nat.le_trans (Nat.le_add_right _ _) (le_start_of_mem_marksFrom hmark)

theorem path_mem_of_mem_marksFrom {stretches : List Stretch} {position : Nat} {mark : ReferredPath}
    (h : mark ∈ marksFrom position stretches) : .path mark.path ∈ stretches := by
  fun_induction marksFrom position stretches with
  | case1 => simp at h
  | case2 position text rest ih => exact List.mem_cons_of_mem _ (ih h)
  | case3 position text rest ih =>
    rcases List.mem_cons.1 h with rfl | h
    · exact List.mem_cons_self
    · exact List.mem_cons_of_mem _ (ih h)

/-- What is marked in a value is the path of a template. -/
theorem Value.exists_path (value : Value) {text : List Char} (h : .path text ∈ value.stretches) :
    ∃ path : TemplatePath, text = path.text := by
  have within : ∀ (target : Target) (front back : List Char),
      .path text ∈ target.within front back → ∃ path : TemplatePath, text = path.text := by
    intro target front back h
    exact ⟨target.path, by simpa [Target.within, Target.stretches] using h⟩
  have branches : ∀ branch : Branch, .path text ∈ branch.stretches →
      ∃ path : TemplatePath, text = path.text := by
    intro branch h
    cases branch with
    | nothing => simp [Branch.stretches] at h
    | quoted target => exact within target.toTarget _ _ h
    | fragment target => exact within target _ _ h
  cases value with
  | direct target => exact ⟨target.path, by simpa [Value.stretches, Target.stretches] using h⟩
  | bars target => exact within target _ _ h
  | alone branch something => exact branches branch h
  | choice condition before behind yes beforeColon behindColon no =>
    have either : .path text ∈ yes.stretches ∨ .path text ∈ no.stretches := by
      simpa [Value.stretches] using h
    exact either.elim (branches yes) (branches no)
  | fallback condition before behind other =>
    exact branches other (by simpa [Value.stretches] using h)

theorem exists_path_of_mem_page (tags : List ReferenceTag) {text : List Char}
    (h : .path text ∈ pageStretches tags) : ∃ path : TemplatePath, text = path.text := by
  have inTag : ∀ tag : ReferenceTag, .path text ∈ tag.stretches →
      ∃ path : TemplatePath, text = path.text := fun tag h =>
    tag.value.exists_path (by simpa [ReferenceTag.stretches] using h)
  fun_induction pageStretches tags with
  | case1 => simp at h
  | case2 tag => exact inTag tag h
  | case3 tag rest hrest ih =>
    have either : .path text ∈ tag.stretches ∨ .path text ∈ pageStretches rest := by simpa using h
    exact either.elim (inTag tag) ih

/-- Repetitions are left out by their paths, when no path is spelled with
    backslashes. -/
theorem distinct_eq_filter {found : List ReferredPath} (seen : List (List Char))
    (h : ∀ reference ∈ found, withSlashes reference.path = reference.path) :
    distinct seen found = (firstOfEach found).filter fun reference => reference.path ∉ seen := by
  induction found generalizing seen with
  | nil => rfl
  | cons reference rest ih =>
    have later := fun r hr => h r (List.mem_cons_of_mem _ hr)
    rw [distinct, firstOfEach, h reference List.mem_cons_self]
    by_cases hseen : reference.path ∈ seen
    · rw [if_pos (by simpa using hseen), ih seen later,
        List.filter_cons_of_neg (by simpa using hseen), List.filter_filter]
      refine List.filter_congr fun r _ => ?_
      have hne : r.path ∉ seen → r.path ≠ reference.path := fun hr heq => hr (heq ▸ hseen)
      simpa using hne
    · rw [if_neg (by simpa using hseen), ih _ later, List.filter_cons_of_pos (by simpa using hseen),
        List.filter_filter]
      congr 1
      refine List.filter_congr fun r _ => ?_
      simp [Bool.and_comm]

theorem withSlashes_path (path : TemplatePath) : withSlashes path.text = path.text := by
  have miss := path.not_mem (show isPathChar '\\' = false by decide)
  unfold withSlashes
  refine (List.map_congr_left fun c hc => ?_).trans (List.map_id _)
  have hne : c ≠ '\\' := fun heq => miss (heq ▸ hc)
  rw [if_neg hne, id]

/-- **Printed references are read back**: a page of tags refers to the paths that
    are written in it, where they are written, to each of them once. -/
theorem references_print (tags : List ReferenceTag) :
    references (spell (pageStretches tags)) = firstOfEach (marksFrom 0 (pageStretches tags)) := by
  have sorted : ((marksFrom 0 (pageStretches tags)).mergeSort fun a b => a.start ≤ b.start) =
      marksFrom 0 (pageStretches tags) :=
    List.mergeSort_of_pairwise ((pairwise_marksFrom 0 _).imp fun hle => by simpa using hle)
  have slashes : ∀ mark ∈ marksFrom 0 (pageStretches tags), withSlashes mark.path = mark.path := by
    intro mark hmark
    obtain ⟨path, hpath⟩ := exists_path_of_mem_page tags (path_mem_of_mem_marksFrom hmark)
    rw [hpath, withSlashes_path]
  rw [references, candidates_page, sorted, distinct_eq_filter [] slashes]
  exact List.filter_eq_self.2 (by simp)

-- No-op branches refer to nothing, and what stands directly before a path falls away.
example : references "<a th:insert=\"${c} ? _ : ~{/main :: nav(1)}\"/>".toList =
    [⟨"main".toList, 28⟩] := by
  decide +kernel

end TemplateAnalysis.Reference
