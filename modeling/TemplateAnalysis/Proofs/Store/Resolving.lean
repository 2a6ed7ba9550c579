import Mathlib.Data.List.Nodup
import Mathlib.Data.List.Perm.Subperm
import Mathlib.Logic.Relation
import TemplateAnalysis.Proofs.Store.Runs

/-! # Variables of iterations in cycles

    A variable that an iteration binds is led to the collection of the iteration,
    which may begin with such a variable itself. Iterations may so go over
    themselves, or over each other. What keeps the search finite is that a variable
    is expanded once, with those that have been expanded told on the way:

    * **`resolves_resolveSteps`**: the steps of a variable are those of such a run;
    * **`Resolves.fresh`**: no run expands a variable twice, nor one that was expanded
      before it;
    * **`resolveSteps_expands`**: so each place is that of the last collection, with one
      element for each variable that was expanded.
-/

namespace TemplateAnalysis.Store

open Files Text Variable

variable {items statuses : Collections} {seen rest expanded : List (List Char)}
  {first name : List Char} {outcome : Option (List Step)} {steps : List Step}

/-! ## Tables without names -/

theorem get?_without (name other : List Char) (table : Collections) :
    Collections.get? (without name table) other =
      if other = name then none else table.get? other := by
  split
  · rename_i heq
    refine List.lookup_eq_none_iff.2 ?_
    intro entry hentry
    have hne : entry.1 ≠ name := by simpa using (List.mem_filter.1 hentry).2
    exact bne_iff_ne.2 (heq ▸ hne.symm)
  · rename_i hne
    exact List.lookup_filter_ne hne table

/-- The table without the names that were expanded. -/
def unseen (seen : List (List Char)) (items : Collections) : Collections :=
  seen.foldr without items

theorem get?_unseen (seen : List (List Char)) (items : Collections) (name : List Char) :
    (unseen seen items).get? name = if name ∈ seen then none else items.get? name := by
  induction seen with
  | nil => simp [unseen]
  | cons first seen ih =>
    show Collections.get? (without first (unseen seen items)) name = _
    rw [get?_without, ih]
    by_cases hfirst : name = first
    · simp [hfirst]
    · simp [hfirst]

/-! ## Runs -/

/-- The steps to members with these names, one inside of another. -/
def keySteps (names : List (List Char)) : List Step :=
  names.map fun name => .key (CodePoints.ofList name)

/-- A run that looks for the place of the variable `first` with the names `rest`
    behind it: which variables of iterations are expanded, and what is found. -/
inductive Resolves (items statuses : Collections) : List (List Char) → List Char →
    List (List Char) → List (List Char) → Option (List Step) → Prop
  /-- A variable that was not expanded before stands for an element of its collection. -/
  | item {seen rest expanded names : List (List Char)} {first collection name : List Char}
      {outcome : Option (List Step)} : first ∉ seen → items.get? first = some collection →
      leadingPath? collection = some (name :: names) →
      Resolves items statuses (first :: seen) name names expanded outcome →
      Resolves items statuses seen first rest (first :: expanded)
        (outcome.map fun base => base ++ .element :: keySteps rest)
  /-- A collection that does not begin with a path has no place. -/
  | computed {seen rest : List (List Char)} {first collection : List Char} : first ∉ seen →
      items.get? first = some collection →
      (∀ name names, leadingPath? collection ≠ some (name :: names)) →
      Resolves items statuses seen first rest [first] none
  /-- The status of an iteration has no place. -/
  | status {seen rest : List (List Char)} {first : List Char} :
      first ∈ seen ∨ items.get? first = none → (statuses.get? first).isSome →
      Resolves items statuses seen first rest [] none
  /-- Any other name is a key, and so is one that was expanded before. -/
  | name {seen rest : List (List Char)} {first : List Char} :
      first ∈ seen ∨ items.get? first = none → statuses.get? first = none →
      Resolves items statuses seen first rest [] (some (keySteps (first :: rest)))

/-- **Steps come from such a run**, by induction on the variables that were not
    expanded. -/
theorem resolves_resolveSteps (items statuses : Collections) (seen : List (List Char))
    (first : List Char) (rest : List (List Char)) :
    ∃ expanded, Resolves items statuses seen first rest expanded
      (resolveSteps (unseen seen items) statuses first rest) := by
  generalize htable : unseen seen items = table
  induction table, first, rest using resolveSteps.induct statuses generalizing seen with
  | case1 table first rest collection hitem name names hpath ih =>
    rw [resolveSteps_item hitem hpath]
    rw [← htable, get?_unseen, Option.ite_none_left_eq_some] at hitem
    obtain ⟨expanded, hrun⟩ := ih (first :: seen) (by rw [← htable]; rfl)
    exact ⟨first :: expanded, .item hitem.1 hitem.2 hpath hrun⟩
  | case2 table first rest collection hitem hpath =>
    rw [resolveSteps_computed hitem hpath]
    rw [← htable, get?_unseen, Option.ite_none_left_eq_some] at hitem
    exact ⟨[first], .computed hitem.1 hitem.2 hpath⟩
  | case3 table first rest hitem hstatus =>
    rw [resolveSteps_name hitem, if_pos hstatus]
    rw [← htable, get?_unseen, ite_eq_left_iff, ← or_iff_not_imp_left] at hitem
    exact ⟨[], .status hitem hstatus⟩
  | case4 table first rest hitem hstatus =>
    rw [resolveSteps_name hitem, if_neg hstatus]
    rw [← htable, get?_unseen, ite_eq_left_iff, ← or_iff_not_imp_left] at hitem
    exact ⟨[], .name hitem (by simpa using hstatus)⟩

/-- **No variable is expanded twice**, and none that was expanded before. -/
theorem Resolves.fresh (h : Resolves items statuses seen first rest expanded outcome) :
    expanded.Nodup ∧ ∀ name ∈ expanded, name ∉ seen ∧ (items.get? name).isSome := by
  induction h with
  | item hnew hitem _ _ ih =>
    obtain ⟨hnodup, hfresh⟩ := ih
    constructor
    · exact List.nodup_cons.2 ⟨fun hmem => (hfresh _ hmem).1 List.mem_cons_self, hnodup⟩
    · refine List.forall_mem_cons.2 ⟨⟨hnew, by rw [hitem]; rfl⟩, ?_⟩
      intro name hname
      exact ⟨mt (List.mem_cons_of_mem _) (hfresh name hname).1, (hfresh name hname).2⟩
  | computed hnew hitem _ =>
    refine ⟨List.nodup_singleton _, ?_⟩
    intro name hname
    obtain rfl := List.mem_singleton.1 hname
    exact ⟨hnew, by rw [hitem]; rfl⟩
  | status _ _ => exact ⟨List.nodup_nil, by simp⟩
  | name _ _ => exact ⟨List.nodup_nil, by simp⟩

/-- There are no more expansions than there are variables. -/
theorem Resolves.length_le (h : Resolves items statuses seen first rest expanded outcome) :
    expanded.length ≤ items.length := by
  obtain ⟨hnodup, hfresh⟩ := h.fresh
  have hsubset : expanded ⊆ items.map Prod.fst := by
    intro name hname
    obtain ⟨collection, hget⟩ := Option.isSome_iff_exists.1 (hfresh name hname).2
    obtain ⟨before, after, rfl, -⟩ := List.lookup_eq_some_iff.1 hget
    simp
  calc expanded.length ≤ (items.map Prod.fst).length := (hnodup.subperm hsubset).length_le
    _ = items.length := List.length_map _

/-! ## Places -/

theorem count_keySteps (names : List (List Char)) : (keySteps names).count .element = 0 := by
  rw [List.count_eq_zero]
  simp [keySteps]

/-- The names behind a variable are the last steps. -/
theorem Resolves.suffix (h : Resolves items statuses seen first rest expanded (some steps)) :
    keySteps rest <:+ steps := by
  generalize houtcome : some steps = outcome at h
  cases h with
  | item _ _ _ _ =>
    obtain ⟨base, -, rfl⟩ := Option.map_eq_some_iff.1 houtcome.symm
    exact ⟨base ++ [.element], by simp⟩
  | computed _ _ _ => contradiction
  | status _ _ => contradiction
  | name _ _ =>
    obtain rfl := Option.some.inj houtcome
    exact List.suffix_cons _ _

/-- Each expansion is a step to an element. -/
theorem Resolves.count_element
    (h : Resolves items statuses seen first rest expanded outcome) (hsteps : outcome = some steps) :
    steps.count .element = expanded.length := by
  induction h generalizing steps with
  | item _ _ _ _ ih =>
    obtain ⟨base, hbase, rfl⟩ := Option.map_eq_some_iff.1 hsteps
    rw [List.count_append, List.count_cons_self, count_keySteps, ih hbase, List.length_cons]
  | computed _ _ _ => contradiction
  | status _ _ => contradiction
  | name _ _ =>
    obtain rfl := Option.some.inj hsteps
    exact count_keySteps _

/-- A variable points to the first name of its collection. -/
def PointsTo (items : Collections) (first name : List Char) : Prop :=
  ∃ collection names, items.get? first = some collection ∧
    leadingPath? collection = some (name :: names)

/-- The name that leads a place: it is reached over the collections, it is not that of
    a status, and if it is that of an item it was expanded before or on the way. -/
structure LeadsPlace (items statuses : Collections) (seen : List (List Char))
    (first name : List Char) (steps : List Step) : Prop where
  leads : ∃ others, steps = .key (CodePoints.ofList name) :: others
  reached : Relation.ReflTransGen (PointsTo items) first name
  noStatus : statuses.get? name = none
  cyclic : (items.get? name).isSome → name ∈ seen ∨ Relation.TransGen (PointsTo items) name name

/-- **What leads a place.** -/
theorem Resolves.exists_leadsPlace
    (h : Resolves items statuses seen first rest expanded outcome) (hsteps : outcome = some steps) :
    ∃ name, LeadsPlace items statuses seen first name steps := by
  induction h generalizing steps with
  | @item seen rest expanded names first collection name outcome hnew hitem hpath _ ih =>
    obtain ⟨base, hbase, rfl⟩ := Option.map_eq_some_iff.1 hsteps
    obtain ⟨last, ⟨others, hleads⟩, hreached, hstatus, hcyclic⟩ := ih hbase
    have hpoints : PointsTo items first name := ⟨collection, names, hitem, hpath⟩
    refine ⟨last, ⟨⟨others ++ .element :: keySteps rest, by rw [hleads]; rfl⟩,
      .head hpoints hreached, hstatus, ?_⟩⟩
    intro hlast
    rcases hcyclic hlast with hmem | hcycle
    · rcases List.mem_cons.1 hmem with rfl | hmem
      -- The search has come back to the variable from which it started here.
      · exact .inr (.head' hpoints hreached)
      · exact .inl hmem
    · exact .inr hcycle
  | computed _ _ _ => contradiction
  | status _ _ => contradiction
  | @name seen rest first hplain hstatus =>
    obtain rfl := Option.some.inj hsteps
    refine ⟨first, ⟨⟨keySteps rest, rfl⟩, .refl, hstatus, ?_⟩⟩
    intro hitem
    rcases hplain with hmem | hnone
    · exact .inl hmem
    · rw [hnone] at hitem
      contradiction

/-- **The place of a variable**, whatever the iterations go over. The search expands
    each variable of an iteration at most once, so no more of them than there are. What
    it finds begins with a key and ends with the names behind the variable, with one
    element for each variable that was expanded. The key is not that of a status. If it
    is that of an item, the search has been in a cycle, on which the item lies. -/
theorem resolveSteps_expands (items statuses : Collections) (first : List Char)
    (rest : List (List Char)) :
    ∃ expanded, Resolves items statuses [] first rest expanded
        (resolveSteps items statuses first rest) ∧
      expanded.Nodup ∧ (∀ name ∈ expanded, (items.get? name).isSome) ∧
      expanded.length ≤ items.length ∧
      ∀ steps, resolveSteps items statuses first rest = some steps →
        keySteps rest <:+ steps ∧ steps.count .element = expanded.length ∧
        ∃ name others, steps = .key (CodePoints.ofList name) :: others ∧
          statuses.get? name = none ∧
          ((items.get? name).isSome → Relation.ReflTransGen (PointsTo items) first name ∧
            Relation.TransGen (PointsTo items) name name) := by
  obtain ⟨expanded, hrun⟩ := resolves_resolveSteps items statuses [] first rest
  refine ⟨expanded, hrun, hrun.fresh.1, fun name hname => (hrun.fresh.2 name hname).2,
    hrun.length_le, ?_⟩
  intro steps hsteps
  obtain ⟨name, ⟨others, hleads⟩, hreached, hstatus, hcyclic⟩ := hrun.exists_leadsPlace hsteps
  refine ⟨(hsteps ▸ hrun).suffix, hrun.count_element hsteps, name, others, hleads, hstatus, ?_⟩
  intro hitem
  exact ⟨hreached, (hcyclic hitem).resolve_left (List.not_mem_nil)⟩

-- Two iterations that go over each other: the item is a key where it comes up again.
example : resolveSteps [("a".toList, "b.x".toList), ("b".toList, "a.y".toList)] [] "a".toList
    ["z".toList] = some [.key "a", .key "y", .element, .key "x", .element, .key "z"] := by
  decide +kernel

end TemplateAnalysis.Store
