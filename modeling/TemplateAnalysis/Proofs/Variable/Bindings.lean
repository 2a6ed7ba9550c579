import TemplateAnalysis.Proofs.Expression.Nested
import TemplateAnalysis.Proofs.Expression.Syntax
import TemplateAnalysis.Proofs.Variable.Prefixes
import TemplateAnalysis.Variable.Iteration

/-! # Iterations are read back

    A template that lists iterations, each in a tag on a line of its own, binds
    the variables that the list says:

    * **`bindings_print`**: the bindings of such a template are those that are
      written in it, in order;
    * **`assigned_itemCollections`** and **`assigned_statusCollections`**: the
      tables of any list of bindings are what assigning them one after the other
      leaves;
    * **`collections_print`**: so the tables of the template are what assigning
      the written bindings leaves, and of every text the names that its
      iterations bind are those of the two tables.

    What stands before the colon has neither quotes nor brackets, so the first
    colon at the top level is the one that was written, whatever the collection
    holds; the collection is one expression because the brace behind it is the one
    that closes it.
-/

namespace TemplateAnalysis.Variable

open Text Expression Markup Reference

/-! ## Tables -/

theorem Collections.get?_cons (entry : List Char × List Char) (rest : Collections)
    (name : List Char) :
    Collections.get? (entry :: rest) name =
      if name = entry.1 then some entry.2 else rest.get? name := by
  rw [Collections.get?, List.lookup_cons]
  by_cases h : name = entry.1
  · simp [h]
  · rw [if_neg h, beq_eq_false_iff_ne.2 h]
    rfl

theorem Collections.get?_bind (table : Collections) (name other collection : List Char) :
    (table.bind name collection).get? other =
      if other = name then some collection else table.get? other := by
  induction table with
  | nil => exact Collections.get?_cons (name, collection) [] other
  | cons entry rest ih =>
    rw [Collections.bind]
    by_cases hentry : entry.1 = name
    · rw [if_pos hentry, get?_cons, get?_cons, hentry]
      by_cases hother : other = name <;> simp [hother]
    · rw [if_neg hentry, get?_cons, get?_cons, ih]
      by_cases hother : other = entry.1
      · have hne : other ≠ name := hother ▸ hentry
        rw [if_pos hother, if_neg hne, if_pos hother]
      · rw [if_neg hother, if_neg hother]

theorem Collections.names_bind (table : Collections) (name collection : List Char) :
    (table.bind name collection).map Prod.fst =
      if name ∈ table.map Prod.fst then table.map Prod.fst else table.map Prod.fst ++ [name] := by
  induction table with
  | nil => rfl
  | cons entry rest ih =>
    rw [Collections.bind]
    by_cases hentry : entry.1 = name
    · rw [if_pos hentry, if_pos (by simp [hentry]), List.map_cons, List.map_cons, hentry]
    · rw [if_neg hentry, List.map_cons, List.map_cons, ih]
      by_cases hrest : name ∈ rest.map Prod.fst
      · rw [if_pos hrest, if_pos (List.mem_cons_of_mem _ hrest)]
      · have hnot : name ∉ entry.1 :: rest.map Prod.fst := by
          rw [List.mem_cons, not_or]
          exact ⟨Ne.symm hentry, hrest⟩
        rw [if_neg hrest, if_neg hnot, List.cons_append]

/-- What assignments in a row leave: every name stands where it was assigned
    first, with what it was assigned last. -/
structure Assigned (assignments table : Collections) : Prop where
  names : table.map Prod.fst = (assignments.map Prod.fst).eraseDups
  last : ∀ name, table.get? name = assignments.reverse.lookup name

/-- One more assignment. -/
theorem Assigned.bind {assignments table : Collections} (h : Assigned assignments table)
    (name collection : List Char) :
    Assigned (assignments ++ [(name, collection)]) (table.bind name collection) where
  names := by
    rw [table.names_bind, h.names, List.map_append, List.map_singleton, eraseDups_concat]
    simp only [List.mem_eraseDups]
  last other := by
    rw [table.get?_bind, h.last, List.reverse_concat]
    exact (Collections.get?_cons (name, collection) assignments.reverse other).symm

theorem assigned_foldl (assignments : Collections) :
    Assigned assignments
      (assignments.foldl (fun table assignment => table.bind assignment.1 assignment.2) []) := by
  induction assignments using List.reverseRecOn with
  | nil => exact ⟨rfl, fun _ => rfl⟩
  | append_singleton assignments assignment ih =>
    rw [List.foldl_concat]
    exact ih.bind assignment.1 assignment.2

/-- What bindings assign to their items. -/
def itemAssignments (bindings : List Binding) : Collections :=
  bindings.map fun b => (b.item, b.collection)

/-- What bindings assign to their status variables. -/
def statusAssignments (bindings : List Binding) : Collections :=
  bindings.filterMap fun b => b.status.map (·, b.collection)

/-- **The table of the items** is what assigning them in order leaves. -/
theorem assigned_itemCollections (bindings : List Binding) :
    Assigned (itemAssignments bindings) (itemCollections bindings) := by
  have h := assigned_foldl (itemAssignments bindings)
  rwa [itemAssignments, List.foldl_map] at h

/-- **The table of the status variables** is what assigning them in order leaves. -/
theorem assigned_statusCollections (bindings : List Binding) :
    Assigned (statusAssignments bindings) (statusCollections bindings) := by
  have same : statusCollections bindings = (statusAssignments bindings).foldl
      (fun (table : Collections) assignment => table.bind assignment.1 assignment.2) [] := by
    rw [statusAssignments, List.foldl_filterMap, statusCollections]
    congr 1
    funext table b
    cases b.status <;> rfl
  rw [same]
  exact assigned_foldl (statusAssignments bindings)

theorem Assigned.mem_names {assignments table : Collections} (h : Assigned assignments table)
    (name : List Char) : name ∈ table.map Prod.fst ↔ name ∈ assignments.map Prod.fst := by
  rw [h.names, List.mem_eraseDups]

/-- The names that bindings bind are those of both tables. -/
theorem mem_iterationNames (bindings : List Binding) (name : List Char) :
    name ∈ iterationNames bindings ↔
      name ∈ (itemCollections bindings).map Prod.fst ∨
        name ∈ (statusCollections bindings).map Prod.fst := by
  rw [(assigned_itemCollections bindings).mem_names,
    (assigned_statusCollections bindings).mem_names, iterationNames, List.mem_eraseDups,
    List.mem_flatMap]
  simp only [itemAssignments, statusAssignments, List.mem_map, List.mem_filterMap, List.mem_cons,
    Option.mem_toList, Option.map_eq_some_iff]
  constructor
  · rintro ⟨b, hb, rfl | hstatus⟩
    · exact .inl ⟨_, ⟨b, hb, rfl⟩, rfl⟩
    · exact .inr ⟨_, ⟨b, hb, name, hstatus, rfl⟩, rfl⟩
  · rintro (⟨-, ⟨b, hb, rfl⟩, rfl⟩ | ⟨-, ⟨b, hb, status, hstatus, rfl⟩, rfl⟩)
    · exact ⟨b, hb, .inl rfl⟩
    · exact ⟨b, hb, .inr hstatus⟩

/-! ## Written iterations -/

/-- A collection as it stands in the braces of an iteration. -/
structure CollectionText where
  text : List Char
  ne_nil : text ≠ []
  trimmed : trim text = text
  no_quote : '"' ∉ text
  /-- The brace behind it closes the expression. -/
  closed : findClosing ('$' :: '{' :: text ++ ['}']) 1 = some (text.length + 2)

/-- A status variable, with the blanks around the comma before it. -/
structure StatusVariable where
  name : Name
  beforeComma : Gap
  behindComma : Gap

/-- The text of a status variable and of the comma before it. -/
def StatusVariable.print (status : StatusVariable) : List Char :=
  status.beforeComma.text ++ ',' :: (status.behindComma.text ++ status.name.text)

/-- An iteration that stands in a tag. -/
structure WrittenBinding where
  spelling : String
  spelling_mem : spelling ∈ iterationAttributes
  item : Name
  status : Option StatusVariable
  beforeColon : Gap
  behindColon : Gap
  sigil : Char
  sigil_variable : sigil = '$' ∨ sigil = '*'
  collection : CollectionText

namespace WrittenBinding

/-- What it binds. -/
def binding (written : WrittenBinding) : Binding :=
  ⟨written.item.text, written.status.map (·.name.text), written.collection.text⟩

/-- The names before the colon. -/
def names (written : WrittenBinding) : List Char :=
  written.item.text ++ (written.status.elim [] StatusVariable.print ++ written.beforeColon.text)

/-- The expression behind the colon. -/
def expression (written : WrittenBinding) : List Char :=
  written.sigil :: '{' :: (written.collection.text ++ ['}'])

/-- The value of the attribute. -/
def value (written : WrittenBinding) : List Char :=
  written.names ++ ':' :: (written.behindColon.text ++ written.expression)

/-- The tag. -/
def print (written : WrittenBinding) : List Char :=
  "<li ".toList ++ (written.spelling.toList ++ '=' :: '"' :: (written.value ++ ['"', '>']))

end WrittenBinding

/-- A template of iterations, one on a line. -/
def printBindings (written : List WrittenBinding) : List Char :=
  joinWith ['\n'] (written.map WrittenBinding.print)

/-! ## The value of an iteration -/

theorem solid_of_isIdentifier {name : List Char} (h : isIdentifier name = true) : Solid name := by
  have hne : name ≠ [] := by
    rintro rfl
    contradiction
  have htrim := trim_of_isIdentifier h
  rw [← htrim] at hne ⊢
  exact solid_trim hne

/-- The names before the colon have neither quotes nor brackets, nor colons. -/
theorem WrittenBinding.bare_names (written : WrittenBinding) :
    ∀ c ∈ written.names, isBare c = true ∧ c ≠ ':' := by
  have word : ∀ name : Name, ∀ c ∈ name.text, isBare c = true ∧ c ≠ ':' := fun name c hc =>
    have hword := isWordChar_of_mem_identifier name.identifier hc
    ⟨isBare_of_class hword (by decide) (by decide) (by decide), ne_of_class hword (by decide)⟩
  have blank : ∀ gap : Gap, ∀ c ∈ gap.text, isBare c = true ∧ c ≠ ':' := fun gap c hc =>
    ⟨isBare_of_isBlank (gap.blank c hc), ne_of_class (gap.blank c hc) (by decide)⟩
  -- They are made of word characters, blanks and at most one comma.
  intro c hc
  rw [names, List.mem_append, List.mem_append] at hc
  rcases hc with hc | hc | hc
  · exact word _ c hc
  · cases hstatus : written.status with
    | none => simp [hstatus] at hc
    | some status =>
      rw [hstatus, Option.elim_some, StatusVariable.print, List.mem_append, List.mem_cons,
        List.mem_append] at hc
      rcases hc with hc | rfl | hc | hc
      · exact blank _ c hc
      · decide
      · exact blank _ c hc
      · exact word _ c hc
  · exact blank _ c hc

/-- The first colon at the top level is the one behind the names. -/
theorem WrittenBinding.findTopLevel_colon (written : WrittenBinding) :
    findTopLevel [':'] written.value = some written.names.length := by
  have passes : Passes [':'] ⟨.outside, 0⟩ ⟨.outside, 0⟩ written.names :=
    passes_of_bare fun c hc => ⟨(written.bare_names c hc).1, fun _ => (written.bare_names c hc).2⟩
  have found := passes.eq_some (by simp) (written.behindColon.text ++ written.expression) []
  rw [List.append_nil, List.singleton_append] at found
  simp only [findTopLevel, findTopLevelIn, Nat.sub_zero, List.drop_zero, Nat.add_zero,
    Option.map_id']
  exact found

theorem WrittenBinding.trim_expression (written : WrittenBinding) :
    trim (written.behindColon.text ++ written.expression) = written.expression := by
  have solid : Solid written.expression := by
    refine ⟨by simp [expression], fun c hc => ?_, fun c hc => ?_⟩
    · obtain rfl : written.sigil = c := by simpa [expression] using hc
      rcases written.sigil_variable with h | h <;> rw [h] <;> decide
    · rw [expression, ← List.cons_append, ← List.cons_append, List.getLast?_concat] at hc
      obtain rfl := Option.some.inj hc
      decide
  have h := @trim_between _ _ [] written.behindColon.blank solid (by simp)
  rwa [List.append_nil] at h

/-- The expression is one whole variable expression. -/
theorem WrittenBinding.unwrapVariable?_expression (written : WrittenBinding) :
    unwrapVariable? written.expression = some written.collection.text := by
  have sigil : (written.sigil == '$' || written.sigil == '*') = true := by
    rcases written.sigil_variable with h | h <;> rw [h] <;> decide
  -- Which sigil stands before the brace makes no difference to its partner.
  have closes : findClosing written.expression 1 = some (written.expression.length - 1) := by
    refine Eq.trans ?_ (written.collection.closed.trans ?_)
    · rfl
    · simp [expression]
  unfold expression at closes ⊢
  simp only [unwrapVariable?, sigil, closes, BEq.rfl, Bool.and_self, if_true,
    List.dropLast_concat, written.collection.trimmed]
  rw [if_neg (by simpa using written.collection.ne_nil)]

theorem comma_not_mem_name (name : Name) : ',' ∉ name.text :=
  not_mem_of_class (fun _ hc => isWordChar_of_mem_identifier name.identifier hc) (by decide)

theorem comma_not_mem_gap (gap : Gap) : ',' ∉ gap.text :=
  not_mem_of_class gap.blank (by decide)

/-- The names are told apart by the comma, without the blanks around them. -/
theorem WrittenBinding.splitOn_names (written : WrittenBinding) :
    (splitOn ',' written.names).map trim =
      written.item.text :: (written.status.map (·.name.text)).toList := by
  have solid : ∀ name : Name, Solid name.text := fun name => solid_of_isIdentifier name.identifier
  unfold names
  cases written.status with
  | none =>
    have hnot : ',' ∉ written.item.text ++ written.beforeColon.text := by
      rw [List.mem_append, not_or]
      exact ⟨comma_not_mem_name _, comma_not_mem_gap _⟩
    have htrim := @trim_between _ [] _ (by simp) (solid written.item) written.beforeColon.blank
    simpa [splitOn_of_notMem hnot] using htrim
  | some status =>
    have hitem : ',' ∉ written.item.text ++ status.beforeComma.text := by
      rw [List.mem_append, not_or]
      exact ⟨comma_not_mem_name _, comma_not_mem_gap _⟩
    have hstatus :
        ',' ∉ status.behindComma.text ++ (status.name.text ++ written.beforeColon.text) := by
      rw [List.mem_append, List.mem_append, not_or, not_or]
      exact ⟨comma_not_mem_gap _, comma_not_mem_name _, comma_not_mem_gap _⟩
    have regroup : written.item.text ++ ((some status).elim [] StatusVariable.print ++
        written.beforeColon.text) = (written.item.text ++ status.beforeComma.text) ++
          ',' :: (status.behindComma.text ++ (status.name.text ++ written.beforeColon.text)) := by
      simp [StatusVariable.print]
    have front := @trim_between _ [] _ (by simp) (solid written.item) status.beforeComma.blank
    have back := trim_between status.behindComma.blank (solid status.name) written.beforeColon.blank
    rw [List.nil_append] at front
    rw [regroup, splitOn_append_cons, splitOn_of_notMem hitem, splitOn_of_notMem hstatus]
    simp [front, back]

/-- **The value of an iteration** states what is bound. -/
theorem WrittenBinding.bindingOf?_value (written : WrittenBinding) :
    bindingOf? written.value = some written.binding := by
  have behind : written.value.drop (written.names.length + 1) =
      written.behindColon.text ++ written.expression := by
    rw [value, ← List.drop_drop, List.drop_left, List.drop_succ_cons, List.drop_zero]
  have front : written.value.take written.names.length = written.names := List.take_left
  have identifiers : (written.item.text :: (written.status.map (·.name.text)).toList).all
      isIdentifier = true := by
    cases hstatus : written.status <;> simp [Name.identifier]
  unfold bindingOf?
  simp only [Option.bind_eq_bind, written.findTopLevel_colon, Option.bind_some, behind, front,
    written.trim_expression, written.unwrapVariable?_expression, written.splitOn_names, identifiers,
    if_true, binding]
  cases written.status <;> rfl

/-! ## The attributes of the template -/

theorem WrittenBinding.quote_not_mem_value (written : WrittenBinding) : '"' ∉ written.value := by
  have names : '"' ∉ written.names :=
    not_mem_of_class (fun c hc => (written.bare_names c hc).1) (by decide)
  have blank : '"' ∉ written.behindColon.text :=
    not_mem_of_class written.behindColon.blank (by decide)
  have sigil : '"' ≠ written.sigil := by
    rcases written.sigil_variable with h | h <;> rw [h] <;> decide
  simp [value, expression, names, blank, sigil, written.collection.no_quote]

/-- The names that iterations are looked for by. -/
def iterationNamesSought : List (List Char) :=
  iterationAttributes.map String.toList

theorem namesApart_sought : NamesApart iterationNamesSought :=
  ⟨by decide, by decide⟩

/-- A tag has one attribute that binds variables. -/
theorem WrittenBinding.attributesFrom_print (written : WrittenBinding) (position : Nat)
    (rest : List Char) :
    ∃ start next, attributesFrom iterationNamesSought position false (written.print ++ rest) =
      ⟨written.spelling.toList, start, written.value⟩ ::
        attributesFrom iterationNamesSought next false rest := by
  have hname : written.spelling.toList ∈ iterationNamesSought :=
    List.mem_map_of_mem written.spelling_mem
  have regroup : written.print ++ rest = "<li".toList ++ ' ' :: (written.spelling.toList ++
      ((Sign.mk [] [] (by simp) (by simp)).print ++ '"' :: (written.value ++ '"' ::
        ([] ++ '>' :: rest)))) := by
    simp [print, Sign.print]
  rw [regroup, attributesFrom_append namesApart_sought.ne_nil (by decide) (by decide) (by decide),
    attributesFrom_attribute namesApart_sought hname _ written.quote_not_mem_value,
    attributesFrom_append namesApart_sought.ne_nil (by decide) (by decide) (by decide)]
  exact ⟨_, _, rfl⟩

/-- The attributes of a template of iterations state their bindings. -/
theorem filterMap_attributesFrom_print (written : List WrittenBinding) (position : Nat) :
    (attributesFrom iterationNamesSought position false (printBindings written)).filterMap
        (fun attr => bindingOf? attr.value) = written.map WrittenBinding.binding := by
  induction written generalizing position with
  | nil => simp [printBindings, joinWith, attributesFrom]
  | cons first others ih =>
    cases others with
    | nil =>
      obtain ⟨start, next, found⟩ := first.attributesFrom_print position []
      have line : printBindings [first] = first.print ++ [] := by simp [printBindings, joinWith]
      rw [line, found, attributesFrom, List.filterMap_cons]
      simp only [first.bindingOf?_value, List.filterMap_nil, List.map_singleton]
    | cons second more =>
      obtain ⟨start, next, found⟩ :=
        first.attributesFrom_print position ('\n' :: printBindings (second :: more))
      -- The line end between two tags starts no attribute.
      have behind := @attributesFrom_append [] (printBindings (second :: more)) next false
        iterationNamesSought '\n' namesApart_sought.ne_nil (by decide) (by decide) (by decide)
      have lines : printBindings (first :: second :: more) =
          first.print ++ '\n' :: printBindings (second :: more) := by
        unfold printBindings
        rw [List.map_cons, List.map_cons, joinWith_cons_cons]
        rfl
      rw [List.nil_append] at behind
      rw [lines, found, List.filterMap_cons, behind, ih]
      simp only [first.bindingOf?_value, List.map_cons]

/-- **Written iterations are read back**, in order. -/
theorem bindings_print (written : List WrittenBinding) :
    bindings (printBindings written) = written.map WrittenBinding.binding :=
  filterMap_attributesFrom_print written 0

/-- **The tables of a template of iterations** are what assigning the written
    collections in order leaves: to the items in the one, to the status variables
    in the other. Whatever the text, the names that its iterations bind are those
    of both tables, each of them once. -/
theorem collections_print (written : List WrittenBinding) (text : List Char) :
    (Assigned (written.map fun w => (w.item.text, w.collection.text))
        (itemCollections (bindings (printBindings written))) ∧
      Assigned (written.filterMap fun w => w.status.map (·.name.text, w.collection.text))
        (statusCollections (bindings (printBindings written)))) ∧
    (iterationNames (bindings text)).Nodup ∧
      ∀ name, name ∈ iterationNames (bindings text) ↔
        name ∈ (itemCollections (bindings text)).map Prod.fst ∨
          name ∈ (statusCollections (bindings text)).map Prod.fst := by
  have items : (written.map fun w => (w.item.text, w.collection.text)) =
      itemAssignments (bindings (printBindings written)) := by
    rw [bindings_print, itemAssignments, List.map_map]
    rfl
  have statuses : (written.filterMap fun w => w.status.map (·.name.text, w.collection.text)) =
      statusAssignments (bindings (printBindings written)) := by
    rw [bindings_print, statusAssignments, List.filterMap_map]
    refine List.filterMap_congr fun w _ => ?_
    cases hstatus : w.status <;> simp [WrittenBinding.binding, hstatus]
  rw [items, statuses]
  exact ⟨⟨assigned_itemCollections _, assigned_statusCollections _⟩, nodup_eraseDups _,
    mem_iterationNames (bindings text)⟩

-- A colon and a comma in the collection do not count, and the later binding stays.
example : itemCollections (bindings
    "<li th:each=\"a : ${x}\">\n<li data-th-each=\"a , b:*{f(x, y) ? y : z}\">".toList) =
    [("a".toList, "f(x, y) ? y : z".toList)] := by
  decide +kernel

end TemplateAnalysis.Variable
