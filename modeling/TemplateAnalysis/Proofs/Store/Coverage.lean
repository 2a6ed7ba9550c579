import TemplateAnalysis.Proofs.Store.Filling

/-! # Coverage of the variables

    After a run, do all variables of the template have a value in the data?

    * **`reaches_insertAt`**: the steps that are inserted lead to a value;
    * **`reaches_insertAt_of_reaches`**: steps that led to a value before still
      do, unless they and the inserted ones ask one value for both a key and an
      element;
    * **`reaches_insertAll_leaves_iff`**: so all variables are covered exactly when no
      two of them are in conflict.
-/

namespace TemplateAnalysis.Store

open Json Text

/-! ## Places -/

/-- One move from a value to a value inside it. Steps move to members and to
    first elements; a place can be any element. -/
inductive Move
  | key (name : CodePoints)
  | item (index : Nat)
  deriving DecidableEq, Repr

/-- The value at a place. -/
def valueAt? : List Move → Value → Option Value
  | [], value => some value
  | .key name :: rest, .object members => (Members.get? members name).bind (valueAt? rest)
  | .item index :: rest, .array items => items[index]?.bind (valueAt? rest)
  | _, _ => none

/-- The move of a step. -/
def Step.move : Step → Move
  | .key name => .key name
  | .element => .item 0

/-- Do the steps lead to a value? -/
def Reaches (steps : List Step) (value : Value) : Prop :=
  (valueAt? (steps.map Step.move) value).isSome = true

theorem valueAt?_append (before after : List Move) (value : Value) :
    valueAt? (before ++ after) value = (valueAt? before value).bind (valueAt? after) := by
  induction before generalizing value with
  | nil => rfl
  | cons move rest ih =>
    cases move with
    | key name =>
      cases value with
      | object members =>
        show (Members.get? members name).bind (valueAt? (rest ++ after)) =
          ((Members.get? members name).bind (valueAt? rest)).bind (valueAt? after)
        rw [Option.bind_assoc]
        congr 1
        funext inner
        exact ih inner
      | _ => rfl
    | item index =>
      cases value with
      | array items =>
        show items[index]?.bind (valueAt? (rest ++ after)) =
          (items[index]?.bind (valueAt? rest)).bind (valueAt? after)
        rw [Option.bind_assoc]
        congr 1
        funext inner
        exact ih inner
      | _ => rfl

theorem reaches_nil (value : Value) : Reaches [] value :=
  rfl

theorem reaches_key_iff (name : CodePoints) (rest : List Step) (value : Value) :
    Reaches (.key name :: rest) value ↔
      ∃ members inner, value = .object members ∧ Members.get? members name = some inner ∧
        Reaches rest inner := by
  constructor
  · intro h
    cases value with
    | object members =>
      cases hget : Members.get? members name with
      | none =>
        unfold Reaches at h
        simp [Step.move, valueAt?, hget] at h
      | some inner =>
        refine ⟨members, inner, rfl, hget, ?_⟩
        unfold Reaches at h ⊢
        simpa [Step.move, valueAt?, hget] using h
    | _ => contradiction
  · intro ⟨members, inner, hv, hget, h⟩
    rw [hv]
    unfold Reaches at h ⊢
    simpa [Step.move, valueAt?, hget] using h

theorem reaches_element_iff (rest : List Step) (value : Value) :
    Reaches (.element :: rest) value ↔
      ∃ first others, value = .array (first :: others) ∧ Reaches rest first := by
  constructor
  · intro h
    cases value with
    | array items =>
      cases items with
      | nil => contradiction
      | cons first others => exact ⟨first, others, rfl, h⟩
    | _ => contradiction
  · intro ⟨first, others, hv, h⟩
    rw [hv]
    exact h

/-- Where steps lead to a value, so do the first of them. -/
theorem Reaches.of_append {before after : List Step} {value : Value}
    (h : Reaches (before ++ after) value) :
    ∃ inner, valueAt? (before.map Step.move) value = some inner ∧ Reaches after inner := by
  unfold Reaches at h
  rw [List.map_append, valueAt?_append] at h
  cases hv : valueAt? (before.map Step.move) value with
  | none =>
    rw [hv] at h
    contradiction
  | some inner =>
    rw [hv] at h
    exact ⟨inner, rfl, h⟩

theorem Reaches.of_leading {these others : List Step} (hp : these <+: others) {value : Value}
    (h : Reaches others value) : Reaches these value := by
  obtain ⟨rest, rfl⟩ := hp
  obtain ⟨inner, hv, -⟩ := h.of_append
  unfold Reaches
  rw [hv]
  rfl

/-! ## Conflicts -/

/-- Do the first steps ask a value for a key where the others ask the same value
    for an element? -/
def Conflict (these others : List Step) : Prop :=
  ∃ before name rest more,
    these = before ++ .key name :: rest ∧ others = before ++ .element :: more

theorem Conflict.cons {these others : List Step} (h : Conflict these others) (step : Step) :
    Conflict (step :: these) (step :: others) := by
  obtain ⟨before, name, rest, more, rfl, rfl⟩ := h
  exact ⟨step :: before, name, rest, more, rfl, rfl⟩

theorem conflict_here (name : CodePoints) (rest more : List Step) :
    Conflict (.key name :: rest) (.element :: more) :=
  ⟨[], name, rest, more, rfl, rfl⟩

/-- Two variables in conflict are not covered together: one needs an object
    where the other needs an array. -/
theorem Conflict.not_reaches {these others : List Step} (h : Conflict these others)
    {value : Value} (ht : Reaches these value) (ho : Reaches others value) : False := by
  obtain ⟨before, name, rest, more, rfl, rfl⟩ := h
  obtain ⟨inner, hv, ht⟩ := ht.of_append
  obtain ⟨inner', hv', ho⟩ := ho.of_append
  obtain ⟨members, _, hobject, -⟩ := (reaches_key_iff name rest inner).1 ht
  obtain ⟨_, _, harray, -⟩ := (reaches_element_iff more inner').1 ho
  have same : inner = inner' := Option.some.inj (hv.symm.trans hv')
  rw [hobject, harray] at same
  contradiction

/-! ## Insertions -/

/-- The steps that are inserted lead to a value. -/
theorem reaches_insertAt (steps : List Step) (value? : Option Value) :
    Reaches steps (insertAt steps value?) := by
  induction steps generalizing value? with
  | nil => exact reaches_nil _
  | cons step rest ih =>
    cases step with
    | key name =>
      rw [insertAt_key, reaches_key_iff]
      refine ⟨_, _, rfl, ?_, ih (Members.get? (membersOf value?) name)⟩
      rw [Members.get?_put, if_pos rfl]
    | element =>
      rw [insertAt_element, reaches_element_iff]
      exact ⟨_, _, rfl, ih _⟩

/-- Steps that led to a value still do after an insertion that is in no conflict
    with them. -/
theorem reaches_insertAt_of_reaches {these others : List Step} {value : Value}
    (h : Reaches these value) (hc : ¬Conflict these others) (hc' : ¬Conflict others these) :
    Reaches these (insertAt others (some value)) := by
  induction others generalizing these value with
  | nil => exact h
  | cons step rest ih =>
    cases these with
    | nil => exact reaches_nil _
    | cons first more =>
      cases step with
      | key name =>
        cases first with
        | element => exact absurd (conflict_here name rest more) hc'
        | key other =>
          obtain ⟨members, inner, rfl, hget, hr⟩ := (reaches_key_iff other more value).1 h
          rw [insertAt_key, reaches_key_iff]
          by_cases hn : name = other
          · -- The insertion goes on below the same key.
            have hget' : Members.get? members name = some inner := hn ▸ hget
            refine ⟨_, insertAt rest (some inner), rfl, ?_, ?_⟩
            · rw [Members.get?_put, if_pos hn]
              show some (insertAt rest (Members.get? members name)) = _
              rw [hget']
            · exact ih hr (fun c => hc (hn ▸ c.cons _)) (fun c => hc' (hn ▸ c.cons _))
          · -- It goes on below another key, and leaves this one alone.
            refine ⟨_, inner, rfl, ?_, hr⟩
            rw [Members.get?_put, if_neg hn]
            exact hget
      | element =>
        cases first with
        | key other => exact absurd (conflict_here other more rest) hc
        | element =>
          obtain ⟨inner, items, rfl, hr⟩ := (reaches_element_iff more value).1 h
          rw [insertAt_element, reaches_element_iff]
          refine ⟨_, _, rfl, ?_⟩
          exact ih hr (fun c => hc (c.cons _)) (fun c => hc' (c.cons _))

theorem insertAll_cons (data : Value) (these : List Step) (rest : List (List Step)) :
    insertAll data (these :: rest) = insertAll (insertAt these (some data)) rest :=
  rfl

/-- A run of insertions keeps what none of them is in conflict with. -/
theorem reaches_insertAll_of_reaches {steps : List (List Step)} {these : List Step}
    (hc : ∀ others ∈ steps, ¬Conflict these others ∧ ¬Conflict others these) {data : Value}
    (h : Reaches these data) : Reaches these (insertAll data steps) := by
  induction steps generalizing data with
  | nil => exact h
  | cons first rest ih =>
    rw [insertAll_cons]
    apply ih
    · intro others hm
      exact hc others (List.mem_cons_of_mem first hm)
    · obtain ⟨hf, hf'⟩ := hc first List.mem_cons_self
      exact reaches_insertAt_of_reaches h hf hf'

/-- Without conflicts, a run of insertions covers what it inserts. -/
theorem reaches_insertAll {steps : List (List Step)}
    (hc : ∀ these ∈ steps, ∀ others ∈ steps, ¬Conflict these others) (data : Value) :
    ∀ these ∈ steps, Reaches these (insertAll data steps) := by
  induction steps generalizing data with
  | nil => exact fun these hm => absurd hm List.not_mem_nil
  | cons first rest ih =>
    intro these hm
    rw [insertAll_cons]
    rcases List.mem_cons.1 hm with rfl | hm
    · apply reaches_insertAll_of_reaches
      · intro others ho
        have ho := List.mem_cons_of_mem these ho
        exact ⟨hc these List.mem_cons_self others ho, hc others ho these List.mem_cons_self⟩
      · exact reaches_insertAt these _
    · refine ih (fun these ht others ho => ?_) _ these hm
      exact hc these (List.mem_cons_of_mem first ht) others (List.mem_cons_of_mem first ho)

/-! ## Leaves -/

theorem mem_leaves_iff {steps : List (List Step)} {these : List Step} :
    these ∈ leaves steps ↔ these ∈ steps ∧
      ∀ others ∈ steps, these.length < others.length → ¬these <+: others := by
  unfold leaves
  rw [List.mem_filter]
  simp

/-- All steps go on to some leaf. -/
theorem exists_leaf {steps : List (List Step)} {these : List Step} (h : these ∈ steps) :
    ∃ leaf ∈ leaves steps, these <+: leaf := by
  obtain ⟨bound, hb⟩ := exists_length_le steps
  -- The longer the steps are, the fewer go on from them.
  induction hn : bound - these.length using Nat.strongRecOn generalizing these with
  | ind n ih =>
    by_cases hl : ∃ others ∈ steps, these.length < others.length ∧ these <+: others
    · obtain ⟨others, hm, hlt, hp⟩ := hl
      have := hb others hm
      obtain ⟨leaf, hleaf, hp'⟩ := ih (bound - others.length) (by omega) hm rfl
      exact ⟨leaf, hleaf, hp.trans hp'⟩
    · refine ⟨these, mem_leaves_iff.2 ⟨h, ?_⟩, List.prefix_refl these⟩
      intro others hm hlt hp
      exact hl ⟨others, hm, hlt, hp⟩

/-- **Coverage**: all variables lead to a value after the run exactly when no
    two of them are in conflict. What was in the data before does not matter. -/
theorem reaches_insertAll_leaves_iff (steps : List (List Step)) (data : Value) :
    (∀ these ∈ steps, Reaches these (insertAll data (leaves steps))) ↔
      ∀ these ∈ steps, ∀ others ∈ steps, ¬Conflict these others := by
  constructor
  · intro h these ht others ho hc
    exact hc.not_reaches (h these ht) (h others ho)
  · intro h these ht
    obtain ⟨leaf, hl, hp⟩ := exists_leaf ht
    have clear : ∀ these ∈ leaves steps, ∀ others ∈ leaves steps, ¬Conflict these others :=
      fun these ht others ho => h these (mem_leaves_iff.1 ht).1 others (mem_leaves_iff.1 ho).1
    exact (reaches_insertAll clear data leaf hl).of_leading hp

end TemplateAnalysis.Store
