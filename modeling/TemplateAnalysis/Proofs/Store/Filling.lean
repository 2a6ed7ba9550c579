import TemplateAnalysis.Proofs.Json.Value
import TemplateAnalysis.Store.DataFile

/-! # Filling data

    A run inserts one place after the other, and every insertion may tear down
    what an earlier one has built. What is left at the end is told by the kinds
    of steps that are asked of a value:

    * **`fill_object`**: asked for keys only, a value ends as an object, and
      every member is filled by what lies behind its key;
    * **`fill_array`**: asked for elements only, it ends as an array, and the
      first element is filled by what lies behind it;
    * **`fill_both`**: asked for both, it ends as what is built from nothing.

    From this follows **`fill_fill`**: filling a second time changes nothing.
-/

namespace TemplateAnalysis.Store

open Json Text

/-! ## What is asked of a value -/

/-- The value after steps have been inserted one after the other. -/
def fill (steps : List (List Step)) (value? : Option Value) : Option Value :=
  steps.foldl (fun value? these => some (insertAt these value?)) value?

theorem fill_some (steps : List (List Step)) (value : Value) :
    fill steps (some value) = some (insertAll value steps) := by
  induction steps generalizing value with
  | nil => rfl
  | cons these rest ih => exact ih (insertAt these (some value))

theorem fill_cons (these : List Step) (rest : List (List Step)) (value? : Option Value) :
    fill (these :: rest) value? = fill rest (some (insertAt these value?)) :=
  rfl

/-- Do some steps begin with a key? -/
def AsksKey (steps : List (List Step)) : Prop :=
  ∃ name rest, .key name :: rest ∈ steps

/-- Do some steps begin with an element? -/
def AsksElement (steps : List (List Step)) : Prop :=
  ∃ rest, .element :: rest ∈ steps

/-- What lies behind a step: the steps that begin with it, without it. -/
def behind (step : Step) (steps : List (List Step)) : List (List Step) :=
  steps.filterMap fun
    | first :: rest => if first = step then some rest else none
    | [] => none

theorem mem_behind {step : Step} {steps : List (List Step)} {rest : List Step} :
    rest ∈ behind step steps ↔ step :: rest ∈ steps := by
  unfold behind
  rw [List.mem_filterMap]
  constructor
  · intro h
    obtain ⟨these, hm, h⟩ := h
    cases these with
    | nil => contradiction
    | cons first others =>
      by_cases hf : first = step
      · simp only [hf, if_true, Option.some.injEq] at h
        rw [← h, ← hf]
        exact hm
      · simp [hf] at h
  · intro h
    exact ⟨step :: rest, h, if_pos rfl⟩

theorem asksKey_cons_key (name : CodePoints) (these : List Step) (rest : List (List Step)) :
    AsksKey ((.key name :: these) :: rest) :=
  ⟨name, these, List.mem_cons_self⟩

theorem asksElement_cons_element (these : List Step) (rest : List (List Step)) :
    AsksElement ((.element :: these) :: rest) :=
  ⟨these, List.mem_cons_self⟩

/-- Steps of the other kind, or none, in front of others ask for no element. -/
theorem asksElement_cons_iff {these : List Step} (h : these.head? ≠ some .element)
    (rest : List (List Step)) : AsksElement (these :: rest) ↔ AsksElement rest := by
  constructor
  · intro ⟨others, hm⟩
    rcases List.mem_cons.1 hm with heq | hm
    · exact absurd (by rw [← heq]; rfl) h
    · exact ⟨others, hm⟩
  · intro ⟨others, hm⟩
    exact ⟨others, List.mem_cons_of_mem these hm⟩

theorem asksKey_cons_iff {these : List Step} (h : ∀ name, these.head? ≠ some (.key name))
    (rest : List (List Step)) : AsksKey (these :: rest) ↔ AsksKey rest := by
  constructor
  · intro ⟨name, others, hm⟩
    rcases List.mem_cons.1 hm with heq | hm
    · exact absurd (by rw [← heq]; rfl) (h name)
    · exact ⟨name, others, hm⟩
  · intro ⟨name, others, hm⟩
    exact ⟨name, others, List.mem_cons_of_mem these hm⟩

/-! ## One insertion -/

theorem insertAt_key (name : CodePoints) (rest : List Step) (value? : Option Value) :
    insertAt (.key name :: rest) value? =
      .object (Members.put name (insertAt rest (Members.get? (membersOf value?) name))
        (membersOf value?)) :=
  rfl

theorem insertAt_element (rest : List Step) (value? : Option Value) :
    insertAt (.element :: rest) value? =
      .array (insertAt rest (elementsOf value?).head? :: (elementsOf value?).tail) := by
  rw [insertAt]
  cases elementsOf value? with
  | nil => rfl
  | cons item items => rfl

theorem wellFormed_membersOf {value? : Option Value}
    (h : ∀ value, value? = some value → value.WellFormed) :
    Value.WellFormed (.object (membersOf value?)) := by
  unfold membersOf
  split
  · exact h _ rfl
  · exact wellFormed_empty

theorem wellFormed_elementsOf {value? : Option Value}
    (h : ∀ value, value? = some value → value.WellFormed) :
    ∀ item ∈ elementsOf value?, item.WellFormed := by
  unfold elementsOf
  split
  · exact (h _ rfl).items
  · exact fun _ hm => absurd hm List.not_mem_nil

/-- Insertion keeps a value well formed. -/
theorem wellFormed_insertAt (these : List Step) {value? : Option Value}
    (h : ∀ value, value? = some value → value.WellFormed) : (insertAt these value?).WellFormed := by
  induction these generalizing value? with
  | nil =>
    cases value? with
    | none => exact .string ""
    | some value => exact h value rfl
  | cons step rest ih =>
    cases step with
    | key name =>
      have hm := wellFormed_membersOf h
      exact hm.put name (ih fun value hv => hm.get? hv)
    | element =>
      have hi := wellFormed_elementsOf h
      unfold insertAt
      cases he : elementsOf value? with
      | nil =>
        refine .array fun item hm => ?_
        rw [List.mem_singleton.1 hm]
        exact ih fun _ hv => by contradiction
      | cons first items =>
        rw [he] at hi
        refine .array fun item hm => ?_
        rcases List.mem_cons.1 hm with rfl | hm
        · refine ih fun value hv => ?_
          rw [← Option.some.inj hv]
          exact hi first List.mem_cons_self
        · exact hi item (List.mem_cons_of_mem first hm)

theorem wellFormed_insertAll {value : Value} (h : value.WellFormed) (steps : List (List Step)) :
    (insertAll value steps).WellFormed := by
  induction steps generalizing value with
  | nil => exact h
  | cons these rest ih =>
    refine ih (wellFormed_insertAt these fun other hv => ?_)
    rw [← Option.some.inj hv]
    exact h

theorem membersOf_insertAt_nil (value? : Option Value) :
    membersOf (some (insertAt [] value?)) = membersOf value? := by
  cases value? with
  | none => rfl
  | some value => rfl

theorem elementsOf_insertAt_nil (value? : Option Value) :
    elementsOf (some (insertAt [] value?)) = elementsOf value? := by
  cases value? with
  | none => rfl
  | some value => rfl

/-! ## Asked for nothing -/

/-- Steps that are all empty leave a value as it is. -/
theorem fill_idle {steps : List (List Step)} (hk : ¬AsksKey steps) (he : ¬AsksElement steps)
    (value : Value) : fill steps (some value) = some value := by
  induction steps with
  | nil => rfl
  | cons these rest ih =>
    cases these with
    | nil =>
      rw [asksKey_cons_iff (by simp)] at hk
      rw [asksElement_cons_iff (by simp)] at he
      exact ih hk he
    | cons step others =>
      cases step with
      | key name => exact absurd (asksKey_cons_key name others rest) hk
      | element => exact absurd (asksElement_cons_element others rest) he

/-! ## Asked for keys -/

/-- The members after the steps that begin with a key. -/
def fillMembers (steps : List (List Step)) (members : Members) : Members :=
  steps.foldl (fun members these =>
    match these with
    | .key name :: rest =>
      Members.put name (insertAt rest (Members.get? members name)) members
    | _ => members) members

/-- An object stays one as long as no element is asked for. -/
theorem fill_members {steps : List (List Step)} (he : ¬AsksElement steps) (members : Members) :
    fill steps (some (.object members)) = some (.object (fillMembers steps members)) := by
  induction steps generalizing members with
  | nil => rfl
  | cons these rest ih =>
    cases these with
    | nil =>
      rw [asksElement_cons_iff (by simp)] at he
      exact ih he members
    | cons step others =>
      cases step with
      | key name =>
        rw [asksElement_cons_iff (by simp)] at he
        exact ih he _
      | element => exact absurd (asksElement_cons_element others rest) he

/-- **Asked for keys only**, a value ends as an object. -/
theorem fill_object {steps : List (List Step)} (hk : AsksKey steps) (he : ¬AsksElement steps)
    (value? : Option Value) :
    fill steps value? = some (.object (fillMembers steps (membersOf value?))) := by
  induction steps generalizing value? with
  | nil =>
    obtain ⟨name, rest, hm⟩ := hk
    exact absurd hm List.not_mem_nil
  | cons these rest ih =>
    cases these with
    | nil =>
      rw [asksKey_cons_iff (by simp)] at hk
      rw [asksElement_cons_iff (by simp)] at he
      rw [fill_cons, ih hk he, membersOf_insertAt_nil]
      rfl
    | cons step others =>
      cases step with
      | key name =>
        rw [asksElement_cons_iff (by simp)] at he
        rw [fill_cons, insertAt_key, fill_members he]
        rfl
      | element => exact absurd (asksElement_cons_element others rest) he

/-- Every member is filled by what lies behind its key. -/
theorem get?_fillMembers (steps : List (List Step)) (members : Members) (name : CodePoints) :
    Members.get? (fillMembers steps members) name =
      fill (behind (.key name) steps) (Members.get? members name) := by
  induction steps generalizing members with
  | nil => rfl
  | cons these rest ih =>
    cases these with
    | nil => exact ih members
    | cons step others =>
      cases step with
      | element => exact ih members
      | key other =>
        show Members.get? (fillMembers rest (Members.put other _ members)) name = _
        rw [ih, Members.get?_put]
        by_cases h : other = name
        · rw [if_pos h, h]
          have hb : behind (.key name) ((.key name :: others) :: rest) =
              others :: behind (.key name) rest := by
            simp [behind]
          rw [hb, fill_cons]
        · have hb : behind (.key name) ((.key other :: others) :: rest) =
              behind (.key name) rest := by
            simp [behind, h]
          rw [if_neg h, hb]

theorem nodup_keys_fillMembers (steps : List (List Step)) {members : Members}
    (h : (Members.keys members).Nodup) : (Members.keys (fillMembers steps members)).Nodup := by
  induction steps generalizing members with
  | nil => exact h
  | cons these rest ih =>
    cases these with
    | nil => exact ih h
    | cons step others =>
      cases step with
      | element => exact ih h
      | key name => exact ih (Members.nodup_keys_put h name _)

/-- Where all keys are there already, none is added. -/
theorem keys_fillMembers {steps : List (List Step)} {members : Members}
    (h : ∀ name rest, .key name :: rest ∈ steps → name ∈ Members.keys members) :
    Members.keys (fillMembers steps members) = Members.keys members := by
  induction steps generalizing members with
  | nil => rfl
  | cons these rest ih =>
    have later : ∀ name others, .key name :: others ∈ rest → name ∈ Members.keys members :=
      fun name others hm => h name others (List.mem_cons_of_mem these hm)
    cases these with
    | nil => exact ih later
    | cons step others =>
      cases step with
      | element => exact ih later
      | key name =>
        have hput : Members.keys (Members.put name
            (insertAt others (Members.get? members name)) members) = Members.keys members := by
          rw [Members.keys_put, if_pos (h name others List.mem_cons_self)]
        show Members.keys (fillMembers rest (Members.put name _ members)) = _
        rw [ih (by rw [hput]; exact later), hput]

/-! ## Asked for elements -/

/-- The elements after the steps that begin with one. -/
def fillElements (steps : List (List Step)) (items : List Value) : List Value :=
  steps.foldl (fun items these =>
    match these with
    | .element :: rest => insertAt rest items.head? :: items.tail
    | _ => items) items

/-- An array stays one as long as no key is asked for. -/
theorem fill_elements {steps : List (List Step)} (hk : ¬AsksKey steps) (items : List Value) :
    fill steps (some (.array items)) = some (.array (fillElements steps items)) := by
  induction steps generalizing items with
  | nil => rfl
  | cons these rest ih =>
    cases these with
    | nil =>
      rw [asksKey_cons_iff (by simp)] at hk
      exact ih hk items
    | cons step others =>
      cases step with
      | key name => exact absurd (asksKey_cons_key name others rest) hk
      | element =>
        rw [asksKey_cons_iff (by simp)] at hk
        rw [fill_cons, insertAt_element]
        exact ih hk _

/-- **Asked for elements only**, a value ends as an array. -/
theorem fill_array {steps : List (List Step)} (hk : ¬AsksKey steps) (he : AsksElement steps)
    (value? : Option Value) :
    fill steps value? = some (.array (fillElements steps (elementsOf value?))) := by
  induction steps generalizing value? with
  | nil =>
    obtain ⟨rest, hm⟩ := he
    exact absurd hm List.not_mem_nil
  | cons these rest ih =>
    cases these with
    | nil =>
      rw [asksKey_cons_iff (by simp)] at hk
      rw [asksElement_cons_iff (by simp)] at he
      rw [fill_cons, ih hk he, elementsOf_insertAt_nil]
      rfl
    | cons step others =>
      cases step with
      | key name => exact absurd (asksKey_cons_key name others rest) hk
      | element =>
        rw [asksKey_cons_iff (by simp)] at hk
        rw [fill_cons, insertAt_element, fill_elements hk]
        rfl

/-- The first element is filled by what lies behind it. -/
theorem head?_fillElements (steps : List (List Step)) (items : List Value) :
    (fillElements steps items).head? = fill (behind .element steps) items.head? := by
  induction steps generalizing items with
  | nil => rfl
  | cons these rest ih =>
    cases these with
    | nil => exact ih items
    | cons step others =>
      cases step with
      | key name => exact ih items
      | element =>
        have hb : behind .element ((.element :: others) :: rest) =
            others :: behind .element rest := by
          simp [behind]
        rw [hb, fill_cons]
        exact ih _

/-- The other elements stay as they are. -/
theorem tail_fillElements (steps : List (List Step)) (items : List Value) :
    (fillElements steps items).tail = items.tail := by
  induction steps generalizing items with
  | nil => rfl
  | cons these rest ih =>
    cases these with
    | nil => exact ih items
    | cons step others =>
      cases step with
      | key name => exact ih items
      | element => exact ih _

/-! ## Asked for both -/

/-- An element that is asked of an object makes a new array. Nothing tells
    afterwards which object it was. -/
theorem fill_object_eq {steps : List (List Step)} (he : AsksElement steps)
    (members others : Members) :
    fill steps (some (.object members)) = fill steps (some (.object others)) := by
  induction steps generalizing members others with
  | nil =>
    obtain ⟨rest, hm⟩ := he
    exact absurd hm List.not_mem_nil
  | cons these rest ih =>
    cases these with
    | nil =>
      rw [asksElement_cons_iff (by simp)] at he
      exact ih he members others
    | cons step more =>
      cases step with
      | key name =>
        rw [asksElement_cons_iff (by simp)] at he
        exact ih he _ _
      | element => rfl

/-- A key that is asked of an array makes a new object. -/
theorem fill_array_eq {steps : List (List Step)} (hk : AsksKey steps)
    (items others : List Value) :
    fill steps (some (.array items)) = fill steps (some (.array others)) := by
  induction steps generalizing items others with
  | nil =>
    obtain ⟨name, rest, hm⟩ := hk
    exact absurd hm List.not_mem_nil
  | cons these rest ih =>
    cases these with
    | nil =>
      rw [asksKey_cons_iff (by simp)] at hk
      exact ih hk items others
    | cons step more =>
      cases step with
      | key name => rfl
      | element =>
        rw [asksKey_cons_iff (by simp)] at hk
        rw [fill_cons, fill_cons, insertAt_element, insertAt_element]
        exact ih hk _ _

/-- **Asked for both kinds**, a value is torn down on the way. What it ends as
    does not depend on what it was. -/
theorem fill_both {steps : List (List Step)} (hk : AsksKey steps) (he : AsksElement steps)
    (value? other? : Option Value) : fill steps value? = fill steps other? := by
  induction steps generalizing value? other? with
  | nil =>
    obtain ⟨rest, hm⟩ := he
    exact absurd hm List.not_mem_nil
  | cons these rest ih =>
    cases these with
    | nil =>
      rw [asksKey_cons_iff (by simp)] at hk
      rw [asksElement_cons_iff (by simp)] at he
      exact ih hk he _ _
    | cons step others =>
      cases step with
      | key name =>
        rw [asksElement_cons_iff (by simp)] at he
        rw [fill_cons, fill_cons, insertAt_key, insertAt_key]
        exact fill_object_eq he _ _
      | element =>
        rw [asksKey_cons_iff (by simp)] at hk
        rw [fill_cons, fill_cons, insertAt_element, insertAt_element]
        exact fill_array_eq hk _ _

/-! ## Filling twice -/

theorem eq_of_head?_of_tail {items others : List Value} (hh : items.head? = others.head?)
    (ht : items.tail = others.tail) : items = others := by
  cases items with
  | nil =>
    cases others with
    | nil => rfl
    | cons other more => contradiction
  | cons item rest =>
    cases others with
    | nil => contradiction
    | cons other more =>
      rw [Option.some.inj hh, show rest = more from ht]

theorem exists_length_le (steps : List (List Step)) :
    ∃ bound, ∀ these ∈ steps, these.length ≤ bound := by
  induction steps with
  | nil => exact ⟨0, fun these hm => absurd hm List.not_mem_nil⟩
  | cons first rest ih =>
    obtain ⟨bound, hb⟩ := ih
    refine ⟨max first.length bound, fun these hm => ?_⟩
    rcases List.mem_cons.1 hm with rfl | hm
    · exact Nat.le_max_left _ _
    · exact Nat.le_trans (hb these hm) (Nat.le_max_right _ _)

theorem length_behind_le {steps : List (List Step)} {bound : Nat}
    (h : ∀ these ∈ steps, these.length ≤ bound + 1) (step : Step) :
    ∀ these ∈ behind step steps, these.length ≤ bound := by
  intro these hm
  have := h _ (mem_behind.1 hm)
  rw [List.length_cons] at this
  omega

/-- Steps of which the longest has no step ask for nothing. -/
theorem asks_nothing {steps : List (List Step)} (h : ∀ these ∈ steps, these.length ≤ 0) :
    ¬AsksKey steps ∧ ¬AsksElement steps := by
  constructor
  · intro ⟨name, rest, hm⟩
    have := h _ hm
    simp at this
  · intro ⟨rest, hm⟩
    have := h _ hm
    simp at this

/-- Is filling a second time the same as filling once, whatever the value? -/
def FillsOnce (steps : List (List Step)) : Prop :=
  ∀ value? : Option Value, (∀ value, value? = some value → value.WellFormed) →
    fill steps (fill steps value?) = fill steps value?

theorem fillsOnce_idle {steps : List (List Step)} (hk : ¬AsksKey steps)
    (he : ¬AsksElement steps) : FillsOnce steps := by
  intro value? _
  cases hf : fill steps value? with
  | none =>
    cases steps with
    | nil => rfl
    | cons these rest =>
      rw [fill_cons, fill_some] at hf
      contradiction
  | some value => exact fill_idle hk he value

/-- A member that something is asked of is there once it is filled. -/
theorem mem_keys_fillMembers {steps : List (List Step)} (members : Members) {name : CodePoints}
    {rest : List Step} (hm : .key name :: rest ∈ steps) :
    name ∈ Members.keys (fillMembers steps members) := by
  rw [Members.mem_keys_iff, get?_fillMembers]
  have hbehind := mem_behind.2 hm
  cases hb : behind (.key name) steps with
  | nil =>
    rw [hb] at hbehind
    exact absurd hbehind List.not_mem_nil
  | cons first others =>
    rw [fill_cons, fill_some]
    rfl

/-- Keys only: the same keys once more, each of them filled twice. -/
theorem fillsOnce_object {steps : List (List Step)} (hk : AsksKey steps)
    (he : ¬AsksElement steps) (ih : ∀ name, FillsOnce (behind (.key name) steps)) :
    FillsOnce steps := by
  intro value? hv
  have hwell := wellFormed_membersOf hv
  rw [fill_object hk he value?, fill_members he]
  congr 2
  have same : ∀ name,
      Members.get? (fillMembers steps (fillMembers steps (membersOf value?))) name =
        Members.get? (fillMembers steps (membersOf value?)) name := by
    intro name
    rw [get?_fillMembers, get?_fillMembers]
    exact ih name _ fun value hget => hwell.get? hget
  have keys : Members.keys (fillMembers steps (fillMembers steps (membersOf value?))) =
      Members.keys (fillMembers steps (membersOf value?)) :=
    keys_fillMembers fun name rest hm => mem_keys_fillMembers _ hm
  have distinct := nodup_keys_fillMembers steps hwell.nodup_keys
  exact Members.ext_of_keys keys (nodup_keys_fillMembers steps distinct) same

/-- Elements only: the first element is filled twice, the others never. -/
theorem fillsOnce_array {steps : List (List Step)} (hk : ¬AsksKey steps)
    (he : AsksElement steps) (ih : FillsOnce (behind .element steps)) : FillsOnce steps := by
  intro value? hv
  have hwell := wellFormed_elementsOf hv
  rw [fill_array hk he value?, fill_elements hk]
  congr 2
  have head : (fillElements steps (fillElements steps (elementsOf value?))).head? =
      (fillElements steps (elementsOf value?)).head? := by
    rw [head?_fillElements, head?_fillElements]
    exact ih _ fun value hget => hwell value (List.mem_of_mem_head? hget)
  have tail := tail_fillElements steps (fillElements steps (elementsOf value?))
  exact eq_of_head?_of_tail head tail

/-- By induction on the length of the longest steps: what lies behind a step is
    shorter. -/
theorem fillsOnce_of_length_le (bound : Nat) {steps : List (List Step)}
    (h : ∀ these ∈ steps, these.length ≤ bound) : FillsOnce steps := by
  induction bound generalizing steps with
  | zero =>
    obtain ⟨hk, he⟩ := asks_nothing h
    exact fillsOnce_idle hk he
  | succ bound ih =>
    by_cases hk : AsksKey steps
    · by_cases he : AsksElement steps
      · exact fun value? _ => fill_both hk he _ _
      · exact fillsOnce_object hk he fun name => ih (length_behind_le h _)
    · by_cases he : AsksElement steps
      · exact fillsOnce_array hk he (ih (length_behind_le h _))
      · exact fillsOnce_idle hk he

/-- **Filling is idempotent**: the second time changes nothing, whatever the
    steps tear down on their way. -/
theorem fill_fill (steps : List (List Step)) {value? : Option Value}
    (hv : ∀ value, value? = some value → value.WellFormed) :
    fill steps (fill steps value?) = fill steps value? := by
  obtain ⟨bound, hb⟩ := exists_length_le steps
  exact fillsOnce_of_length_le bound hb value? hv

/-- Inserting everything a second time changes nothing. -/
theorem insertAll_insertAll {value : Value} (h : value.WellFormed) (steps : List (List Step)) :
    insertAll (insertAll value steps) steps = insertAll value steps := by
  have hfill := @fill_fill steps (some value) fun other hv => by
    rw [← Option.some.inj hv]
    exact h
  rw [fill_some, fill_some] at hfill
  exact Option.some.inj hfill

end TemplateAnalysis.Store
