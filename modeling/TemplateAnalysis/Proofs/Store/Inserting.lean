import TemplateAnalysis.Proofs.Store.Coverage
import TemplateAnalysis.Proofs.Text.CodePoint

/-! # Inserting and finding

    What is inserted at a place is found there by the reading that completion does,
    though the two descend by different rules: an insertion makes the containers that
    it needs, and the reading takes whatever containers there are.

    * **`insertIn?`** is the insertion that fails at a container of the wrong kind,
      and **`insertIn?_of_fits`**: it never comes to one;
    * **`navigate_insertAt`**: behind an insertion the reading arrives at an object
      that has the key;
    * **`insertAt_insertAt`**: a second insertion changes nothing;
    * **`insertAt_of_fits`**: where all containers have the kind that is needed, only
      what is missing is added;
    * **`insertAt_found_again`**: all of this for the place of a member.

    The invariant of the descent is the kind of the current value: it always fits the
    step that comes next, because it is picked or made for it.
-/

namespace TemplateAnalysis.Store

open Text Json

variable {step : Step} {steps rest : List Step} {value inner : Value}

/-! ## Containers -/

/-- Is the value a container into which the step leads: an object for a key, an array
    for an element? -/
def Step.fits : Step → Value → Bool
  | .key _, .object _ => true
  | .element, .array _ => true
  | _, _ => false

/-- The container into which a step leads, with nothing in it. -/
def Step.emptyContainer : Step → Value
  | .key _ => .object []
  | .element => .array []

/-- The container for a step: the one that is there, when it fits, and otherwise an
    empty one. -/
def Step.container (step : Step) : Option Value → Value
  | some value => if step.fits value then value else step.emptyContainer
  | none => step.emptyContainer

theorem Step.fits_container (step : Step) (value? : Option Value) :
    step.fits (step.container value?) = true := by
  have hempty : step.fits step.emptyContainer = true := by cases step <;> rfl
  cases value? with
  | none => exact hempty
  | some value =>
    rw [Step.container]
    by_cases hfits : step.fits value = true
    · rw [if_pos hfits]
      exact hfits
    · rw [if_neg hfits]
      exact hempty

theorem exists_object_of_fits {name : CodePoints} (h : Step.fits (.key name) value = true) :
    ∃ members, value = .object members := by
  cases value with
  | object members => exact ⟨members, rfl⟩
  | _ => contradiction

theorem exists_array_of_fits (h : Step.fits .element value = true) :
    ∃ items, value = .array items := by
  cases value with
  | array items => exact ⟨items, rfl⟩
  | _ => contradiction

/-- An insertion goes on in the container that its next step needs. -/
theorem insertAt_container (step : Step) (rest : List Step) (value? : Option Value) :
    insertAt (step :: rest) (some (step.container value?)) = insertAt (step :: rest) value? := by
  cases value? with
  | none => cases step <;> rfl
  | some value => cases step <;> cases value <;> rfl

/-! ## Insertion step by step -/

/-- Insert into a value that is at hand. The container for what comes behind a step is
    told by the step behind it. Nothing can be inserted where a key is needed of a value
    that is no object, or an element of one that is no array. -/
def insertIn? : List Step → Value → Option Value
  | [.key name], .object members =>
    some (.object (Members.put name ((Members.get? members name).getD (.string "")) members))
  | [.element], .array items =>
    some (.array (if items.isEmpty then [.string ""] else items))
  | .key name :: next :: rest, .object members =>
    (insertIn? (next :: rest) (next.container (Members.get? members name))).map fun inner =>
      .object (Members.put name inner members)
  | .element :: next :: rest, .array items =>
    (insertIn? (next :: rest) (next.container items.head?)).map fun inner =>
      .array (inner :: items.tail)
  | _, _ => none

/-- **An insertion does not fail** in a container that fits its first step, and its
    result is the value that has to stand there. -/
theorem insertIn?_of_fits (h : step.fits value = true) :
    insertIn? (step :: rest) value = some (insertAt (step :: rest) (some value)) := by
  induction rest generalizing step value with
  | nil =>
    cases step with
    | key name =>
      obtain ⟨members, rfl⟩ := exists_object_of_fits h
      rw [insertIn?, insertAt_key]
      show some (Value.object (Members.put name _ members)) =
        some (Value.object (Members.put name (insertAt [] (Members.get? members name)) members))
      cases Members.get? members name with
      | none => rfl
      | some inner => rfl
    | element =>
      obtain ⟨items, rfl⟩ := exists_array_of_fits h
      cases items with
      | nil => rfl
      | cons item items => rfl
  | cons next rest ih =>
    -- The container that is entered fits the next step, whatever stood there.
    cases step with
    | key name =>
      obtain ⟨members, rfl⟩ := exists_object_of_fits h
      rw [insertIn?, ih (next.fits_container _), insertAt_container]
      rfl
    | element =>
      obtain ⟨items, rfl⟩ := exists_array_of_fits h
      rw [insertIn?, ih (next.fits_container _), insertAt_container, insertAt_element]
      rfl

/-! ## Reading -/

/-- **What was inserted is found**: the steps up to the last lead to an object that has
    the key. -/
theorem navigate_insertAt (before : List Step) (last : CodePoints) (value? : Option Value) :
    ∃ members, navigate before (some (insertAt (before ++ [.key last]) value?)) =
      some (.object members) ∧ Members.hasKey members last = true := by
  induction before generalizing value? with
  | nil =>
    refine ⟨_, rfl, ?_⟩
    rw [Members.hasKey, Members.get?_put, if_pos rfl]
    rfl
  | cons step rest ih =>
    cases step with
    | key name =>
      obtain ⟨members, hfound, hkey⟩ := ih (Members.get? (membersOf value?) name)
      refine ⟨members, ?_, hkey⟩
      rw [List.cons_append, insertAt_key]
      show navigate rest (Members.get? (Members.put name _ (membersOf value?)) name) = _
      rw [Members.get?_put, if_pos rfl]
      exact hfound
    | element =>
      -- The reading enters arrays by itself, so it is at the first element already.
      obtain ⟨members, hfound, hkey⟩ := ih (elementsOf value?).head?
      refine ⟨members, ?_, hkey⟩
      rw [List.cons_append, insertAt_element]
      exact hfound

/-- A name of characters holds what stands in it in either case. -/
theorem holdsTyped_ofList (typed cs : List Char) :
    holdsTyped typed (CodePoints.ofList cs) = contains (lower typed) (lower cs) := by
  unfold holdsTyped
  rw [CodePoints.stretches_ofList, List.any_cons, List.any_nil, Bool.or_false]

/-- A key of an object is offered for everything that is typed of it. -/
theorem exists_candidate {members : Members} {name : CodePoints} {typed : List Char}
    (hkey : Members.hasKey members name = true)
    (htyped : holdsTyped typed name = true) (label detail : String) :
    ∃ candidate ∈ candidatesIn typed label detail (some (.object members)),
      candidate.name = name := by
  obtain ⟨value, hvalue⟩ := Option.isSome_iff_exists.1 hkey
  have hmem := Members.mem_of_get?_eq_some hvalue
  exact ⟨_, List.mem_map.2 ⟨(name, value), List.mem_filter.2 ⟨hmem, htyped⟩, rfl⟩, rfl⟩

/-! ## What is there already -/

/-- An insertion where there is a value changes nothing. -/
theorem insertAt_of_reaches (h : Reaches steps value) : insertAt steps (some value) = value := by
  induction steps generalizing value with
  | nil => rfl
  | cons step rest ih =>
    cases step with
    | key name =>
      obtain ⟨members, inner, rfl, hget, hreach⟩ := (reaches_key_iff name rest value).1 h
      show Value.object (Members.put name (insertAt rest (Members.get? members name)) members) = _
      rw [hget, ih hreach, Members.put_of_get?_eq_some hget]
    | element =>
      obtain ⟨first, others, rfl, hreach⟩ := (reaches_element_iff rest value).1 h
      show Value.array (insertAt rest (some first) :: others) = _
      rw [ih hreach]

theorem insertAt_insertAt (steps : List Step) (value? : Option Value) :
    insertAt steps (some (insertAt steps value?)) = insertAt steps value? :=
  insertAt_of_reaches (reaches_insertAt steps value?)

/-! ## What is missing -/

/-- What stands at the front of steps behind which there is nothing yet. -/
def built : List Step → Value
  | [] => .string ""
  | .key name :: rest => .object [(name, built rest)]
  | .element :: rest => .array [built rest]

theorem insertAt_none (steps : List Step) : insertAt steps none = built steps := by
  induction steps with
  | nil => rfl
  | cons step rest ih =>
    cases step with
    | key name =>
      show Value.object [(name, insertAt rest none)] = _
      rw [ih]
      rfl
    | element =>
      show Value.array [insertAt rest none] = _
      rw [ih]
      rfl

/-- The container with one more value in it, to which the step leads. -/
def Step.add : Step → Value → Value → Value
  | .key name, added, .object members => .object (members ++ [(name, added)])
  | .element, added, .array items => .array (items ++ [added])
  | _, _, value => value

/-- The value in which another stands for the one at the end of steps. -/
def changeAt (change : Value → Value) : List Step → Value → Value
  | [], value => change value
  | .key name :: rest, .object members =>
    match Members.get? members name with
    | some inner => .object (Members.put name (changeAt change rest inner) members)
    | none => .object members
  | .element :: rest, .array (item :: items) => .array (changeAt change rest item :: items)
  | _, value => value

/-- Every value that is there already on the way is the container that the steps need
    at its place. A value that is no container fits no step. -/
def Fits (steps : List Step) (value : Value) : Prop :=
  ∀ front step rest, steps = front ++ step :: rest →
    ∀ found, valueAt? (front.map Step.move) value = some found → step.fits found = true

theorem Fits.here (h : Fits (step :: rest) value) : step.fits value = true :=
  h [] step rest rfl value rfl

theorem Fits.inside (h : Fits (step :: rest) value)
    (hinner : valueAt? [step.move] value = some inner) : Fits rest inner := by
  intro front next tail hrest found hfound
  apply h (step :: front) next tail (by rw [hrest, List.cons_append]) found
  rw [List.map_cons, ← List.singleton_append, valueAt?_append, hinner, Option.bind_some]
  exact hfound

theorem reaches_step_key_iff (name : CodePoints) (members : Members) :
    Reaches [.key name] (.object members) ↔ Members.hasKey members name = true := by
  rw [reaches_key_iff, Members.hasKey, Option.isSome_iff_exists]
  constructor
  · intro ⟨others, inner, hmembers, hget, _⟩
    obtain rfl := Value.object.inj hmembers
    exact ⟨inner, hget⟩
  · intro ⟨inner, hget⟩
    exact ⟨members, inner, rfl, hget, reaches_nil inner⟩

/-- **Where all containers fit, only what is missing is added**: the steps lead to a
    container as far as there is one, and it gets one more value, for the step that
    leads nowhere in it. -/
theorem insertAt_of_fits (hfits : Fits steps value) (hmissing : ¬Reaches steps value) :
    ∃ front step tail, steps = front ++ step :: tail ∧ Reaches front value ∧
      ¬Reaches (front ++ [step]) value ∧
      insertAt steps (some value) = changeAt (step.add (built tail)) front value := by
  induction steps generalizing value with
  | nil => exact absurd (reaches_nil value) hmissing
  | cons step rest ih =>
    cases step with
    | key name =>
      obtain ⟨members, rfl⟩ := exists_object_of_fits hfits.here
      cases hget : Members.get? members name with
      | none =>
        have hkey : ¬Members.hasKey members name = true := by
          rw [Members.hasKey, hget]
          exact Bool.false_ne_true
        refine ⟨[], .key name, rest, rfl, reaches_nil _, ?_, ?_⟩
        · rw [List.nil_append, reaches_step_key_iff]
          exact hkey
        · show Value.object (Members.put name (insertAt rest (Members.get? members name)) members) =
            .object (members ++ [(name, built rest)])
          rw [hget, insertAt_none, Members.put_of_notMem (mt (Members.mem_keys_iff _ _).1 hkey)]
      | some inner =>
        have hinner : valueAt? [Step.move (.key name)] (.object members) = some inner := by
          show (Members.get? members name).bind (valueAt? []) = some inner
          rw [hget]
          rfl
        have hrest : ¬Reaches rest inner := by
          intro hreach
          exact hmissing ((reaches_key_iff name rest _).2 ⟨members, inner, rfl, hget, hreach⟩)
        obtain ⟨front, next, tail, rfl, hfront, hnext, hchange⟩ := ih (hfits.inside hinner) hrest
        refine ⟨.key name :: front, next, tail, rfl, ?_, ?_, ?_⟩
        · exact (reaches_key_iff name front _).2 ⟨members, inner, rfl, hget, hfront⟩
        · intro hreach
          obtain ⟨others, found, hmembers, hfound, hlater⟩ :=
            (reaches_key_iff name (front ++ [next]) _).1 hreach
          obtain rfl := Value.object.inj hmembers
          obtain rfl := Option.some.inj (hget.symm.trans hfound)
          exact hnext hlater
        · show Value.object (Members.put name
            (insertAt (front ++ next :: tail) (Members.get? members name)) members) = _
          rw [hget, hchange, changeAt, hget]
    | element =>
      obtain ⟨items, rfl⟩ := exists_array_of_fits hfits.here
      cases items with
      | nil =>
        refine ⟨[], .element, rest, rfl, reaches_nil _, ?_, ?_⟩
        · rw [List.nil_append, reaches_element_iff]
          intro ⟨first, others, hitems, _⟩
          cases hitems
        · rw [insertAt_element]
          show Value.array [insertAt rest none] = .array [built rest]
          rw [insertAt_none]
      | cons first others =>
        have hrest : ¬Reaches rest first := by
          intro hreach
          exact hmissing ((reaches_element_iff rest _).2 ⟨first, others, rfl, hreach⟩)
        obtain ⟨front, next, tail, rfl, hfront, hnext, hchange⟩ := ih (hfits.inside rfl) hrest
        refine ⟨.element :: front, next, tail, rfl, ?_, ?_, ?_⟩
        · exact (reaches_element_iff front _).2 ⟨first, others, rfl, hfront⟩
        · intro hreach
          obtain ⟨item, items, hitems, hlater⟩ :=
            (reaches_element_iff (front ++ [next]) _).1 hreach
          cases hitems
          exact hnext hlater
        · show Value.array (insertAt (front ++ next :: tail) (some first) :: others) = _
          rw [hchange, changeAt]

/-! ## Members -/

/-- The place of a member: steps that begin and end with a key, of which the last is
    told apart. -/
structure MemberPlace where
  before : List Step
  last : CodePoints
  begins : before.head? ≠ some .element

/-- All steps to a member. -/
def MemberPlace.path (place : MemberPlace) : List Step :=
  place.before ++ [.key place.last]

theorem MemberPlace.insertIn?_path (place : MemberPlace) (members : Members) :
    insertIn? place.path (.object members) =
      some (insertAt place.path (some (.object members))) := by
  obtain ⟨before, last, begins⟩ := place
  cases before with
  | nil => exact insertIn?_of_fits rfl
  | cons step rest =>
    cases step with
    | key name => exact insertIn?_of_fits rfl
    | element => exact absurd rfl begins

theorem MemberPlace.exists_object (place : MemberPlace) (value? : Option Value) :
    ∃ members, insertAt place.path value? = .object members := by
  obtain ⟨before, last, begins⟩ := place
  cases before with
  | nil => exact ⟨_, rfl⟩
  | cons step rest =>
    cases step with
    | key name => exact ⟨_, rfl⟩
    | element => exact absurd rfl begins

/-- **Inserting and finding fit together.** Whatever the data is, an insertion at the
    place of a member does not fail. Behind it the member is found and offered, and a
    second insertion leaves all as it is. Where the containers on the way fit, a value
    at the place is kept with everything else, and otherwise only the missing end of
    the place is added. -/
theorem insertAt_found_again (place : MemberPlace) (members : Members) :
    ∃ after, insertAt place.path (some (.object members)) = after ∧
      insertIn? place.path (.object members) = some after ∧
      (∃ found, navigate place.before (some after) = some (.object found) ∧
        Members.hasKey found place.last = true) ∧
      (∀ typed label detail, holdsTyped typed place.last = true →
        ∃ candidate ∈ candidatesIn typed label detail (navigate place.before (some after)),
          candidate.name = place.last) ∧
      insertIn? place.path after = some after ∧
      (Fits place.path (.object members) →
        (Reaches place.path (.object members) → after = .object members) ∧
        (¬Reaches place.path (.object members) →
          ∃ front step tail, place.path = front ++ step :: tail ∧
            Reaches front (.object members) ∧ ¬Reaches (front ++ [step]) (.object members) ∧
            after = changeAt (step.add (built tail)) front (.object members))) := by
  obtain ⟨found, hfound, hkey⟩ := navigate_insertAt place.before place.last (some (.object members))
  obtain ⟨others, hafter⟩ := place.exists_object (some (.object members))
  refine ⟨_, rfl, place.insertIn?_path members, ⟨found, hfound, hkey⟩, ?_, ?_, ?_⟩
  · intro typed label detail htyped
    unfold MemberPlace.path
    rw [hfound]
    exact exists_candidate hkey htyped label detail
  · have hagain := insertAt_insertAt place.path (some (.object members))
    rw [hafter] at hagain ⊢
    rw [place.insertIn?_path, hagain]
  · intro hfits
    exact ⟨insertAt_of_reaches, insertAt_of_fits hfits⟩

-- A number stands where an array is needed, so it is lost for a new one.
example :
    insertIn? [.key "rows", .element, .element, .key "x"]
      (.object [("rows", .array [.integer 1, .integer 2]), ("n", .null)]) =
        some (.object [("rows", .array [.array [.object [("x", .string "")]], .integer 2]),
          ("n", .null)]) :=
  rfl

end TemplateAnalysis.Store
