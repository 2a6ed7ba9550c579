import TemplateAnalysis.Json.Value
import TemplateAnalysis.Variable.Chain
import TemplateAnalysis.Variable.Iteration

/-! # Places in data

    A variable stands for a place in the data of its template: keys of objects
    and first elements of arrays, step by step. A variable that an iteration
    binds stands for an element of the collection.

    * **`resolveSteps`** finds the steps of a variable;
    * **`insertAt`** makes sure that there is a value at a place;
    * **`navigate`** finds what members can be named next;
    * **`lookUp`** finds the value of a dotted path.
-/

namespace TemplateAnalysis.Store

open Text Json Variable

/-- One step from a value to a value inside it. -/
inductive Step
  /-- To the member with this key. -/
  | key (name : CodePoints)
  /-- To the first element. -/
  | element
  deriving DecidableEq, Repr

/-! ## Variables -/

/-- The longest property path at the front of a text, as its names. The text
    may go on behind it. -/
def leadingPath? (text : List Char) : Option (List (List Char)) :=
  let name := text.takeWhile isWordChar
  if isIdentifier name then
    match _h : text.drop name.length with
    | '.' :: rest =>
      match leadingPath? rest with
      | some names => some (name :: names)
      | none => some [name]
    | _ => some [name]
  else none
termination_by text.length
decreasing_by
  have := congrArg List.length _h
  simp only [List.length_drop, List.length_cons] at this
  omega

/-- The table without a name. -/
def without (name : List Char) (table : Collections) : Collections :=
  table.filter fun entry => entry.1 ≠ name

/-- The steps of a variable with its first name apart. An item stands for the
    first element of its collection. Each item is expanded once, so that
    iterations over themselves, or over each other, come to an end; after that
    its name is a key like any other. A status variable has no place in the
    data. -/
def resolveSteps (items statuses : Collections) (first : List Char) (rest : List (List Char)) :
    Option (List Step) :=
  let keys := rest.map fun name => Step.key (CodePoints.ofList name)
  match _h : items.get? first with
  | some collection =>
    -- The collection may itself start at an item of an outer iteration.
    match leadingPath? collection with
    | some (name :: names) =>
      (resolveSteps (without first items) statuses name names).map fun base =>
        base ++ .element :: keys
    | _ => none
  | none =>
    -- A status variable is made by the iteration and has no data.
    if (statuses.get? first).isSome then none else some (.key (CodePoints.ofList first) :: keys)
termination_by items.length
decreasing_by
  have member : ∃ entry ∈ items, entry.1 = first := by
    simp only [Collections.get?, List.lookup_eq_some_iff] at _h
    obtain ⟨before, after, rfl, _⟩ := _h
    exact ⟨(first, collection), by simp, rfl⟩
  obtain ⟨entry, he, heq⟩ := member
  simp only [without]
  exact List.length_filter_lt_length_iff_exists.2 ⟨entry, he, by simp [heq]⟩

/-! ## Inserting -/

/-- The members of an object; a value of another kind has none. -/
def membersOf : Option Value → Members
  | some (.object members) => members
  | _ => []

/-- The elements of an array; a value of another kind has none. -/
def elementsOf : Option Value → List Value
  | some (.array items) => items
  | _ => []

/-- The value that has to stand where `value?` stood so that the steps lead
    somewhere from there. What is there already is kept, unless a step needs an
    object or array where something else stands. The new value at the end of
    the steps is an empty text. -/
def insertAt : List Step → Option Value → Value
  | [], some value => value
  | [], none => .string ""
  | .key name :: rest, value? =>
    let members := membersOf value?
    .object (Members.put name (insertAt rest (Members.get? members name)) members)
  | .element :: rest, value? =>
    match elementsOf value? with
    | [] => .array [insertAt rest none]
    | item :: items => .array (insertAt rest (some item) :: items)

/-! ## Finding -/

/-- A value, or the first element of an array. -/
def firstElement : Option Value → Option Value
  | some (.array items) => items.head?
  | value? => value?

/-- What stands at the end of steps, where the first element stands for an
    array. -/
def navigate : List Step → Option Value → Option Value
  | [], value? => firstElement value?
  | .element :: rest, value? => navigate rest (firstElement value?)
  | .key name :: rest, value? =>
    match firstElement value? with
    | some (.object members) => navigate rest (Members.get? members name)
    | _ => none

/-- The member of a value with this key. An array gives that of its first
    object that has one. -/
def memberOf (name : CodePoints) : Value → Option Value
  | .object members => Members.get? members name
  | .array items =>
    items.findSome? fun item =>
      match item with
      | .object members => Members.get? members name
      | _ => none
  | _ => none

/-- The value at the end of a path of keys. -/
def lookUp : List CodePoints → Value → Option Value
  | [], value => some value
  | name :: rest, value => (memberOf name value).bind (lookUp rest)

end TemplateAnalysis.Store
