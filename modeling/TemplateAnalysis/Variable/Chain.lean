import TemplateAnalysis.Expression.Literal
import TemplateAnalysis.Expression.Word
import TemplateAnalysis.Expression.Pairing

/-! # Property chains

    A variable is read through a chain: a **head** (a name, a utility object
    or a bean) and the **accesses** behind it, such as members, calls,
    indexes and selections. A chain says three things about its expression:

    * the path it reads, segment by segment, when its head can be a variable;
    * the form fields that a call on `#fields` names in its first argument;
    * the stretches of tokens nested in it (arguments, conditions, indexes),
      which are chains and operators of their own.
-/

namespace TemplateAnalysis.Variable

open Text Expression

/-- A stretch of tokens, from `start` up to but not including `stop`. -/
structure Range where
  start : Nat
  stop : Nat
  deriving DecidableEq, Repr

/-- The part of a stretch before `stop`. -/
def Range.clip (range : Range) (stop : Nat) : Range :=
  ⟨range.start, min range.stop stop⟩

/-! ## Accesses -/

/-- One access of a chain. -/
inductive Access
  /-- `.name` or `?.name`. -/
  | member (name : List Char)
  /-- `.name(arguments)` or `?.name(arguments)`. -/
  | call (name : List Char) (arguments : Range)
  /-- `.?[condition]`, `.![projection]` and their kin, and `.{projection}`. -/
  | selection (body : Range)
  /-- `(arguments)` right behind what is called. -/
  | arguments (body : Range)
  /-- `['key']` with a key that is an identifier. -/
  | item (key : List Char) (body : Range)
  /-- `[index]`. -/
  | index (body : Range)
  deriving DecidableEq, Repr

/-- The stretch of tokens in the brackets of an access. -/
def Access.body? : Access → Option Range
  | .member _ => none
  | .call _ body | .selection body | .arguments body | .item _ body | .index body => some body

/-- The inside of the bracket that opens at an index. -/
def bracketBody (body : Body) (index : Nat) : Range :=
  ⟨index + 1, body.partner index⟩

/-- The access that starts at an index, with the index behind it. -/
def accessAt? (body : Body) (index stop : Nat) : Option (Access × Nat) :=
  if (body.hasKind index stop .dot || body.hasKind index stop .safe) &&
      body.hasKind (index + 1) stop .identifier then
    -- A member that is called takes its arguments along.
    if body.opensWith (index + 2) stop '(' then
      some (.call (body.textAt (index + 1)) (bracketBody body (index + 2)),
        body.partner (index + 2) + 1)
    else some (.member (body.textAt (index + 1)), index + 2)
  else if (body.hasKind index stop .dot && body.opensWith (index + 1) stop '{') ||
      (body.hasKind index stop .filter && body.opensWith (index + 1) stop '[') then
    some (.selection (bracketBody body (index + 1)), body.partner (index + 1) + 1)
  else if body.opensWith index stop '(' then
    some (.arguments (bracketBody body index), body.partner index + 1)
  else if body.opensWith index stop '[' then
    let inner := bracketBody body index
    let key := unquote (body.textAt inner.start)
    -- One string alone between the brackets can be a key.
    if inner.stop = inner.start + 1 && body.hasKind inner.start inner.stop .string &&
        isIdentifier key then
      some (.item key inner, inner.stop + 1)
    else some (.index inner, inner.stop + 1)
  else none

/-- An access takes up at least one token, and what it nests lies behind the
    token it starts with. -/
theorem accessAt?_bounds {body : Body} {index stop next : Nat} {access : Access}
    (h : accessAt? body index stop = some (access, next)) :
    index < next ∧ ∀ range, access.body? = some range → index < range.start := by
  have here := body.lt_partner index
  have one := body.lt_partner (index + 1)
  have two := body.lt_partner (index + 2)
  simp only [accessAt?, bracketBody] at h
  grind [Access.body?]

/-- All accesses from an index on, with the index behind the last of them. -/
def accessesFrom (body : Body) (stop index : Nat) : List Access × Nat :=
  if index < stop then
    match _h : accessAt? body index stop with
    | none => ([], index)
    | some (access, next) =>
      let more := accessesFrom body stop next
      (access :: more.1, more.2)
  else ([], index)
termination_by stop - index
decreasing_by
  have := (accessAt?_bounds _h).1
  omega

/-- The accesses of a chain end no earlier than they start, and what they nest
    lies behind that start. -/
theorem accessesFrom_bounds (body : Body) (stop index : Nat) :
    index ≤ (accessesFrom body stop index).2 ∧
      ∀ access ∈ (accessesFrom body stop index).1, ∀ range,
        access.body? = some range → index < range.start := by
  fun_induction accessesFrom body stop index with
  | case1 index _ h => simp
  | case2 index _ access next h more ih =>
    have hb := accessAt?_bounds h
    refine ⟨Nat.le_trans (Nat.le_of_lt hb.1) ih.1, fun a ha range hr => ?_⟩
    rcases List.mem_cons.1 ha with rfl | ha
    · exact hb.2 range hr
    · exact Nat.lt_trans hb.1 (ih.2 a ha range hr)
  | case3 index _ => simp

/-! ## Heads -/

/-- The start of a chain: the first segment of the path, none when nothing is
    read; whether the chain is a call on the form fields; and the index at
    which its accesses start. -/
structure Head where
  segment : Option (List Char)
  onFields : Bool
  next : Nat
  deriving DecidableEq, Repr

/-- The index behind a run of names and dots. -/
def skipName (body : Body) (stop index : Nat) : Nat :=
  if body.hasKind index stop .identifier || body.hasKind index stop .dot then
    skipName body stop (index + 1)
  else index
termination_by stop - index
decreasing_by
  rename_i h
  have : index < stop := by
    simp only [Body.hasKind, Bool.or_eq_true, Bool.and_eq_true, decide_eq_true_eq] at h
    omega
  omega

theorem le_skipName (body : Body) (stop index : Nat) : index ≤ skipName body stop index := by
  fun_induction skipName body stop index with
  | case1 index _ ih => omega
  | case2 index _ => exact Nat.le_refl index

/-- The name `_`, `__` and so on. -/
def isUnderscores (name : List Char) : Bool :=
  name.all (· == '_')

/-- Utility objects whose first member is itself a variable. -/
def variableScopes : List String :=
  ["#vars"]

/-- Is the member of a utility object a variable? -/
def isScopedVariable (utility member : List Char) : Bool :=
  variableScopes.contains (String.ofList utility) ||
    (utility == "#authentication".toList && member == "principal".toList)

/-- The head of the chain whose first token stands at an index. A constructor
    call and a type reference take the name of their type with them. -/
def headAt (body : Body) (index stop : Nat) (first : Token) : Head :=
  let silent := ⟨none, false, index + 1⟩
  match first.kind with
  | .identifier =>
    if first.text == "new".toList then ⟨none, false, skipName body stop (index + 1)⟩
    -- The name in the parentheses of a type reference is no variable.
    else if first.text == ['T'] && body.opensWith (index + 1) stop '(' then
      ⟨none, false, body.partner (index + 1) + 1⟩
    else if isReservedWord first.text || isSecurityFunction first.text ||
        isUnderscores first.text then silent
    else ⟨some first.text, false, index + 1⟩
  | .utility =>
    let onFields := first.text == "#fields".toList
    let member := body.textAt (index + 2)
    if body.hasKind (index + 1) stop .dot && body.hasKind (index + 2) stop .identifier &&
        isScopedVariable first.text member then
      ⟨some member, onFields, index + 3⟩
    -- Every other utility object reads nothing by itself.
    else ⟨none, onFields, index + 1⟩
  | _ => silent

theorem lt_headAt_next (body : Body) (index stop : Nat) (first : Token) :
    index < (headAt body index stop first).next := by
  have h₁ := le_skipName body stop (index + 1)
  have h₂ := body.lt_partner (index + 1)
  unfold headAt
  split
  · split
    · simp only; omega
    · split
      · simp only; omega
      · split <;> simp
  · simp only
    split <;> simp
  · simp

/-! ## What a chain says -/

/-- Calls without arguments that sum up a selection or projection. They are no
    part of the path behind one. -/
def aggregateMethods : List String :=
  ["size", "isEmpty", "length", "count", "first", "last"]

/-- Calls on the form fields whose first argument names a field. -/
def fieldMethods : List String :=
  ["hasErrors", "errors", "detailedErrors"]

/-- Field names that stand for all fields or for none. -/
def fieldWildcards : List String :=
  ["*", "all", "global"]

/-- The segments that accesses add to a path. Whether a selection stands before
    them decides about the summing calls. -/
def segmentsOf (afterSelection : Bool) : List Access → List (List Char)
  | [] => []
  | .member name :: rest => name :: segmentsOf afterSelection rest
  | .call name args :: rest =>
    -- What sums up a selection belongs to the selection, not to the path.
    if afterSelection && args.stop == args.start &&
        aggregateMethods.contains (String.ofList name) then
      segmentsOf afterSelection rest
    else name :: segmentsOf afterSelection rest
  | .selection _ :: rest => segmentsOf true rest
  | .item key _ :: rest => key :: segmentsOf afterSelection rest
  | .arguments _ :: rest | .index _ :: rest => segmentsOf afterSelection rest

/-- The stretch nested in an access. The key of an item is part of the path of
    a chain that reads one, and a nested stretch otherwise. -/
def nestedIn (reads : Bool) : Access → Option Range
  | .item _ body => if reads then none else some body
  | access => access.body?

/-- What is nested in an access stands in its brackets. -/
theorem body?_of_nestedIn {reads : Bool} {access : Access} {range : Range}
    (h : nestedIn reads access = some range) : access.body? = some range := by
  cases access <;> simp_all [nestedIn, Access.body?]

/-- Is this a property path: identifiers with dots between them? -/
def isPropertyPath (path : List Char) : Bool :=
  (splitOn '.' path).all isIdentifier

/-- The segments of the form field that the first argument of a call names. -/
def fieldPath? (body : Body) (args : Range) : Option (List (List Char)) :=
  if args.start < args.stop && body.hasKind args.start args.stop .string then
    let path := trim (unquote (body.textAt args.start))
    if fieldWildcards.contains (String.ofList path) || !isPropertyPath path then none
    else some (splitOn '.' path)
  else none

/-- The form field that an access on the form fields names. -/
def fieldOf? (body : Body) : Access → Option (List (List Char))
  | .call name args =>
    if fieldMethods.contains (String.ofList name) then fieldPath? body args else none
  | _ => none

/-- A property chain. -/
structure Chain where
  /-- The path that is read, empty when none is. -/
  segments : List (List Char)
  /-- The paths of the form fields that are named. -/
  fields : List (List (List Char))
  /-- The stretches nested in the chain, in order. -/
  nested : List Range
  /-- The index behind the chain. -/
  next : Nat
  deriving DecidableEq, Repr

/-- The chain whose first token stands at an index. -/
def chainAt (body : Body) (index stop : Nat) (first : Token) : Chain :=
  let head := headAt body index stop first
  let accesses := accessesFrom body stop head.next
  { segments := match head.segment with
      | some name => name :: segmentsOf false accesses.1
      | none => []
    fields := if head.onFields then accesses.1.filterMap (fieldOf? body) else []
    nested := (accesses.1.filterMap (nestedIn head.segment.isSome)).map (·.clip stop)
    next := accesses.2 }

theorem lt_chainAt_next (body : Body) (index stop : Nat) (first : Token) :
    index < (chainAt body index stop first).next :=
  Nat.lt_of_lt_of_le (lt_headAt_next body index stop first)
    (accessesFrom_bounds body stop _).1

/-- What is nested in a chain lies behind its first token, and before `stop`. -/
theorem chainAt_nested_bounds {body : Body} {index stop : Nat} {first : Token} {range : Range}
    (h : range ∈ (chainAt body index stop first).nested) :
    index < range.start ∧ range.stop ≤ stop := by
  obtain ⟨whole, hw, rfl⟩ := List.mem_map.1 h
  obtain ⟨access, ha, hn⟩ := List.mem_filterMap.1 hw
  refine ⟨?_, Nat.min_le_right _ _⟩
  exact Nat.lt_trans (lt_headAt_next body index stop first)
    ((accessesFrom_bounds body stop _).2 access ha whole (body?_of_nestedIn hn))

/-- The paths read along segments, shortest first: every step of the way is
    read as well. Empty segments are no steps. -/
def pathsFrom (path : List Char) : List (List Char) → List (List Char)
  | [] => []
  | segment :: rest =>
    if segment.isEmpty then pathsFrom path rest
    else
      let longer := if path.isEmpty then segment else path ++ '.' :: segment
      longer :: pathsFrom longer rest

/-- The dotted paths of a chain of segments, shortest first. -/
def pathsAlong (segments : List (List Char)) : List (List Char) :=
  pathsFrom [] segments

/-- All paths that a chain reads, those of form fields first. -/
def Chain.paths (chain : Chain) : List (List Char) :=
  chain.fields.flatMap pathsAlong ++ pathsAlong chain.segments

end TemplateAnalysis.Variable
