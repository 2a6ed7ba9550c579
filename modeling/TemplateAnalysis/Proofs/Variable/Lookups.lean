import TemplateAnalysis.Proofs.Variable.Accesses

/-! # Lookups of the walk

    The walk looks up tokens by their index and brackets in the table of partners. Here
    it is run with lookups that can fail:

    * **`walkIn?`** has no result when a token is looked up that is not there, when a
      bracket has no entry, or when a step does not get on;
    * **`walkIn?_eq_some`**: on a stretch of the tokens it always has one, and that is
      the result of the walk.

    The invariant is that a stretch ends no later than the tokens. It holds of what is
    nested because every bracket that opens is paired, with an end among the tokens or
    right behind them.
-/

namespace TemplateAnalysis.Variable

open Text Expression

variable {body : Body} {index stop : Nat}

/-! ## Single lookups -/

/-- The entry of the table of partners for the bracket at an index. -/
def listedPartner? (body : Body) (index : Nat) : Option Nat :=
  (body.pairs.find? fun pair => pair.1 == index).map Prod.snd

/-- Does the token at `index` pass a test? Behind `stop` it is not looked up. -/
def passesIn? (body : Body) (index stop : Nat) (test : Token → Bool) : Option Bool :=
  if index < stop then body.tokens[index]?.map test else some false

/-- Does a token of this kind stand at `index`, before `stop`? -/
def hasKindIn? (body : Body) (index stop : Nat) (kind : TokenKind) : Option Bool :=
  passesIn? body index stop fun t => t.kind = kind

/-- Does this opening bracket stand at `index`, before `stop`? -/
def opensWithIn? (body : Body) (index stop : Nat) (bracket : Char) : Option Bool :=
  passesIn? body index stop fun t => t.kind = .opening && t.text == [bracket]

/-- Ask a second question if the answer to the first one is yes. -/
def andThen? (first : Bool) (second : Option Bool) : Option Bool :=
  if first then second else some false

/-- Every opening bracket has an entry. -/
theorem listedPartner?_eq_some (h : body.KindAt index .opening) :
    listedPartner? body index = some (body.partner index) := by
  have hmem : (index, body.partner index) ∈ body.pairs := by
    rw [body.pairs_eq]
    exact Body.mem_pairBrackets h
  have hsome : (body.pairs.find? fun pair => pair.1 == index).isSome = true :=
    List.find?_isSome.2 ⟨_, hmem, by simp⟩
  obtain ⟨pair, hpair⟩ := Option.isSome_iff_exists.1 hsome
  rw [listedPartner?, Body.partner, hpair]
  rfl

/-- On a stretch of the tokens nothing is looked up that is not there. -/
theorem exists_token (hstop : stop ≤ body.tokens.length) (hlt : index < stop) :
    ∃ t, body.tokens[index]? = some t :=
  ⟨_, List.getElem?_eq_getElem (Nat.lt_of_lt_of_le hlt hstop)⟩

theorem passesIn?_eq_some (hstop : stop ≤ body.tokens.length) (index : Nat)
    (test : Token → Bool) :
    passesIn? body index stop test = some (index < stop && body.tokens[index]?.any test) := by
  unfold passesIn?
  by_cases hlt : index < stop
  · obtain ⟨t, ht⟩ := exists_token hstop hlt
    simp [hlt, ht]
  · simp [hlt]

theorem hasKindIn?_eq_some (hstop : stop ≤ body.tokens.length) (index : Nat) (kind : TokenKind) :
    hasKindIn? body index stop kind = some (body.hasKind index stop kind) :=
  passesIn?_eq_some hstop index _

theorem opensWithIn?_eq_some (hstop : stop ≤ body.tokens.length) (index : Nat) (bracket : Char) :
    opensWithIn? body index stop bracket = some (body.opensWith index stop bracket) :=
  passesIn?_eq_some hstop index _

theorem andThen?_some (first second : Bool) :
    andThen? first (some second) = some (first && second) := by
  cases first <;> rfl

/-- A token of the kind that is asked for can be looked up. -/
theorem getElem?_of_hasKind {kind : TokenKind} (h : body.hasKind index stop kind = true) :
    ∃ t, body.tokens[index]? = some t ∧ t.kind = kind ∧ body.textAt index = t.text := by
  obtain ⟨-, t, ht, hkind⟩ := hasKind_iff.1 h
  exact ⟨t, ht, hkind, by rw [Body.textAt, ht]; rfl⟩

/-- The inside of the bracket that opens at an index, when the bracket has an entry. -/
def bracketIn? (body : Body) (index : Nat) : Option Range :=
  (listedPartner? body index).map fun close => ⟨index + 1, close⟩

theorem bracketIn?_eq_some {bracket : Char} (h : body.opensWith index stop bracket = true) :
    bracketIn? body index = some (bracketBody body index) := by
  rw [bracketIn?, listedPartner?_eq_some (kindAt_of_opensWith h).2]
  rfl

/-! ## Accesses -/

/-- The key of an item, when one string stands alone between the brackets. -/
def itemKeyIn? (body : Body) (inner : Range) : Option (Option (List Char)) :=
  if inner.stop = inner.start + 1 then
    body.tokens[inner.start]?.map fun t =>
      if t.kind = .string && isIdentifier (unquote t.text) then some (unquote t.text) else none
  else some none

theorem itemKeyIn?_eq_some {inner : Range} (hstop : inner.stop ≤ body.tokens.length) :
    itemKeyIn? body inner =
      some (if inner.stop = inner.start + 1 && body.hasKind inner.start inner.stop .string &&
          isIdentifier (unquote (body.textAt inner.start)) then
        some (unquote (body.textAt inner.start)) else none) := by
  unfold itemKeyIn?
  by_cases hone : inner.stop = inner.start + 1
  · have hlt : inner.start < inner.stop := by omega
    obtain ⟨t, ht⟩ := exists_token hstop hlt
    simp [hone, ht, Body.hasKind, Body.textAt]
  · simp [hone]

/-- The access that starts at an index. -/
def accessIn? (body : Body) (index stop : Nat) : Option (Option (Access × Nat)) := do
  let t ← body.tokens[index]?
  if ← andThen? (t.kind = .dot || t.kind = .safe)
      (hasKindIn? body (index + 1) stop .identifier) then
    let name ← body.tokens[index + 1]?
    if ← opensWithIn? body (index + 2) stop '(' then
      let inner ← bracketIn? body (index + 2)
      return some (.call name.text inner, inner.stop + 1)
    else return some (.member name.text, index + 2)
  else if ← andThen? (t.kind = .dot) (opensWithIn? body (index + 1) stop '{') then
    let inner ← bracketIn? body (index + 1)
    return some (.selection inner, inner.stop + 1)
  else if ← andThen? (t.kind = .filter) (opensWithIn? body (index + 1) stop '[') then
    let inner ← bracketIn? body (index + 1)
    return some (.selection inner, inner.stop + 1)
  else if ← opensWithIn? body index stop '(' then
    let inner ← bracketIn? body index
    return some (.arguments inner, inner.stop + 1)
  else if ← opensWithIn? body index stop '[' then
    let inner ← bracketIn? body index
    match ← itemKeyIn? body inner with
    | some key => return some (.item key inner, inner.stop + 1)
    | none => return some (.index inner, inner.stop + 1)
  else return none

theorem accessIn?_eq_some (hstop : stop ≤ body.tokens.length) (hlt : index < stop) :
    accessIn? body index stop = some (accessAt? body index stop) := by
  obtain ⟨t, ht⟩ := exists_token hstop hlt
  have hkind : ∀ kind, decide (t.kind = kind) = body.hasKind index stop kind := by
    intro kind
    simp [Body.hasKind, hlt, ht]
  unfold accessIn? accessAt?
  simp only [ht, hkind, hasKindIn?_eq_some hstop, opensWithIn?_eq_some hstop, andThen?_some,
    Option.bind_eq_bind, Option.bind_some]
  split
  · rename_i hmember
    obtain ⟨name, hname, -, htext⟩ := getElem?_of_hasKind (Bool.and_eq_true _ _ ▸ hmember).2
    rw [hname, htext, Option.bind_some]
    split
    · rename_i hopens
      rw [bracketIn?_eq_some hopens]
      rfl
    · rfl
  · split
    · rename_i hselection
      rw [bracketIn?_eq_some (Bool.and_eq_true _ _ ▸ hselection).2, hselection, Bool.true_or]
      rfl
    · rename_i hprojection
      rw [Bool.not_eq_true] at hprojection
      rw [hprojection, Bool.false_or]
      split
      · rename_i hselection
        rw [bracketIn?_eq_some (Bool.and_eq_true _ _ ▸ hselection).2]
        rfl
      · split
        · rename_i hopens
          rw [bracketIn?_eq_some hopens]
          rfl
        · split
          · rename_i hopens
            have hinner := (body.partner_ends (kindAt_of_opensWith hopens).2).1
            rw [bracketIn?_eq_some hopens, Option.bind_some, itemKeyIn?_eq_some hinner,
              Option.bind_some]
            generalize (_ && isIdentifier _) = isKey
            cases isKey <;> rfl
          · rfl

/-- All accesses from an index on. -/
def accessesIn? (body : Body) (stop index : Nat) : Option (List Access × Nat) := do
  if index < stop then
    match ← accessIn? body index stop with
    | none => return ([], index)
    | some (access, next) =>
      if index < next then
        let more ← accessesIn? body stop next
        return (access :: more.1, more.2)
      else none
  else return ([], index)
termination_by stop - index

theorem accessesIn?_eq_some (hstop : stop ≤ body.tokens.length) (index : Nat) :
    accessesIn? body stop index = some (accessesFrom body stop index) := by
  fun_induction accessesFrom body stop index with
  | case1 index hlt hnone =>
    rw [accessesIn?, if_pos hlt, accessIn?_eq_some hstop hlt, hnone]
    rfl
  | case2 index hlt access next haccess more ih =>
    rw [accessesIn?, if_pos hlt, accessIn?_eq_some hstop hlt, haccess]
    simp only [Option.bind_eq_bind, Option.bind_some]
    rw [if_pos (accessAt?_bounds haccess).1, ih]
    rfl
  | case3 index hlt =>
    rw [accessesIn?, if_neg hlt]
    rfl

/-! ## Heads -/

/-- The index behind a run of names and dots. -/
def skipNameIn? (body : Body) (stop index : Nat) : Option Nat := do
  if index < stop then
    let t ← body.tokens[index]?
    if t.kind = .identifier || t.kind = .dot then skipNameIn? body stop (index + 1)
    else return index
  else return index
termination_by stop - index

theorem skipNameIn?_eq_some (hstop : stop ≤ body.tokens.length) (index : Nat) :
    skipNameIn? body stop index = some (skipName body stop index) := by
  fun_induction skipName body stop index with
  | case1 index hname ih =>
    have hlt : index < stop := by
      rcases Bool.or_eq_true _ _ ▸ hname with h | h <;> exact (hasKind_iff.1 h).1
    obtain ⟨t, ht⟩ := exists_token hstop hlt
    rw [skipNameIn?, if_pos hlt, ht]
    simp only [Option.bind_eq_bind, Option.bind_some]
    rw [if_pos, ih]
    simpa [Body.hasKind, hlt, ht] using hname
  | case2 index hname =>
    rw [skipNameIn?]
    by_cases hlt : index < stop
    · obtain ⟨t, ht⟩ := exists_token hstop hlt
      rw [if_pos hlt, ht]
      simp only [Option.bind_eq_bind, Option.bind_some]
      rw [if_neg]
      · rfl
      · simpa [Body.hasKind, hlt, ht] using hname
    · rw [if_neg hlt]
      rfl

/-- The head of the chain whose first token stands at an index. -/
def headIn? (body : Body) (index stop : Nat) (first : Token) : Option Head := do
  match first.kind with
  | .identifier =>
    if first.text == "new".toList then return ⟨none, false, ← skipNameIn? body stop (index + 1)⟩
    else if ← andThen? (first.text == ['T']) (opensWithIn? body (index + 1) stop '(') then
      let inner ← bracketIn? body (index + 1)
      return ⟨none, false, inner.stop + 1⟩
    else if isReservedWord first.text || isSecurityFunction first.text ||
        isUnderscores first.text then
      return ⟨none, false, index + 1⟩
    else return ⟨some first.text, false, index + 1⟩
  | .utility =>
    let onFields := first.text == "#fields".toList
    let dot ← hasKindIn? body (index + 1) stop .dot
    if ← andThen? dot (hasKindIn? body (index + 2) stop .identifier) then
      let member ← body.tokens[index + 2]?
      if isScopedVariable first.text member.text then return ⟨some member.text, onFields, index + 3⟩
      else return ⟨none, onFields, index + 1⟩
    else return ⟨none, onFields, index + 1⟩
  | _ => return ⟨none, false, index + 1⟩

theorem headIn?_eq_some (hstop : stop ≤ body.tokens.length) (index : Nat) (first : Token) :
    headIn? body index stop first = some (headAt body index stop first) := by
  unfold headIn? headAt
  simp only [skipNameIn?_eq_some hstop, hasKindIn?_eq_some hstop, opensWithIn?_eq_some hstop,
    andThen?_some, Option.bind_eq_bind, Option.bind_some]
  cases first.kind with
  | identifier =>
    dsimp only
    split
    · rfl
    · split
      · rename_i htype
        rw [bracketIn?_eq_some (Bool.and_eq_true _ _ ▸ htype).2]
        rfl
      · split <;> rfl
  | utility =>
    dsimp only
    cases hmember : (body.hasKind (index + 1) stop .dot &&
      body.hasKind (index + 2) stop .identifier) with
    | false => rfl
    | true =>
      obtain ⟨member, ht, -, htext⟩ := getElem?_of_hasKind (Bool.and_eq_true _ _ ▸ hmember).2
      rw [if_pos rfl, ht, htext, Option.bind_some, Bool.true_and]
      split <;> rfl
  | _ => rfl

/-! ## Form fields -/

/-- The segments of the form field that the first argument of a call names. -/
def fieldPathIn? (body : Body) (args : Range) : Option (Option (List (List Char))) :=
  if args.start < args.stop then
    body.tokens[args.start]?.map fun t =>
      let path := trim (unquote t.text)
      if t.kind ≠ .string || fieldWildcards.contains (String.ofList path) ||
          !isPropertyPath path then none
      else some (splitOn '.' path)
  else some none

theorem fieldPathIn?_eq_some {args : Range} (hstop : args.stop ≤ body.tokens.length) :
    fieldPathIn? body args = some (fieldPath? body args) := by
  unfold fieldPathIn? fieldPath?
  by_cases hlt : args.start < args.stop
  · obtain ⟨t, ht⟩ := exists_token hstop hlt
    by_cases hkind : t.kind = .string <;>
      simp [hlt, ht, hkind, Body.hasKind, Body.textAt]
  · simp [hlt]

/-- The form field that an access on the form fields names. -/
def fieldIn? (body : Body) : Access → Option (Option (List (List Char)))
  | .call name args =>
    if fieldMethods.contains (String.ofList name) then fieldPathIn? body args else some none
  | _ => some none

theorem fieldIn?_eq_some {access : Access}
    (hstop : ∀ range, access.body? = some range → range.stop ≤ body.tokens.length) :
    fieldIn? body access = some (fieldOf? body access) := by
  cases access with
  | call name args =>
    simp only [fieldIn?, fieldOf?, fieldPathIn?_eq_some (hstop args rfl)]
    split <;> rfl
  | _ => rfl

/-! ## Chains -/

/-- Lookups that succeed for every entry of a list give the list of what is found. -/
theorem mapM_eq_some {α β : Type} {f : α → Option β} {g : α → β} {entries : List α}
    (h : ∀ entry ∈ entries, f entry = some (g entry)) : entries.mapM f = some (entries.map g) := by
  induction entries with
  | nil => rfl
  | cons entry rest ih =>
    rw [List.mapM_cons, h entry List.mem_cons_self,
      ih fun other hother => h other (List.mem_cons_of_mem entry hother)]
    rfl

/-- The chain whose first token stands at an index. -/
def chainIn? (body : Body) (index stop : Nat) (first : Token) : Option Chain := do
  let head ← headIn? body index stop first
  let accesses ← accessesIn? body stop head.next
  let fields ← if head.onFields then accesses.1.mapM (fieldIn? body) else some []
  return {
    segments := match head.segment with
      | some name => name :: segmentsOf false accesses.1
      | none => []
    fields := fields.filterMap id
    nested := (accesses.1.filterMap (nestedIn head.segment.isSome)).map (·.clip stop)
    next := accesses.2 }

/-- What an access nests ends no later than the tokens. -/
theorem stop_le_of_mem_accessesFrom {start : Nat} {access : Access} {range : Range}
    (h : access ∈ (accessesFrom body stop start).1) (hrange : access.body? = some range) :
    range.stop ≤ body.tokens.length := by
  fun_induction accessesFrom body stop start with
  | case1 | case3 => simp at h
  | case2 index hlt first next haccess more ih =>
    rcases List.mem_cons.1 h with rfl | h
    · have htakes := takes_of_accessAt? haccess
      rw [hrange] at htakes
      obtain ⟨opener, rfl, hopening, -⟩ := htakes.range
      exact (body.partner_ends hopening).1
    · exact ih h

theorem chainIn?_eq_some (hstop : stop ≤ body.tokens.length) (index : Nat) (first : Token) :
    chainIn? body index stop first = some (chainAt body index stop first) := by
  have hfields : ∀ start, (accessesFrom body stop start).1.mapM (fieldIn? body) =
      some ((accessesFrom body stop start).1.map (fieldOf? body)) :=
    fun start => mapM_eq_some fun access haccess =>
      fieldIn?_eq_some fun range => stop_le_of_mem_accessesFrom haccess
  unfold chainIn? chainAt
  simp only [headIn?_eq_some hstop, accessesIn?_eq_some hstop, hfields, Option.bind_eq_bind,
    Option.bind_some]
  split
  · simp only [List.filterMap_map]
    rfl
  · rfl

/-! ## The walk -/

/-- The visits of the stretch of tokens from `index` up to `stop`. What is walked next
    has to be shorter. -/
def walkIn? (body : Body) (index stop : Nat) : Option (List Visit) := do
  if index < stop then
    let t ← body.tokens[index]?
    match t.kind with
    | .nested => return .nested index t.text :: (← walkIn? body (index + 1) stop)
    | .identifier | .utility | .bean =>
      let chain ← chainIn? body index stop t
      let nested ← chain.nested.mapM fun range =>
        if range.stop - range.start < stop - index then walkIn? body range.start range.stop
        else none
      if stop - chain.next < stop - index then
        let later ← walkIn? body chain.next stop
        return .chain index chain :: nested.flatten ++ later
      else none
    | _ => walkIn? body (index + 1) stop
  else return []
termination_by stop - index

/-- **The walk never fails**: on a stretch of the tokens every lookup finds what it looks
    for, and every step leaves less to walk. -/
theorem walkIn?_eq_some (hstop : stop ≤ body.tokens.length) :
    walkIn? body index stop = some (walk body index stop) := by
  -- The invariant: a stretch ends among the tokens or right behind them. What is nested
  -- keeps it, being clipped at the end of the stretch around it.
  fun_induction walk body index stop
  case case1 index stop hlt hnone =>
    obtain ⟨t, ht⟩ := exists_token hstop hlt
    rw [ht] at hnone
    contradiction
  case case2 index stop hlt t ht hkind ih =>
    rw [walkIn?, if_pos hlt, ht]
    simp only [Option.bind_eq_bind, Option.bind_some, hkind, ih hstop]
    rfl
  case case3 index stop hlt t ht hkind nested later | case4 index stop hlt t ht hkind nested later
      | case5 index stop hlt t ht hkind nested later =>
    rw [walkIn?, if_pos hlt, ht]
    simp only [Option.bind_eq_bind, Option.bind_some, hkind, chainIn?_eq_some hstop]
    have hnested : (chainAt body index stop t).nested.mapM (fun range =>
        if range.stop - range.start < stop - index then walkIn? body range.start range.stop
        else none) =
          some ((chainAt body index stop t).nested.map fun range =>
            walk body range.start range.stop) := by
      apply mapM_eq_some
      intro range hrange
      have hbounds := chainAt_nested_bounds hrange
      rw [if_pos (by omega), nested ⟨range, hrange⟩ (Nat.le_trans hbounds.2 hstop)]
    have hgrows := lt_chainAt_next body index stop t
    rw [hnested, Option.bind_some, if_pos (by omega), later hstop]
    simp [List.flatMap_def]
  case case6 index stop hlt t ht hnested hidentifier hutility hbean ih =>
    rw [walkIn?, if_pos hlt, ht]
    simp only [Option.bind_eq_bind, Option.bind_some]
    exact ih hstop
  case case7 index stop hlt =>
    rw [walkIn?, if_neg hlt]
    rfl

end TemplateAnalysis.Variable
