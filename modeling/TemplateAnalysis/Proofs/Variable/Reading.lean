import TemplateAnalysis.Proofs.Expression.Brackets
import TemplateAnalysis.Proofs.Text.Character
import TemplateAnalysis.Proofs.Text.Search
import TemplateAnalysis.Variable.Match

/-! # The walk over a written expression

    Where the tokens of an expression stand in a body, the walk finds the paths
    that the expression reads, and nothing else:

    * **`found_term`**: from the first token of an expression the walk finds
      its paths and goes on behind its last token.

    What an expression yields (`Yields`) is put together from its parts, by one
    law for each way to write one: tokens in a row, a separator between them, a
    group, a name with accessors. The accessors have one law each
    (`IsAccess`). The induction only says which law applies.

    The one trap is a word operator. To the walk it looks like the name of a
    function, and a group behind it like the arguments. So the statement also
    covers a walk that starts at a word operator right before the expression.
-/

namespace TemplateAnalysis.Variable

open Text Expression

/-! ## Tokens at an index -/

theorem hasKind_of_stands {body : Body} {index : Nat} {kind : TokenKind} {text : List Char}
    (h : Stands body index [(kind, text)]) (stop : Nat) (other : TokenKind) :
    body.hasKind index stop other = (decide (index < stop) && decide (kind = other)) := by
  obtain ⟨t, ht, hk, -⟩ := token_of_stands h
  simp [Body.hasKind, ht, hk]

theorem opensWith_of_stands {body : Body} {index : Nat} {kind : TokenKind} {text : List Char}
    (h : Stands body index [(kind, text)]) (stop : Nat) (bracket : Char) :
    body.opensWith index stop bracket =
      (decide (index < stop) && (decide (kind = .opening) && text == [bracket])) := by
  obtain ⟨t, ht, hk, htext⟩ := token_of_stands h
  simp [Body.opensWith, ht, hk, htext]

theorem textAt_of_stands {body : Body} {index : Nat} {kind : TokenKind} {text : List Char}
    (h : Stands body index [(kind, text)]) : body.textAt index = text := by
  obtain ⟨t, ht, -, htext⟩ := token_of_stands h
  simp [Body.textAt, ht, htext]

/-- Can an access start with a token of this kind? -/
def startsAccess (kind : TokenKind) : Bool :=
  kind == .dot || kind == .safe || kind == .filter || kind == .opening

/-- Nothing is accessed at a token that starts no access. -/
theorem accessAt?_eq_none {body : Body} {index : Nat} {kind : TokenKind} {text : List Char}
    (h : Stands body index [(kind, text)]) (hk : startsAccess kind = false) (stop : Nat) :
    accessAt? body index stop = none := by
  unfold startsAccess at hk
  simp only [Bool.or_eq_false_iff, beq_eq_false_iff_ne, ne_eq] at hk
  obtain ⟨⟨⟨hd, hs⟩, hf⟩, ho⟩ := hk
  simp [accessAt?, hasKind_of_stands h, opensWith_of_stands h, hd, hs, hf, ho]

/-- Nothing is accessed behind the end. -/
theorem accessAt?_eq_none_of_le (body : Body) {index stop : Nat} (h : stop ≤ index) :
    accessAt? body index stop = none := by
  have hlt : ¬index < stop := by omega
  simp [accessAt?, Body.hasKind, Body.opensWith, hlt]

theorem opensWith_eq_false {body : Body} {index stop : Nat}
    (h : accessAt? body index stop = none) : body.opensWith index stop '(' = false := by
  cases ho : body.opensWith index stop '(' with
  | false => rfl
  | true =>
    exfalso
    simp only [Body.opensWith, Bool.and_eq_true, decide_eq_true_eq] at ho
    obtain ⟨hlt, ho⟩ := ho
    unfold accessAt? at h
    grind [Body.hasKind, Body.opensWith]

/-- The accesses end where none starts. -/
theorem accessesFrom_none {body : Body} {index stop : Nat}
    (h : accessAt? body index stop = none) : accessesFrom body stop index = ([], index) := by
  rw [accessesFrom.eq_def]
  split
  · split
    · rfl
    · rename_i heq
      rw [h] at heq
      contradiction
  · rfl

/-- The first access and the others. -/
theorem accessesFrom_some {body : Body} {index stop next : Nat} {access : Access}
    (hlt : index < stop) (h : accessAt? body index stop = some (access, next)) :
    accessesFrom body stop index =
      (access :: (accessesFrom body stop next).1, (accessesFrom body stop next).2) := by
  rw [accessesFrom.eq_def, if_pos hlt]
  split
  · rename_i heq
    rw [h] at heq
    contradiction
  · rename_i heq
    rw [h] at heq
    obtain ⟨rfl, rfl⟩ := Prod.mk.inj (Option.some.inj heq)
    rfl

/-! ## What a walk finds -/

/-- What a visit finds for the expression around it. -/
def visitMatches (source : List Char) : Visit → List Match
  | .chain _ chain => chain.paths.map (Match.mk source)
  | .nested _ inner => expressionMatches inner

/-- What the walk over a stretch of tokens finds. -/
def found (source : List Char) (body : Body) (index stop : Nat) : List Match :=
  (walk body index stop).flatMap (visitMatches source)

variable {source : List Char} {body : Body} {index stop : Nat}

theorem found_stop (h : stop ≤ index) : found source body index stop = [] := by
  unfold found
  rw [walk.eq_def, if_neg (by omega)]
  rfl

/-- Tokens of most kinds are passed over. -/
theorem found_skip {kind : TokenKind} {text : List Char}
    (h : Stands body index [(kind, text)])
    (hk : kind ∉ [.nested, .identifier, .utility, .bean]) :
    found source body index stop = found source body (index + 1) stop := by
  by_cases hlt : index < stop
  · obtain ⟨t, ht, rfl, -⟩ := token_of_stands h
    unfold found
    conv => lhs; rw [walk.eq_def, if_pos hlt]
    simp only [ht]
    split <;> simp_all
  · rw [found_stop (by omega), found_stop (by omega)]

/-- At a name the walk finds the paths of a chain, what is nested in it, and
    what follows it. -/
theorem found_chain {t : Token} (hlt : index < stop) (ht : body.tokens[index]? = some t)
    (hk : t.kind = .identifier ∨ t.kind = .utility) :
    found source body index stop =
      (chainAt body index stop t).paths.map (Match.mk source) ++
        ((chainAt body index stop t).nested.flatMap fun range =>
          found source body range.start range.stop) ++
        found source body (chainAt body index stop t).next stop := by
  unfold found
  conv => lhs; rw [walk.eq_def, if_pos hlt]
  simp only [ht]
  have nested : ((chainAt body index stop t).nested.attach.flatMap fun range =>
      walk body range.1.start range.1.stop) =
      (chainAt body index stop t).nested.flatMap fun range =>
        walk body range.start range.stop := by
    rw [List.flatMap_subtype (g := fun range => walk body range.start range.stop)
      (fun _ _ => rfl), List.unattach_attach]
  rcases hk with hk | hk
  · simp only [hk, nested, List.flatMap_cons, List.flatMap_append, List.flatMap_assoc,
      List.append_assoc, List.cons_append, visitMatches]
  · simp only [hk, nested, List.flatMap_cons, List.flatMap_append, List.flatMap_assoc,
      List.append_assoc, List.cons_append, visitMatches]

/-! ## Chains -/

theorem ne_new_of_not_reserved {name : List Char} (h : isReservedWord name = false) :
    (name == "new".toList) = false := by
  rw [beq_eq_false_iff_ne]
  rintro rfl
  revert h
  decide

/-- The head of a variable. -/
theorem headAt_variable {t : Token} (name : VariableName) (hk : t.kind = .identifier)
    (ht : t.text = name.text) (ho : body.opensWith (index + 1) stop '(' = false) :
    headAt body index stop t = ⟨some name.text, false, index + 1⟩ := by
  simp only [headAt, hk, ht, ne_new_of_not_reserved name.not_reserved, ho, Bool.and_false,
    name.not_reserved, name.not_security, name.not_underscores, Bool.or_self]
  rfl

/-- The head of a word operator, which reads nothing. -/
theorem headAt_operator {t : Token} {operator : Operator} (hw : operator.isWord = true)
    (hk : t.kind = .identifier) (ht : t.text = operator.text) :
    headAt body index stop t = ⟨none, false, index + 1⟩ := by
  have hr : isReservedWord operator.text = true := by
    cases operator <;> first | contradiction | decide
  have hn : (operator.text == "new".toList) = false := by
    cases operator <;> first | contradiction | decide
  have hT : (operator.text == ['T']) = false := by
    cases operator <;> first | contradiction | decide
  simp only [headAt, hk, ht, hn, hT, hr, Bool.false_and, Bool.true_or]
  rfl

/-- The head of a utility object, which reads nothing either. -/
theorem headAt_utility {t : Token} (object : UtilityName) (hk : t.kind = .utility)
    (ht : t.text = '#' :: object.text) :
    headAt body index stop t = ⟨none, false, index + 1⟩ := by
  have scope : ∀ name ∈ scopeObjects, t.text ≠ ('#' :: name.toList) := by
    intro name hn heq
    rw [ht] at heq
    obtain rfl : String.ofList object.text = name := by
      rw [(List.cons.inj heq).2, String.ofList_toList]
    exact object.not_scope hn
  have hf : (t.text == "#fields".toList) = false := by
    rw [beq_eq_false_iff_ne]
    exact scope "fields" (by decide)
  have ha : (t.text == "#authentication".toList) = false := by
    rw [beq_eq_false_iff_ne]
    exact scope "authentication" (by decide)
  have hv : variableScopes.contains (String.ofList t.text) = false := by
    rw [List.contains_eq_mem, decide_eq_false_iff_not]
    intro hm
    refine scope "vars" (by decide) ?_
    have : String.ofList t.text = "#vars" := by simpa [variableScopes] using hm
    rw [← String.toList_ofList (l := t.text), this]
    rfl
  simp only [headAt, hk, hf, isScopedVariable, ha, hv, Bool.false_and, Bool.or_self,
    Bool.and_false]
  rfl

/-- A word operator reads nothing where nothing is accessed behind it. -/
theorem found_operator {operator : Operator} (hw : operator.isWord = true)
    (h : Stands body index [operator.piece]) (hn : accessAt? body (index + 1) stop = none) :
    found source body index stop = found source body (index + 1) stop := by
  have hp : operator.piece = (.identifier, operator.text) := by
    unfold Operator.piece
    rw [hw]
    rfl
  obtain ⟨t, ht, hk, htext⟩ := token_of_stands (hp ▸ h)
  by_cases hlt : index < stop
  · rw [found_chain hlt ht (.inl hk)]
    simp [chainAt, headAt_operator hw hk htext, accessesFrom_none hn, Chain.paths, pathsAlong,
      pathsFrom]
  · rw [found_stop (by omega), found_stop (by omega)]

/-- A group behind a word operator is taken for its arguments. What is found
    is the same. -/
theorem found_operator_group {operator : Operator} (hw : operator.isWord = true)
    (h : Stands body index [operator.piece]) {inner : List Piece} (hb : Balanced inner)
    (hg : Stands body (index + 1) (inBrackets '(' inner ')'))
    (hstop : index + 1 + (inBrackets '(' inner ')').length ≤ stop)
    (hn : accessAt? body (index + 1 + (inBrackets '(' inner ')').length) stop = none) :
    found source body index stop =
      found source body (index + 2) (index + 2 + inner.length) ++
        found source body (index + 1 + (inBrackets '(' inner ')').length) stop := by
  have hp : operator.piece = (.identifier, operator.text) := by
    unfold Operator.piece
    rw [hw]
    rfl
  obtain ⟨t, ht, hk, htext⟩ := token_of_stands (hp ▸ h)
  have hopen := (stands_cons hg).1
  have hpartner := partner_of_stands rfl hb hg
  have hlen : (inBrackets '(' inner ')').length = inner.length + 2 := by simp [inBrackets]
  rw [hlen] at hstop hn ⊢
  have hlt : index + 1 < stop := by omega
  have access : accessAt? body (index + 1) stop =
      some (.arguments ⟨index + 2, index + 2 + inner.length⟩, index + 1 + (inner.length + 2)) := by
    simp only [accessAt?, hasKind_of_stands hopen, opensWith_of_stands hopen, hlt,
      bracketBody, hpartner]
    simp
    omega
  rw [found_chain (by omega) ht (.inl hk)]
  simp [chainAt, headAt_operator hw hk htext, accessesFrom_some hlt access,
    accessesFrom_none hn, Chain.paths, pathsAlong, pathsFrom, nestedIn, Access.body?, Range.clip,
    show index + 2 + inner.length ≤ stop by omega]

/-! ## Paths -/

/-- The paths along segments that continue those of a path. -/
theorem pathsFrom_joinWith {segments before : List (List Char)}
    (hs : ∀ segment ∈ segments, segment ≠ []) (hb : before = [] ∨ joinWith ['.'] before ≠ []) :
    pathsFrom (joinWith ['.'] before) segments =
      (List.range segments.length).map fun n =>
        joinWith ['.'] (before ++ segments.take (n + 1)) := by
  induction segments generalizing before with
  | nil => rfl
  | cons segment rest ih =>
    have hne : segment ≠ [] := hs segment List.mem_cons_self
    have longer : (if (joinWith ['.'] before).isEmpty then segment
        else joinWith ['.'] before ++ '.' :: segment) = joinWith ['.'] (before ++ [segment]) := by
      obtain rfl | hb := hb
      · simp [joinWith]
      · have : before ≠ [] := by
          rintro rfl
          exact hb rfl
        rw [joinWith_concat this]
        simp [hb]
    have hjoin : joinWith ['.'] (before ++ [segment]) ≠ [] := by
      rw [← longer]
      split <;> simp [hne]
    rw [pathsFrom, if_neg (by simp [hne])]
    simp only [longer]
    rw [ih (fun s h => hs s (List.mem_cons_of_mem _ h)) (.inr hjoin), List.length_cons,
      List.range_succ_eq_map]
    simp

/-- A chain of segments is read prefix by prefix. -/
theorem pathsAlong_eq_dottedPrefixes {segments : List (List Char)}
    (h : ∀ segment ∈ segments, segment ≠ []) :
    pathsAlong segments = dottedPrefixes segments :=
  pathsFrom_joinWith h (.inl rfl)

theorem ne_nil_of_isIdentifier {text : List Char} (h : isIdentifier text = true) : text ≠ [] := by
  rintro rfl
  contradiction

/-- Accessors add no empty segment. -/
theorem ne_nil_of_mem_segmentsAdded {selected : Bool} {accessors : List Accessor}
    {segment : List Char} (h : segment ∈ segmentsAdded selected accessors) : segment ≠ [] := by
  fun_induction segmentsAdded selected accessors with
  | case1 => simp at h
  | case2 selected safe name rest ih =>
    rcases List.mem_cons.1 h with rfl | h
    · exact ne_nil_of_isIdentifier name.identifier
    · exact ih h
  | case3 selected safe name arguments rest _ ih => exact ih h
  | case4 selected safe name arguments rest _ ih =>
    rcases List.mem_cons.1 h with rfl | h
    · exact ne_nil_of_isIdentifier name.identifier
    · exact ih h
  | case5 selected quote key rest ih =>
    rcases List.mem_cons.1 h with rfl | h
    · exact ne_nil_of_isIdentifier key.identifier
    · exact ih h
  | case6 selected inner rest ih =>
    rcases List.mem_append.1 h with h | h
    · cases inner with
      | literal literal =>
        simp only [Term.keys] at h
        split at h
        · rename_i hid
          obtain rfl := List.mem_singleton.1 h
          exact ne_nil_of_isIdentifier hid
        · simp at h
      | _ => simp [Term.keys] at h
    · exact ih h
  | case7 selected condition rest ih => exact ih h
  | case8 selected body rest ih => exact ih h

/-! ## Accessors -/

theorem unquote_quoted (quote : Quote) (key : List Char) :
    unquote (quote.char :: key ++ [quote.char]) = key := by
  have hb : isBlank quote.char = false := by cases quote <;> decide
  have hq : isQuote quote.char = true := by cases quote <;> decide
  have left : trimLeft (quote.char :: key ++ [quote.char]) = quote.char :: key ++ [quote.char] := by
    rw [trimLeft, List.cons_append, List.dropWhile_cons_of_neg (by simp [hb])]
  have right : trimRight (quote.char :: key ++ [quote.char]) =
      quote.char :: key ++ [quote.char] := by
    rw [trimRight, List.reverse_append, List.reverse_singleton, List.singleton_append,
      List.dropWhile_cons_of_neg (by simp [hb]), ← List.singleton_append, List.reverse_append,
      List.reverse_reverse, List.reverse_singleton]
  have quoted : isQuoted (quote.char :: key ++ [quote.char]) = true := by
    cases key with
    | nil => simp [isQuoted, hq]
    | cons c rest =>
      rw [List.cons_append, List.cons_append, isQuoted, ← List.cons_append, List.getLast?_concat]
      simp [hq]
  unfold unquote
  rw [trim, left, right]
  simp only [quoted, if_true]
  rw [List.cons_append, List.tail_cons, List.dropLast_concat]

/-- Do the accesses of a chain say what its accessors say: the same segments,
    and the same paths in the brackets? -/
structure ReadsAs (source : List Char) (body : Body) (stop : Nat) (accessors : List Accessor)
    (accesses : List Access) : Prop where
  segments : ∀ selected, segmentsOf selected accesses = segmentsAdded selected accessors
  nested : ∀ reads : Bool,
    ((accesses.filterMap (nestedIn reads)).map (·.clip stop)).flatMap
      (fun range => found source body range.start range.stop) =
      (accessorReads accessors).map (Match.mk source)

theorem readsAs_nil (source : List Char) (body : Body) (stop : Nat) :
    ReadsAs source body stop [] [] :=
  ⟨fun _ => rfl, fun _ => rfl⟩

/-- One accessor more: an access with a body in which the right paths are
    found, whether or not the chain itself reads anything. -/
theorem ReadsAs.cons {accessor : Accessor} {access : Access} {accessors : List Accessor}
    {accesses : List Access} (h : ReadsAs source body stop accessors accesses)
    (hs : ∀ selected, segmentsOf selected (access :: accesses) =
      segmentsAdded selected (accessor :: accessors))
    (hn : ∀ reads : Bool, ((nestedIn reads access).toList.map (·.clip stop)).flatMap
      (fun range => found source body range.start range.stop) =
      accessor.reads.map (Match.mk source)) :
    ReadsAs source body stop (accessor :: accessors) (access :: accesses) := by
  refine ⟨hs, fun reads => ?_⟩
  have split : ((access :: accesses).filterMap (nestedIn reads)) =
      (nestedIn reads access).toList ++ accesses.filterMap (nestedIn reads) := by
    cases ha : nestedIn reads access with
    | none => rw [List.filterMap_cons_none ha]; rfl
    | some range => rw [List.filterMap_cons_some ha]; rfl
  rw [split, List.map_append, List.flatMap_append, hn reads, h.nested reads, accessorReads,
    List.map_append]

/-- No parenthesis stands where accessors do. -/
theorem opensWith_accessors (accessors : List Accessor)
    (h : Stands body index (accessorPieces accessors))
    (hn : accessAt? body (index + (accessorPieces accessors).length) stop = none) :
    body.opensWith index stop '(' = false := by
  cases accessors with
  | nil => exact opensWith_eq_false hn
  | cons accessor rest =>
    have hp := (stands_append h).1
    cases accessor with
    | member safe name => simp [opensWith_of_stands (stands_cons hp).1]; cases safe <;> simp
    | call safe name arguments =>
      simp [opensWith_of_stands (stands_cons hp).1]; cases safe <;> simp
    | index inner => simp [opensWith_of_stands (stands_cons hp).1]
    | item quote key => simp [opensWith_of_stands (stands_cons hp).1]
    | selection condition => simp [opensWith_of_stands (stands_cons hp).1]
    | projection inner => simp [opensWith_of_stands (stands_cons hp).1]

/-- A member that is not called. -/
theorem accessAt?_member (safe : Bool) (name : Name)
    (h : Stands body index (Accessor.member safe name).pieces) (hstop : index + 2 ≤ stop)
    (ho : body.opensWith (index + 2) stop '(' = false) :
    accessAt? body index stop = some (.member name.text, index + 2) := by
  have first := (stands_cons h).1
  have second := (stands_cons h).2
  have h₁ : index < stop := by omega
  have h₂ : index + 1 < stop := by omega
  unfold accessAt?
  rw [hasKind_of_stands first, hasKind_of_stands first, hasKind_of_stands second, ho,
    textAt_of_stands second]
  cases safe <;> simp [h₁, h₂]

/-- A member that is called. -/
theorem accessAt?_call (safe : Bool) (name : Name) (arguments : List Term)
    (h : Stands body index (Accessor.call safe name arguments).pieces)
    (hstop : index + (Accessor.call safe name arguments).pieces.length ≤ stop) :
    accessAt? body index stop =
      some (.call name.text ⟨index + 3, index + 3 + (argumentPieces arguments).length⟩,
        index + (Accessor.call safe name arguments).pieces.length) := by
  have first := (stands_cons h).1
  have second := (stands_cons (stands_cons h).2).1
  have third := (stands_cons (stands_cons h).2).2
  have opener := (stands_cons third).1
  have hp := partner_of_stands rfl (balanced_arguments arguments) third
  have hlen : (Accessor.call safe name arguments).pieces.length =
      (argumentPieces arguments).length + 4 := by
    simp [Accessor.pieces, inBrackets]
  rw [hlen] at hstop ⊢
  have h₁ : index < stop := by omega
  have h₂ : index + 1 < stop := by omega
  have h₃ : index + 2 < stop := by omega
  unfold accessAt?
  rw [hasKind_of_stands first, hasKind_of_stands first, hasKind_of_stands second,
    opensWith_of_stands opener, textAt_of_stands second, bracketBody, hp]
  cases safe <;> simp [h₁, h₂, h₃] <;> omega

/-- A selection or projection. -/
theorem accessAt?_filter {sign : List Char} {inner : List Piece} (hb : Balanced inner)
    (h : Stands body index ((.filter, sign) :: inBrackets '[' inner ']'))
    (hstop : index + (inner.length + 3) ≤ stop) :
    accessAt? body index stop =
      some (.selection ⟨index + 2, index + 2 + inner.length⟩, index + (inner.length + 3)) := by
  have first := (stands_cons h).1
  have second := (stands_cons h).2
  have opener := (stands_cons second).1
  have hp := partner_of_stands rfl hb second
  have h₁ : index < stop := by omega
  have h₂ : index + 1 < stop := by omega
  unfold accessAt?
  rw [hasKind_of_stands first, hasKind_of_stands first, hasKind_of_stands first,
    opensWith_of_stands opener, opensWith_of_stands opener]
  simp only [bracketBody, hp]
  simp [h₁, h₂]
  omega

/-- An index or a key between square brackets: a key is one string alone. -/
theorem accessAt?_square {inner : List Piece} (hb : Balanced inner)
    (h : Stands body index (inBrackets '[' inner ']')) (hstop : index + (inner.length + 2) ≤ stop) :
    accessAt? body index stop =
      some (if inner.length = 1 && body.hasKind (index + 1) (index + 1 + inner.length) .string &&
          isIdentifier (unquote (body.textAt (index + 1)))
        then .item (unquote (body.textAt (index + 1))) ⟨index + 1, index + 1 + inner.length⟩
        else .index ⟨index + 1, index + 1 + inner.length⟩, index + (inner.length + 2)) := by
  have opener := (stands_cons h).1
  have hp := partner_of_stands rfl hb h
  have h₁ : index < stop := by omega
  unfold accessAt?
  rw [hasKind_of_stands opener, hasKind_of_stands opener, hasKind_of_stands opener,
    opensWith_of_stands opener, opensWith_of_stands opener]
  simp only [bracketBody, hp]
  simp [h₁]
  split
  · simp_all
  · simp_all
    omega

/-- An expression alone between square brackets is a key when it is a literal
    that is an identifier. -/
theorem keys_of_stands {inner : Term} (h : Stands body index inner.pieces) :
    inner.keys =
      if inner.pieces.length = 1 && body.hasKind index (index + inner.pieces.length) .string &&
          isIdentifier (unquote (body.textAt index))
        then [unquote (body.textAt index)] else [] := by
  cases inner with
  | number number => simp [Term.keys, Term.pieces, hasKind_of_stands h]
  | literal literal =>
    have ht : unquote (body.textAt index) = literal.content := by
      rw [textAt_of_stands h]
      exact unquote_quoted literal.quote literal.content
    simp [Term.keys, Term.pieces, hasKind_of_stands h, ht]
  | group inner => simp [Term.keys, Term.pieces, inBrackets]
  | binary left operator right =>
    have := List.length_pos_iff.2 left.pieces_ne_nil
    have hne : left.pieces.length + (right.pieces.length + 1) ≠ 1 := by omega
    simp [Term.keys, Term.pieces, hne]
  | choice condition yes no =>
    have := List.length_pos_iff.2 condition.pieces_ne_nil
    have hne : condition.pieces.length + (yes.pieces.length + (no.pieces.length + 1) + 1) ≠ 1 := by
      omega
    simp [Term.keys, Term.pieces, hne]
  | fallback first other =>
    have := List.length_pos_iff.2 first.pieces_ne_nil
    have hne : first.pieces.length + (other.pieces.length + 1) ≠ 1 := by omega
    simp [Term.keys, Term.pieces, hne]
  | chain name accessors => simp [Term.keys, Term.pieces, hasKind_of_stands (stands_cons h).1]
  | utility object accessors =>
    simp [Term.keys, Term.pieces, hasKind_of_stands (stands_cons h).1]

/-- A key reads nothing by itself. -/
theorem reads_of_keys {inner : Term} (h : inner.keys ≠ []) : inner.reads = [] := by
  cases inner <;> simp_all [Term.keys, Term.reads]

/-! ## Expressions -/

/-- Does a walk that starts here come to the index without finding anything? It
    stands there already, or at a word operator right before. -/
def Leads (body : Body) (start index : Nat) : Prop :=
  start = index ∨ (start + 1 = index ∧
    ∃ operator : Operator, operator.isWord = true ∧ Stands body start [operator.piece])

theorem Leads.here (body : Body) (index : Nat) : Leads body index index :=
  .inl rfl

/-- Where nothing can be accessed, a word operator before is passed over. -/
theorem found_leads {start : Nat} (h : Leads body start index)
    (hn : accessAt? body index stop = none) :
    found source body start stop = found source body index stop := by
  obtain rfl | ⟨rfl, operator, hw, hs⟩ := h
  · rfl
  · exact found_operator hw hs hn

/-- From an operator the walk comes to the operand behind it. -/
theorem found_leads_operator (source : List Char) (stop : Nat) {operator : Operator}
    (h : Stands body index [operator.piece]) :
    ∃ start, Leads body start (index + 1) ∧
      found source body index stop = found source body start stop := by
  cases hw : operator.isWord with
  | true => exact ⟨index, .inr ⟨rfl, operator, hw, h⟩, rfl⟩
  | false =>
    refine ⟨index + 1, .here body _, ?_⟩
    have hp : operator.piece = (.operator, operator.text) := by
      unfold Operator.piece
      rw [hw]
      rfl
    exact found_skip (hp ▸ h) (by decide)

theorem accessAt?_operator {operator : Operator} (h : Stands body index [operator.piece])
    (stop : Nat) : accessAt? body index stop = none := by
  have hp : Stands body index [(operator.piece.1, operator.text)] := h
  refine accessAt?_eq_none hp ?_ stop
  cases operator <;> rfl

/-- Does the walk over these tokens find these paths? Wherever they stand with
    nothing accessed behind them, it finds the paths and goes on behind them. -/
def Yields (source : List Char) (body : Body) (pieces : List Piece) (paths : List (List Char)) :
    Prop :=
  ∀ start index stop, Leads body start index → Stands body index pieces →
    index + pieces.length ≤ stop → accessAt? body (index + pieces.length) stop = none →
    found source body start stop =
      paths.map (Match.mk source) ++ found source body (index + pieces.length) stop

/-- Is this a token between two expressions? Nothing is accessed at it, and from
    it the walk comes to the token behind it. -/
def Separates (source : List Char) (body : Body) (piece : Piece) : Prop :=
  ∀ index stop, Stands body index [piece] → accessAt? body index stop = none ∧
    ∃ start, Leads body start (index + 1) ∧
      found source body index stop = found source body start stop

theorem separates_token (source : List Char) (body : Body) {kind : TokenKind} (text : List Char)
    (hk : kind ∉ [.nested, .identifier, .utility, .bean]) (ha : startsAccess kind = false) :
    Separates source body (kind, text) :=
  fun index stop h => ⟨accessAt?_eq_none h ha stop, index + 1, .here body _, found_skip h hk⟩

theorem separates_operator (source : List Char) (body : Body) (operator : Operator) :
    Separates source body operator.piece :=
  fun _ stop h => ⟨accessAt?_operator h stop, found_leads_operator source stop h⟩

section yields

variable {before after inner : List Piece} {piece : Piece} {paths others : List (List Char)}

/-- In a window of their own the tokens give the paths and nothing else. -/
theorem Yields.alone (h : Yields source body inner paths) (hs : Stands body index inner) :
    found source body index (index + inner.length) = paths.map (Match.mk source) := by
  rw [h index index _ (.here body _) hs (Nat.le_refl _)
      (accessAt?_eq_none_of_le body (Nat.le_refl _)),
    found_stop (Nat.le_refl _), List.append_nil]

theorem Yields.nil (source : List Char) (body : Body) : Yields source body [] [] :=
  fun _ _ _ hl _ _ hn => found_leads hl hn

/-- Tokens with others behind them, at which nothing is accessed. -/
theorem Yields.append (h : Yields source body before paths) (h' : Yields source body after others)
    (ha : ∀ index stop, Stands body index after →
      accessAt? body (index + after.length) stop = none → accessAt? body index stop = none) :
    Yields source body (before ++ after) (paths ++ others) := by
  intro start index stop hl hs hstop hn
  have hbefore := (stands_append hs).1
  have hafter := (stands_append hs).2
  rw [List.length_append, ← Nat.add_assoc] at hstop hn ⊢
  rw [h start index stop hl hbefore (by omega) (ha _ stop hafter hn),
    h' _ _ stop (.here body _) hafter hstop hn, List.map_append, List.append_assoc]

/-- A separator in front gives nothing. -/
theorem Yields.behind (hp : Separates source body piece) (h : Yields source body after paths) :
    Yields source body (piece :: after) paths := by
  intro start index stop hl hs hstop hn
  obtain ⟨hnone, start', hl', hf⟩ := hp index stop (stands_cons hs).1
  rw [List.length_cons, Nat.add_comm after.length 1, ← Nat.add_assoc] at hstop hn ⊢
  rw [found_leads hl hnone, hf, h start' (index + 1) stop hl' (stands_cons hs).2 hstop hn]

/-- Expressions with a separator between them. -/
theorem Yields.joined (h : Yields source body before paths) (hp : Separates source body piece)
    (h' : Yields source body after others) :
    Yields source body (before ++ piece :: after) (paths ++ others) :=
  h.append (h'.behind hp) fun index stop hs _ => (hp index stop (stands_cons hs).1).1

/-- A group. Behind a word operator it is taken for the arguments, which gives
    the same paths. -/
theorem Yields.group (hb : Balanced inner) (h : Yields source body inner paths) :
    Yields source body (inBrackets '(' inner ')') paths := by
  intro start index stop hl hs hstop hn
  have hinner := (stands_append (stands_cons hs).2).1
  have hclose := (stands_append (stands_cons hs).2).2
  have hlen : (inBrackets '(' inner ')').length = inner.length + 2 := by simp [inBrackets]
  obtain rfl | ⟨rfl, operator, hw, ho⟩ := hl
  · have hend : start + (inner.length + 2) = start + 1 + inner.length + 1 := by omega
    rw [hlen, hend] at hstop hn ⊢
    rw [found_skip (stands_cons hs).1 (by decide),
      h _ (start + 1) stop (.here body _) hinner (by omega) (accessAt?_eq_none hclose rfl stop),
      found_skip hclose (by decide)]
  · rw [found_operator_group hw ho hb hs hstop hn, h.alone hinner]

/-- Nothing is accessed where further arguments stand. -/
theorem accessAt?_moreArguments {arguments : List Term} (stop : Nat)
    (hs : Stands body index (moreArgumentPieces arguments))
    (hn : accessAt? body (index + (moreArgumentPieces arguments).length) stop = none) :
    accessAt? body index stop = none := by
  cases arguments with
  | nil => exact hn
  | cons argument rest => exact accessAt?_eq_none (stands_cons hs).1 rfl stop

end yields

/-! ## Accessors in an expression -/

theorem clip_of_le (start : Nat) (h : index ≤ stop) :
    Range.clip ⟨start, index⟩ stop = ⟨start, index⟩ := by
  rw [Range.clip, Nat.min_eq_left h]

section accessors

variable {accessor : Accessor} {access : Access} {accessors : List Accessor}
  {accesses : List Access} {range : Range} {key : List Char}

/-- One accessor more, with paths nested in its brackets. -/
theorem ReadsAs.cons_nested (h : ReadsAs source body stop accessors accesses)
    (hs : ∀ selected, segmentsOf selected (access :: accesses) =
      segmentsAdded selected (accessor :: accessors))
    (hn : ∀ reads, nestedIn reads access = some range) (hle : range.stop ≤ stop)
    (hf : found source body range.start range.stop = accessor.reads.map (Match.mk source)) :
    ReadsAs source body stop (accessor :: accessors) (access :: accesses) := by
  refine h.cons hs fun reads => ?_
  simp [hn reads, clip_of_le range.start hle, hf]

/-- One accessor more that is a key of the path, with nothing to read in it. -/
theorem ReadsAs.cons_key (h : ReadsAs source body stop accessors accesses)
    (hs : ∀ selected, segmentsAdded selected (accessor :: accessors) =
      key :: segmentsAdded selected accessors)
    (hr : accessor.reads = []) (hle : range.stop ≤ stop)
    (hf : found source body range.start range.stop = []) :
    ReadsAs source body stop (accessor :: accessors) (.item key range :: accesses) := by
  refine h.cons (fun selected => ?_) fun reads => ?_
  · rw [segmentsOf, hs selected, h.segments]
  · cases reads <;> simp [nestedIn, clip_of_le range.start hle, hf, hr]

/-- Is this accessor one access, which says what the accessor says? A member
    that is not called has no parenthesis behind it. -/
def IsAccess (source : List Char) (body : Body) (accessor : Accessor) : Prop :=
  ∀ index stop, Stands body index accessor.pieces → index + accessor.pieces.length ≤ stop →
    body.opensWith (index + accessor.pieces.length) stop '(' = false →
    ∃ access, accessAt? body index stop = some (access, index + accessor.pieces.length) ∧
      ∀ accessors accesses, ReadsAs source body stop accessors accesses →
        ReadsAs source body stop (accessor :: accessors) (access :: accesses)

theorem isAccess_member (source : List Char) (body : Body) (safe : Bool) (name : Name) :
    IsAccess source body (.member safe name) := by
  intro index stop hs hstop ho
  refine ⟨_, accessAt?_member safe name hs hstop ho, fun accessors accesses h => ?_⟩
  refine h.cons (fun selected => ?_) fun _ => rfl
  rw [segmentsOf, segmentsAdded, h.segments]

theorem isAccess_call (safe : Bool) (name : Name) {arguments : List Term}
    (harguments : Yields source body (argumentPieces arguments) (argumentReads arguments)) :
    IsAccess source body (.call safe name arguments) := by
  intro index stop hs hstop _
  have hinner := (stands_append (stands_cons (stands_cons (stands_cons hs).2).2).2).1
  refine ⟨_, accessAt?_call safe name arguments hs hstop, fun accessors accesses h => ?_⟩
  have hlen : (Accessor.call safe name arguments).pieces.length =
      (argumentPieces arguments).length + 4 := by
    simp [Accessor.pieces, inBrackets]
  -- The call has arguments if there are tokens between the parentheses.
  have empty : (index + 3 + (argumentPieces arguments).length == index + 3) =
      arguments.isEmpty := by
    rw [Bool.eq_iff_iff, beq_iff_eq, List.isEmpty_iff, ← argumentPieces_eq_nil_iff,
      ← List.length_eq_zero_iff]
    omega
  refine h.cons_nested (fun selected => ?_) (fun _ => rfl) (show index + 3 + _ ≤ stop by omega)
    (harguments.alone hinner)
  rw [segmentsOf, segmentsAdded, empty, h.segments]

/-- An index is a segment of the path if it is a literal with a key, and
    is read on its own otherwise. -/
theorem isAccess_index {inner : Term} (hinner : Yields source body inner.pieces inner.reads) :
    IsAccess source body (.index inner) := by
  intro index stop hs hstop _
  have hlen : (Accessor.index inner).pieces.length = inner.pieces.length + 2 := by
    simp [Accessor.pieces, inBrackets]
  rw [hlen] at hstop ⊢
  have hstands := (stands_append (stands_cons hs).2).1
  have hf := hinner.alone hstands
  have hle : index + 1 + inner.pieces.length ≤ stop := by omega
  have hkeys := keys_of_stands hstands
  refine ⟨_, accessAt?_square inner.balanced hs hstop, fun accessors accesses h => ?_⟩
  split at hkeys
  · rename_i hkey
    have hnone : inner.reads = [] := reads_of_keys (by simp [hkeys])
    rw [if_pos hkey]
    refine h.cons_key (fun selected => ?_) hnone hle (by rw [hf, hnone]; rfl)
    rw [segmentsAdded, hkeys, List.singleton_append]
  · rename_i hkey
    rw [if_neg hkey]
    refine h.cons_nested (fun selected => ?_) (fun _ => rfl) hle hf
    rw [segmentsOf, segmentsAdded, hkeys, h.segments, List.nil_append]

theorem isAccess_item (source : List Char) (body : Body) (quote : Quote) (key : Name) :
    IsAccess source body (.item quote key) := by
  intro index stop hs hstop _
  have hstring := (stands_cons (stands_cons hs).2).1
  have hkey : unquote (body.textAt (index + 1)) = key.text := by
    rw [textAt_of_stands hstring]
    exact unquote_quoted quote key.text
  have hle : index + 1 + 1 ≤ stop := by
    simp only [Accessor.pieces, inBrackets, List.length_append, List.length_cons] at hstop
    omega
  have hf : found source body (index + 1) (index + 1 + 1) = [] := by
    rw [found_skip hstring (by decide), found_stop (Nat.le_refl _)]
  have haccess := accessAt?_square (.piece (by decide) (by decide)) hs hstop
  refine ⟨_, haccess, fun accessors accesses h => ?_⟩
  simp only [hasKind_of_stands hstring, hkey, key.identifier]
  simpa [hle] using h.cons_key (fun _ => rfl) rfl hle hf

/-- A selection or a projection. -/
theorem isAccess_filter {sign : List Char} {inner : Term}
    (hpieces : accessor.pieces = (.filter, sign) :: inBrackets '[' inner.pieces ']')
    (hreads : accessor.reads = inner.reads)
    (hadded : ∀ selected accessors,
      segmentsAdded selected (accessor :: accessors) = segmentsAdded true accessors)
    (hinner : Yields source body inner.pieces inner.reads) : IsAccess source body accessor := by
  intro index stop hs hstop _
  have hlen : accessor.pieces.length = inner.pieces.length + 3 := by simp [hpieces, inBrackets]
  rw [hpieces] at hs
  rw [hlen] at hstop ⊢
  have hstands := (stands_append (stands_cons (stands_cons hs).2).2).1
  refine ⟨_, accessAt?_filter inner.balanced hs hstop, fun accessors accesses h => ?_⟩
  refine h.cons_nested (fun selected => ?_) (fun _ => rfl) (show index + 2 + _ ≤ stop by omega)
    (hreads ▸ hinner.alone hstands)
  rw [segmentsOf, hadded, h.segments]

/-- Are these accessors the accesses of a chain? -/
def AreAccesses (source : List Char) (body : Body) (accessors : List Accessor) : Prop :=
  ∀ index stop, Stands body index (accessorPieces accessors) →
    index + (accessorPieces accessors).length ≤ stop →
    accessAt? body (index + (accessorPieces accessors).length) stop = none →
    ∃ accesses, accessesFrom body stop index =
        (accesses, index + (accessorPieces accessors).length) ∧
      ReadsAs source body stop accessors accesses

theorem AreAccesses.nil (source : List Char) (body : Body) : AreAccesses source body [] :=
  fun _ stop _ _ hn => ⟨[], accessesFrom_none hn, readsAs_nil source body stop⟩

theorem AreAccesses.cons (h : IsAccess source body accessor)
    (h' : AreAccesses source body accessors) : AreAccesses source body (accessor :: accessors) := by
  intro index stop hs hstop hn
  have hrest := (stands_append hs).2
  simp only [accessorPieces, List.length_append] at hstop hn ⊢
  rw [← Nat.add_assoc] at hstop hn ⊢
  obtain ⟨accesses, ha, hr⟩ := h' _ stop hrest hstop hn
  obtain ⟨access, ha', hr'⟩ := h index stop (stands_append hs).1 (by omega)
    (opensWith_accessors accessors hrest hn)
  have hpos : index < index + accessor.pieces.length := (accessAt?_bounds ha').1
  refine ⟨access :: accesses, ?_, hr' accessors accesses hr⟩
  rw [accessesFrom_some (by omega) ha', ha]

/-- A name with accessors: the prefixes of the path that its head starts, if it
    starts one, and then what is nested in the accessors. -/
theorem Yields.name {kind : TokenKind} {text : List Char} {segment : Option (List Char)}
    (hk : kind = .identifier ∨ kind = .utility)
    (hhead : ∀ index stop (t : Token), t.kind = kind → t.text = text →
      body.opensWith (index + 1) stop '(' = false →
      headAt body index stop t = ⟨segment, false, index + 1⟩)
    (hne : ∀ name ∈ segment, name ≠ []) (h : AreAccesses source body accessors) :
    Yields source body ((kind, text) :: accessorPieces accessors)
      (segment.elim [] (fun name => dottedPrefixes (name :: segmentsAdded false accessors)) ++
        accessorReads accessors) := by
  intro start index stop hl hs hstop hn
  obtain ⟨hname, haccessors⟩ := stands_cons hs
  have ha : startsAccess kind = false := by rcases hk with rfl | rfl <;> rfl
  obtain ⟨t, ht, rfl, rfl⟩ := token_of_stands hname
  rw [List.length_cons, Nat.add_comm _ 1, ← Nat.add_assoc] at hstop hn ⊢
  obtain ⟨accesses, heq, hr⟩ := h (index + 1) stop haccessors hstop hn
  have hhead' := hhead index stop t rfl rfl (opensWith_accessors accessors haccessors hn)
  rw [found_leads hl (accessAt?_eq_none hname ha stop), found_chain (by omega) ht hk]
  simp only [chainAt, hhead', heq, hr.nested, Chain.paths, hr.segments, List.map_append]
  cases segment with
  | none => rfl
  | some name =>
    simp only [Option.elim]
    rw [← pathsAlong_eq_dottedPrefixes (by
      intro segment hm
      rcases List.mem_cons.1 hm with rfl | hm
      · exact hne _ rfl
      · exact ne_nil_of_mem_segmentsAdded hm)]
    rfl

end accessors

/-! ## The induction -/

mutual

/-- **The walk over an expression** finds its paths and goes on behind it, if
    nothing is accessed there. -/
theorem found_term (source : List Char) (body : Body) :
    ∀ term : Term, Yields source body term.pieces term.reads
  | .number number =>
    .behind (separates_token source body _ (by decide) rfl) (.nil source body)
  | .literal literal =>
    .behind (separates_token source body _ (by decide) rfl) (.nil source body)
  | .group inner => .group inner.balanced (found_term source body inner)
  | .binary left operator right =>
    .joined (found_term source body left) (separates_operator source body operator)
      (found_term source body right)
  | .choice condition yes no =>
    have separates (text : List Char) : Separates source body (.operator, text) :=
      separates_token source body text (by decide) rfl
    .joined (.joined (found_term source body condition) (separates _)
      (found_term source body yes)) (separates _) (found_term source body no)
  | .fallback first other =>
    .joined (found_term source body first) (separates_token source body _ (by decide) rfl)
      (found_term source body other)
  | .chain name accessors =>
    .name (.inl rfl) (fun _ _ _ hk ht ho => headAt_variable name hk ht ho)
      (fun _ hm => Option.mem_some.1 hm ▸ ne_nil_of_isIdentifier name.identifier)
      (found_accessors source body accessors)
  | .utility object accessors =>
    .name (.inr rfl) (fun _ _ _ hk ht _ => headAt_utility object hk ht) (fun _ hm => nomatch hm)
      (found_accessors source body accessors)

/-- An accessor is one access, which says what the accessor says. -/
theorem found_accessor (source : List Char) (body : Body) :
    ∀ accessor : Accessor, IsAccess source body accessor
  | .member safe name => isAccess_member source body safe name
  | .call safe name arguments => isAccess_call safe name (found_arguments source body arguments)
  | .index inner => isAccess_index (found_term source body inner)
  | .item quote key => isAccess_item source body quote key
  | .selection condition =>
    isAccess_filter rfl rfl (fun _ _ => rfl) (found_term source body condition)
  | .projection inner => isAccess_filter rfl rfl (fun _ _ => rfl) (found_term source body inner)

/-- Accessors in a row are the accesses of a chain. -/
theorem found_accessors (source : List Char) (body : Body) :
    ∀ accessors : List Accessor, AreAccesses source body accessors
  | [] => .nil source body
  | accessor :: rest =>
    .cons (found_accessor source body accessor) (found_accessors source body rest)

/-- The walk over arguments finds their paths. -/
theorem found_arguments (source : List Char) (body : Body) :
    ∀ arguments : List Term,
      Yields source body (argumentPieces arguments) (argumentReads arguments)
  | [] => .nil source body
  | argument :: rest =>
    .append (found_term source body argument) (found_moreArguments source body rest)
      fun _ stop hs hn => accessAt?_moreArguments stop hs hn

theorem found_moreArguments (source : List Char) (body : Body) :
    ∀ arguments : List Term,
      Yields source body (moreArgumentPieces arguments) (argumentReads arguments)
  | [] => .nil source body
  | argument :: rest =>
    .behind (separates_token source body _ (by decide) rfl)
      (.append (found_term source body argument) (found_moreArguments source body rest)
        fun _ stop hs hn => accessAt?_moreArguments stop hs hn)

end

end TemplateAnalysis.Variable
