import TemplateAnalysis.Variable.Chain

/-! # The walk over an expression body

    A body is walked from left to right. Every chain and every nested
    expression is visited where it starts; behind the visit of a chain come
    the visits of what is nested in it. The walk ends because the stretches
    that are left to walk get shorter with every visit.
-/

namespace TemplateAnalysis.Variable

open Text Expression

/-- One stop of the walk, at the index of its first token. -/
inductive Visit
  | chain (index : Nat) (chain : Chain)
  | nested (index : Nat) (text : List Char)
  deriving DecidableEq, Repr

/-- The index of the token at which a visit starts. -/
def Visit.index : Visit → Nat
  | .chain index _ | .nested index _ => index

/-- The visits of the stretch of tokens from `index` up to `stop`. -/
def walk (body : Body) (index stop : Nat) : List Visit :=
  if index < stop then
    match body.tokens[index]? with
    | none => []
    | some t =>
      match t.kind with
      | .nested => .nested index t.text :: walk body (index + 1) stop
      | .identifier | .utility | .bean =>
        -- The chain first, then what is nested in it, then what follows it.
        .chain index (chainAt body index stop t) ::
          ((chainAt body index stop t).nested.attach.flatMap fun range =>
            walk body range.1.start range.1.stop) ++
          walk body (chainAt body index stop t).next stop
      | _ => walk body (index + 1) stop
  else []
termination_by stop - index
decreasing_by
  all_goals try omega
  · have := chainAt_nested_bounds range.2
    omega
  · have := lt_chainAt_next body index stop t
    omega

/-- The visits of a whole body. -/
def visits (text : List Char) : List Visit :=
  let body := Body.ofText text
  walk body 0 body.tokens.length

/-- The visits at a name: its own, those nested in it, and those behind it. -/
theorem mem_chain {body : Body} {index : Nat} {visit : Visit} {chain : Chain}
    {rest : List Visit} :
    visit ∈ .chain index chain :: (chain.nested.attach.flatMap fun range =>
        walk body range.1.start range.1.stop) ++ rest ↔
      visit = .chain index chain ∨
        (∃ range ∈ chain.nested, visit ∈ walk body range.start range.stop) ∨ visit ∈ rest := by
  simp

/-- A nested expression that is visited is the token at its index. -/
theorem token_of_nested_mem_walk {body : Body} {index stop i : Nat} {text : List Char}
    (h : .nested i text ∈ walk body index stop) :
    ∃ t, body.tokens[i]? = some t ∧ t.kind = .nested ∧ t.text = text := by
  fun_induction walk body index stop
  case case1 | case7 => simp at h
  case case2 index stop hlt t ht hkind ih =>
    rcases List.mem_cons.1 h with h | h
    · obtain ⟨rfl, rfl⟩ := Visit.nested.inj h
      exact ⟨t, ht, hkind, rfl⟩
    · exact ih h
  case case3 nested later | case4 nested later | case5 nested later =>
    rcases mem_chain.1 h with h | ⟨range, hrange, h⟩ | h
    · contradiction
    · exact nested ⟨range, hrange⟩ h
    · exact later h
  case case6 ih => exact ih h

theorem length_le_of_mem_visits {text nested : List Char} {i : Nat}
    (h : .nested i nested ∈ visits text) : nested.length ≤ text.length := by
  obtain ⟨t, ht, -, rfl⟩ := token_of_nested_mem_walk h
  exact length_text_le_of_mem_tokenize (List.mem_of_getElem? ht)

end TemplateAnalysis.Variable
