import TemplateAnalysis.Proofs.Expression.Enclosing
import TemplateAnalysis.Proofs.Expression.Words

/-! # The pairing of brackets

    The pairing is a map from the opening brackets of a token sequence to the places
    where they end. The brackets need not fit for that:

    * **`mem_keys_pairBrackets_iff`**: its keys are the opening brackets, each once;
    * **`pairBrackets_nested`**: each ends behind the place where it opens, and two of
      them are apart or one lies in the other. In a balanced sequence each ends at
      the bracket that closes it, which closes no other.

    The closing tokens of a text are brackets, so each of them has one that it closes
    (**`exists_openerText_of_mem_tokenize`**).

    What stands at an opening bracket of a balanced sequence is a balanced stretch in
    brackets (**`exists_inBrackets`**), and so is what stands at a bracket inside of
    that stretch: that one is closed before the stretch ends.
-/

namespace TemplateAnalysis.Expression

variable {tokens : List Token} {pieces : List Piece} {index : Nat}

/-! ## Closing tokens -/

/-- The bracket that a closing token of a text closes is always found. -/
theorem exists_openerText_of_mem_tokenize {text : List Char} {t : Token}
    (h : t ∈ tokenize text) (hk : t.kind = .closing) :
    ∃ closer opener, t.text = [closer] ∧ openerOf? closer = some opener ∧
      openerText t.text = [opener] := by
  obtain ⟨before, rest, -, -, hkind, htext⟩ := exists_lexeme_of_mem_tokenize h
  rw [hk] at hkind
  have hcloser : ∃ closer, t.text = [closer] ∧ isCloser closer = true := by
    cases readBy_lexeme rest with
    | sign read kind =>
      cases rest with
      | nil => contradiction
      | cons c others =>
        unfold signLexeme? at read
        grind
    | _ => simp_all
  obtain ⟨closer, hclose, hcloser⟩ := hcloser
  obtain ⟨opener, hopener⟩ := Option.isSome_iff_exists.1 hcloser
  exact ⟨closer, opener, hclose, hopener, by simp [hclose, openerText, hopener]⟩

/-! ## Keys -/

theorem exists_opening_of_mem_openingsFrom {i : Nat} (h : i ∈ openingsFrom index tokens) :
    ∃ k t, i = index + k ∧ tokens[k]? = some t ∧ t.kind = .opening := by
  induction tokens generalizing index with
  | nil => simp [openingsFrom] at h
  | cons t rest ih =>
    have later : i ∈ openingsFrom (index + 1) rest →
        ∃ k u, i = index + k ∧ (t :: rest)[k]? = some u ∧ u.kind = .opening := by
      intro hrest
      obtain ⟨k, u, rfl, hu, hkind⟩ := ih hrest
      exact ⟨k + 1, u, by omega, hu, hkind⟩
    unfold openingsFrom at h
    split at h
    · rename_i hkind
      rcases List.mem_cons.1 h with rfl | h
      · exact ⟨0, t, rfl, rfl, hkind⟩
      · exact later h
    · exact later h

/-- The opening brackets are those that have a partner. -/
theorem mem_keys_pairBrackets_iff : index ∈ (pairBrackets tokens).map Prod.fst ↔
    ∃ t, tokens[index]? = some t ∧ t.kind = .opening := by
  have hkeys : index ∈ (pairBrackets tokens).map Prod.fst ↔ index ∈ openingsFrom 0 tokens :=
    (pairsFrom_keys_perm 0 [] tokens).mem_iff
  rw [hkeys]
  constructor
  · intro h
    obtain ⟨k, t, rfl, ht, hkind⟩ := exists_opening_of_mem_openingsFrom h
    exact ⟨t, by rwa [Nat.zero_add], hkind⟩
  · intro ⟨t, ht, hkind⟩
    have hmem := @mem_openingsFrom 0 index tokens t ht hkind
    rwa [Nat.zero_add] at hmem

theorem opening_of_mem_pairBrackets {pair : Nat × Nat} (h : pair ∈ pairBrackets tokens) :
    ∃ t, tokens[pair.1]? = some t ∧ t.kind = .opening :=
  mem_keys_pairBrackets_iff.1 (List.mem_map_of_mem h)

/-- A bracket does not open where another one ends. -/
theorem ne_of_mem_pairBrackets {pair other : Nat × Nat} (hpair : pair ∈ pairBrackets tokens)
    (hother : other ∈ pairBrackets tokens) : pair.2 ≠ other.1 := by
  intro heq
  obtain ⟨t, ht, hopening⟩ := opening_of_mem_pairBrackets hother
  rcases ends_of_mem_pairBrackets hpair with hend | ⟨u, hu, hclosing⟩
  · have hlt := (List.getElem?_eq_some_iff.1 ht).1
    omega
  · rw [heq, ht] at hu
    rw [← Option.some.inj hu, hopening] at hclosing
    contradiction

/-! ## Balanced sequences -/

/-- A bracket opens at the first index, what follows is balanced, and the bracket of
    its kind that closes it stands at the second. -/
def Matched (pieces : List Piece) (pair : Nat × Nat) : Prop :=
  ∃ opener closer inner, closerOf? opener = some closer ∧ Balanced inner ∧
    inBrackets opener inner closer <+: pieces.drop pair.1 ∧ pair.2 = pair.1 + 1 + inner.length

/-- **At an opening bracket** of a balanced sequence stands a balanced stretch in
    brackets. -/
theorem exists_inBrackets (h : Balanced pieces) {text : List Char}
    (hopens : pieces[index]? = some (.opening, text)) :
    ∃ opener closer inner, closerOf? opener = some closer ∧ Balanced inner ∧
      inBrackets opener inner closer <+: pieces.drop index := by
  induction h generalizing index with
  | nil => simp at hopens
  | piece hopening _ =>
    cases index with
    | zero =>
      obtain ⟨rfl, -⟩ := Prod.mk.inj (Option.some.inj hopens)
      contradiction
    | succ index => simp at hopens
  | @append before after _ _ ihBefore ihAfter =>
    by_cases hlt : index < before.length
    · rw [List.getElem?_append_left hlt] at hopens
      obtain ⟨opener, closer, inner, hfit, hinner, hfront⟩ := ihBefore hopens
      refine ⟨opener, closer, inner, hfit, hinner, hfront.trans ?_⟩
      rw [List.drop_append_of_le_length (Nat.le_of_lt hlt)]
      exact List.prefix_append _ _
    · obtain ⟨k, rfl⟩ := Nat.exists_eq_add_of_le (Nat.le_of_not_lt hlt)
      rw [List.getElem?_append_right (Nat.le_add_right _ _), Nat.add_sub_cancel_left] at hopens
      rw [List.drop_append, Nat.add_sub_cancel_left, List.drop_eq_nil_of_le (Nat.le_add_right _ _)]
      exact ihAfter hopens
  | @inBrackets opener closer inner hfit hinner ih =>
    cases index with
    | zero => exact ⟨opener, closer, inner, hfit, hinner, List.prefix_rfl⟩
    | succ k =>
      -- Behind the opening bracket comes what is between the brackets, then the closing one.
      rw [inBrackets, List.cons_append, List.getElem?_cons_succ] at hopens
      rw [inBrackets, List.cons_append, List.drop_succ_cons]
      by_cases hlt : k < inner.length
      · rw [List.getElem?_append_left hlt] at hopens
        obtain ⟨opener', closer', inner', hfit', hinner', hfront⟩ := ih hopens
        refine ⟨opener', closer', inner', hfit', hinner', hfront.trans ?_⟩
        rw [List.drop_append_of_le_length (Nat.le_of_lt hlt)]
        exact List.prefix_append _ _
      · obtain ⟨j, rfl⟩ := Nat.exists_eq_add_of_le (Nat.le_of_not_lt hlt)
        rw [List.getElem?_append_right (Nat.le_add_right _ _), Nat.add_sub_cancel_left] at hopens
        cases j with
        | zero => simp at hopens
        | succ j => simp at hopens

theorem piece_of_mem_pairBrackets {pair : Nat × Nat} (h : pair ∈ pairBrackets tokens) :
    ∃ text, (tokens.map Token.piece)[pair.1]? = some (.opening, text) := by
  obtain ⟨t, ht, hkind⟩ := opening_of_mem_pairBrackets h
  refine ⟨t.text, ?_⟩
  rw [List.getElem?_map, ht, ← hkind]
  rfl

/-- A body with these tokens. -/
def Body.ofTokens (tokens : List Token) : Body :=
  ⟨tokens, _, rfl⟩

/-- In a balanced sequence a bracket is paired with the one that closes it. -/
theorem matched_of_mem_pairBrackets (h : Balanced (tokens.map Token.piece)) {pair : Nat × Nat}
    (hpair : pair ∈ pairBrackets tokens) : Matched (tokens.map Token.piece) pair := by
  obtain ⟨text, hopens⟩ := piece_of_mem_pairBrackets hpair
  obtain ⟨opener, closer, inner, hfit, hinner, hstands⟩ := exists_inBrackets h hopens
  refine ⟨opener, closer, inner, hfit, hinner, hstands, ?_⟩
  calc pair.2 = (Body.ofTokens tokens).partner pair.1 := (partner_of_mem hpair).symm
    _ = pair.1 + 1 + inner.length := partner_of_stands hfit hinner hstands

/-- A bracket that opens between two that match is closed between them. -/
theorem lt_of_matched {outer inner : Nat × Nat} (houter : Matched (tokens.map Token.piece) outer)
    (hinner : inner ∈ pairBrackets tokens) (hlt : outer.1 < inner.1) (hin : inner.1 < outer.2) :
    inner.2 < outer.2 := by
  obtain ⟨opener, closer, between, -, hbetween, ⟨rest, hstands⟩, hend⟩ := houter
  obtain ⟨text, hopens⟩ := piece_of_mem_pairBrackets hinner
  obtain ⟨k, hk⟩ := Nat.exists_eq_add_of_le (Nat.succ_le_of_lt hlt)
  have hroom : k < between.length := by omega
  -- What stands behind the outer bracket begins with what it encloses.
  have hdrop : (tokens.map Token.piece).drop inner.1 =
      between.drop k ++ ((.closing, [closer]) :: rest) := by
    rw [hk, Nat.succ_add, ← Nat.add_succ, ← List.drop_drop, ← hstands, inBrackets, List.cons_append,
      List.cons_append, List.drop_succ_cons, List.append_assoc,
      List.drop_append_of_le_length (Nat.le_of_lt hroom)]
    rfl
  have hhere : between[k]? = some (.opening, text) := by
    rw [← hopens, ← List.head?_drop, ← List.head?_drop, hdrop,
      List.head?_append_of_ne_nil _ (by simpa using hroom)]
  obtain ⟨opener', closer', inside, hfit, hinside, hfront⟩ := exists_inBrackets hbetween hhere
  have hpartner : inner.2 = inner.1 + 1 + inside.length := calc
    inner.2 = (Body.ofTokens tokens).partner inner.1 := (partner_of_mem hinner).symm
    _ = inner.1 + 1 + inside.length := by
      refine partner_of_stands hfit hinside (hfront.trans ?_)
      show between.drop k <+: (tokens.map Token.piece).drop inner.1
      rw [hdrop]
      exact List.prefix_append _ _
  have hlength := hfront.length_le
  rw [List.length_drop] at hlength
  simp only [inBrackets, List.length_append, List.length_cons, List.length_nil] at hlength
  omega

/-! ## The map -/

/-- **The pairing is properly nested**, whether the brackets fit or not. Its keys are
    the opening brackets, each once. A bracket ends behind the place where it opens, at
    a closing bracket or with the sequence. Of two of them the one that opens later
    opens behind the end of the other, or it ends no later. When the sequence is
    balanced each ends at the bracket that closes it, and no two at the same. -/
theorem pairBrackets_nested (tokens : List Token) :
    ((pairBrackets tokens).map Prod.fst).Nodup ∧
    (∀ index, (∃ partner, (index, partner) ∈ pairBrackets tokens) ↔
      ∃ t, tokens[index]? = some t ∧ t.kind = .opening) ∧
    (∀ pair ∈ pairBrackets tokens, pair.1 < pair.2 ∧ pair.2 ≤ tokens.length ∧
      (pair.2 = tokens.length ∨ ∃ t, tokens[pair.2]? = some t ∧ t.kind = .closing)) ∧
    (∀ pair ∈ pairBrackets tokens, ∀ later ∈ pairBrackets tokens, pair.1 < later.1 →
      pair.2 < later.1 ∨ later.2 ≤ pair.2) ∧
    (Balanced (tokens.map Token.piece) →
      (∀ pair ∈ pairBrackets tokens, Matched (tokens.map Token.piece) pair) ∧
      ∀ pair ∈ pairBrackets tokens, ∀ other ∈ pairBrackets tokens,
        pair.2 = other.2 → pair = other) := by
  have hbehind : ∀ pair ∈ pairBrackets tokens, pair.1 < pair.2 :=
    fun pair hpair => lt_of_mem_pairsFrom (by simp) hpair
  refine ⟨nodup_keys_pairBrackets tokens, ?_, ?_, ?_, ?_⟩
  · intro index
    rw [← mem_keys_pairBrackets_iff]
    simp
  · intro pair hpair
    exact ⟨hbehind pair hpair, le_of_mem_pairBrackets hpair, ends_of_mem_pairBrackets hpair⟩
  · intro pair hpair later hlater hlt
    by_cases hin : later.1 < pair.2
    · exact .inr (le_of_mem_pairsFrom List.Pairwise.nil (by simp) hpair hlater hlt hin)
    · have hne := ne_of_mem_pairBrackets hpair hlater
      exact .inl (by omega)
  · intro hbalanced
    refine ⟨fun pair hpair => matched_of_mem_pairBrackets hbalanced hpair, ?_⟩
    have hapart : ∀ pair ∈ pairBrackets tokens, ∀ other ∈ pairBrackets tokens,
        pair.2 = other.2 → ¬pair.1 < other.1 := by
      intro pair hpair other hother heq hlt
      have hin := hbehind other hother
      have := lt_of_matched (matched_of_mem_pairBrackets hbalanced hpair) hother hlt (by omega)
      omega
    intro pair hpair other hother heq
    have hfirst := hapart pair hpair other hother heq
    have hsecond := hapart other hother pair hpair heq.symm
    exact Prod.ext (by omega) heq

end TemplateAnalysis.Expression
