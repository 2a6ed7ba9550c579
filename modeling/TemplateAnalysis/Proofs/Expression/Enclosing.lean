import TemplateAnalysis.Proofs.Expression.Brackets

/-! # Brackets enclose one another

    The pairing gives every opening bracket an end, whether the brackets of a
    token sequence fit or not:

    * **`Body.partner_ends`**: a bracket ends at a closing bracket, or with the
      sequence when nothing ends it;
    * **`Body.partner_le`**: a bracket that opens inside of another ends no later
      than that one.

    The second holds because the brackets that are open stand in the order in
    which they were opened, and a closing bracket ends those on top.
-/

namespace TemplateAnalysis.Expression

/-! ## Pairs -/

/-- A bracket that ends, ends at a closing token or behind the last one. -/
theorem ends_of_mem_pairsFrom {index : Nat} {opened : List OpenBracket} {tokens : List Token}
    {pair : Nat × Nat} (h : pair ∈ pairsFrom index opened tokens) :
    pair.2 = index + tokens.length ∨
      ∃ k t, pair.2 = index + k ∧ tokens[k]? = some t ∧ t.kind = .closing := by
  induction tokens generalizing index opened with
  | nil =>
    obtain ⟨bracket, -, rfl⟩ := List.mem_map.1 h
    exact .inl rfl
  | cons t rest ih =>
    have later : ∀ {opened' : List OpenBracket}, pair ∈ pairsFrom (index + 1) opened' rest →
        pair.2 = index + (t :: rest).length ∨
          ∃ k u, pair.2 = index + k ∧ (t :: rest)[k]? = some u ∧ u.kind = .closing := by
      intro opened' h
      rcases ih h with hend | ⟨k, u, hk, hu, hkind⟩
      · exact .inl (by rw [hend, List.length_cons]; omega)
      · exact .inr ⟨k + 1, u, by omega, hu, hkind⟩
    simp only [pairsFrom] at h
    split at h
    · exact later h
    · rename_i hkind
      rcases List.mem_append.1 h with h | h
      · refine .inr ⟨0, t, ?_, rfl, hkind⟩
        rcases List.mem_append.1 h with h | h
        · obtain ⟨bracket, -, rfl⟩ := List.mem_map.1 h
          rfl
        · obtain ⟨bracket, -, rfl⟩ := List.mem_map.1 h
          rfl
      · exact later h
    · exact later h

/-- A bracket ends at a closing bracket, or with the sequence. -/
theorem ends_of_mem_pairBrackets {tokens : List Token} {pair : Nat × Nat}
    (h : pair ∈ pairBrackets tokens) :
    pair.2 = tokens.length ∨ ∃ t, tokens[pair.2]? = some t ∧ t.kind = .closing := by
  rcases ends_of_mem_pairsFrom h with hend | ⟨k, t, hk, ht, hkind⟩
  · exact .inl (hend.trans (Nat.zero_add _))
  · rw [Nat.zero_add] at hk
    exact .inr ⟨t, hk ▸ ht, hkind⟩

theorem le_of_mem_pairBrackets {tokens : List Token} {pair : Nat × Nat}
    (h : pair ∈ pairBrackets tokens) : pair.2 ≤ tokens.length := by
  rcases ends_of_mem_pairBrackets h with hend | ⟨t, ht, -⟩
  · exact Nat.le_of_eq hend
  · exact Nat.le_of_lt (List.getElem?_eq_some_iff.1 ht).1

/-- The brackets that are open, innermost first. -/
def Ordered (opened : List OpenBracket) : Prop :=
  opened.Pairwise fun inner outer => outer.index < inner.index

/-- A bracket that gets a partner was open before or opens on the way. -/
theorem key_of_mem_pairsFrom {index : Nat} {opened : List OpenBracket} {tokens : List Token}
    {pair : Nat × Nat} (h : pair ∈ pairsFrom index opened tokens) :
    (∃ bracket ∈ opened, bracket.index = pair.1) ∨ index ≤ pair.1 := by
  have hkey := (pairsFrom_keys_perm index opened tokens).subset (List.mem_map_of_mem h)
  rcases List.mem_append.1 hkey with hopened | hlater
  · exact .inl (List.mem_map.1 hopened)
  · exact .inr (le_of_mem_openingsFrom hlater)

/-- **Pairs do not cross**: what opens inside of a bracket ends no later. -/
theorem le_of_mem_pairsFrom {index : Nat} {opened : List OpenBracket} {tokens : List Token}
    (hordered : Ordered opened) (hbefore : ∀ bracket ∈ opened, bracket.index < index)
    {outer inner : Nat × Nat} (houter : outer ∈ pairsFrom index opened tokens)
    (hinner : inner ∈ pairsFrom index opened tokens) (hlt : outer.1 < inner.1)
    (hin : inner.1 < outer.2) : inner.2 ≤ outer.2 := by
  induction tokens generalizing index opened with
  | nil =>
    obtain ⟨-, -, rfl⟩ := List.mem_map.1 houter
    obtain ⟨-, -, rfl⟩ := List.mem_map.1 hinner
    exact Nat.le_refl _
  | cons t rest ih =>
    have older : ∀ bracket ∈ opened, bracket.index < index + 1 :=
      fun bracket hb => Nat.lt_succ_of_lt (hbefore bracket hb)
    revert houter hinner
    simp only [pairsFrom]
    split <;> intro houter hinner
    · refine ih (List.pairwise_cons.2 ⟨hbefore, hordered⟩) (fun bracket hb => ?_) houter hinner
      rcases List.mem_cons.1 hb with rfl | hb
      · exact Nat.lt_succ_self index
      · exact older bracket hb
    · generalize (fun bracket : OpenBracket => bracket.text != openerText t.text) = p
        at houter hinner
      -- What ends here was on top of what stays open.
      have hsplit : opened = (opened.takeWhile p ++ (opened.dropWhile p).take 1) ++
          (opened.dropWhile p).drop 1 := by
        rw [List.append_assoc, List.take_append_drop, List.takeWhile_append_dropWhile]
      rw [← List.map_append] at houter hinner
      generalize opened.takeWhile p ++ (opened.dropWhile p).take 1 = ended at hsplit houter hinner
      generalize (opened.dropWhile p).drop 1 = open' at hsplit houter hinner
      subst hsplit
      obtain ⟨-, hopen, hacross⟩ := List.pairwise_append.1 hordered
      have hopenBefore : ∀ bracket ∈ open', bracket.index < index + 1 :=
        fun bracket hb => older bracket (List.mem_append_right _ hb)
      rcases List.mem_append.1 houter with houter | houter
      · obtain ⟨bracket, hb, rfl⟩ := List.mem_map.1 houter
        rcases List.mem_append.1 hinner with hinner | hinner
        · obtain ⟨-, -, rfl⟩ := List.mem_map.1 hinner
          exact Nat.le_refl _
        -- A bracket that ends later was opened before the outer one, or opens behind it.
        · rcases key_of_mem_pairsFrom hinner with ⟨other, ho, heq⟩ | hle
          · have := hacross bracket hb other ho
            dsimp only at hlt
            omega
          · dsimp only at hin
            omega
      · rcases List.mem_append.1 hinner with hinner | hinner
        · obtain ⟨-, -, rfl⟩ := List.mem_map.1 hinner
          rcases ends_of_mem_pairsFrom houter with hend | ⟨k, -, hk, -⟩
          · dsimp only
            omega
          · dsimp only
            omega
        · exact ih hopen hopenBefore houter hinner
    · exact ih hordered older houter hinner

/-! ## Partners -/

/-- A token of the kind stands at the index. -/
def Body.KindAt (body : Body) (index : Nat) (kind : TokenKind) : Prop :=
  ∃ t, body.tokens[index]? = some t ∧ t.kind = kind

/-- A bracket can end at the index: a closing bracket stands there, or the
    sequence is over. -/
def Body.EndsAt (body : Body) (index : Nat) : Prop :=
  body.tokens.length ≤ index ∨ body.KindAt index .closing

theorem mem_openingsFrom {index k : Nat} {tokens : List Token} {t : Token}
    (ht : tokens[k]? = some t) (hkind : t.kind = .opening) :
    index + k ∈ openingsFrom index tokens := by
  induction tokens generalizing index k with
  | nil => simp at ht
  | cons first rest ih =>
    unfold openingsFrom
    cases k with
    | zero =>
      obtain rfl : first = t := by simpa using ht
      rw [if_pos hkind]
      exact List.mem_cons_self
    | succ k =>
      have hrest : index + 1 + k ∈ openingsFrom (index + 1) rest := ih (by simpa using ht)
      rw [Nat.add_assoc, Nat.add_comm 1 k] at hrest
      split
      · exact List.mem_cons_of_mem _ hrest
      · exact hrest

variable {body : Body} {index inner outer : Nat}

/-- An opening bracket is paired with its partner. -/
theorem Body.mem_pairBrackets (h : body.KindAt index .opening) :
    (index, body.partner index) ∈ pairBrackets body.tokens := by
  obtain ⟨t, ht, hkind⟩ := h
  have hkey : index ∈ (pairBrackets body.tokens).map Prod.fst := by
    refine (pairsFrom_keys_perm 0 [] body.tokens).symm.subset ?_
    simpa using @mem_openingsFrom 0 index body.tokens t ht hkind
  obtain ⟨⟨i, j⟩, hpair, rfl⟩ := List.mem_map.1 hkey
  rw [partner_of_mem (body.pairs_eq ▸ hpair)]
  exact hpair

/-- **Where a bracket ends**: no later than the sequence, and at a closing bracket
    unless it lasts to the end. -/
theorem Body.partner_ends (h : body.KindAt index .opening) :
    body.partner index ≤ body.tokens.length ∧ body.EndsAt (body.partner index) := by
  have hpair := mem_pairBrackets h
  refine ⟨le_of_mem_pairBrackets hpair, ?_⟩
  rcases ends_of_mem_pairBrackets hpair with hend | hclosing
  · exact .inl (Nat.le_of_eq hend.symm)
  · exact .inr hclosing

/-- **A bracket inside of another** ends no later than that one. -/
theorem Body.partner_le (houter : body.KindAt outer .opening) (hinner : body.KindAt inner .opening)
    (hlt : outer < inner) (hin : inner < body.partner outer) :
    body.partner inner ≤ body.partner outer :=
  le_of_mem_pairsFrom List.Pairwise.nil (by simp) (mem_pairBrackets houter)
    (mem_pairBrackets hinner) hlt hin

/-! ## Enclosed stretches -/

theorem Body.KindAt.eq {kind other : TokenKind} (h : body.KindAt index kind)
    (h' : body.KindAt index other) : kind = other := by
  obtain ⟨t, ht, rfl⟩ := h
  obtain ⟨u, hu, rfl⟩ := h'
  rw [ht] at hu
  rw [Option.some.inj hu]

theorem Body.KindAt.lt_length {kind : TokenKind} (h : body.KindAt index kind) :
    index < body.tokens.length := by
  obtain ⟨t, ht, -⟩ := h
  exact (List.getElem?_eq_some_iff.1 ht).1

/-- A token of a kind that passes a test is of no kind that fails it. -/
theorem Body.KindAt.not_kindAt {kind other : TokenKind} {test : TokenKind → Bool}
    (h : body.KindAt index kind) (hkind : test kind = true) (hother : test other = false) :
    ¬body.KindAt index other := by
  intro hat
  rw [h.eq hat, hother] at hkind
  contradiction

/-- Where a bracket can end no token of another kind stands. -/
theorem Body.EndsAt.not_kindAt {kind : TokenKind} (h : body.EndsAt index)
    (hkind : kind ≠ .closing) :
    ¬body.KindAt index kind := by
  intro hat
  rcases h with hle | hclosing
  · exact absurd hat.lt_length (Nat.not_lt_of_le hle)
  · exact hkind (hat.eq hclosing)

theorem Body.EndsAt.lt_of_kindAt {kind : TokenKind} {stop : Nat} (h : body.EndsAt stop)
    (hkind : kind ≠ .closing) (hle : index ≤ stop) (hat : body.KindAt index kind) :
    index < stop := by
  refine Nat.lt_of_le_of_ne hle ?_
  rintro rfl
  exact h.not_kindAt hkind hat

/-- A stretch of tokens that stands alone or in brackets: no bracket that opens
    in it ends behind it. -/
structure Enclosed (body : Body) (start stop : Nat) : Prop where
  ends : body.EndsAt stop
  partner_le : ∀ index, start ≤ index → index < stop → body.KindAt index .opening →
    body.partner index ≤ stop

theorem enclosed_whole (body : Body) : Enclosed body 0 body.tokens.length where
  ends := .inl (Nat.le_refl _)
  partner_le _ _ _ h := (body.partner_ends h).1

theorem Enclosed.mono {start start' stop : Nat} (h : Enclosed body start stop)
    (hle : start ≤ start') : Enclosed body start' stop where
  ends := h.ends
  partner_le index hstart := h.partner_le index (Nat.le_trans hle hstart)

/-- What stands in brackets is enclosed. -/
theorem enclosed_brackets (h : body.KindAt outer .opening) :
    Enclosed body (outer + 1) (body.partner outer) where
  ends := (body.partner_ends h).2
  partner_le _ hstart hstop hinner := body.partner_le h hinner hstart hstop

end TemplateAnalysis.Expression
