import TemplateAnalysis.Proofs.Variable.Lookups
import TemplateAnalysis.Proofs.Variable.Members

/-! # What the walk comes by

    The walk leaves what is nested in a chain for later and goes over the brackets of
    the chain. However the brackets of a body fit, it loses and repeats nothing:

    * **`pairwise_index_walk`**: the walk comes to its stops in the order of the
      tokens, to each of them once;
    * **`takesUp_iff_of_nested`**: what a chain takes up of the nested expressions is
      what stands in the parentheses of a type reference;
    * **`visits_exact`**: so the walk over a body finds all that it looks up, is in
      order, and analyses every nested expression that is in no type reference.
-/

namespace TemplateAnalysis.Variable

open Text Expression

variable {body : Body} {index start stop k m : Nat} {t : Token}

/-! ## In the order of the tokens -/

/-- What the accesses of a chain nest stands in a row, each stretch in front of the
    bracket that ends it. -/
theorem pairwise_body_accessesFrom (body : Body) (stop start : Nat) :
    (accessesFrom body stop start).1.Pairwise fun access later =>
      ∀ range, access.body? = some range → ∀ other, later.body? = some other →
        range.stop < other.start := by
  fun_induction accessesFrom body stop start with
  | case1 | case3 => exact .nil
  | case2 index hlt access next haccess more ih =>
    refine List.pairwise_cons.2 ⟨?_, ih⟩
    intro later hlater range hrange other hother
    have htakes := takes_of_accessAt? haccess
    rw [hrange] at htakes
    obtain ⟨opener, rfl, -, rfl, -⟩ := htakes.range
    -- The later access starts behind the bracket, and nests behind its start.
    have hbehind := (accessesFrom_bounds body stop _).2 later hlater other hother
    exact Nat.lt_of_succ_lt hbehind

/-- The stretches nested in a chain stand in a row. -/
theorem pairwise_nested (body : Body) (index stop : Nat) (first : Token) :
    (chainAt body index stop first).nested.Pairwise fun range other =>
      range.stop < other.start := by
  refine List.pairwise_map.2 (List.pairwise_filterMap.2 ?_)
  refine (pairwise_body_accessesFrom body stop _).imp ?_
  intro access later hrow range hrange other hother
  have hlt := hrow range (body?_of_nestedIn hrange) other (body?_of_nestedIn hother)
  exact Nat.lt_of_le_of_lt (Nat.min_le_left _ _) hlt

/-- **In order, each once**: the walk over an enclosed stretch goes on from token to
    token, though it leaves what is nested for later. -/
theorem pairwise_index_walk (henclosed : Enclosed body index stop) :
    (walk body index stop).Pairwise fun visit later => visit.index < later.index := by
  fun_induction walk body index stop
  case case1 | case7 => exact .nil
  case case2 index stop hlt t ht hkind ih =>
    refine List.pairwise_cons.2 ⟨?_, ih (henclosed.mono (Nat.le_succ _))⟩
    intro later hlater
    exact (index_bounds_of_mem_walk hlater).1
  case case3 index stop hlt t ht _ nested later | case4 index stop hlt t ht _ nested later
      | case5 index stop hlt t ht _ nested later =>
    -- Four things are to be shown: the chain stands in front of what is nested in it, each
    -- nested stretch is in order, so are two of them, and all is in front of what follows.
    -- The chain can end one token behind the stretch; then nothing follows.
    have hgrows := lt_chainAt_next body index stop t
    have hbehind : ∀ visit ∈ walk body (chainAt body index stop t).next stop,
        (chainAt body index stop t).next ≤ visit.index :=
      fun visit hvisit => (index_bounds_of_mem_walk hvisit).1
    refine List.pairwise_append.2 ⟨List.pairwise_cons.2 ⟨?first, List.pairwise_flatMap.2
      ⟨?inside, ?across⟩⟩, later (henclosed.mono (Nat.le_of_lt hgrows)), ?behind⟩
    case first =>
      intro visit hvisit
      obtain ⟨range, -, hvisit⟩ := List.mem_flatMap.1 hvisit
      have hbounds := index_bounds_of_mem_walk hvisit
      exact Nat.lt_of_lt_of_le (chainAt_nested_bounds range.2).1 hbounds.1
    case inside =>
      intro range _
      exact nested range (enclosed_of_mem_nested henclosed (Nat.le_refl _) hlt ht range.2)
    case across =>
      have hrow := pairwise_nested body index stop t
      rw [← List.attach_map_subtype_val (chainAt body index stop t).nested] at hrow
      refine (List.pairwise_map.1 hrow).imp ?_
      intro range other hrow visit hvisit visit' hvisit'
      have hbounds := index_bounds_of_mem_walk hvisit
      have hbounds' := index_bounds_of_mem_walk hvisit'
      omega
    case behind =>
      intro visit hvisit visit' hvisit'
      have hnext := hbehind visit' hvisit'
      rcases List.mem_cons.1 hvisit with rfl | hvisit
      · exact Nat.lt_of_lt_of_le hgrows hnext
      · obtain ⟨range, -, hvisit⟩ := List.mem_flatMap.1 hvisit
        have hbounds := index_bounds_of_mem_walk hvisit
        have := stop_lt_next_of_mem_nested henclosed (Nat.le_refl _) hlt ht range.2
        omega
  case case6 ih => exact ih (henclosed.mono (Nat.le_succ _))

/-! ## Type references -/

/-- A token stands between the parentheses of the type reference `T(...)` at an index. -/
structure InTypeReference (body : Body) (index m : Nat) : Prop where
  name : ∃ t, body.tokens[index]? = some t ∧ t.kind = .identifier ∧ t.text = ['T']
  opens : body.opensWith (index + 1) body.tokens.length '(' = true
  after : index + 1 < m
  before : m < body.partner (index + 1)

theorem InTypeReference.lt_headEnd (h : InTypeReference body index m) : m < headEnd body index := by
  obtain ⟨t, ht, hkind, htext⟩ := h.name
  have hbefore := h.before
  have hnew : (['T'] == "new".toList) = false := by decide
  rw [headEnd, ht, Option.map_some, Option.getD_some, headAt, hkind, htext, hnew, h.opens]
  show m < body.partner (index + 1) + 1
  exact Nat.lt_succ_of_lt hbefore

/-- A nested expression in the head of a chain stands in the parentheses of a type
    reference: the other heads are made of names and dots. -/
theorem inTypeReference_of_lt_headEnd (hm : body.KindAt m .nested) (hafter : index < m)
    (hbefore : m < headEnd body index) : InTypeReference body index m := by
  have other : ∀ {j : Nat} {kind : TokenKind}, body.KindAt j kind → kind ≠ .nested → m ≠ j := by
    intro j kind hj hkind heq
    exact hkind ((heq ▸ hm).eq hj).symm
  unfold headEnd at hbefore
  cases ht : body.tokens[index]? with
  | none =>
    rw [ht] at hbefore
    exact absurd hafter (Nat.not_lt_of_le (Nat.le_of_lt_succ hbefore))
  | some t =>
    rw [ht, Option.map_some, Option.getD_some] at hbefore
    unfold headAt at hbefore
    split at hbefore
    · rename_i hkind
      split at hbefore
      · -- The name of a type is skipped token by token.
        obtain ⟨-, hname | hdot⟩ := skipName_of_mem hafter hbefore
        · exact absurd (hm.eq hname) (by decide)
        · exact absurd (hm.eq hdot) (by decide)
      · split at hbefore
        · rename_i htype
          obtain ⟨hletter, hopens⟩ := Bool.and_eq_true _ _ ▸ htype
          have hopening := (kindAt_of_opensWith hopens).2
          have hne := other hopening (by decide)
          exact ⟨⟨t, ht, hkind, beq_iff_eq.1 hletter⟩, hopens, by omega,
            (body.partner_ends hopening).2.lt_of_kindAt (by decide) (Nat.le_of_lt_succ hbefore) hm⟩
        · split at hbefore <;> (dsimp only at hbefore; omega)
    · dsimp only at hbefore
      split at hbefore
      · rename_i hmember
        simp only [Bool.and_eq_true, hasKind_length] at hmember
        have hdot := other hmember.1.1 (by decide)
        have hname := other hmember.1.2 (by decide)
        dsimp only at hbefore
        omega
      · dsimp only at hbefore
        omega
    · dsimp only at hbefore
      omega

/-- A chain takes up the nested expressions of its type reference, and no others. -/
theorem takesUp_iff_of_nested (hm : body.KindAt m .nested) :
    TakesUp body k m ↔ InTypeReference body k m := by
  constructor
  · intro htakes
    cases htakes with
    | head after before => exact inTypeReference_of_lt_headEnd hm after before
    | member i leads member name =>
      subst name
      exact absurd (hm.eq member.name) (by decide)
  · intro h
    exact .head (Nat.lt_of_succ_lt h.after) h.lt_headEnd

/-! ## What is analysed -/

/-- **Every nested expression** of a body is analysed unless it stands in a type
    reference at which the walk starts a chain. -/
theorem nested_mem_visits_iff {text nested : List Char} {i : Nat} :
    .nested i nested ∈ visits text ↔
      (∃ t, (tokenize text)[i]? = some t ∧ t.kind = .nested ∧ t.text = nested) ∧
        ∀ k, Starts (visits text) k → ¬InTypeReference (Body.ofText text) k i := by
  have whole := enclosed_whole (Body.ofText text)
  constructor
  · intro h
    obtain ⟨t, ht, hkind, htext⟩ := token_of_nested_mem_walk h
    refine ⟨⟨t, ht, hkind, htext⟩, ?_⟩
    intro k hk hin
    exact not_takesUp_of_visited whole ⟨_, h, rfl⟩ hk ((takesUp_iff_of_nested ⟨t, ht, hkind⟩).2 hin)
  · rintro ⟨⟨t, ht, hkind, rfl⟩, hnot⟩
    have hm : (Body.ofText text).KindAt i .nested := ⟨t, ht, hkind⟩
    rcases visited_or_taken whole (Nat.zero_le i) hm.lt_length hm (by decide) with
      ⟨visit, hvisit, rfl⟩ | ⟨k, hk, htakes⟩
    · cases visit with
      | chain i chain =>
        obtain ⟨kind, hat, hhead⟩ := kindAt_of_starts ⟨chain, hvisit⟩
        exact absurd hm (hat.not_kindAt hhead (by decide))
      | nested i nested =>
        obtain ⟨u, hu, -, rfl⟩ := token_of_nested_mem_walk hvisit
        obtain rfl : t = u := Option.some.inj (ht.symm.trans hu)
        exact hvisit
    · exact absurd ((takesUp_iff_of_nested hm).1 htakes) (hnot k hk)

/-- **The walk over a body**, whatever its brackets are: every token and every partner
    that it looks up is there, and each step leaves less to walk; its stops are in the
    order of the tokens, each token once; and it analyses every nested expression that
    stands in no type reference. -/
theorem visits_exact (text : List Char) :
    walkIn? (Body.ofText text) 0 (Body.ofText text).tokens.length = some (visits text) ∧
      (visits text).Pairwise (fun visit later => visit.index < later.index) ∧
      ∀ i nested, .nested i nested ∈ visits text ↔
        (∃ t, (tokenize text)[i]? = some t ∧ t.kind = .nested ∧ t.text = nested) ∧
          ∀ k, Starts (visits text) k → ¬InTypeReference (Body.ofText text) k i := by
  refine ⟨walkIn?_eq_some (Nat.le_refl _), pairwise_index_walk (enclosed_whole _), ?_⟩
  intro i nested
  exact nested_mem_visits_iff

-- The bracket `[` of each argument shares its partner with the parenthesis around it.
-- Of the three nested expressions the first is part of the type reference.
example : (visits "T(a[${b}).c(d[${e}) + ${f}".toList).map Visit.index =
    [0, 9, 11, 14] := by
  decide +kernel

end TemplateAnalysis.Variable
