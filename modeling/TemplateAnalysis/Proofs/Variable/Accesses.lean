import TemplateAnalysis.Proofs.Expression.Enclosing
import TemplateAnalysis.Proofs.Variable.Reading

/-! # What a chain takes up

    The accesses of a chain stand one behind the other, and where a stretch of
    tokens ends does not change what they are:

    * **`takes_of_accessAt?`**: an access is a member, a member that is called, or
      a pair of brackets, and what it nests is what stands in the brackets;
    * **`accessAt?_stop`** and **`headAt_stop`**: in a stretch that is enclosed,
      accesses and heads are those of the whole body;
    * **`LeadsTo.cross`**: accesses that lead out of an enclosed stretch pass right
      behind the bracket that ends it.
-/

namespace TemplateAnalysis.Variable

open Text Expression

variable {body : Body} {index start stop next i j m : Nat} {access : Access}

/-! ## Kinds of tokens -/

theorem hasKind_iff {kind : TokenKind} :
    body.hasKind index stop kind = true ↔ index < stop ∧ body.KindAt index kind := by
  simp only [Body.hasKind, Body.KindAt, Bool.and_eq_true, decide_eq_true_eq, Option.any_eq_true]

theorem hasKind_length {kind : TokenKind} :
    body.hasKind index body.tokens.length kind = true ↔ body.KindAt index kind := by
  rw [hasKind_iff]
  exact and_iff_right_of_imp Body.KindAt.lt_length

theorem kindAt_of_opensWith {bracket : Char} (h : body.opensWith index stop bracket = true) :
    index < stop ∧ body.KindAt index .opening := by
  simp only [Body.opensWith, Bool.and_eq_true, decide_eq_true_eq, Option.any_eq_true] at h
  obtain ⟨hlt, t, ht, hkind, -⟩ := h
  exact ⟨hlt, t, ht, hkind⟩

/-- No token but a closing bracket is lost at the end of a stretch. -/
theorem hasKind_stop {kind : TokenKind} (hends : body.EndsAt stop) (hle : index ≤ stop)
    (hkind : kind ≠ .closing) :
    body.hasKind index stop kind = body.hasKind index body.tokens.length kind := by
  rw [Bool.eq_iff_iff, hasKind_iff, hasKind_length]
  exact and_iff_right_of_imp (hends.lt_of_kindAt hkind hle)

theorem opensWith_stop {bracket : Char} (hends : body.EndsAt stop) (hle : index ≤ stop) :
    body.opensWith index stop bracket = body.opensWith index body.tokens.length bracket := by
  have split : ∀ bound, body.opensWith index bound bracket =
      (body.hasKind index bound .opening && (body.textAt index == [bracket])) := by
    intro bound
    unfold Body.opensWith Body.hasKind Body.textAt
    cases body.tokens[index]? <;> simp [Bool.and_assoc]
  rw [split, split, hasKind_stop hends hle (by decide)]

/-! ## One access -/

/-- A member stands at the index: a dot, safe or not, and a name behind it. -/
structure MemberAt (body : Body) (index : Nat) : Prop where
  sign : body.KindAt index .dot ∨ body.KindAt index .safe
  name : body.KindAt (index + 1) .identifier

theorem MemberAt.not_kindAt {kind : TokenKind} (h : MemberAt body index) (hdot : kind ≠ .dot)
    (hsafe : kind ≠ .safe) : ¬body.KindAt index kind := by
  intro hat
  rcases h.sign with hsign | hsign
  · exact hdot (hat.eq hsign)
  · exact hsafe (hat.eq hsign)

/-- The sign of a member ends no brackets. -/
theorem MemberAt.not_endsAt (h : MemberAt body index) : ¬body.EndsAt index := by
  intro hends
  rcases h.sign with hsign | hsign
  · exact hends.not_kindAt (by decide) hsign
  · exact hends.not_kindAt (by decide) hsign

/-- An access that starts at an index takes up the tokens up to the next one, and
    nests a stretch of them. -/
inductive Takes (body : Body) (index : Nat) : Option Range → Nat → Prop
  | member (member : MemberAt body index) : Takes body index none (index + 2)
  | call (member : MemberAt body index) (opening : body.KindAt (index + 2) .opening) :
      Takes body index (some (bracketBody body (index + 2))) (body.partner (index + 2) + 1)
  | brackets (opening : body.KindAt index .opening) :
      Takes body index (some (bracketBody body index)) (body.partner index + 1)
  | selection (sign : body.KindAt index .dot ∨ body.KindAt index .filter)
      (opening : body.KindAt (index + 1) .opening) :
      Takes body index (some (bracketBody body (index + 1))) (body.partner (index + 1) + 1)

/-- **An access** is a member, with or without arguments, or a pair of brackets. -/
theorem takes_of_accessAt? (h : accessAt? body index stop = some (access, next)) :
    Takes body index access.body? next := by
  unfold accessAt? at h
  split at h
  · rename_i hmember
    simp only [Bool.and_eq_true, Bool.or_eq_true, hasKind_iff] at hmember
    have member : MemberAt body index := ⟨hmember.1.imp And.right And.right, hmember.2.2⟩
    split at h
    · rename_i hopens
      obtain ⟨rfl, rfl⟩ := Prod.mk.inj (Option.some.inj h)
      exact .call member (kindAt_of_opensWith hopens).2
    · obtain ⟨rfl, rfl⟩ := Prod.mk.inj (Option.some.inj h)
      exact .member member
  · split at h
    · rename_i hselection
      simp only [Bool.and_eq_true, Bool.or_eq_true, hasKind_iff] at hselection
      obtain ⟨rfl, rfl⟩ := Prod.mk.inj (Option.some.inj h)
      rcases hselection with ⟨hsign, hopens⟩ | ⟨hsign, hopens⟩
      · exact .selection (.inl hsign.2) (kindAt_of_opensWith hopens).2
      · exact .selection (.inr hsign.2) (kindAt_of_opensWith hopens).2
    · split at h
      · rename_i hopens
        obtain ⟨rfl, rfl⟩ := Prod.mk.inj (Option.some.inj h)
        exact .brackets (kindAt_of_opensWith hopens).2
      · split at h
        · rename_i hopens
          have brackets := Takes.brackets (kindAt_of_opensWith hopens).2
          -- A key and an index take up the same tokens.
          dsimp only at h
          split at h <;>
            · obtain ⟨rfl, rfl⟩ := Prod.mk.inj (Option.some.inj h)
              exact brackets
        · contradiction

/-- A member is accessed where it stands. -/
theorem exists_accessAt?_of_memberAt (h : MemberAt body index) :
    ∃ access next, accessAt? body index body.tokens.length = some (access, next) ∧
      index + 2 ≤ next := by
  have member : ((body.hasKind index body.tokens.length .dot ||
      body.hasKind index body.tokens.length .safe) &&
        body.hasKind (index + 1) body.tokens.length .identifier) = true := by
    simp only [Bool.and_eq_true, Bool.or_eq_true, hasKind_length]
    exact ⟨h.sign, h.name⟩
  unfold accessAt?
  rw [if_pos member]
  split
  · have := body.lt_partner (index + 2)
    exact ⟨_, _, rfl, by omega⟩
  · exact ⟨_, _, rfl, Nat.le_refl _⟩

/-- The key of an item is a string alone between its brackets. -/
theorem string_of_item {key : List Char} {range : Range}
    (h : accessAt? body index stop = some (.item key range, next)) :
    range.stop = range.start + 1 ∧ body.KindAt range.start .string := by
  unfold accessAt? at h
  grind [hasKind_iff]

/-- **An access does not depend on the end** of the stretch that it stands in. -/
theorem accessAt?_stop (hends : body.EndsAt stop) (hlt : index < stop) :
    accessAt? body index stop = accessAt? body index body.tokens.length := by
  have here : ∀ {kind : TokenKind}, kind ≠ .closing →
      body.hasKind index stop kind = body.hasKind index body.tokens.length kind :=
    hasKind_stop hends (Nat.le_of_lt hlt)
  have name := hasKind_stop hends hlt (show TokenKind.identifier ≠ .closing by decide)
  have opens : ∀ k, k ≤ stop → ∀ bracket,
      body.opensWith k stop bracket = body.opensWith k body.tokens.length bracket :=
    fun k hk bracket => opensWith_stop hends hk
  unfold accessAt?
  rw [here (by decide), here (by decide), here (by decide), name,
    opens index (Nat.le_of_lt hlt), opens index (Nat.le_of_lt hlt), opens (index + 1) hlt,
    opens (index + 1) hlt]
  by_cases hle : index + 2 ≤ stop
  · rw [opens (index + 2) hle]
  · -- The name would stand where the stretch ends.
    have hnone : body.hasKind (index + 1) body.tokens.length .identifier = false := by
      rw [← name, Bool.eq_false_iff]
      intro h
      have := (hasKind_iff.1 h).1
      omega
    simp [hnone]

/-- In an enclosed stretch an access goes at most one token beyond the end, over
    the bracket that ends the stretch. -/
theorem Takes.next_le {range : Option Range} (h : Takes body index range next)
    (henclosed : Enclosed body start stop) (hstart : start ≤ index) (hlt : index < stop) :
    next ≤ stop + 1 := by
  have inner : ∀ {k : Nat} {kind : TokenKind}, kind ≠ .closing → k ≤ stop → body.KindAt k kind →
      k < stop := fun hkind hle hat => henclosed.ends.lt_of_kindAt hkind hle hat
  cases h with
  | member member =>
    have := inner (by decide) hlt member.name
    omega
  | call member opening =>
    have hname := inner (by decide) hlt member.name
    have hopening := inner (by decide) hname opening
    have : body.partner (index + 2) ≤ stop := henclosed.partner_le _ (by omega) hopening opening
    omega
  | brackets opening =>
    have := henclosed.partner_le _ hstart hlt opening
    omega
  | selection sign opening =>
    have hopening := inner (by decide) hlt opening
    have : body.partner (index + 1) ≤ stop := henclosed.partner_le _ (by omega) hopening opening
    omega

theorem Takes.lt_next {range : Option Range} (h : Takes body index range next) : index < next := by
  have := body.lt_partner
  cases h with
  | member => omega
  | call => have := this (index + 2); omega
  | brackets => have := this index; omega
  | selection => have := this (index + 1); omega

/-- No access starts where a bracket can end. -/
theorem Takes.not_endsAt {range : Option Range} (h : Takes body index range next) :
    ¬body.EndsAt index := by
  intro hends
  cases h with
  | member member | call member opening => exact member.not_endsAt hends
  | brackets opening => exact hends.not_kindAt (by decide) opening
  | selection sign opening =>
    exact sign.elim (hends.not_kindAt (by decide)) (hends.not_kindAt (by decide))

/-- What an access nests stands in brackets, which end with the access. -/
theorem Takes.range {range : Range} (h : Takes body index (some range) next) :
    ∃ opener, range = bracketBody body opener ∧ body.KindAt opener .opening ∧
      next = body.partner opener + 1 ∧ index ≤ opener ∧ opener ≤ index + 2 := by
  cases h with
  | call member opening => exact ⟨index + 2, rfl, opening, rfl, by omega, by omega⟩
  | brackets opening => exact ⟨index, rfl, opening, rfl, by omega, by omega⟩
  | selection sign opening => exact ⟨index + 1, rfl, opening, rfl, by omega, by omega⟩

/-! ## Accesses in a row -/

/-- Accesses lead from one index to another. -/
inductive LeadsTo (body : Body) : Nat → Nat → Prop
  | refl (index : Nat) : LeadsTo body index index
  | step {index next stop : Nat} {access : Access}
      (access : accessAt? body index body.tokens.length = some (access, next))
      (more : LeadsTo body next stop) : LeadsTo body index stop

theorem LeadsTo.le (h : LeadsTo body i j) : i ≤ j := by
  induction h with
  | refl => exact Nat.le_refl _
  | step access more ih =>
    have := (takes_of_accessAt? access).lt_next
    omega

theorem LeadsTo.trans (h : LeadsTo body i j) (h' : LeadsTo body j m) : LeadsTo body i m := by
  induction h with
  | refl => exact h'
  | step access more ih => exact .step access (ih h')

/-- What is led to lies right behind an access. -/
theorem LeadsTo.last (h : LeadsTo body i j) :
    j = i ∨ ∃ m access, accessAt? body m body.tokens.length = some (access, j) := by
  induction h with
  | refl => exact .inl rfl
  | @step index next stop access first more ih =>
    rcases ih with rfl | hlast
    · exact .inr ⟨index, access, first⟩
    · exact .inr hlast

/-- Of two places that accesses lead to, one leads to the other. -/
theorem LeadsTo.linear (h : LeadsTo body i j) (h' : LeadsTo body i m) :
    LeadsTo body j m ∨ LeadsTo body m j := by
  induction h with
  | refl => exact .inl h'
  | step first more ih =>
    cases h' with
    | refl => exact .inr (.step first more)
    | step first' more' =>
      rw [first] at first'
      obtain ⟨-, rfl⟩ := Prod.mk.inj (Option.some.inj first')
      exact ih more'

/-- Where no access starts nothing is led to. -/
theorem LeadsTo.eq_of_none (h : LeadsTo body i j)
    (hnone : accessAt? body i body.tokens.length = none) : j = i := by
  cases h with
  | refl => rfl
  | step first more =>
    rw [hnone] at first
    contradiction

/-- What is led to lies no further than an access, or it is led to from behind that
    access. -/
theorem LeadsTo.behind (h : LeadsTo body i j) (h' : LeadsTo body i m)
    (haccess : accessAt? body j body.tokens.length = some (access, next)) :
    m ≤ j ∨ LeadsTo body next m := by
  rcases h.linear h' with hafter | hbefore
  · cases hafter with
    | refl => exact .inl (Nat.le_refl _)
    | step first more =>
      rw [haccess] at first
      obtain ⟨-, rfl⟩ := Prod.mk.inj (Option.some.inj first)
      exact .inr more
  · exact .inl hbefore.le

/-- **Accesses that lead out** of an enclosed stretch pass right behind the bracket
    that ends it. -/
theorem LeadsTo.cross (henclosed : Enclosed body start stop) (hstart : start ≤ i)
    (hle : i ≤ stop + 1) (h : LeadsTo body i j) : j ≤ stop ∨ LeadsTo body (stop + 1) j := by
  induction h with
  | refl index =>
    rcases Nat.lt_or_eq_of_le hle with hlt | rfl
    · exact .inl (Nat.le_of_lt_succ hlt)
    · exact .inr (.refl _)
  | @step index next last access haccess more ih =>
    rcases Nat.lt_or_eq_of_le hle with hlt | rfl
    · have htakes := takes_of_accessAt? haccess
      have := htakes.lt_next
      refine ih (by omega) ?_
      rcases Nat.lt_or_eq_of_le (Nat.le_of_lt_succ hlt) with hlt | rfl
      · exact htakes.next_le henclosed hstart hlt
      · exact absurd henclosed.ends htakes.not_endsAt
    · exact .inr (.step haccess more)

/-! ## The accesses of a chain -/

/-- An access stands behind others, in front of where they end. -/
structure AccessIn (body : Body) (start stop finish : Nat) (access : Access) (index next : Nat) :
    Prop where
  accessed : accessAt? body index body.tokens.length = some (access, next)
  lt_stop : index < stop
  before : LeadsTo body start index
  behind : LeadsTo body next finish

theorem leadsTo_accessesFrom (hends : body.EndsAt stop) (start : Nat) :
    LeadsTo body start (accessesFrom body stop start).2 := by
  fun_induction accessesFrom body stop start with
  | case1 index hlt hnone => exact .refl _
  | case2 index hlt access next haccess more ih =>
    rw [accessAt?_stop hends hlt] at haccess
    exact .step haccess ih
  | case3 index hlt => exact .refl _

/-- The accesses go on as long as there are any. -/
theorem accessAt?_behind (hends : body.EndsAt stop) (start : Nat) :
    stop ≤ (accessesFrom body stop start).2 ∨
      accessAt? body (accessesFrom body stop start).2 body.tokens.length = none := by
  fun_induction accessesFrom body stop start with
  | case1 index hlt hnone =>
    rw [accessAt?_stop hends hlt] at hnone
    exact .inr hnone
  | case2 index hlt access next haccess more ih => exact ih
  | case3 index hlt => exact .inl (Nat.le_of_not_lt hlt)

theorem exists_accessIn_of_mem (hends : body.EndsAt stop)
    (h : access ∈ (accessesFrom body stop start).1) :
    ∃ index next, AccessIn body start stop (accessesFrom body stop start).2 access index next := by
  fun_induction accessesFrom body stop start with
  | case1 index hlt hnone => simp at h
  | case2 index hlt first next haccess more ih =>
    rw [accessAt?_stop hends hlt] at haccess
    rcases List.mem_cons.1 h with rfl | h
    · exact ⟨index, next, haccess, hlt, .refl _, leadsTo_accessesFrom hends next⟩
    · obtain ⟨i, behind, hin⟩ := ih h
      exact ⟨i, behind, hin.accessed, hin.lt_stop, .step haccess hin.before, hin.behind⟩
  | case3 index hlt => simp at h

/-- No token of a chain stands outside of its accesses. -/
theorem exists_accessIn_of_le (hends : body.EndsAt stop) (hle : start ≤ m)
    (hlt : m < (accessesFrom body stop start).2) :
    ∃ access ∈ (accessesFrom body stop start).1, ∃ index next,
      AccessIn body start stop (accessesFrom body stop start).2 access index next ∧
        index ≤ m ∧ m < next := by
  fun_induction accessesFrom body stop start with
  | case1 index hbound hnone => exact absurd hlt (Nat.not_lt_of_le hle)
  | case2 index hbound access next haccess more ih =>
    rw [accessAt?_stop hends hbound] at haccess
    by_cases hnext : m < next
    · exact ⟨access, List.mem_cons_self, index, next,
        ⟨haccess, hbound, .refl _, leadsTo_accessesFrom hends next⟩, hle, hnext⟩
    · obtain ⟨other, hmem, i, behind, hin, hbounds⟩ := ih (Nat.le_of_not_lt hnext) hlt
      exact ⟨other, List.mem_cons_of_mem _ hmem, i, behind,
        ⟨hin.accessed, hin.lt_stop, .step haccess hin.before, hin.behind⟩, hbounds⟩
  | case3 index hbound => exact absurd hlt (Nat.not_lt_of_le hle)

/-! ## Heads -/

theorem skipName_stop (hends : body.EndsAt stop) (hle : index ≤ stop) :
    skipName body stop index = skipName body body.tokens.length index := by
  have same : ∀ {kind : TokenKind} {k : Nat}, kind ≠ .closing → k ≤ stop →
      body.hasKind k stop kind = body.hasKind k body.tokens.length kind :=
    fun hkind hk => hasKind_stop hends hk hkind
  fun_induction skipName body stop index with
  | case1 index hname ih =>
    have hlt : index < stop := by
      rcases Bool.or_eq_true _ _ ▸ hname with h | h <;> exact (hasKind_iff.1 h).1
    rw [same (by decide) hle, same (by decide) hle] at hname
    rw [ih hlt, skipName.eq_def body body.tokens.length index, if_pos hname]
  | case2 index hname =>
    rw [same (by decide) hle, same (by decide) hle] at hname
    rw [skipName, if_neg hname]

theorem skipName_le (hle : index ≤ stop) : skipName body stop index ≤ stop := by
  fun_induction skipName body stop index with
  | case1 index hname ih =>
    refine ih ?_
    rcases Bool.or_eq_true _ _ ▸ hname with h | h <;> exact (hasKind_iff.1 h).1
  | case2 index hname => exact hle

/-- **A head does not depend on the end** of the stretch that it stands in. -/
theorem headAt_stop (hends : body.EndsAt stop) (hlt : index < stop) (first : Token) :
    headAt body index stop first = headAt body index body.tokens.length first := by
  have dot := hasKind_stop hends hlt (show TokenKind.dot ≠ .closing by decide)
  have member : (body.hasKind (index + 1) stop .dot && body.hasKind (index + 2) stop .identifier) =
      (body.hasKind (index + 1) body.tokens.length .dot &&
        body.hasKind (index + 2) body.tokens.length .identifier) := by
    rw [dot]
    by_cases hle : index + 2 ≤ stop
    · rw [hasKind_stop hends hle (by decide)]
    · have hnone : body.hasKind (index + 1) body.tokens.length .dot = false := by
        rw [← dot, Bool.eq_false_iff]
        intro h
        have := (hasKind_iff.1 h).1
        omega
      rw [hnone, Bool.false_and, Bool.false_and]
  unfold headAt
  rw [skipName_stop hends hlt, opensWith_stop hends hlt, member]

/-- Where the head of the chain ends that starts at an index. -/
def headEnd (body : Body) (index : Nat) : Nat :=
  (body.tokens[index]?.map fun t => (headAt body index body.tokens.length t).next).getD (index + 1)

theorem headEnd_eq {t : Token} (ht : body.tokens[index]? = some t) (hends : body.EndsAt stop)
    (hlt : index < stop) : headEnd body index = (headAt body index stop t).next := by
  rw [headEnd, ht, headAt_stop hends hlt]
  rfl

theorem lt_headEnd (body : Body) (index : Nat) : index < headEnd body index := by
  unfold headEnd
  cases body.tokens[index]? with
  | none => exact Nat.lt_succ_self index
  | some t => exact lt_headAt_next body index body.tokens.length t

/-- Where a head ends: it is a single token, a constructor call with the name of the
    type, a type reference, or a utility object with a variable as its member. -/
inductive HeadSpan (body : Body) (index : Nat) : Nat → Prop
  | single : HeadSpan body index (index + 1)
  | typeName : HeadSpan body index (skipName body body.tokens.length (index + 1))
  | typeReference (opening : body.KindAt (index + 1) .opening) :
      HeadSpan body index (body.partner (index + 1) + 1)
  | scopedMember (sign : body.KindAt (index + 1) .dot)
      (name : body.KindAt (index + 2) .identifier) :
      HeadSpan body index (index + 3)

theorem headSpan (body : Body) (index : Nat) : HeadSpan body index (headEnd body index) := by
  unfold headEnd
  cases ht : body.tokens[index]? with
  | none => exact .single
  | some t =>
    show HeadSpan body index (headAt body index body.tokens.length t).next
    unfold headAt
    split
    · split
      · exact .typeName
      · split
        · rename_i htype
          exact .typeReference (kindAt_of_opensWith (Bool.and_eq_true _ _ ▸ htype).2).2
        · split <;> exact .single
    · dsimp only
      split
      · rename_i hmember
        simp only [Bool.and_eq_true, hasKind_iff] at hmember
        exact .scopedMember hmember.1.1.2 hmember.1.2.2
      · exact .single
    · exact .single

/-- The head of a chain in an enclosed stretch goes at most over the bracket that
    ends the stretch. -/
theorem headEnd_le (henclosed : Enclosed body start stop) (hstart : start ≤ index)
    (hlt : index < stop) : headEnd body index ≤ stop + 1 := by
  have inner : ∀ {k : Nat} {kind : TokenKind}, kind ≠ .closing → k ≤ stop → body.KindAt k kind →
      k < stop := fun hkind hle hat => henclosed.ends.lt_of_kindAt hkind hle hat
  have hspan := headSpan body index
  generalize headEnd body index = next at hspan
  cases hspan with
  | single => omega
  | typeName =>
    rw [← skipName_stop henclosed.ends hlt]
    exact Nat.le_succ_of_le (skipName_le hlt)
  | typeReference opening =>
    exact Nat.succ_le_succ
      (henclosed.partner_le _ (by omega) (inner (by decide) hlt opening) opening)
  | scopedMember sign name =>
    have hsign := inner (by decide) hlt sign
    have := inner (by decide) hsign name
    omega

end TemplateAnalysis.Variable
