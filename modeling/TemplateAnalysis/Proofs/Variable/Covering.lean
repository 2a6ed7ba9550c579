import TemplateAnalysis.Proofs.Variable.Accesses

/-! # Every name is taken up once

    Chains are walked one after the other, and what is nested in a chain is walked
    before what stands behind it:

    * **`TakesUp`**: what belongs to a chain besides the token that it starts at,
      the rest of its head and the names of its members;
    * **`visited_or_taken`**: the walk stops at every name, utility object, bean and
      nested expression of a stretch, unless it has taken it up with a chain;
    * **`not_takesUp_of_visited`**: it never does both.
-/

namespace TemplateAnalysis.Variable

open Text Expression

variable {body : Body} {index start stop next i k m : Nat}

/-! ## Chains of a walk -/

/-- A chain can start with a token of this kind. -/
def headsChain (kind : TokenKind) : Bool :=
  kind == .identifier || kind == .utility || kind == .bean

/-- The walk stops at a token of this kind. -/
def stopsAt (kind : TokenKind) : Bool :=
  headsChain kind || kind == .nested

theorem stopsAt_of_headsChain {kind : TokenKind} (h : headsChain kind = true) :
    stopsAt kind = true := by
  rw [stopsAt, h, Bool.true_or]

/-- A chain starts at the index. -/
def Starts (visits : List Visit) (index : Nat) : Prop :=
  ∃ chain, .chain index chain ∈ visits

/-- The walk stops at the index. -/
def Visited (visits : List Visit) (index : Nat) : Prop :=
  ∃ visit ∈ visits, visit.index = index

theorem Starts.visited {visits : List Visit} (h : Starts visits k) : Visited visits k := by
  obtain ⟨chain, hmem⟩ := h
  exact ⟨.chain k chain, hmem, rfl⟩

theorem starts_cons_nested {text : List Char} {visits : List Visit} :
    Starts (.nested i text :: visits) k ↔ Starts visits k := by
  simp [Starts]

theorem visited_cons_nested {text : List Char} {visits : List Visit} :
    Visited (.nested i text :: visits) k ↔ k = i ∨ Visited visits k := by
  simp [Visited, Visit.index, eq_comm]

theorem starts_chain {chain : Chain} {rest : List Visit} :
    Starts (.chain index chain :: (chain.nested.attach.flatMap fun range =>
        walk body range.1.start range.1.stop) ++ rest) k ↔
      k = index ∨ (∃ range ∈ chain.nested, Starts (walk body range.start range.stop) k) ∨
        Starts rest k := by
  simp only [Starts, mem_chain, Visit.chain.injEq]
  grind

theorem visited_chain {chain : Chain} {rest : List Visit} :
    Visited (.chain index chain :: (chain.nested.attach.flatMap fun range =>
        walk body range.1.start range.1.stop) ++ rest) k ↔
      k = index ∨ (∃ range ∈ chain.nested, Visited (walk body range.start range.stop) k) ∨
        Visited rest k := by
  simp only [Visited, mem_chain]
  grind [Visit.index]

/-! ## What a chain takes up -/

/-- The chain that starts at an index takes a later token as its own: in its head,
    or as the name of a member. -/
inductive TakesUp (body : Body) (index m : Nat) : Prop
  | head (after : index < m) (before : m < headEnd body index)
  | member (i : Nat) (leads : LeadsTo body (headEnd body index) i) (member : MemberAt body i)
      (name : m = i + 1)

theorem TakesUp.lt (h : TakesUp body index m) : index < m := by
  cases h with
  | head after before => exact after
  | member i leads member name =>
    have := lt_headEnd body index
    have := leads.le
    omega

/-- What a chain takes up behind the stretch in which it starts is taken as a
    member by way of the bracket that ends the stretch. -/
theorem TakesUp.escape (h : TakesUp body index m) (henclosed : Enclosed body start stop)
    (hstart : start ≤ index) (hlt : index < stop) (hm : stop < m) :
    ∃ i, LeadsTo body (stop + 1) i ∧ MemberAt body i ∧ m = i + 1 := by
  have hend := headEnd_le henclosed hstart hlt
  have hbegin := lt_headEnd body index
  cases h with
  | head after before => omega
  | member i leads member name =>
    rcases leads.cross henclosed (by omega) hend with hle | hout
    · -- The sign of a member stands at no bracket that ends anything.
      obtain rfl : i = stop := by omega
      exact absurd henclosed.ends member.not_endsAt
    · exact ⟨i, hout, member, name⟩

/-- What the walk stops at in an access is the name of a member, or it stands in the brackets. -/
theorem Takes.name_cases {range : Option Range} {kind : TokenKind}
    (h : Takes body index range next) (hle : index ≤ m) (hlt : m < next) (hm : body.KindAt m kind)
    (hkind : stopsAt kind = true) :
    (MemberAt body index ∧ m = index + 1) ∨
      ∃ inner, range = some inner ∧ inner.start ≤ m ∧ m < inner.stop := by
  have other : ∀ {k : Nat} {kind' : TokenKind}, body.KindAt k kind' → stopsAt kind' = false →
      m ≠ k := by
    rintro k kind' hk hkind' rfl
    exact hm.not_kindAt hkind hkind' hk
  have signs : body.KindAt index .dot ∨ body.KindAt index .safe → m ≠ index := by
    rintro (hsign | hsign)
    · exact other hsign (by decide)
    · exact other hsign (by decide)
  have brackets : ∀ {opener : Nat}, body.KindAt opener .opening → opener ≤ m →
      m < body.partner opener + 1 → opener + 1 ≤ m ∧ m < body.partner opener := by
    intro opener hopener hle hlt
    have hclosing : kind ≠ .closing := by
      rintro rfl
      contradiction
    exact ⟨Nat.lt_of_le_of_ne hle (Ne.symm (other hopener (by decide))),
      (body.partner_ends hopener).2.lt_of_kindAt hclosing (Nat.le_of_lt_succ hlt) hm⟩
  cases h with
  | member member =>
    have := signs member.sign
    exact .inl ⟨member, by omega⟩
  | call member opening =>
    have := signs member.sign
    by_cases hname : m = index + 1
    · exact .inl ⟨member, hname⟩
    · exact .inr ⟨_, rfl, brackets opening (by omega) hlt⟩
  | brackets opening => exact .inr ⟨_, rfl, brackets opening hle hlt⟩
  | selection sign opening =>
    have := sign.elim (fun hat => other hat (by decide)) fun hat => other hat (by decide)
    exact .inr ⟨_, rfl, brackets opening (by omega) hlt⟩

/-! ## The tokens of one chain -/

section OneChain

variable {t : Token} {range : Range}

/-- A stretch nested in a chain stands in the brackets of one of its accesses, and
    the chain goes on behind them. -/
theorem exists_accessIn_of_mem_nested (henclosed : Enclosed body start stop)
    (hstart : start ≤ index) (hlt : index < stop) (ht : body.tokens[index]? = some t)
    (h : range ∈ (chainAt body index stop t).nested) :
    ∃ opener i access, range = bracketBody body opener ∧ body.KindAt opener .opening ∧
      i ≤ opener ∧ access.body? = some range ∧
        AccessIn body (headEnd body index) stop (chainAt body index stop t).next access i
          (range.stop + 1) := by
  have hend := headEnd_eq ht henclosed.ends hlt
  obtain ⟨whole, hwhole, rfl⟩ := List.mem_map.1 h
  obtain ⟨access, haccess, hnested⟩ := List.mem_filterMap.1 hwhole
  have hbody := body?_of_nestedIn hnested
  obtain ⟨i, next, hin⟩ := exists_accessIn_of_mem henclosed.ends haccess
  have htakes := takes_of_accessAt? hin.accessed
  rw [hbody] at htakes
  obtain ⟨opener, rfl, hopening, rfl, hle, -⟩ := htakes.range
  have hbefore := hin.before.le
  have hhead := lt_headEnd body index
  have hbound := htakes.next_le henclosed (by omega) hin.lt_stop
  have hclip : (bracketBody body opener).clip stop = bracketBody body opener := by
    rw [Range.clip, bracketBody, Nat.min_eq_left (Nat.le_of_succ_le_succ hbound)]
  rw [hclip]
  refine ⟨opener, i, access, rfl, hopening, hle, hbody, ?_⟩
  rw [hend]
  exact hin

theorem stop_lt_next_of_mem_nested (henclosed : Enclosed body start stop)
    (hstart : start ≤ index) (hlt : index < stop) (ht : body.tokens[index]? = some t)
    (h : range ∈ (chainAt body index stop t).nested) :
    range.stop < (chainAt body index stop t).next := by
  obtain ⟨-, i, access, -, -, -, -, hin⟩ :=
    exists_accessIn_of_mem_nested henclosed hstart hlt ht h
  exact hin.behind.le

theorem enclosed_of_mem_nested (henclosed : Enclosed body start stop) (hstart : start ≤ index)
    (hlt : index < stop) (ht : body.tokens[index]? = some t)
    (h : range ∈ (chainAt body index stop t).nested) : Enclosed body range.start range.stop := by
  obtain ⟨opener, -, -, rfl, hopening, -⟩ :=
    exists_accessIn_of_mem_nested henclosed hstart hlt ht h
  exact enclosed_brackets hopening

/-- A name among the tokens of a chain is taken up by it, or it is nested in it. -/
theorem takesUp_or_nested {kind : TokenKind} (henclosed : Enclosed body start stop)
    (hlt : index < stop) (ht : body.tokens[index]? = some t)
    (hm : body.KindAt m kind) (hkind : stopsAt kind = true) (hafter : index < m)
    (hbefore : m < (chainAt body index stop t).next) (hstop : m < stop) :
    TakesUp body index m ∨
      ∃ range ∈ (chainAt body index stop t).nested, range.start ≤ m ∧ m < range.stop := by
  have hend := headEnd_eq ht henclosed.ends hlt
  by_cases hhead : m < headEnd body index
  · exact .inl (.head hafter hhead)
  -- Behind the head every token of the chain belongs to one of its accesses.
  rw [hend] at hhead
  obtain ⟨access, haccess, i, next, hin, hle, hnext⟩ :=
    exists_accessIn_of_le henclosed.ends (Nat.le_of_not_lt hhead) hbefore
  rcases (takes_of_accessAt? hin.accessed).name_cases hle hnext hm hkind with
    ⟨member, hname⟩ | ⟨inner, hinner, hfrom, hto⟩
  · refine .inl (.member i ?_ member hname)
    rw [hend]
    exact hin.before
  · have hnested : ∀ reads, nestedIn reads access = some inner := by
      intro reads
      cases access with
      | item key item =>
        -- Between these brackets there is nothing but a string.
        obtain rfl := Option.some.inj hinner
        obtain ⟨hone, hstring⟩ := string_of_item hin.accessed
        obtain rfl : m = item.start := by omega
        exact absurd hstring (hm.not_kindAt hkind (by decide))
      | _ => exact hinner
    refine .inr ⟨inner.clip stop, List.mem_map_of_mem (List.mem_filterMap.2 ⟨access, haccess,
      hnested _⟩), hfrom, ?_⟩
    exact Nat.lt_min.2 ⟨hto, hstop⟩

/-- What is nested in a chain is not taken up by it. -/
theorem not_takesUp_of_nested (henclosed : Enclosed body start stop) (hstart : start ≤ index)
    (hlt : index < stop) (ht : body.tokens[index]? = some t)
    (h : range ∈ (chainAt body index stop t).nested) (hfrom : range.start ≤ m)
    (hto : m < range.stop) : ¬TakesUp body index m := by
  obtain ⟨opener, i, access, rfl, hopening, hle, -, hin⟩ :=
    exists_accessIn_of_mem_nested henclosed hstart hlt ht h
  have hbefore := hin.before.le
  have hinside : opener + 1 ≤ m := hfrom
  intro htakes
  cases htakes with
  | head after before => omega
  | member j leads member name =>
    rcases hin.before.behind leads hin.accessed with hj | hbehind
    · -- The sign of the member would be the bracket.
      obtain rfl : j = opener := by omega
      exact member.not_kindAt (by decide) (by decide) hopening
    · have := hbehind.le
      omega

/-- Neither is what stands behind it. -/
theorem not_takesUp_behind (henclosed : Enclosed body start stop) (hlt : index < stop)
    (ht : body.tokens[index]? = some t) (hfrom : (chainAt body index stop t).next ≤ m)
    (hto : m < stop) : ¬TakesUp body index m := by
  have hend := headEnd_eq ht henclosed.ends hlt
  have hleads : LeadsTo body (headEnd body index) (chainAt body index stop t).next := by
    rw [hend]
    exact leadsTo_accessesFrom henclosed.ends _
  have hbound := hleads.le
  intro htakes
  cases htakes with
  | head after before => omega
  | member j leads member name =>
    obtain ⟨access, next, haccess, htwo⟩ := exists_accessAt?_of_memberAt member
    rcases leads.behind hleads haccess with hle | hbehind
    · -- The accesses would go on behind the last of them.
      have hlast : stop ≤ (chainAt body index stop t).next ∨
          accessAt? body (chainAt body index stop t).next body.tokens.length = none :=
        accessAt?_behind henclosed.ends _
      rcases hlast with hover | hnone
      · omega
      · have hequal : j = (chainAt body index stop t).next := by
          rcases hleads.linear leads with hmore | hless
          · exact hmore.eq_of_none hnone
          · exact Nat.le_antisymm hless.le hle
        rw [hequal, hnone] at haccess
        contradiction
    · have := hbehind.le
      omega

/-- Two stretches nested in a chain are one and the same, or the one stands behind
    the bracket that ends the other. -/
theorem nested_cases {other : Range} (henclosed : Enclosed body start stop)
    (hstart : start ≤ index) (hlt : index < stop) (ht : body.tokens[index]? = some t)
    (h : range ∈ (chainAt body index stop t).nested)
    (h' : other ∈ (chainAt body index stop t).nested) :
    range = other ∨ range.stop + 1 ≤ other.start ∨ other.stop + 1 ≤ range.start := by
  obtain ⟨opener, i, access, hrange, -, hle, hbody, hin⟩ :=
    exists_accessIn_of_mem_nested henclosed hstart hlt ht h
  obtain ⟨opener', i', access', hrange', -, hle', hbody', hin'⟩ :=
    exists_accessIn_of_mem_nested henclosed hstart hlt ht h'
  have hopener : range.start = opener + 1 := by rw [hrange]; rfl
  have hopener' : other.start = opener' + 1 := by rw [hrange']; rfl
  rcases hin.before.behind hin'.before hin.accessed with hi' | hbehind
  · rcases hin'.before.behind hin.before hin'.accessed with hi | hbehind'
    · obtain rfl : i = i' := Nat.le_antisymm hi hi'
      obtain ⟨rfl, -⟩ := Prod.mk.inj (Option.some.inj (hin.accessed.symm.trans hin'.accessed))
      exact .inl (Option.some.inj (hbody.symm.trans hbody'))
    · have := hbehind'.le
      exact .inr (.inr (by omega))
  · have := hbehind.le
    exact .inr (.inl (by omega))

end OneChain

/-! ## The walk takes up every name once -/

/-- The walk does not leave its stretch. -/
theorem index_bounds_of_mem_walk {visit : Visit} (h : visit ∈ walk body index stop) :
    index ≤ visit.index ∧ visit.index < stop := by
  fun_induction walk body index stop
  case case1 | case7 => simp at h
  case case2 index stop hlt t ht hkind ih =>
    rcases List.mem_cons.1 h with rfl | h
    · exact ⟨Nat.le_refl _, hlt⟩
    · have := ih h
      omega
  case case3 index stop hlt t ht _ nested later | case4 index stop hlt t ht _ nested later
      | case5 index stop hlt t ht _ nested later =>
    rcases mem_chain.1 h with rfl | ⟨range, hrange, h⟩ | h
    · exact ⟨Nat.le_refl _, hlt⟩
    · have hbounds : range.start ≤ visit.index ∧ visit.index < range.stop :=
        nested ⟨range, hrange⟩ h
      have := chainAt_nested_bounds hrange
      omega
    · have := later h
      have := lt_chainAt_next body index stop t
      omega
  case case6 ih =>
    have := ih h
    omega

theorem visited_bounds (h : Visited (walk body index stop) k) : index ≤ k ∧ k < stop := by
  obtain ⟨visit, hmem, rfl⟩ := h
  exact index_bounds_of_mem_walk hmem

theorem starts_bounds (h : Starts (walk body index stop) k) : index ≤ k ∧ k < stop :=
  visited_bounds h.visited

theorem kindAt_of_starts {k : Nat} (h : Starts (walk body index stop) k) :
    ∃ kind, body.KindAt k kind ∧ headsChain kind = true := by
  fun_induction walk body index stop
  case case1 | case7 => simp [Starts] at h
  case case2 ih => exact ih (starts_cons_nested.1 h)
  case case3 index stop hlt t ht hkind nested later | case4 index stop hlt t ht hkind nested later
      | case5 index stop hlt t ht hkind nested later =>
    rcases starts_chain.1 h with rfl | ⟨range, hrange, hk⟩ | hk
    · exact ⟨t.kind, ⟨t, ht, rfl⟩, by rw [hkind]; decide⟩
    · exact nested ⟨range, hrange⟩ hk
    · exact later hk
  case case6 ih => exact ih h

/-- **Nothing is missed**: the walk stops at every name and every nested expression of
    an enclosed stretch, unless a chain takes it up. -/
theorem visited_or_taken {kind : TokenKind} (henclosed : Enclosed body index stop)
    (hle : index ≤ m) (hlt : m < stop) (hm : body.KindAt m kind) (hkind : stopsAt kind = true) :
    Visited (walk body index stop) m ∨
      ∃ k, Starts (walk body index stop) k ∧ TakesUp body k m := by
  fun_induction walk body index stop
  case case1 index stop hbound hnone =>
    have := hm.lt_length
    have := List.getElem?_eq_none_iff.1 hnone
    omega
  case case2 index stop hbound t ht hnested ih =>
    simp only [starts_cons_nested, visited_cons_nested]
    rcases Nat.lt_or_eq_of_le hle with hafter | rfl
    · rcases ih (henclosed.mono (Nat.le_succ _)) hafter hlt with hvisited | htaken
      · exact .inl (.inr hvisited)
      · exact .inr htaken
    · exact .inl (.inl rfl)
  case case3 index stop hbound t ht _ nested later | case4 index stop hbound t ht _ nested later
      | case5 index stop hbound t ht _ nested later =>
    -- The token stands among those of the chain or behind them, and among them it is
    -- the chain's own or nested: the walk takes every one of these ways.
    simp only [starts_chain, visited_chain]
    have hgrows := lt_chainAt_next body index stop t
    rcases Nat.lt_or_ge m (chainAt body index stop t).next with hbefore | hbehind
    · rcases Nat.lt_or_eq_of_le hle with hafter | rfl
      · rcases takesUp_or_nested henclosed hbound ht hm hkind hafter hbefore hlt with
          htakes | ⟨range, hrange, hfrom, hto⟩
        · exact .inr ⟨index, .inl rfl, htakes⟩
        · have hinner := enclosed_of_mem_nested henclosed (Nat.le_refl _) hbound ht hrange
          rcases nested ⟨range, hrange⟩ hinner hfrom hto with hvisited | ⟨k, hk, htakes⟩
          · exact .inl (.inr (.inl ⟨range, hrange, hvisited⟩))
          · exact .inr ⟨k, .inr (.inl ⟨range, hrange, hk⟩), htakes⟩
      · exact .inl (.inl rfl)
    · rcases later (henclosed.mono (Nat.le_of_lt hgrows)) hbehind hlt with
        hvisited | ⟨k, hk, htakes⟩
      · exact .inl (.inr (.inr hvisited))
      · exact .inr ⟨k, .inr (.inr hk), htakes⟩
  case case6 index stop hbound t ht hnested hidentifier hutility hbean ih =>
    have hne : m ≠ index := by
      rintro rfl
      rw [hm.eq ⟨t, ht, rfl⟩] at hkind
      cases hk : t.kind <;> simp_all [stopsAt, headsChain]
    exact ih (henclosed.mono (Nat.le_succ _)) (by omega) hlt
  case case7 index stop hbound => omega

/-- At a name the walk starts a chain. -/
theorem starts_or_taken {kind : TokenKind} (henclosed : Enclosed body index stop)
    (hle : index ≤ m) (hlt : m < stop) (hm : body.KindAt m kind) (hkind : headsChain kind = true) :
    Starts (walk body index stop) m ∨
      ∃ k, Starts (walk body index stop) k ∧ TakesUp body k m := by
  refine (visited_or_taken henclosed hle hlt hm (stopsAt_of_headsChain hkind)).imp_left ?_
  rintro ⟨visit, hvisit, rfl⟩
  cases visit with
  | chain i chain => exact ⟨chain, hvisit⟩
  | nested i text =>
    obtain ⟨t, ht, hnested, -⟩ := token_of_nested_mem_walk hvisit
    exact absurd ⟨t, ht, hnested⟩ (hm.not_kindAt hkind (by decide))

/-- **Nothing is taken up twice**: where the walk stops no chain takes the token up. -/
theorem not_takesUp_of_visited (henclosed : Enclosed body index stop)
    (hm : Visited (walk body index stop) m) (hk : Starts (walk body index stop) k) :
    ¬TakesUp body k m := by
  fun_induction walk body index stop
  case case1 | case7 => simp [Starts] at hk
  case case2 ih =>
    have hkbounds := starts_bounds (starts_cons_nested.1 hk)
    intro htakes
    have hlt := htakes.lt
    rcases visited_cons_nested.1 hm with rfl | hm
    · omega
    · exact ih (henclosed.mono (Nat.le_succ _)) hm (starts_cons_nested.1 hk) htakes
  case case3 index stop hbound t ht _ nested later | case4 index stop hbound t ht _ nested later
      | case5 index stop hbound t ht _ nested later =>
    have hgrows := lt_chainAt_next body index stop t
    -- What a nested chain takes up beyond its stretch the chain around it takes up.
    have outside : ∀ range ∈ (chainAt body index stop t).nested, range.start ≤ k → k < range.stop →
        range.stop < m → TakesUp body k m → TakesUp body index m := by
      intro range hrange hfrom hto hm htakes
      obtain ⟨-, i, access, -, -, -, -, hin⟩ :=
        exists_accessIn_of_mem_nested henclosed (Nat.le_refl _) hbound ht hrange
      obtain ⟨j, hleads, hmember, rfl⟩ := htakes.escape
        (enclosed_of_mem_nested henclosed (Nat.le_refl _) hbound ht hrange) hfrom hto hm
      exact .member j (hin.before.trans (.step hin.accessed hleads)) hmember rfl
    -- Each of the two stands at the chain itself, nested in it, or behind it; the
    -- induction is asked only when both are nested in one stretch or both behind.
    intro htakes
    have hlt := htakes.lt
    rcases visited_chain.1 hm with rfl | ⟨range, hrange, hm⟩ | hm
    · rcases starts_chain.1 hk with rfl | ⟨other, hother, hk⟩ | hk
      · omega
      · have := starts_bounds hk
        have := chainAt_nested_bounds hother
        omega
      · have := starts_bounds hk
        omega
    · have hmbounds := visited_bounds hm
      have own := not_takesUp_of_nested henclosed (Nat.le_refl _) hbound ht hrange hmbounds.1
        hmbounds.2
      rcases starts_chain.1 hk with rfl | ⟨other, hother, hk⟩ | hk
      · exact own htakes
      · have hkbounds := starts_bounds hk
        rcases nested_cases henclosed (Nat.le_refl _) hbound ht hrange hother with
          rfl | hbehind | hbefore
        · exact nested ⟨range, hrange⟩
            (enclosed_of_mem_nested henclosed (Nat.le_refl _) hbound ht hrange) hm hk htakes
        · omega
        · exact own (outside other hother hkbounds.1 hkbounds.2 (by omega) htakes)
      · have := starts_bounds hk
        have := stop_lt_next_of_mem_nested henclosed (Nat.le_refl _) hbound ht hrange
        omega
    · have hmbounds := visited_bounds hm
      have own := not_takesUp_behind henclosed hbound ht hmbounds.1 hmbounds.2
      rcases starts_chain.1 hk with rfl | ⟨other, hother, hk⟩ | hk
      · exact own htakes
      · have hkbounds := starts_bounds hk
        have := stop_lt_next_of_mem_nested henclosed (Nat.le_refl _) hbound ht hother
        exact own (outside other hother hkbounds.1 hkbounds.2 (by omega) htakes)
      · exact later (henclosed.mono (Nat.le_of_lt hgrows)) hm hk htakes
  case case6 ih => exact ih (henclosed.mono (Nat.le_succ _)) hm hk

theorem not_takesUp_of_starts (henclosed : Enclosed body index stop)
    (hm : Starts (walk body index stop) m) (hk : Starts (walk body index stop) k) :
    ¬TakesUp body k m :=
  not_takesUp_of_visited henclosed hm.visited hk

end TemplateAnalysis.Variable
