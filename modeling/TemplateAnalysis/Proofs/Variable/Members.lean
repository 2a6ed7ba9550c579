import TemplateAnalysis.Proofs.Variable.Covering
import TemplateAnalysis.Proofs.Variable.Leading

/-! # Members and variables

    A name behind a dot is a member of what stands in front of it. Whether it is
    taken for a variable depends on what the walk has made of that:

    * **`emitsAt_iff`**: a name is taken for a variable when no chain takes it up and
      it can lead a path;
    * **`takesUp_next_member`**: what takes up a name takes up its member as well;
    * **`emitsAt_member_iff`**: so a member is taken for a variable exactly when no
      chain leads to its dot, it stands in the head of no chain, and its name can
      lead a path.

    What is no chain leads nowhere: a group, a literal, a nested expression and a
    list are passed over token by token, and then the dot behind them as well.
-/

namespace TemplateAnalysis.Variable

open Text Expression

variable {body : Body} {index stop i j k m : Nat} {text : List Char}

/-! ## Names that are emitted -/

/-- The walk over a body starts a chain at the index that reads a path. -/
def EmitsAt (text : List Char) (index : Nat) : Prop :=
  ∃ chain, .chain index chain ∈ visits text ∧ chain.segments ≠ []

/-- A chain of the walk is the one that starts at its index, read up to where its
    stretch ends. -/
theorem eq_chainAt_of_mem_walk {chain : Chain} (henclosed : Enclosed body index stop)
    (h : .chain i chain ∈ walk body index stop) :
    ∃ t stop', body.tokens[i]? = some t ∧ i < stop' ∧ body.EndsAt stop' ∧
      chain = chainAt body i stop' t := by
  fun_induction walk body index stop
  case case1 | case7 => simp at h
  case case2 ih => exact ih (henclosed.mono (Nat.le_succ _)) (List.mem_of_ne_of_mem (by simp) h)
  case case3 index stop hlt t ht _ nested later | case4 index stop hlt t ht _ nested later
      | case5 index stop hlt t ht _ nested later =>
    rcases mem_chain.1 h with h | ⟨range, hrange, h⟩ | h
    · obtain ⟨rfl, rfl⟩ := Visit.chain.inj h
      exact ⟨t, stop, ht, hlt, henclosed.ends, rfl⟩
    · exact nested ⟨range, hrange⟩
        (enclosed_of_mem_nested henclosed (Nat.le_refl _) hlt ht hrange) h
    · exact later (henclosed.mono (Nat.le_of_lt (lt_chainAt_next body index stop t))) h
  case case6 ih => exact ih (henclosed.mono (Nat.le_succ _)) h

/-- A name that reads a path: it can lead one, and it is no type reference. -/
structure ReadsPath (body : Body) (index : Nat) (name : List Char) : Prop where
  canLead : CanLead name
  not_type : name = ['T'] → body.opensWith (index + 1) body.tokens.length '(' = false

/-- A name can lead a path unless it is one of the names that read none. -/
theorem canLead_iff {name : List Char} (hname : isIdentifier name = true) :
    CanLead name ↔
      ¬(isReservedWord name || isSecurityFunction name || isUnderscores name) = true := by
  have htrim := trim_of_isIdentifier hname
  simp only [Bool.or_eq_true, not_or, Bool.not_eq_true]
  constructor
  · intro h
    refine ⟨⟨?_, ?_⟩, ?_⟩
    · rw [isReservedWord, htrim]
      simpa using h.not_reserved
    · rw [isSecurityFunction, htrim]
      simpa using h.not_security
    · simpa [isUnderscores] using h.not_underscores
  · rintro ⟨⟨hreserved, hsecurity⟩, hunderscores⟩
    exact canLead_of_isIdentifier hname hreserved hsecurity hunderscores

/-- The chain at a name reads a path when the name does. -/
theorem segments_ne_nil_iff {t : Token} (hends : (Body.ofText text).EndsAt stop)
    (hlt : index < stop) (ht : t ∈ tokenize text) (hkind : t.kind = .identifier) :
    (chainAt (Body.ofText text) index stop t).segments ≠ [] ↔
      ReadsPath (Body.ofText text) index t.text := by
  have hlead := canLead_iff (isIdentifier_of_mem_tokenize ht hkind)
  have hsegments : (chainAt (Body.ofText text) index stop t).segments ≠ [] ↔
      (headAt (Body.ofText text) index (Body.ofText text).tokens.length t).segment.isSome =
        true := by
    rw [← headAt_stop hends hlt]
    cases hsegment : (headAt (Body.ofText text) index stop t).segment <;> simp [chainAt, hsegment]
  rw [hsegments, headAt, hkind]
  dsimp only
  split
  · -- The word that starts a constructor call is reserved.
    rename_i hnew
    refine iff_of_false (by simp) fun h => hlead.1 h.canLead ?_
    rw [beq_iff_eq.1 hnew]
    decide
  · split
    · rename_i htype
      obtain ⟨hletter, hopens⟩ := Bool.and_eq_true _ _ ▸ htype
      refine iff_of_false (by simp) fun h => ?_
      rw [h.not_type (beq_iff_eq.1 hletter)] at hopens
      contradiction
    · rename_i htype
      have hno : t.text = ['T'] → (Body.ofText text).opensWith (index + 1)
          (Body.ofText text).tokens.length '(' = false := by
        intro hletter
        simpa [hletter] using htype
      split
      · rename_i hsilent
        exact iff_of_false (by simp) fun h => hlead.1 h.canLead hsilent
      · rename_i hsilent
        exact iff_of_true rfl ⟨hlead.2 hsilent, hno⟩

/-- **Which names are emitted**: those that the walk takes up with no chain, when they
    can lead a path. -/
theorem emitsAt_iff {t : Token} (ht : (tokenize text)[m]? = some t) (hkind : t.kind = .identifier) :
    EmitsAt text m ↔
      (∀ k, Starts (visits text) k → ¬TakesUp (Body.ofText text) k m) ∧
        ReadsPath (Body.ofText text) m t.text := by
  have whole := enclosed_whole (Body.ofText text)
  have hmem : t ∈ tokenize text := List.mem_of_getElem? ht
  have hlt : m < (Body.ofText text).tokens.length := (List.getElem?_eq_some_iff.1 ht).1
  have segments : ∀ chain, .chain m chain ∈ visits text →
      (chain.segments ≠ [] ↔ ReadsPath (Body.ofText text) m t.text) := by
    intro chain hchain
    obtain ⟨u, stop, hu, hstop, hends, rfl⟩ := eq_chainAt_of_mem_walk whole hchain
    obtain rfl : t = u := Option.some.inj (ht.symm.trans hu)
    exact segments_ne_nil_iff hends hstop hmem hkind
  constructor
  · rintro ⟨chain, hchain, hne⟩
    exact ⟨fun k hk => not_takesUp_of_starts whole ⟨chain, hchain⟩ hk,
      (segments chain hchain).1 hne⟩
  · rintro ⟨hnot, hreads⟩
    rcases starts_or_taken whole (Nat.zero_le m) hlt ⟨t, ht, hkind⟩ (by decide) with
      ⟨chain, hchain⟩ | ⟨k, hk, htakes⟩
    · exact ⟨chain, hchain, (segments chain hchain).2 hreads⟩
    · exact absurd htakes (hnot k hk)

/-! ## Members of chains -/

theorem skipName_of_kindAt {kind : TokenKind} (h : body.KindAt index kind)
    (hkind : kind = .identifier ∨ kind = .dot) :
    skipName body body.tokens.length index = skipName body body.tokens.length (index + 1) := by
  rw [skipName, if_pos]
  rw [Bool.or_eq_true, hasKind_length, hasKind_length]
  rcases hkind with rfl | rfl
  · exact .inl h
  · exact .inr h

/-- A run of names and dots that is skipped from an index on is skipped from each of
    its tokens on. -/
theorem skipName_of_mem (hle : index ≤ j) (hlt : j < skipName body body.tokens.length index) :
    skipName body body.tokens.length j = skipName body body.tokens.length index ∧
      (body.KindAt j .identifier ∨ body.KindAt j .dot) := by
  fun_induction skipName body body.tokens.length index with
  | case1 index hname ih =>
    rcases Nat.lt_or_eq_of_le hle with hafter | rfl
    · exact ih hafter hlt
    · rw [Bool.or_eq_true, hasKind_length, hasKind_length] at hname
      refine ⟨?_, hname⟩
      rcases hname with hname | hdot
      · exact skipName_of_kindAt hname (.inl rfl)
      · exact skipName_of_kindAt hdot (.inr rfl)
  | case2 index hname => omega

/-- A run of names and dots that is skipped goes over a member with a plain dot, and
    ends at a safe one. -/
theorem skipName_member (hmember : MemberAt body index) :
    skipName body body.tokens.length index = index ∨
      index + 2 ≤ skipName body body.tokens.length index := by
  rcases hmember.sign with hdot | hsafe
  · right
    rw [skipName_of_kindAt hdot (.inr rfl), skipName_of_kindAt hmember.name (.inl rfl)]
    exact le_skipName body _ (index + 2)
  · left
    rw [skipName, if_neg]
    rw [Bool.or_eq_true, hasKind_length, hasKind_length, not_or]
    exact ⟨fun h => absurd (hsafe.eq h) (by decide), fun h => absurd (hsafe.eq h) (by decide)⟩

/-- A head that holds a name ends right behind it, in front of the member that
    follows, or it holds the member as well. -/
theorem headEnd_next_member {kind : TokenKind} (hj : body.KindAt j kind)
    (hkind : headsChain kind = true) (hmember : MemberAt body (j + 1)) (hle : k ≤ j)
    (hlt : j < headEnd body k) :
    headEnd body k = j + 1 ∨ j + 3 ≤ headEnd body k := by
  have hspan := headSpan body k
  generalize headEnd body k = next at hspan hlt
  rcases Nat.lt_or_eq_of_le hle with hafter | rfl
  · cases hspan with
    | single => omega
    | typeName =>
      obtain ⟨hsame, hname | hdot⟩ := skipName_of_mem (Nat.succ_le_of_lt hafter) hlt
      · rw [← hsame, skipName_of_kindAt hname (.inl rfl)]
        exact skipName_member hmember
      · exact absurd hdot (hj.not_kindAt hkind (by decide))
    | typeReference opening =>
      -- The parentheses end behind the member: neither a name nor a sign ends them.
      have hends := (body.partner_ends opening).2
      have hinside : j < body.partner (k + 1) :=
        hends.lt_of_kindAt (by rintro rfl; contradiction) (Nat.le_of_lt_succ hlt) hj
      have hsigned : j + 1 < body.partner (k + 1) := by
        refine Nat.lt_of_le_of_ne hinside ?_
        intro heq
        exact hmember.not_endsAt (heq ▸ hends)
      have hnamed := hends.lt_of_kindAt (by decide) hsigned hmember.name
      exact .inr (by omega)
    | scopedMember sign name =>
      rcases Nat.lt_or_eq_of_le (Nat.succ_le_of_lt hafter) with hmore | rfl
      · exact .inl (by omega)
      · exact absurd sign (hj.not_kindAt hkind (by decide))
  · cases hspan with
    | single => exact .inl rfl
    | typeName => exact skipName_member hmember
    | typeReference opening =>
      exact absurd opening (hmember.not_kindAt (by decide) (by decide))
    | scopedMember sign name => exact .inr (Nat.le_refl _)

/-- What leads to a member leads to the member that follows it. -/
theorem leadsTo_next_member {start : Nat} (hleads : LeadsTo body start i) (hfirst : MemberAt body i)
    (hmember : MemberAt body (i + 2)) : LeadsTo body start (i + 2) := by
  obtain ⟨access, next, haccess, -⟩ := exists_accessAt?_of_memberAt hfirst
  have htakes := takes_of_accessAt? haccess
  generalize access.body? = range at htakes
  have hnext : next = i + 2 := by
    cases htakes with
    | member => rfl
    | call member opening => exact absurd opening (hmember.not_kindAt (by decide) (by decide))
    | brackets opening => exact absurd opening (hfirst.not_kindAt (by decide) (by decide))
    | selection sign opening => exact absurd (hfirst.name.eq opening) (by decide)
  subst hnext
  exact hleads.trans (.step haccess (.refl _))

/-- **Members follow**: a chain that starts at a name or takes it up takes up the
    member behind it as well. -/
theorem takesUp_next_member {kind : TokenKind} (hj : body.KindAt j kind)
    (hkind : headsChain kind = true) (hmember : MemberAt body (j + 1))
    (h : k = j ∨ TakesUp body k j) : TakesUp body k (j + 2) := by
  have close : k ≤ j → j < headEnd body k → TakesUp body k (j + 2) := by
    intro hle hlt
    rcases headEnd_next_member hj hkind hmember hle hlt with hend | hover
    · exact .member (j + 1) (hend ▸ .refl _) hmember rfl
    · exact .head (by omega) (by omega)
  rcases h with rfl | htakes
  · exact close (Nat.le_refl _) (lt_headEnd body _)
  · cases htakes with
    | head after before => exact close (Nat.le_of_lt after) before
    | member i leads member name =>
      subst name
      exact .member (i + 2) (leadsTo_next_member leads member hmember) hmember rfl

/-! ## Members of what is no chain -/

/-- A literal, or a nested expression. -/
def isValue (kind : TokenKind) : Bool :=
  kind == .string || kind == .number || kind == .nested

/-- **What is no chain leads nowhere**: no chain leads to what stands behind a literal
    or a nested expression. -/
theorem not_leadsTo_behind_value {kind head : TokenKind} (hj : body.KindAt j kind)
    (hkind : isValue kind = true) (hk : body.KindAt k head) (hhead : headsChain head = true) :
    ¬LeadsTo body (headEnd body k) (j + 1) := by
  have hends : ¬body.EndsAt j := fun hends => hends.not_kindAt (by rintro rfl; contradiction) hj
  have hspan := headSpan body k
  intro hleads
  -- What stands in front of the place would be the last token of a head or of an access.
  rcases hleads.last with hend | ⟨m, access, haccess⟩
  · rw [← hend] at hspan
    generalize hnext : j + 1 = next at hspan
    cases hspan with
    | single =>
      obtain rfl : j = k := Nat.succ.inj hnext
      rw [hj.eq hk] at hkind
      cases head <;> contradiction
    | typeName =>
      rcases Nat.lt_or_ge j (k + 1) with hlt | hle
      · have := le_skipName body body.tokens.length (k + 1)
        obtain rfl : j = k := by omega
        rw [hj.eq hk] at hkind
        cases head <;> contradiction
      · have hlt : j < skipName body body.tokens.length (k + 1) := hnext ▸ Nat.lt_succ_self j
        obtain ⟨-, hname | hdot⟩ := skipName_of_mem hle hlt
        · exact hj.not_kindAt hkind (by decide) hname
        · exact hj.not_kindAt hkind (by decide) hdot
    | typeReference opening =>
      obtain rfl : j = body.partner (k + 1) := Nat.succ.inj hnext
      exact hends (body.partner_ends opening).2
    | scopedMember sign name =>
      obtain rfl : j = k + 2 := Nat.succ.inj hnext
      exact hj.not_kindAt hkind (by decide) name
  · have htakes := takes_of_accessAt? haccess
    generalize access.body? = range at htakes
    generalize hnext : j + 1 = next at htakes
    cases htakes with
    | member member =>
      obtain rfl : j = m + 1 := Nat.succ.inj hnext
      exact hj.not_kindAt hkind (by decide) member.name
    | call member opening | brackets opening | selection sign opening =>
      obtain rfl := Nat.succ.inj hnext
      exact hends (body.partner_ends opening).2

/-- **Which members are taken for variables.** A name behind a dot, safe or not, is
    the head of a path exactly when no chain of the walk leads to its dot, it stands in
    the head of no chain, and it can lead a path. So the member of a name, of a utility
    object or of a bean never is one; but the member of a literal or of a nested
    expression always is, if it can lead a path, unless it stands in the head of a
    chain, as in the parentheses of a type reference. -/
theorem emitsAt_member_iff {t : Token} (hmember : MemberAt (Body.ofText text) i)
    (ht : (tokenize text)[i + 1]? = some t) :
    (EmitsAt text (i + 1) ↔
      (∀ k, Starts (visits text) k →
        ¬LeadsTo (Body.ofText text) (headEnd (Body.ofText text) k) i ∧
          ¬(k < i + 1 ∧ i + 1 < headEnd (Body.ofText text) k)) ∧
      ReadsPath (Body.ofText text) (i + 1) t.text) ∧
    (∀ j kind, i = j + 1 → (Body.ofText text).KindAt j kind → headsChain kind = true →
      ¬EmitsAt text (i + 1)) ∧
    ∀ j kind, i = j + 1 → (Body.ofText text).KindAt j kind → isValue kind = true →
      (EmitsAt text (i + 1) ↔
        (∀ k, Starts (visits text) k → ¬(k < i + 1 ∧ i + 1 < headEnd (Body.ofText text) k)) ∧
          ReadsPath (Body.ofText text) (i + 1) t.text) := by
  have hkind : t.kind = .identifier := by
    obtain ⟨u, hu, hkind⟩ := hmember.name
    rwa [Option.some.inj (ht.symm.trans hu)]
  have hemits := emitsAt_iff ht hkind
  have htakes : ∀ k, TakesUp (Body.ofText text) k (i + 1) ↔
      LeadsTo (Body.ofText text) (headEnd (Body.ofText text) k) i ∨
        (k < i + 1 ∧ i + 1 < headEnd (Body.ofText text) k) := by
    intro k
    constructor
    · rintro (⟨after, before⟩ | ⟨j, hleads, -, hj⟩)
      · exact .inr ⟨after, before⟩
      · exact .inl (Nat.succ.inj hj ▸ hleads)
    · rintro (hleads | ⟨after, before⟩)
      · exact .member i hleads hmember rfl
      · exact .head after before
  simp only [htakes, not_or] at hemits
  refine ⟨hemits, ?_, ?_⟩
  · rintro j kind rfl hj hhead hemitted
    have htaken : ∃ k, Starts (visits text) k ∧ (k = j ∨ TakesUp (Body.ofText text) k j) := by
      rcases starts_or_taken (enclosed_whole _) (Nat.zero_le j) hj.lt_length hj hhead with
        hstarts | ⟨k, hk, htakes⟩
      · exact ⟨j, hstarts, .inl rfl⟩
      · exact ⟨k, hk, .inr htakes⟩
    obtain ⟨k, hk, htakenUp⟩ := htaken
    rcases (htakes k).1 (takesUp_next_member hj hhead hmember htakenUp) with hleads | hhead
    · exact ((hemits.1 hemitted).1 k hk).1 hleads
    · exact ((hemits.1 hemitted).1 k hk).2 hhead
  · rintro j kind rfl hj hvalue
    rw [hemits]
    refine and_congr_left fun _ => forall₂_congr fun k hk => and_iff_right ?_
    obtain ⟨head, hat, hhead⟩ := kindAt_of_starts hk
    exact not_leadsTo_behind_value hj hvalue hat hhead

/-- A member of a group. -/
def groupSample : List Char :=
  "(a).b".toList

theorem emitsAt_groupSample :
    MemberAt (Body.ofText groupSample) 3 ∧ EmitsAt groupSample 4 ∧
      ReadsPath (Body.ofText groupSample) 4 ['b'] := by
  have hmember : MemberAt (Body.ofText groupSample) 3 := by
    refine ⟨.inl ⟨⟨.dot, ['.'], 3⟩, ?_, rfl⟩, ⟨⟨.identifier, ['b'], 4⟩, ?_, rfl⟩⟩ <;> decide +kernel
  have ht : (tokenize groupSample)[3 + 1]? = some ⟨.identifier, ['b'], 4⟩ := by decide +kernel
  have hvisits : visits groupSample =
      [.chain 1 ⟨[['a']], [], [], 2⟩, .chain 4 ⟨[['b']], [], [], 5⟩] := by
    decide +kernel
  have hemits : EmitsAt groupSample 4 := by
    rw [EmitsAt, hvisits]
    exact ⟨_, List.mem_cons_of_mem _ List.mem_cons_self, by simp⟩
  exact ⟨hmember, hemits, ((emitsAt_member_iff hmember ht).1.1 hemits).2⟩

-- The member of a chain is part of its path; that of a group is a path of its own.
example : (expressionMatches "${(a.b).c}".toList).map Match.path =
    ["a".toList, "a.b".toList, "c".toList] := by
  decide +kernel

end TemplateAnalysis.Variable
