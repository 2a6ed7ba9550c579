import Mathlib.Data.List.Induction
import TemplateAnalysis.Proofs.Variable.Extraction
import TemplateAnalysis.Proofs.Variable.Names

/-! # Prefixes come first

    What a template reports is in order, whether its text is well-formed or not:

    * **`templateMatches_inOrder`**: nothing is reported twice, and every path
      that is no message key stands behind all of its dotted prefixes, which are
      reported for the same expression.

    A chain lists the prefixes of its own path, as its segments are names and no
    name has a dot in it. All the rest is about lists in which some entries
    need others before them: such lists can be put one behind the other, and
    repetitions can be left out, since what comes first is what stays.
-/

namespace TemplateAnalysis.Variable

open Text Expression Markup

/-! ## Paths of a chain -/

/-- The chains of a walk start with tokens of the body. -/
theorem exists_chainAt_of_mem_walk {body : Body} {index stop i : Nat} {chain : Chain}
    (h : .chain i chain ∈ walk body index stop) :
    ∃ start stop' first, first ∈ body.tokens ∧ chain = chainAt body start stop' first := by
  fun_induction walk body index stop
  case case1 | case7 => simp at h
  case case2 ih => exact ih (List.mem_of_ne_of_mem (by simp) h)
  case case3 t ht _ nested later | case4 t ht _ nested later | case5 t ht _ nested later =>
    rcases mem_chain.1 h with h | ⟨range, hrange, h⟩ | h
    · exact ⟨_, _, t, List.mem_of_getElem? ht, (Visit.chain.inj h).2⟩
    · exact nested ⟨range, hrange⟩ h
    · exact later h
  case case6 ih => exact ih h

/-- Where a path that has been lengthened by a name is cut at a dot. -/
theorem eq_or_exists_of_append_eq {path segment q rest : List Char} (hs : '.' ∉ segment)
    (h : path ++ '.' :: segment = q ++ '.' :: rest) :
    q = path ∨ ∃ more, path = q ++ '.' :: more := by
  rcases List.append_eq_append_iff.1 h with ⟨more, rfl, hm⟩ | ⟨more, rfl, hm⟩
  · -- The cut is no further on, as there is no dot in the name.
    cases more with
    | nil => exact .inl (List.append_nil path)
    | cons c cs =>
      obtain ⟨-, rfl⟩ := List.cons.inj hm
      simp at hs
  · cases more with
    | nil => exact .inl (List.append_nil q).symm
    | cons c cs =>
      obtain ⟨rfl, -⟩ := List.cons.inj hm
      exact .inr ⟨cs, rfl⟩

/-- The prefixes of a path along names have been listed before it, or they are
    prefixes of what the path starts with. -/
theorem mem_of_pathsFrom_eq {path : List Char} {segments before after : List (List Char)}
    {p q rest : List Char} (hs : ∀ segment ∈ segments, isIdentifier segment = true)
    (h : pathsFrom path segments = before ++ p :: after) (hp : p = q ++ '.' :: rest) :
    q ∈ before ∨ (path ≠ [] ∧ (q = path ∨ ∃ more, path = q ++ '.' :: more)) := by
  induction segments generalizing path before with
  | nil => simp [pathsFrom] at h
  | cons segment others ih =>
    have name := hs segment List.mem_cons_self
    have dot := dot_notMem_of_isIdentifier name
    rw [pathsFrom, if_neg (by simpa using ne_nil_of_isIdentifier name)] at h
    -- A prefix of the longer path is a prefix of the path, or the path itself.
    have longer : ∀ {q rest : List Char},
        (if path.isEmpty then segment else path ++ '.' :: segment) = q ++ '.' :: rest →
          path ≠ [] ∧ (q = path ∨ ∃ more, path = q ++ '.' :: more) := by
      intro q rest hl
      cases path with
      | nil =>
        rw [List.isEmpty_nil, if_pos rfl] at hl
        exact absurd (hl ▸ List.mem_append_right q List.mem_cons_self) dot
      | cons c cs => exact ⟨by simp, eq_or_exists_of_append_eq dot hl⟩
    dsimp only at h
    generalize (if path.isEmpty then segment else path ++ '.' :: segment) = next at h longer
    cases before with
    | nil => exact .inr (longer ((List.cons.inj h).1.trans hp))
    | cons first before =>
      obtain ⟨rfl, hrest⟩ := List.cons.inj h
      rcases ih (fun s hm => hs s (List.mem_cons_of_mem segment hm)) hrest with hq | ⟨-, rfl | hq⟩
      · exact .inl (List.mem_cons_of_mem _ hq)
      · exact .inl List.mem_cons_self
      · obtain ⟨more, hm⟩ := hq
        exact .inr (longer hm)

/-! ## Lists in order -/

section Order

variable {α β : Type} {needs : α → α → Prop}

/-- What an entry needs stands before it. -/
def InOrder (needs : α → α → Prop) (entries : List α) : Prop :=
  ∀ before entry after, entries = before ++ entry :: after →
    ∀ other, needs entry other → other ∈ before

theorem inOrder_nil : InOrder needs [] := by
  intro before entry after h
  simp at h

theorem inOrder_singleton {entry : α} (h : ∀ other, ¬needs entry other) :
    InOrder needs [entry] := by
  intro before first after hsplit other hn
  have : first ∈ [entry] := hsplit ▸ List.mem_append_right before List.mem_cons_self
  obtain rfl := List.mem_singleton.1 this
  exact absurd hn (h other)

theorem InOrder.append {front back : List α} (hf : InOrder needs front)
    (hb : InOrder needs back) : InOrder needs (front ++ back) := by
  intro before entry after h other hn
  rcases List.append_eq_append_iff.1 h with ⟨more, rfl, hm⟩ | ⟨more, hm, hrest⟩
  · exact List.mem_append_right front (hb more entry after hm other hn)
  · cases more with
    | nil =>
      have := hb [] entry after hrest.symm other hn
      contradiction
    | cons first more =>
      obtain ⟨rfl, -⟩ := List.cons.inj hrest
      exact hf before entry more hm other hn

theorem inOrder_flatMap {entries : List β} {f : β → List α}
    (h : ∀ entry ∈ entries, InOrder needs (f entry)) : InOrder needs (entries.flatMap f) := by
  induction entries with
  | nil => exact inOrder_nil
  | cons first rest ih =>
    rw [List.flatMap_cons]
    exact (h first List.mem_cons_self).append
      (ih fun entry hm => h entry (List.mem_cons_of_mem first hm))

variable [BEq α] [LawfulBEq α]

theorem eraseDups_concat (entries : List α) (entry : α) :
    (entries ++ [entry]).eraseDups =
      if entry ∈ entries then entries.eraseDups else entries.eraseDups ++ [entry] := by
  rw [List.eraseDups_append, List.removeAll]
  split
  · simp_all
  · simp_all [List.eraseDups_cons]

theorem nodup_eraseDups (entries : List α) : entries.eraseDups.Nodup := by
  induction entries using List.reverseRecOn with
  | nil => simp
  | append_singleton entries entry ih =>
    rw [eraseDups_concat]
    split
    · exact ih
    · rename_i h
      refine ih.append (List.nodup_singleton entry) fun other ho hs => ?_
      obtain rfl := List.mem_singleton.1 hs
      exact h (List.mem_eraseDups.1 ho)

/-- Of repeated entries the first stays, and with it the order. -/
theorem InOrder.eraseDups {entries : List α} (h : InOrder needs entries) :
    InOrder needs entries.eraseDups := by
  induction entries using List.reverseRecOn with
  | nil => simpa using h
  | append_singleton entries last ih =>
    have front : InOrder needs entries := by
      intro before entry after hsplit
      exact h before entry (after ++ [last]) (by simp [hsplit])
    rw [eraseDups_concat]
    split
    · exact ih front
    · intro before entry after hsplit other hn
      rcases List.eq_nil_or_concat after with rfl | ⟨after, final, rfl⟩
      · obtain ⟨hbefore, hlast⟩ := List.append_inj' hsplit rfl
        obtain rfl : last = entry := by simpa using hlast
        rw [← hbefore, List.mem_eraseDups]
        exact h entries last [] rfl other hn
      · rw [List.concat_eq_append, ← List.cons_append, ← List.append_assoc] at hsplit
        exact ih front before entry after (List.append_inj' hsplit rfl).1 other hn

end Order

/-! ## Reports in order -/

/-- Is the path the key of a message? -/
def Match.IsMessageKey (m : Match) : Prop :=
  m.source.head? = some '#' ∧ m.path = messageKey (innerText m.source)

/-- What has to be reported before a path: its prefixes, for the same
    expression. A message key is not read step by step. -/
def Match.Needs (m other : Match) : Prop :=
  ¬m.IsMessageKey ∧ other.source = m.source ∧ ∃ rest, m.path = other.path ++ '.' :: rest

/-- The paths along names are in order. -/
theorem inOrder_pathsAlong (source : List Char) {segments : List (List Char)}
    (h : ∀ segment ∈ segments, isIdentifier segment = true) :
    InOrder Match.Needs ((pathsAlong segments).map (Match.mk source)) := by
  intro before m after hsplit other hn
  obtain ⟨front, back, hpaths, rfl, hback⟩ := List.map_eq_append_iff.1 hsplit
  obtain ⟨p, others, rfl, rfl, -⟩ := List.map_eq_cons_iff.1 hback
  obtain ⟨-, hsource, rest, hp⟩ := hn
  rcases mem_of_pathsFrom_eq h hpaths hp with hq | ⟨hne, -⟩
  · obtain ⟨otherSource, otherPath⟩ := other
    obtain rfl : otherSource = source := hsource
    exact List.mem_map_of_mem hq
  · contradiction

/-- What a chain of a body reports is in order. -/
theorem inOrder_chain {text source : List Char} {i : Nat} {chain : Chain}
    (h : .chain i chain ∈ visits text) :
    InOrder Match.Needs (chain.paths.map (Match.mk source)) := by
  obtain ⟨start, stop, first, hfirst, rfl⟩ := exists_chainAt_of_mem_walk h
  rw [Chain.paths, List.map_append, List.map_flatMap]
  refine .append (inOrder_flatMap fun field hf => ?_) ?_
  · exact inOrder_pathsAlong source fun segment hs =>
      isIdentifier_of_named (named_of_mem_fields hf hs)
  · exact inOrder_pathsAlong source fun segment hs =>
      isIdentifier_of_named (named_of_mem_segments hfirst hs)

/-- Only a message has a key. -/
theorem isMessageKey_of_mem_parts {expression key : List Char}
    (h : .key key ∈ parts expression) : (Match.mk expression key).IsMessageKey := by
  cases expression with
  | nil => simp [parts] at h
  | cons sigil rest =>
    simp only [parts] at h
    split at h
    · simp at h
    · split at h
      · rename_i hsigil
        obtain rfl : sigil = '#' := by simpa using hsigil
        rcases List.mem_append.1 h with h | h
        · unfold keyParts at h
          grind [Match.IsMessageKey]
        · grind [argumentParts]
      · split at h
        · grind [linkParts]
        · split at h
          · grind [fragmentParts, linkParts]
          · simp at h

/-- An expression reports in order. -/
theorem inOrder_expressionMatches (expression : List Char) :
    InOrder Match.Needs (expressionMatches expression) := by
  induction hn : expression.length using Nat.strongRecOn generalizing expression with
  | ind n ih =>
    rw [expressionMatches_eq]
    refine inOrder_flatMap fun part hp => ?_
    have shorter := length_lt_of_mem_parts hp
    cases part with
    | key key => exact inOrder_singleton fun other hneeds => hneeds.1 (isMessageKey_of_mem_parts hp)
    | plain text =>
      refine inOrder_flatMap fun span _ => ih _ ?_ _ rfl
      simp only [Part.text, Span.slice, List.extract_eq_take_drop, List.length_take,
        List.length_drop] at shorter ⊢
      omega
    | body text =>
      refine inOrder_flatMap fun visit hv => ?_
      cases visit with
      | chain i chain => exact inOrder_chain hv
      | nested i inner =>
        refine ih _ ?_ _ rfl
        have := length_le_of_mem_visits hv
        simp only [Part.text] at shorter
        omega

theorem inOrder_textMatches (text : List Char) : InOrder Match.Needs (textMatches text) :=
  inOrder_flatMap fun span _ => inOrder_expressionMatches (span.slice text)

theorem inOrder_attributeMatches (attr : Attribute) :
    InOrder Match.Needs (attributeMatches attr) := by
  unfold attributeMatches
  split
  · exact inOrder_flatMap fun assignment _ => inOrder_textMatches (assignedValue assignment)
  · exact inOrder_textMatches attr.value

/-- **Prefixes come first**: whatever the text, no path is reported twice for one
    expression, and behind every path that is no message key stand, further to
    the front and for the same expression, all of its dotted prefixes. -/
theorem templateMatches_inOrder (text : List Char) :
    (templateMatches text).Nodup ∧
      ∀ (i : Nat) (m : Match), (templateMatches text)[i]? = some m → ¬m.IsMessageKey →
        ∀ q rest, m.path = q ++ '.' :: rest →
          ∃ j < i, (templateMatches text)[j]? = some ⟨m.source, q⟩ := by
  have order : InOrder Match.Needs (templateMatches text) :=
    ((inOrder_textMatches (stripEscaped text)).append
      (inOrder_flatMap fun attr _ => inOrder_attributeMatches attr)).eraseDups
  refine ⟨nodup_eraseDups _, fun i m hi hkey q rest hp => ?_⟩
  obtain ⟨hlt, hm⟩ := List.getElem?_eq_some_iff.1 hi
  have split : templateMatches text =
      (templateMatches text).take i ++ m :: (templateMatches text).drop (i + 1) := by
    rw [← hm, List.getElem_cons_drop, List.take_append_drop]
  have hq := order _ m _ split ⟨m.source, q⟩ ⟨hkey, rfl, rest, hp⟩
  obtain ⟨j, hj⟩ := List.mem_iff_getElem?.1 hq
  rw [List.getElem?_take] at hj
  split at hj
  · rename_i hji
    exact ⟨j, hji, hj⟩
  · contradiction

end TemplateAnalysis.Variable
