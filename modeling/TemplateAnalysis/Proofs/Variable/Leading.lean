import TemplateAnalysis.Proofs.Variable.Analysed
import TemplateAnalysis.Proofs.Variable.Prefixes

/-! # What leads a path

    A chain is walked whatever its head is, but it reads a path only from a head
    that can be a variable:

    * **`canLead_of_headAt`**: such a head is no word of the expression language,
      no security function and no run of underscores, unless it is a member of a
      utility object;
    * **`exists_canLead_of_mem_templateMatches`**: so the first segment of every
      path is none of these, where the source holds no hash, and with it neither a
      utility object nor a message.

    Segments behind the first are not held to this: `order.size` is a path.
-/

namespace TemplateAnalysis.Variable

open Text Expression

variable {text path name : List Char} {m : Match}

/-! ## The first segment of a path -/

/-- A path that goes on behind another goes on with a dot. -/
theorem exists_eq_append_of_mem_pathsFrom {p : List Char} {segments : List (List Char)}
    (hne : path ≠ []) (h : p ∈ pathsFrom path segments) : ∃ rest, p = path ++ '.' :: rest := by
  induction segments generalizing path with
  | nil => simp [pathsFrom] at h
  | cons segment others ih =>
    rw [pathsFrom] at h
    by_cases hempty : segment.isEmpty = true
    · rw [if_pos hempty] at h
      exact ih hne h
    · rw [if_neg hempty, if_neg (by simpa using hne)] at h
      rcases List.mem_cons.1 h with rfl | h
      · exact ⟨segment, rfl⟩
      · obtain ⟨rest, rfl⟩ := ih (by simp) h
        exact ⟨segment ++ '.' :: rest, by simp⟩

/-- Every path along segments starts with the first of them. -/
theorem head?_splitOn_of_mem_pathsAlong {p : List Char} {others : List (List Char)}
    (hname : isIdentifier name = true) (h : p ∈ pathsAlong (name :: others)) :
    (splitOn '.' p).head? = some name := by
  have hne := ne_nil_of_isIdentifier hname
  rw [pathsAlong, pathsFrom, if_neg (by simpa using hne)] at h
  rcases List.mem_cons.1 h with hp | h
  · rw [hp]
    show (splitOn '.' name).head? = some name
    rw [splitOn_of_isIdentifier hname]
    rfl
  · obtain ⟨rest, rfl⟩ := exists_eq_append_of_mem_pathsFrom hne h
    rw [splitOn_append_cons, splitOn_of_isIdentifier hname]
    rfl

/-! ## Heads -/

/-- A name that can lead a path. -/
structure CanLead (name : List Char) : Prop where
  /-- It starts with an ASCII letter or an underscore. -/
  starts : ∃ c rest, name = c :: rest ∧ isNameStart c = true
  /-- It is no word of the expression language, in any case. -/
  not_reserved : String.ofList (lower name) ∉ reservedWords
  not_security : String.ofList name ∉ securityFunctions
  /-- There is more to it than underscores. -/
  not_underscores : ∃ c ∈ name, c ≠ '_'

theorem canLead_of_isIdentifier (hname : isIdentifier name = true)
    (hreserved : isReservedWord name = false) (hsecurity : isSecurityFunction name = false)
    (hunderscores : isUnderscores name = false) : CanLead name := by
  have htrim := trim_of_isIdentifier hname
  rw [isReservedWord, htrim] at hreserved
  rw [isSecurityFunction, htrim] at hsecurity
  constructor
  · obtain ⟨c, rest, rfl⟩ := List.exists_cons_of_ne_nil (ne_nil_of_isIdentifier hname)
    rw [isIdentifier, Bool.and_eq_true] at hname
    exact ⟨c, rest, rfl, hname.1⟩
  · simpa using hreserved
  · simpa using hsecurity
  · simpa [isUnderscores] using hunderscores

/-- A utility object is written with a hash. -/
theorem hash_mem_of_utility {t : Token} (h : t ∈ tokenize text) (hk : t.kind = .utility) :
    '#' ∈ text := by
  obtain ⟨before, rest, rfl, -, hkind, -⟩ := exists_lexeme_of_mem_tokenize h
  rw [hk] at hkind
  have hread := signedLexeme?_of_lexeme hkind
  apply List.mem_append_right before
  unfold signedLexeme? at hread
  split at hread
  · simp only [Option.ite_none_right_eq_some, Bool.and_eq_true, beq_iff_eq] at hread
    rw [hread.1.1]
    exact List.mem_cons_self
  · contradiction

/-- **A head that reads a path can lead it**, where there are no utility objects. -/
theorem canLead_of_headAt {index stop : Nat} {first : Token} (hfirst : first ∈ tokenize text)
    (hhash : '#' ∉ text)
    (h : (headAt (Body.ofText text) index stop first).segment = some name) : CanLead name := by
  unfold headAt at h
  split at h
  · rename_i hkind
    -- Of the four ways to read a name, only the last one reads a path.
    split at h
    · contradiction
    · split at h
      · contradiction
      · split at h
        · contradiction
        · rename_i hsilent
          obtain rfl := Option.some.inj h
          simp only [Bool.or_eq_true, not_or, Bool.not_eq_true] at hsilent
          exact canLead_of_isIdentifier (isIdentifier_of_mem_tokenize hfirst hkind)
            hsilent.1.1 hsilent.1.2 hsilent.2
  · rename_i hkind
    exact absurd (hash_mem_of_utility hfirst hkind) hhash
  · contradiction

/-- Form fields are named by calls on a utility object. -/
theorem fields_eq_nil {index stop : Nat} {first : Token} (hfirst : first ∈ tokenize text)
    (hhash : '#' ∉ text) : (chainAt (Body.ofText text) index stop first).fields = [] := by
  have hutility : first.kind ≠ .utility := fun hk => hhash (hash_mem_of_utility hfirst hk)
  have hfields : (headAt (Body.ofText text) index stop first).onFields = false := by
    unfold headAt
    grind
  simp [chainAt, hfields]

/-! ## Paths -/

/-- The paths of a chain start with what can lead them. -/
theorem exists_canLead_of_mem_visits {i : Nat} {chain : Chain} (hhash : '#' ∉ text)
    (h : .chain i chain ∈ visits text) (hpath : path ∈ chain.paths) :
    ∃ first, (splitOn '.' path).head? = some first ∧ CanLead first := by
  obtain ⟨start, stop, first, hfirst, rfl⟩ := exists_chainAt_of_mem_walk h
  rw [Chain.paths, fields_eq_nil hfirst hhash, List.flatMap_nil, List.nil_append, chainAt] at hpath
  dsimp only at hpath
  split at hpath
  · rename_i name hhead
    have hname : isIdentifier name = true := isIdentifier_of_named (named_of_headAt hfirst hhead)
    exact ⟨name, head?_splitOn_of_mem_pathsAlong hname hpath, canLead_of_headAt hfirst hhash hhead⟩
  · simp [pathsAlong, pathsFrom] at hpath

/-- **No reserved word leads a path**: the first segment of every path that is
    reported for a source without a hash starts with an ASCII letter or underscore,
    and is no word of the expression language in any case, no security function and
    not made of underscores only. -/
theorem exists_canLead_of_mem_templateMatches (hm : m ∈ templateMatches text)
    (hhash : '#' ∉ m.source) :
    ∃ first, (splitOn '.' m.path).head? = some first ∧ CanLead first := by
  obtain ⟨hanalysed, hown⟩ := mem_templateMatches_iff.1 hm
  obtain ⟨part, hpart, hmatch⟩ := List.mem_flatMap.1 hown
  cases part with
  | key key =>
    -- The sigil of a message is a hash.
    obtain ⟨hsigil, -⟩ := isMessageKey_of_mem_parts hpart
    exact absurd (List.mem_of_head? hsigil) hhash
  | plain inner => simp [Part.ownMatches] at hmatch
  | body inner =>
    have hinner : '#' ∉ inner := by
      intro hmem
      exact hhash ((delimited_of_mem_parts hanalysed.isExpression.1 hpart).isInfix.subset hmem)
    obtain ⟨visit, hvisit, hmatch⟩ := List.mem_flatMap.1 hmatch
    cases visit with
    | nested i nested => simp at hmatch
    | chain i chain =>
      obtain ⟨path, hpath, hm⟩ := List.mem_map.1 hmatch
      rw [← hm]
      exact exists_canLead_of_mem_visits hinner hvisit hpath

/-- A security function whose argument holds a filter, with words of the expression
    language in it and behind, and a bracket that is never closed. -/
def guardedSample : List Char :=
  "${hasRole(team.?[Not owner.size]) AND __[}".toList

theorem exists_canLead_of_guardedSample :
    (⟨guardedSample, "owner.size".toList⟩ : Match) ∈ templateMatches guardedSample ∧
      '#' ∉ guardedSample ∧
      ∃ first, (splitOn '.' "owner.size".toList).head? = some first ∧ CanLead first := by
  have hm : (⟨guardedSample, "owner.size".toList⟩ : Match) ∈ templateMatches guardedSample := by
    decide +kernel
  have hhash : '#' ∉ guardedSample := by decide
  exact ⟨hm, hhash, exists_canLead_of_mem_templateMatches hm hhash⟩

end TemplateAnalysis.Variable
