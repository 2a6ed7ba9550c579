import TemplateAnalysis.Proofs.Expression.Standing

/-! # Balanced texts

    The search for the bracket that closes another one counts the brackets of its
    own kind and no others. A text is opaque to all of these searches when it closes
    its literals and, of every kind, the brackets it opens:

    * **`BalancedText.closingOffset_append`**: a search from in front of such a text
      goes on behind it as it came;
    * **`BalancedText.closingOffset_eq`**: so a bracket that opens right in front of
      the text is closed by the one right behind it.

    The kinds are counted one by one, so nothing is asked of how brackets of
    different kinds stand to each other.
-/

namespace TemplateAnalysis.Expression

open Text

variable {cs text : List Char} {bracket : Bracket} {quoting : Quoting} {depth level : Nat}
  {c : Char}

/-! ## Open brackets -/

/-- How many brackets of a kind are open behind a text, and nothing when one is
    closed that was not opened. Brackets in literals do not count. -/
def openBehind (bracket : Bracket) : Quoting → Nat → List Char → Option Nat
  | _, depth, [] => some depth
  | .outside, depth, c :: rest =>
    if c = bracket.opener then openBehind bracket .outside (depth + 1) rest
    else if c = bracket.closer then
      if depth = 0 then none else openBehind bracket .outside (depth - 1) rest
    else openBehind bracket (Quoting.outside.step c) depth rest
  | quoting, depth, c :: rest => openBehind bracket (quoting.step c) depth rest

/-- A text that closes its literals and, of every kind, the brackets it opens. -/
structure BalancedText (text : List Char) : Prop where
  literals : Quoting.behind .outside text = .outside
  brackets : ∀ bracket, openBehind bracket .outside 0 text = some 0

/-! ## Searches for a closing bracket -/

theorem openBehind_step (bracket : Bracket) (quoting : Quoting) (depth : Nat) (c : Char)
    (rest : List Char) :
    openBehind bracket quoting depth (c :: rest) =
      if quoting = .outside ∧ c = bracket.closer ∧ depth = 0 then none
      else openBehind bracket (quoting.step c) (levelBehind bracket quoting depth c) rest := by
  cases quoting with
  | outside =>
    rw [openBehind]
    by_cases hopener : c = bracket.opener
    · subst hopener
      simp [levelBehind, Quoting.step, bracket.isQuote_opener, bracket.closer_ne_opener.symm]
    · by_cases hcloser : c = bracket.closer
      · subst hcloser
        simp [levelBehind, Quoting.step, bracket.isQuote_closer, bracket.closer_ne_opener]
      · simp [levelBehind, hopener, hcloser]
  | inside quote => simp [openBehind, levelBehind]
  | covered quote => simp [openBehind, levelBehind]

/-- Brackets that are open further out stay open. -/
theorem levelBehind_add (hopen : ¬(quoting = .outside ∧ c = bracket.closer ∧ depth = 0))
    (base : Nat) :
    levelBehind bracket quoting (base + depth) c = base + levelBehind bracket quoting depth c := by
  unfold levelBehind
  split
  · rename_i hout
    split
    · rfl
    · split
      · rename_i hcloser
        have hpos : depth ≠ 0 := fun hdepth => hopen ⟨hout, hcloser, hdepth⟩
        omega
      · rfl
  · rfl

/-- What a search for a closing bracket keeps over a text: the brackets that were
    open in front of it, one at least, stay open. -/
theorem closingOffset_append_of_openBehind (h : openBehind bracket quoting depth cs = some level)
    (base : Nat) (rest : List Char) :
    closingOffset bracket.opener bracket.closer quoting (base + 1 + depth) (cs ++ rest) =
      (closingOffset bracket.opener bracket.closer (quoting.behind cs) (base + 1 + level) rest).map
        (· + cs.length) := by
  -- The count is the depth of the search less what was open before, and it never falls
  -- below zero, so the search does not end in the text.
  induction cs generalizing quoting depth with
  | nil =>
    have heq : depth = level := by cases quoting <;> exact Option.some.inj h
    simp [heq, Quoting.behind]
  | cons c more ih =>
    rw [openBehind_step] at h
    split at h
    · contradiction
    · rename_i hopen
      have hgoes : ¬(quoting = .outside ∧ c = bracket.closer ∧ base + 1 + depth ≤ 1) :=
        fun hend => hopen ⟨hend.1, hend.2.1, by omega⟩
      rw [List.cons_append, closingOffset_step, if_neg hgoes, levelBehind_add hopen, ih h,
        map_add_add, Quoting.behind_cons, List.length_cons, Nat.add_comm 1]

/-- **A search for a closing bracket passes over a balanced text.** -/
theorem BalancedText.closingOffset_append (h : BalancedText text) (bracket : Bracket) (base : Nat)
    (rest : List Char) :
    closingOffset bracket.opener bracket.closer .outside (base + 1) (text ++ rest) =
      (closingOffset bracket.opener bracket.closer .outside (base + 1) rest).map
        (· + text.length) := by
  have passed := closingOffset_append_of_openBehind (h.brackets bracket) base rest
  rwa [h.literals, Nat.add_zero] at passed

/-- The bracket in front of a balanced text is closed by the one behind it. -/
theorem BalancedText.closingOffset_eq (h : BalancedText text) (bracket : Bracket)
    (rest : List Char) :
    closingOffset bracket.opener bracket.closer .outside 0
        (bracket.opener :: (text ++ bracket.closer :: rest)) = some (text.length + 1) := by
  have hne : bracket.closer ≠ bracket.opener := by cases bracket <;> decide
  rw [closingOffset, if_pos rfl, h.closingOffset_append bracket 0, closingOffset, if_neg hne,
    if_pos rfl, if_pos (Nat.le_refl 1)]
  simp

/-- The search for the brace that closes an expression passes over it as well. -/
theorem BalancedText.closes (h : BalancedText text) : Closes text :=
  fun depth rest => h.closingOffset_append .curly depth rest

end TemplateAnalysis.Expression
