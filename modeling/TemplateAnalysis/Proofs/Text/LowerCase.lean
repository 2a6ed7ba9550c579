import Mathlib.Data.Bool.AllAny
import TemplateAnalysis.Text.LowerCase

/-! # What lower case keeps

    Lower case works character by character, but for the capital sigma, whose lower
    case depends on what stands around it. So the lower case of a text ends in that
    of every end of the text, as far as there is no sigma in it, and a dot in it was
    a dot before.
-/

namespace TemplateAnalysis.Text

variable {afterCased : Bool} {c : Char} {cs : List Char}

/-! ## Single characters -/

theorem lt_of_mem_caseRuns : ∀ run ∈ caseRuns, (46 : Int) < run.first + run.offset :=
  List.all_iff_forall_prop.1 (by decide +kernel)

theorem eq_of_ofNat_eq_dot {n : Nat} (h : Char.ofNat n = '.') : n = 46 := by
  by_cases valid : n.isValidChar
  · rw [Char.ofNat, dif_pos valid] at h
    exact congrArg Char.toNat h
  · rw [Char.ofNat, dif_neg valid] at h
    exact absurd h (by decide)

/-- No letter becomes a dot. -/
theorem eq_dot_of_lowerChar (h : lowerChar c = '.') : c = '.' := by
  unfold lowerChar at h
  split at h
  · rename_i run hrun
    have hfirst : run.first ≤ c.toNat := by
      have := List.find?_some hrun
      simp only [Bool.and_eq_true, decide_eq_true_eq] at this
      exact this.1.1
    have := lt_of_mem_caseRuns run (List.mem_of_find?_eq_some hrun)
    have := eq_of_ofNat_eq_dot h
    omega
  · exact h

/-- A character that has one lower case wherever it stands. -/
def IsSteady (c : Char) : Prop :=
  c ≠ 'Σ' ∧ c ≠ 'İ'

/-- The lower case of a character in front of the rest. -/
theorem lowerAfter_cons (afterCased : Bool) (c : Char) (rest : List Char) :
    ∃ lowered next, lowerAfter afterCased (c :: rest) = lowered ++ lowerAfter next rest ∧
      ((IsSteady c ∧ lowered = [lowerChar c]) ∨ (lowered = ['ς'] ∨ lowered = ['σ']) ∨
        lowered = ['i', '\u0307']) := by
  rw [lowerAfter]
  refine ⟨_, _, rfl, ?_⟩
  by_cases hsigma : c = 'Σ'
  · right
    left
    rw [if_pos (beq_iff_eq.2 hsigma)]
    split
    · exact .inl rfl
    · exact .inr rfl
  · rw [if_neg (mt beq_iff_eq.1 hsigma)]
    by_cases hdotted : c = 'İ'
    · right
      right
      rw [if_pos (beq_iff_eq.2 hdotted)]
    · left
      rw [if_neg (mt beq_iff_eq.1 hdotted)]
      exact ⟨⟨hsigma, hdotted⟩, rfl⟩

/-! ## Texts -/

theorem dot_mem_of_lowerAfter (h : '.' ∈ lowerAfter afterCased cs) : '.' ∈ cs := by
  induction cs generalizing afterCased with
  | nil => contradiction
  | cons c rest ih =>
    obtain ⟨lowered, next, heq, hlowered⟩ := lowerAfter_cons afterCased c rest
    rw [heq] at h
    rcases List.mem_append.1 h with hhere | hlater
    · rcases hlowered with ⟨-, rfl⟩ | (rfl | rfl) | rfl
      · have := eq_dot_of_lowerChar (List.mem_singleton.1 hhere).symm
        exact this ▸ List.mem_cons_self
      all_goals exact absurd hhere (by decide)
    · exact List.mem_cons_of_mem c (ih hlater)

/-- **A text without dots has none in lower case.** -/
theorem dot_notMem_lower (h : '.' ∉ cs) : '.' ∉ lower cs :=
  mt dot_mem_of_lowerAfter h

/-- The lower case of a text ends in the lower case of its end. -/
theorem exists_lowerAfter_append (afterCased : Bool) (cs ds : List Char) :
    ∃ front next, lowerAfter afterCased (cs ++ ds) = front ++ lowerAfter next ds := by
  induction cs generalizing afterCased with
  | nil => exact ⟨[], afterCased, rfl⟩
  | cons c rest ih =>
    obtain ⟨lowered, next, heq, -⟩ := lowerAfter_cons afterCased c (rest ++ ds)
    obtain ⟨front, last, hrest⟩ := ih next
    exact ⟨lowered ++ front, last, by rw [List.cons_append, heq, hrest, List.append_assoc]⟩

theorem lowerAfter_of_steady (h : ∀ c ∈ cs, IsSteady c) :
    lowerAfter afterCased cs = cs.map lowerChar := by
  induction cs generalizing afterCased with
  | nil => rfl
  | cons c rest ih =>
    obtain ⟨hc, hrest⟩ := List.forall_mem_cons.1 h
    rw [lowerAfter, ih hrest, if_neg (mt beq_iff_eq.1 hc.1), if_neg (mt beq_iff_eq.1 hc.2)]
    rfl

/-- What is in lower case as plain letters are is steady. -/
theorem steady_of_lowerAfter {word : List Char} (h : lowerAfter afterCased cs = word)
    (hword : 'ς' ∉ word ∧ 'σ' ∉ word ∧ 'i' ∉ word) : ∀ c ∈ cs, IsSteady c := by
  induction cs generalizing afterCased word with
  | nil => exact List.forall_mem_nil _
  | cons c rest ih =>
    obtain ⟨lowered, next, heq, hlowered⟩ := lowerAfter_cons afterCased c rest
    obtain rfl := heq.symm.trans h
    simp only [List.mem_append, not_or] at hword
    obtain ⟨⟨hfinal, hfinal'⟩, ⟨hsigma, hsigma'⟩, hi, hi'⟩ := hword
    rcases hlowered with ⟨hsteady, -⟩ | (rfl | rfl) | rfl
    · exact List.forall_mem_cons.2 ⟨hsteady, ih rfl ⟨hfinal', hsigma', hi'⟩⟩
    · exact absurd List.mem_cons_self hfinal
    · exact absurd List.mem_cons_self hsigma
    · exact absurd List.mem_cons_self hi

/-- **An end that is a plain word in lower case** is one behind every text, and as
    long as the word. -/
theorem lower_append_of_lower {word : List Char} (h : lower cs = word)
    (hword : 'ς' ∉ word ∧ 'σ' ∉ word ∧ 'i' ∉ word) (before : List Char) :
    word <:+ lower (before ++ cs) ∧ cs.length = word.length := by
  have hsteady := steady_of_lowerAfter h hword
  have hmap : cs.map lowerChar = word := (lowerAfter_of_steady hsteady).symm.trans h
  obtain ⟨front, next, heq⟩ := exists_lowerAfter_append false before cs
  rw [lowerAfter_of_steady hsteady, hmap] at heq
  refine ⟨⟨front, heq.symm⟩, ?_⟩
  rw [← hmap, List.length_map]

end TemplateAnalysis.Text
