import Mathlib.Algebra.GroupWithZero.Nat
import TemplateAnalysis.Files.Path
import TemplateAnalysis.Proofs.Text.Search

/-! # Normal forms of paths

    * **`normalPath_eq_self`**: names between slashes are in normal form, if none of
      them is empty or made of dots;
    * **`length_normalPath_le`**: a normal form is no longer than the path, so it
      never gains a suffix.
-/

namespace TemplateAnalysis.Files

open Text

/-- A name between slashes that a normal form keeps. -/
def Kept (part : List Char) : Prop :=
  part ≠ [] ∧ part ≠ ['.'] ∧ part ≠ ['.', '.']

theorem collapseDots_of_kept {parts : List (List Char)} (h : ∀ part ∈ parts, Kept part)
    (fromRoot : Bool) (before : List (List Char)) :
    collapseDots fromRoot before parts = before ++ parts := by
  induction parts generalizing before with
  | nil => exact (List.append_nil before).symm
  | cons part rest ih =>
    obtain ⟨⟨hempty, hdot, hdots⟩, hrest⟩ := List.forall_mem_cons.1 h
    rw [collapseDots, if_neg (by simp [hempty, hdot]), if_pos (by simp [hdots]), ih hrest,
      List.append_assoc, List.singleton_append]

/-- The normal form of a path from the current folder. -/
theorem normalPath_of_relative {path : List Char} (h : path.head? ≠ some '/') :
    normalPath path =
      if (joinWith ['/'] (collapseDots false [] (splitOn '/' path))).isEmpty then ['.']
      else joinWith ['/'] (collapseDots false [] (splitOn '/' path)) := by
  have noSlash : path.takeWhile (· == '/') = [] := by
    cases path with
    | nil => rfl
    | cons c cs => exact List.takeWhile_cons_of_neg (by simpa using h)
  unfold normalPath
  rw [noSlash]
  rfl

/-- **Names between slashes are in normal form.** -/
theorem normalPath_eq_self {parts : List (List Char)} (hne : parts ≠ [])
    (h : ∀ part ∈ parts, Kept part ∧ '/' ∉ part) :
    normalPath (joinWith ['/'] parts) = joinWith ['/'] parts := by
  obtain ⟨first, rest, rfl⟩ := List.exists_cons_of_ne_nil hne
  obtain ⟨c, cs, rfl⟩ := List.exists_cons_of_ne_nil (h first List.mem_cons_self).1.1
  have hc : c ≠ '/' := fun heq => (h _ List.mem_cons_self).2 (heq ▸ List.mem_cons_self)
  have relative : (joinWith ['/'] ((c :: cs) :: rest)).head? ≠ some '/' := by
    rw [joinWith_cons_head]
    simpa using hc
  rw [normalPath_of_relative relative, splitOn_joinWith hne fun part hpart => (h part hpart).2,
    collapseDots_of_kept fun part hpart => (h part hpart).1, List.nil_append, if_neg]
  rw [joinWith_cons_head]
  exact Bool.false_ne_true

/-- A path from the root stays one. -/
theorem head?_normalPath {path : List Char} (h : path.head? = some '/') :
    (normalPath path).head? = some '/' := by
  obtain ⟨rest, rfl⟩ := List.head?_eq_some_iff.1 h
  have some_slash : (('/' :: rest).takeWhile (· == '/')).length ≠ 0 := by
    rw [List.takeWhile_cons_of_pos (by decide)]
    exact Nat.succ_ne_zero _
  unfold normalPath
  dsimp only
  rw [if_neg some_slash]
  split <;> rfl

/-- The characters of names, counted with a slash behind each. -/
def weight (parts : List (List Char)) : Nat :=
  (parts.map fun part => part.length + 1).sum

theorem weight_append (before after : List (List Char)) :
    weight (before ++ after) = weight before + weight after := by
  simp [weight]

theorem weight_dropLast_le (parts : List (List Char)) : weight parts.dropLast ≤ weight parts := by
  rcases List.eq_nil_or_concat parts with rfl | ⟨before, last, rfl⟩
  · exact Nat.le_refl _
  · rw [List.concat_eq_append, List.dropLast_concat, weight_append]
    exact Nat.le_add_right _ _

theorem length_joinWith (parts : List (List Char)) :
    (joinWith ['/'] parts).length = weight parts - 1 := by
  induction parts with
  | nil => rfl
  | cons first rest ih =>
    cases rest with
    | nil => simp [joinWith, weight]
    | cons second others =>
      have some_weight : 1 ≤ weight (second :: others) := by simp [weight]; omega
      rw [joinWith_cons_cons, List.length_append, List.length_append, ih]
      show _ = first.length + 1 + weight (second :: others) - 1
      simp only [List.length_singleton]
      omega

theorem weight_splitOn (cs : List Char) : weight (splitOn '/' cs) = cs.length + 1 := by
  have joined := length_joinWith (splitOn '/' cs)
  rw [joinWith_splitOn] at joined
  obtain ⟨first, rest, hcut⟩ := List.exists_cons_of_ne_nil (splitOn_ne_nil '/' cs)
  rw [hcut] at joined ⊢
  simp only [weight, List.map_cons, List.sum_cons] at joined ⊢
  omega

/-- Working out dots makes nothing longer. -/
theorem weight_collapseDots_le (fromRoot : Bool) (before parts : List (List Char)) :
    weight (collapseDots fromRoot before parts) ≤ weight before + weight parts := by
  fun_induction collapseDots fromRoot before parts with
  | case1 before => exact Nat.le_add_right _ _
  | case2 before part rest hskip ih => simp [weight] at ih ⊢; omega
  | case3 before part rest hskip hdots ih => simp [weight] at ih ⊢; omega
  | case4 before part rest hskip hdots hlast ih =>
    have : weight (if fromRoot = true then [] else [part]) ≤ weight [part] := by
      split
      · exact Nat.zero_le _
      · exact Nat.le_refl _
    rw [show part :: rest = [part] ++ rest from rfl, weight_append]
    omega
  | case5 before part rest hskip hdots last hlast hlastDots ih =>
    rw [weight_append] at ih
    rw [show part :: rest = [part] ++ rest from rfl, weight_append]
    omega
  | case6 before part rest hskip hdots last hlast hlastDots ih =>
    have := weight_dropLast_le before
    rw [show part :: rest = [part] ++ rest from rfl, weight_append]
    omega

/-- **The normal form of a path is no longer than the path**, but for that of the
    empty path, which is a dot. -/
theorem length_normalPath_le {path : List Char} (h : path.head? ≠ some '/') :
    (normalPath path).length ≤ max 1 path.length := by
  have hweight := weight_collapseDots_le false [] (splitOn '/' path)
  rw [weight_splitOn, show weight [] = 0 from rfl] at hweight
  rw [normalPath_of_relative h]
  split
  · exact Nat.le_max_left _ _
  · refine Nat.le_trans ?_ (Nat.le_max_right _ _)
    rw [length_joinWith]
    omega

end TemplateAnalysis.Files
