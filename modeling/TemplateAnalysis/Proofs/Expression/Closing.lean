import TemplateAnalysis.Proofs.Expression.Spans
import TemplateAnalysis.Proofs.Expression.Standing

/-! # The bracket that closes another one

    A bracket is closed where the brackets of its kind even out: behind it, outside
    of literals, at the first place up to which as many of them are closed as are
    opened. The reading begins at the bracket itself, so nothing in front of it
    counts, and it ends at the bracket that is found:

    * **`closingOffset_eq_some_iff`**: a search ends at the first place at which its
      count is back at none;
    * **`findClosingAt_exact`**: so what is found is the first place at which the
      brackets even out, and the stretch up to there has it wherever it stands.
-/

namespace TemplateAnalysis.Expression

open Text

variable {text cs : List Char} {bracket : Bracket} {quoting : Quoting} {depth k position : Nat}
  {c : Char}

/-! ## Counting -/

/-- How often a character stands outside of literals in a text that the reading
    enters at `quoting`. -/
def countOutside (c : Char) : Quoting → List Char → Nat
  | _, [] => 0
  | quoting, d :: rest =>
    (if quoting = .outside ∧ d = c then 1 else 0) + countOutside c (quoting.step d) rest

/-- Behind `k` characters, and outside of literals, stands one that brings the count
    of open brackets back to none. -/
structure EndsCount (bracket : Bracket) (quoting : Quoting) (depth : Nat) (cs : List Char)
    (k : Nat) : Prop where
  inText : k < cs.length
  outside : quoting.behind (cs.take k) = .outside
  even : depth + countOutside bracket.opener quoting (cs.take (k + 1)) =
    countOutside bracket.closer quoting (cs.take (k + 1))

theorem endsCount_zero (hpos : 0 < depth) : EndsCount bracket quoting depth (c :: cs) 0 ↔
    quoting = .outside ∧ c = bracket.closer ∧ depth ≤ 1 := by
  have hcount : ∀ d, countOutside d quoting ((c :: cs).take 1) =
      if quoting = .outside ∧ c = d then 1 else 0 := fun d => rfl
  constructor
  · intro h
    have hout : quoting = .outside := h.outside
    have heven := h.even
    rw [Nat.zero_add, hcount, hcount] at heven
    by_cases hcloser : c = bracket.closer
    · simp only [hout, hcloser, and_self, if_true] at heven
      exact ⟨hout, hcloser, by omega⟩
    · have hnone : (if quoting = .outside ∧ c = bracket.closer then 1 else 0) = 0 :=
        if_neg fun h => hcloser h.2
      omega
  · rintro ⟨rfl, rfl, hdepth⟩
    refine ⟨Nat.succ_pos _, rfl, ?_⟩
    rw [Nat.zero_add, hcount, hcount, if_neg (fun h => bracket.closer_ne_opener h.2),
      if_pos ⟨rfl, rfl⟩]
    omega

theorem endsCount_succ (hpos : 0 < depth) : EndsCount bracket quoting depth (c :: cs) (k + 1) ↔
    EndsCount bracket (quoting.step c) (levelBehind bracket quoting depth c) cs k := by
  have hcount : ∀ d, countOutside d quoting ((c :: cs).take (k + 1 + 1)) =
      (if quoting = .outside ∧ c = d then 1 else 0) +
        countOutside d (quoting.step c) (cs.take (k + 1)) := fun d => rfl
  have heven : depth + countOutside bracket.opener quoting ((c :: cs).take (k + 1 + 1)) =
        countOutside bracket.closer quoting ((c :: cs).take (k + 1 + 1)) ↔
      levelBehind bracket quoting depth c +
          countOutside bracket.opener (quoting.step c) (cs.take (k + 1)) =
        countOutside bracket.closer (quoting.step c) (cs.take (k + 1)) := by
    have hne := bracket.closer_ne_opener
    rw [hcount, hcount]
    unfold levelBehind
    -- What opens adds to the left, what closes to the right or takes from the left.
    by_cases hout : quoting = .outside
    · by_cases hopener : c = bracket.opener
      · simp only [hout, hopener, hne.symm, and_self, and_false, if_true, if_false]
        omega
      · by_cases hcloser : c = bracket.closer
        · simp only [hout, hcloser, hne, and_self, and_false, if_true, if_false]
          omega
        · simp only [hopener, hcloser, and_false, if_false, ite_self]
          omega
    · simp only [hout, false_and, if_false]
      omega
  constructor
  · intro h
    exact ⟨Nat.lt_of_succ_lt_succ h.inText, h.outside, heven.1 h.even⟩
  · intro h
    exact ⟨Nat.succ_lt_succ h.inText, h.outside, heven.2 h.even⟩

/-- While no bracket ends the count some are open. -/
theorem levelBehind_pos (hpos : 0 < depth)
    (hopen : ¬(quoting = .outside ∧ c = bracket.closer ∧ depth ≤ 1)) :
    0 < levelBehind bracket quoting depth c := by
  unfold levelBehind
  split
  · rename_i hout
    split
    · omega
    · split
      · rename_i hcloser
        have : ¬depth ≤ 1 := fun hdepth => hopen ⟨hout, hcloser, hdepth⟩
        omega
      · exact hpos
  · exact hpos

/-- **A search ends at the first place at which its count is back at none.** -/
theorem closingOffset_eq_some_iff (hpos : 0 < depth) :
    closingOffset bracket.opener bracket.closer quoting depth cs = some k ↔
      EndsCount bracket quoting depth cs k ∧ ∀ j < k, ¬EndsCount bracket quoting depth cs j := by
  induction cs generalizing quoting depth k with
  | nil =>
    rw [closingOffset_nil]
    exact iff_of_false (by simp) fun h => Nat.not_lt_zero k h.1.inText
  | cons c rest ih =>
    rw [closingOffset_step]
    by_cases hend : quoting = .outside ∧ c = bracket.closer ∧ depth ≤ 1
    · -- The search ends right here, so no later place is the first.
      rw [if_pos hend]
      have hzero : EndsCount bracket quoting depth (c :: rest) 0 := (endsCount_zero hpos).2 hend
      cases k with
      | zero => simpa using hzero
      | succ k => exact iff_of_false (by simp) fun h => h.2 0 (Nat.succ_pos k) hzero
    · -- It goes on, and a first place behind the character is a first place here.
      rw [if_neg hend]
      have hzero : ¬EndsCount bracket quoting depth (c :: rest) 0 := mt (endsCount_zero hpos).1 hend
      cases k with
      | zero => exact iff_of_false (by simp) fun h => hzero h.1
      | succ k =>
        rw [first_succ_iff hzero]
        simp only [endsCount_succ hpos, ← ih (levelBehind_pos hpos hend)]
        simp

/-! ## Brackets of a text -/

/-- Up to `close` the brackets of a kind even out, read from `opened` on: outside of
    literals as many of them are closed as are opened, and `close` stands outside. -/
structure EvensOut (text : List Char) (bracket : Bracket) (opened close : Nat) : Prop where
  behind : opened < close
  inText : close < text.length
  outside : Quoting.behind .outside (Span.slice ⟨opened, close⟩ text) = .outside
  even : countOutside bracket.opener .outside (Span.slice ⟨opened, close + 1⟩ text) =
    countOutside bracket.closer .outside (Span.slice ⟨opened, close + 1⟩ text)

/-- No bracket is closed that does not open. -/
theorem findClosing_of_not_opener (h : ∀ bracket, text[position]? ≠ some (Bracket.opener bracket)) :
    findClosing text position = none := by
  unfold findClosing
  split
  · rfl
  · rename_i c rest hdrop
    have hc : text[position]? = some c := by rw [← List.head?_drop, hdrop]; rfl
    split
    · rfl
    · rename_i closer hcloser
      obtain ⟨bracket, rfl, -⟩ := exists_bracket_of_closerOf? hcloser
      exact absurd hc (h bracket)

section Opened

variable {rest : List Char} (hopened : text.drop position = bracket.opener :: rest)
include hopened

theorem slice_opened (k : Nat) :
    Span.slice ⟨position, position + 1 + k⟩ text = bracket.opener :: rest.take k := by
  rw [Span.slice, List.extract_eq_take_drop, hopened, Nat.add_assoc, Nat.add_sub_cancel_left,
    Nat.add_comm 1, List.take_succ_cons]

theorem evensOut_iff_endsCount :
    EvensOut text bracket position (position + 1 + k) ↔ EndsCount bracket .outside 1 rest k := by
  have hlength : text.length - position = rest.length + 1 := by
    rw [← List.length_drop, hopened, List.length_cons]
  -- The bracket that opens is no quote, and counts as the first of its kind.
  have hquoting : Quoting.outside.step bracket.opener = .outside := by
    rw [Quoting.step, bracket.isQuote_opener]
    rfl
  have hopener : ∀ cs, countOutside bracket.opener .outside (bracket.opener :: cs) =
      1 + countOutside bracket.opener .outside cs := by
    intro cs
    rw [countOutside, hquoting, if_pos ⟨rfl, rfl⟩]
  have hcloser : ∀ cs, countOutside bracket.closer .outside (bracket.opener :: cs) =
      countOutside bracket.closer .outside cs := by
    intro cs
    rw [countOutside, hquoting, if_neg fun h => bracket.closer_ne_opener h.2.symm, Nat.zero_add]
  have hslice := slice_opened hopened
  constructor
  · intro h
    have heven := h.even
    have hout := h.outside
    have hin := h.inText
    rw [Nat.add_assoc _ k, hslice, hopener, hcloser] at heven
    rw [hslice, Quoting.behind_cons, hquoting] at hout
    exact ⟨by omega, hout, heven⟩
  · intro h
    have hin := h.inText
    refine ⟨by omega, by omega, ?_, ?_⟩
    · rw [hslice, Quoting.behind_cons, hquoting]
      exact h.outside
    · rw [Nat.add_assoc _ k, hslice, hopener, hcloser]
      exact h.even

/-- **The bracket that closes another one** stands at the first place at which the
    brackets of their kind even out. -/
theorem findClosing_eq_some_iff {close : Nat} : findClosing text position = some close ↔
    EvensOut text bracket position close ∧ ∀ j < close, ¬EvensOut text bracket position j := by
  rw [findClosing_of_opened bracket hopened, Option.map_eq_some_iff]
  simp only [closingOffset_eq_some_iff Nat.one_pos, ← evensOut_iff_endsCount hopened]
  constructor
  · rintro ⟨k, ⟨heven, hfirst⟩, rfl⟩
    refine ⟨heven, ?_⟩
    intro j hj hother
    obtain ⟨i, rfl⟩ := Nat.exists_eq_add_of_le (Nat.succ_le_of_lt hother.behind)
    exact hfirst i (by omega) hother
  · intro ⟨heven, hfirst⟩
    obtain ⟨k, rfl⟩ := Nat.exists_eq_add_of_le (Nat.succ_le_of_lt heven.behind)
    exact ⟨k, ⟨heven, fun j hj => hfirst _ (by omega)⟩, rfl⟩

/-- **What is found depends on nothing else** than the stretch from the one bracket to
    the other. -/
theorem findClosing_between {close : Nat} (hclose : findClosing text position = some close)
    (before behind : List Char) :
    findClosing (before ++ Span.slice ⟨position, close + 1⟩ text ++ behind) before.length =
      some (before.length + (close - position)) := by
  rw [findClosing_of_opened bracket hopened] at hclose
  obtain ⟨k, hk, rfl⟩ := Option.map_eq_some_iff.1 hclose
  have hstretch : (before ++ Span.slice ⟨position, position + 1 + k + 1⟩ text ++ behind).drop
      before.length = bracket.opener :: (rest.take (k + 1) ++ behind) := by
    rw [List.append_assoc, List.drop_left, Nat.add_assoc _ k, slice_opened hopened,
      List.cons_append]
  rw [findClosing_of_opened bracket hstretch,
    closingOffset_append_of_some (closingOffset_take hk (Nat.lt_succ_self k)), Option.map_some]
  congr 1
  omega

end Opened

theorem exists_drop_of_opener (h : text[position]? = some bracket.opener) :
    ∃ rest, text.drop position = bracket.opener :: rest := by
  rw [← List.head?_drop, List.head?_eq_some_iff] at h
  exact h

/-- **Closing brackets.** In front of the text, behind it and where no bracket opens
    nothing is found. For a bracket that opens, what is found is the first place at
    which the brackets of its kind even out, and nothing when there is no such place.
    The stretch from the one bracket to the other gives the same in whatever it
    stands. -/
theorem findClosingAt_exact (text : List Char) :
    (∀ index : Int, (∀ position : Nat, index = position →
        ∀ bracket, text[position]? ≠ some (Bracket.opener bracket)) →
      findClosingAt text index = none) ∧
    ∀ (position : Nat) (bracket : Bracket), text[position]? = some bracket.opener →
      (∀ close, findClosingAt text position = some close ↔
        EvensOut text bracket position close ∧ ∀ j < close, ¬EvensOut text bracket position j) ∧
      (findClosingAt text position = none ↔ ∀ close, ¬EvensOut text bracket position close) ∧
      ∀ close, findClosingAt text position = some close → ∀ before behind : List Char,
        findClosingAt (before ++ Span.slice ⟨position, close + 1⟩ text ++ behind) before.length =
          some (before.length + (close - position)) := by
  constructor
  · intro index hindex
    cases index with
    | ofNat position => exact findClosing_of_not_opener (hindex position rfl)
    | negSucc n => rfl
  · intro position bracket hbracket
    obtain ⟨rest, hopened⟩ := exists_drop_of_opener hbracket
    have hfirst : ∀ close, findClosingAt text position = some close ↔
        EvensOut text bracket position close ∧ ∀ j < close, ¬EvensOut text bracket position j :=
      fun close => findClosing_eq_some_iff hopened
    exact ⟨hfirst, eq_none_iff_of_first hfirst, fun close => findClosing_between hopened⟩

-- A bracket in a literal does not count, nor does one of another kind.
example : findClosingAt "(')'[)".toList 0 = some 5 := by
  decide

end TemplateAnalysis.Expression
