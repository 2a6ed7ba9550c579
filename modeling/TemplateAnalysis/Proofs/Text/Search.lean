import TemplateAnalysis.Text.Search

/-! # Parts of texts

    Texts that are joined with a separator are found again by splitting, when the
    separator stands in none of them (**`splitOn_joinWith`**), and what is split
    and joined again is the text that it was (**`joinWith_splitOn`**). The last place
    of a token is one behind which it does not stand (**`lastIndexOf?_eq_some_iff`**).
-/

namespace TemplateAnalysis.Text

/-! ## Tokens at the front -/

theorem after?_eq_some_iff {token text rest : List Char} :
    after? token text = some rest ↔ text = token ++ rest := by
  unfold after?
  constructor
  · intro h
    rw [Option.ite_none_right_eq_some, List.isPrefixOf_iff_prefix] at h
    obtain ⟨⟨others, rfl⟩, hrest⟩ := h
    rw [List.drop_left] at hrest
    rw [Option.some.inj hrest]
  · rintro rfl
    rw [if_pos (List.isPrefixOf_iff_prefix.2 (List.prefix_append _ _)), List.drop_left]

/-! ## Tokens at a position -/

theorem occursAt_nil (text : List Char) (position : Nat) : occursAt [] text position = true :=
  rfl

theorem occursAt_cons {c : Char} {token text : List Char} {position : Nat} :
    occursAt (c :: token) text position = true ↔
      text[position]? = some c ∧ occursAt token text (position + 1) = true := by
  unfold occursAt
  rw [← List.drop_drop, ← List.head?_drop]
  cases text.drop position with
  | nil => simp
  | cons d rest =>
    rw [List.isPrefixOf, Bool.and_eq_true, beq_iff_eq, List.head?_cons, Option.some.injEq]
    exact and_congr_left' eq_comm

theorem getElem?_of_occursAt {token text : List Char} {position k : Nat}
    (h : occursAt token text position = true) (hk : k < token.length) :
    text[position + k]? = token[k]? := by
  obtain ⟨rest, hrest⟩ := List.isPrefixOf_iff_prefix.1 h
  rw [← List.getElem?_drop, ← hrest, List.getElem?_append_left hk]

/-- What stands in the front of a text. -/
theorem occursAt_take {token text : List Char} {position stop : Nat} (hne : token ≠ []) :
    occursAt token (text.take stop) position = true ↔
      occursAt token text position = true ∧ position + token.length ≤ stop := by
  have hpos := List.length_pos_iff.2 hne
  unfold occursAt
  rw [List.isPrefixOf_iff_prefix, List.isPrefixOf_iff_prefix, List.drop_take, List.prefix_take_iff]
  refine and_congr_right fun _ => ?_
  omega

/-- A text in which a token stands nowhere. -/
theorem lastIndexOf?_eq_none_iff {token text : List Char} (hne : token ≠ []) :
    lastIndexOf? token text = none ↔ ∀ position, occursAt token text position = false := by
  induction text with
  | nil =>
    obtain ⟨c, others, rfl⟩ := List.exists_cons_of_ne_nil hne
    simp [lastIndexOf?, occursAt]
  | cons c rest ih =>
    rw [lastIndexOf?]
    constructor
    · intro h position
      split at h
      · contradiction
      · rename_i hrest
        cases position with
        | zero =>
          refine Bool.eq_false_iff.2 fun here => ?_
          rw [if_pos (show token.isPrefixOf (c :: rest) = true from here)] at h
          contradiction
        | succ position => exact ih.1 hrest position
    · intro h
      rw [ih.2 fun position => h (position + 1)]
      dsimp only
      exact if_neg (Bool.eq_false_iff.1 (h 0))

/-- **The last place of a token** is one behind which there is no other. -/
theorem lastIndexOf?_eq_some_iff {token text : List Char} {position : Nat} (hne : token ≠ []) :
    lastIndexOf? token text = some position ↔
      occursAt token text position = true ∧
        ∀ later, position < later → occursAt token text later = false := by
  induction text generalizing position with
  | nil =>
    obtain ⟨c, others, rfl⟩ := List.exists_cons_of_ne_nil hne
    simp [lastIndexOf?, occursAt]
  | cons c rest ih =>
    rw [lastIndexOf?]
    cases hrest : lastIndexOf? token rest with
    | some last =>
      obtain ⟨hlast, hnone⟩ := ih.1 hrest
      simp only [Option.some.injEq]
      constructor
      · rintro rfl
        refine ⟨hlast, fun later hlater => ?_⟩
        obtain ⟨later, rfl⟩ := Nat.exists_eq_add_of_lt (Nat.zero_lt_of_lt hlater)
        exact hnone _ (by omega)
      · rintro ⟨hhere, hbehind⟩
        cases position with
        | zero => exact absurd hlast (Bool.eq_false_iff.1 (hbehind (last + 1) (Nat.succ_pos _)))
        | succ position =>
          have same := ih.2 ⟨hhere,
            fun later hlater => hbehind (later + 1) (Nat.succ_lt_succ hlater)⟩
          rw [hrest] at same
          rw [Option.some.inj same]
    | none =>
      have hnone := (lastIndexOf?_eq_none_iff hne).1 hrest
      dsimp only
      constructor
      · intro h
        obtain ⟨hhere, hposition⟩ := Option.ite_none_right_eq_some.1 h
        obtain rfl := Option.some.inj hposition
        refine ⟨hhere, fun later hlater => ?_⟩
        obtain ⟨later, rfl⟩ := Nat.exists_eq_add_of_lt hlater
        exact hnone _
      · rintro ⟨hhere, -⟩
        cases position with
        | zero => exact if_pos hhere
        | succ position => exact absurd hhere (Bool.eq_false_iff.1 (hnone position))

/-- A token last stands in front of a bound when it stands nowhere behind it. -/
theorem lastIndexOf?_all_lt_iff {token text : List Char} {bound : Nat} (hne : token ≠ []) :
    (lastIndexOf? token text).all (· < bound) = true ↔
      ∀ position, bound ≤ position → occursAt token text position = false := by
  cases hlast : lastIndexOf? token text with
  | none => exact iff_of_true rfl fun position _ => (lastIndexOf?_eq_none_iff hne).1 hlast position
  | some last =>
    obtain ⟨hhere, hbehind⟩ := (lastIndexOf?_eq_some_iff hne).1 hlast
    rw [Option.all_some, decide_eq_true_eq]
    constructor
    · exact fun hlt position hle => hbehind position (Nat.lt_of_lt_of_le hlt hle)
    · exact fun hnone => Nat.lt_of_not_le fun hle =>
        Bool.false_ne_true ((hnone last hle).symm.trans hhere)

/-! ## Joining -/

theorem joinWith_cons_cons (separator first second : List Char) (others : List (List Char)) :
    joinWith separator (first :: second :: others) =
      first ++ (separator ++ joinWith separator (second :: others)) := by
  simp [joinWith]

/-- One more character of the first piece. -/
theorem joinWith_cons_head (separator : List Char) (c : Char) (first : List Char)
    (others : List (List Char)) :
    joinWith separator ((c :: first) :: others) = c :: joinWith separator (first :: others) := by
  cases others with
  | nil => simp [joinWith]
  | cons second others => rw [joinWith_cons_cons, joinWith_cons_cons, List.cons_append]

theorem joinWith_concat {segments : List (List Char)} (h : segments ≠ [])
    (separator segment : List Char) :
    joinWith separator (segments ++ [segment]) =
      joinWith separator segments ++ separator ++ segment := by
  induction segments with
  | nil => contradiction
  | cons first rest ih =>
    cases rest with
    | nil => simp [joinWith]
    | cons second others =>
      have step := ih (by simp)
      simp only [joinWith, List.cons_append, List.intersperse_cons_cons, List.flatten_cons,
        List.append_assoc] at step ⊢
      rw [step]

/-- More of the last text is more of the whole. -/
theorem joinWith_concat_append (separator : List Char) (before : List (List Char))
    (last more : List Char) :
    joinWith separator (before ++ [last ++ more]) =
      joinWith separator (before ++ [last]) ++ more := by
  by_cases hbefore : before = []
  · rw [hbefore]
    simp [joinWith]
  · rw [joinWith_concat hbefore, joinWith_concat hbefore, List.append_assoc _ last more]

theorem mem_joinWith {separator : List Char} {parts : List (List Char)} {c : Char}
    (h : c ∈ joinWith separator parts) : c ∈ separator ∨ ∃ part ∈ parts, c ∈ part := by
  induction parts with
  | nil => contradiction
  | cons first rest ih =>
    cases rest with
    | nil =>
      right
      exact ⟨first, List.mem_cons_self, by simpa [joinWith] using h⟩
    | cons second others =>
      rw [joinWith_cons_cons, List.mem_append, List.mem_append] at h
      rcases h with hfirst | hseparator | hrest
      · exact .inr ⟨first, List.mem_cons_self, hfirst⟩
      · exact .inl hseparator
      · rcases ih hrest with hseparator | ⟨part, hpart, hc⟩
        · exact .inl hseparator
        · exact .inr ⟨part, List.mem_cons_of_mem first hpart, hc⟩

/-! ## Splitting -/

theorem splitOn_ne_nil (separator : Char) (cs : List Char) : splitOn separator cs ≠ [] := by
  fun_cases splitOn separator cs <;> simp_all

/-- Where a text is cut at a separator. -/
theorem splitOn_append_cons (separator : Char) (before after : List Char) :
    splitOn separator (before ++ separator :: after) =
      splitOn separator before ++ splitOn separator after := by
  induction before with
  | nil => simp [splitOn]
  | cons c rest ih =>
    rw [List.cons_append, splitOn, splitOn, ih]
    split
    · rfl
    · obtain ⟨first, others, hcut⟩ := List.exists_cons_of_ne_nil (splitOn_ne_nil separator rest)
      rw [hcut]
      rfl

theorem splitOn_of_notMem {separator : Char} {cs : List Char} (h : separator ∉ cs) :
    splitOn separator cs = [cs] := by
  induction cs with
  | nil => rfl
  | cons c rest ih =>
    obtain ⟨hc, hrest⟩ := not_or.1 (mt List.mem_cons.2 h)
    rw [splitOn, if_neg (Ne.symm hc), ih hrest]

theorem joinWith_splitOn (separator : Char) (cs : List Char) :
    joinWith [separator] (splitOn separator cs) = cs := by
  induction cs with
  | nil => simp [splitOn, joinWith]
  | cons c rest ih =>
    obtain ⟨first, others, hcut⟩ := List.exists_cons_of_ne_nil (splitOn_ne_nil separator rest)
    rw [splitOn]
    split
    · rename_i hc
      rw [hcut, joinWith_cons_cons, ← hcut, ih, hc]
      rfl
    · rw [hcut]
      dsimp only
      rw [joinWith_cons_head, ← hcut, ih]

/-- **What was joined is found by splitting.** -/
theorem splitOn_joinWith {separator : Char} {parts : List (List Char)} (hne : parts ≠ [])
    (h : ∀ part ∈ parts, separator ∉ part) :
    splitOn separator (joinWith [separator] parts) = parts := by
  induction parts with
  | nil => contradiction
  | cons first rest ih =>
    have hfirst := splitOn_of_notMem (h first List.mem_cons_self)
    cases rest with
    | nil => simpa [joinWith] using hfirst
    | cons second others =>
      rw [joinWith_cons_cons, List.singleton_append, splitOn_append_cons, hfirst,
        ih (List.cons_ne_nil _ _) fun part hpart => h part (List.mem_cons_of_mem _ hpart)]
      rfl

end TemplateAnalysis.Text
