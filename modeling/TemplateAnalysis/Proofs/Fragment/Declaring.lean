import TemplateAnalysis.Fragment.Declaration
import TemplateAnalysis.Proofs.Expression.Nested
import TemplateAnalysis.Proofs.Markup.Attribute
import TemplateAnalysis.Proofs.Text.Search

/-! # Where a fragment is declared

    A declaration is spelled as an attribute whose value begins with the name of
    the fragment (**`Declares`**). What may end the name is the difference between
    a text that declares the name and one that only seems to:

    * **`EndsExactly`**: a parenthesis, or the quote that opened the value;
    * **`EndsAtQuote`**: a parenthesis, or a quote of either kind.

    The search for a name takes both for declarations (**`declarationStarts_iff`**),
    and finds the first of them, line by line and column by column
    (**`findDeclaration_eq_some`**, **`findDeclaration_eq_none`**).
-/

namespace TemplateAnalysis.Fragment

open Text Markup Expression

variable {name cs : List Char}

/-! ## Declarations -/

/-- The text starts with a declaration of `name`: an attribute that declares a
    fragment, and a value that begins with the name and with what ends it. -/
def Declares (ends : Char → Char → Prop) (name cs : List Char) : Prop :=
  ∃ attr ∈ Reference.declarationNames, ∃ (sign : Sign) (quote stop : Char)
    (before behind rest : List Char),
      isQuote quote = true ∧ (∀ c ∈ before, isBlank c = true) ∧ (∀ c ∈ behind, isBlank c = true) ∧
      ends quote stop ∧
      cs = attr ++ (sign.print ++ quote :: (before ++ (name ++ (behind ++ stop :: rest))))

/-- A name ends at its parameters, or with the value that was opened by `quote`. -/
def EndsExactly (quote stop : Char) : Prop :=
  stop = '(' ∨ stop = quote

/-- A name ends at its parameters, or at any quote. -/
def EndsAtQuote (_quote stop : Char) : Prop :=
  stop = '(' ∨ isQuote stop = true

theorem Declares.atQuote (h : Declares EndsExactly name cs) : Declares EndsAtQuote name cs := by
  obtain ⟨attr, hattr, sign, quote, stop, before, behind, rest, hquote, hbefore, hbehind, hends,
    heq⟩ := h
  refine ⟨attr, hattr, sign, quote, stop, before, behind, rest, hquote, hbefore, hbehind, ?_, heq⟩
  rcases hends with hstop | rfl
  · exact .inl hstop
  · exact .inr hquote

/-! ## The declaration at the front of a text -/

theorem endsName_iff : declaresName.endsName (after? name cs) = true ↔
    ∃ behind stop rest, (∀ c ∈ behind, isBlank c = true) ∧ (stop = '(' ∨ isQuote stop = true) ∧
      cs = name ++ (behind ++ stop :: rest) := by
  constructor
  · intro h
    cases hafter : after? name cs with
    | none =>
      rw [hafter] at h
      contradiction
    | some more =>
      rw [hafter] at h
      obtain ⟨stop, hstop, hends⟩ := (Option.any_eq_true _ _).1 h
      obtain ⟨rest, hrest⟩ := List.head?_eq_some_iff.1 hstop
      obtain ⟨behind, hbehind, hmore⟩ := exists_eq_append_trimLeft more
      refine ⟨behind, stop, rest, hbehind, by simpa using hends, ?_⟩
      rw [after?_eq_some_iff.1 hafter, ← hrest, ← hmore]
  · rintro ⟨behind, stop, rest, hbehind, hends, heq⟩
    have hblank : isBlank stop = false := by
      rcases hends with rfl | hquote
      · decide
      · exact isBlank_eq_false_of_isQuote hquote
    rw [after?_eq_some_iff.2 heq, declaresName.endsName, trimLeft_append hbehind,
      trimLeft_cons hblank]
    simpa using hends

theorem declaresName_iff : declaresName name cs = true ↔
    ∃ before behind stop rest, (∀ c ∈ before, isBlank c = true) ∧
      (∀ c ∈ behind, isBlank c = true) ∧ (stop = '(' ∨ isQuote stop = true) ∧
      cs = before ++ (name ++ (behind ++ stop :: rest)) := by
  constructor
  · intro h
    induction cs with
    | nil =>
      rw [declaresName, Bool.or_false] at h
      obtain ⟨behind, stop, rest, hbehind, hends, heq⟩ := endsName_iff.1 h
      exact ⟨[], behind, stop, rest, List.forall_mem_nil _, hbehind, hends, heq⟩
    | cons c cs ih =>
      rw [declaresName, Bool.or_eq_true, Bool.and_eq_true] at h
      rcases h with h | ⟨hblank, h⟩
      · obtain ⟨behind, stop, rest, hbehind, hends, heq⟩ := endsName_iff.1 h
        exact ⟨[], behind, stop, rest, List.forall_mem_nil _, hbehind, hends, heq⟩
      · obtain ⟨before, behind, stop, rest, hbefore, hbehind, hends, rfl⟩ := ih h
        exact ⟨c :: before, behind, stop, rest, List.forall_mem_cons.2 ⟨hblank, hbefore⟩, hbehind,
          hends, rfl⟩
  · rintro ⟨before, behind, stop, rest, hbefore, hbehind, hends, rfl⟩
    -- The blanks in front of the name are passed over one by one.
    induction before with
    | nil =>
      have here : declaresName.endsName
          (after? name ([] ++ (name ++ (behind ++ stop :: rest)))) = true :=
        endsName_iff.2 ⟨behind, stop, rest, hbehind, hends, rfl⟩
      unfold declaresName
      rw [here, Bool.true_or]
    | cons c before ih =>
      obtain ⟨hblank, hbefore⟩ := List.forall_mem_cons.1 hbefore
      rw [List.cons_append, declaresName, hblank, ih hbefore, Bool.true_and, Bool.or_true]

/-- **What is taken for a declaration of a name.** -/
theorem declarationStarts_iff :
    declarationStarts name cs = true ↔ Declares EndsAtQuote name cs := by
  unfold declarationStarts Declares
  rw [List.any_eq_true]
  refine exists_congr fun attr => and_congr_right fun _ => ?_
  constructor
  · -- What the search cuts off, one after the other, are the parts of a declaration.
    intro h
    cases hafter : after? attr cs with
    | none => simp [hafter] at h
    | some more =>
      simp only [hafter] at h
      obtain ⟨front, hfront, hmore⟩ := exists_eq_append_trimLeft more
      split at h
      · rename_i behindSign hsign
        obtain ⟨back, hback, hbehindSign⟩ := exists_eq_append_trimLeft behindSign
        split at h
        · rename_i quote value hvalue
          obtain ⟨hquote, hname⟩ := Bool.and_eq_true _ _ ▸ h
          obtain ⟨before, behind, stop, rest, hbefore, hbehind, hends, rfl⟩ :=
            declaresName_iff.1 hname
          refine ⟨⟨front, back, hfront, hback⟩, quote, stop, before, behind, rest, hquote, hbefore,
            hbehind, hends, ?_⟩
          rw [after?_eq_some_iff.1 hafter, hmore, hsign, hbehindSign, hvalue]
          simp [Sign.print]
        · contradiction
      · contradiction
  · rintro ⟨sign, quote, stop, before, behind, rest, hquote, hbefore, hbehind, hends, rfl⟩
    have hblank := isBlank_eq_false_of_isQuote hquote
    have hname : declaresName name (before ++ (name ++ (behind ++ stop :: rest))) = true :=
      declaresName_iff.2 ⟨before, behind, stop, rest, hbefore, hbehind, hends, rfl⟩
    rw [after?_eq_some_iff.2 rfl]
    unfold Sign.print
    simp only [List.append_assoc, List.cons_append, trimLeft_append sign.front_blank,
      trimLeft_cons (show isBlank '=' = false by decide), trimLeft_append sign.back_blank,
      trimLeft_cons hblank, hquote, hname, Bool.and_self]

/-! ## The first declaration -/

/-- The first place in lines, line by line and column by column, from which on a line
    has a property. -/
structure FirstPlace (p : List Char → Prop) (lines : List (List Char)) (place : Place) : Prop where
  here : ∃ line, lines[place.line]? = some line ∧ p (line.drop place.character) ∧
    ∀ column < place.character, ¬ p (line.drop column)
  not_above : ∀ number < place.line, ∀ line, lines[number]? = some line →
    ∀ column, ¬ p (line.drop column)

/-- Where the very name is declared whenever it seems to be, the first place is one of
    the very name. -/
theorem FirstPlace.exactly {lines : List (List Char)} {place : Place}
    (h : FirstPlace (Declares EndsAtQuote name) lines place)
    (hquotes : ∀ line ∈ lines, ∀ column, Declares EndsAtQuote name (line.drop column) →
      Declares EndsExactly name (line.drop column)) :
    FirstPlace (Declares EndsExactly name) lines place := by
  -- What declares the very name also seems to, so none comes before.
  obtain ⟨line, hline, hhere, hbefore⟩ := h.here
  refine ⟨⟨line, hline, hquotes line (List.mem_of_getElem? hline) _ hhere, ?_⟩, ?_⟩
  · intro column hlt hd
    exact hbefore column hlt hd.atQuote
  · intro number hlt above habove column hd
    exact h.not_above number hlt above habove column hd.atQuote

theorem not_declares_nil {ends : Char → Char → Prop} : ¬ Declares ends name [] := by
  rintro ⟨attr, hattr, sign, quote, stop, before, behind, rest, -, -, -, -, heq⟩
  simp [Sign.print] at heq

theorem declarationColumn?_eq_some {line : List Char} {column : Nat}
    (h : declarationColumn? name line = some column) :
    Declares EndsAtQuote name (line.drop column) ∧
      ∀ other < column, ¬ Declares EndsAtQuote name (line.drop other) := by
  induction line generalizing column with
  | nil => contradiction
  | cons c rest ih =>
    rw [declarationColumn?] at h
    by_cases hstarts : declarationStarts name (c :: rest) = true
    · rw [if_pos hstarts] at h
      obtain rfl := Option.some.inj h
      exact ⟨declarationStarts_iff.1 hstarts, fun _ hlt => absurd hlt (Nat.not_lt_zero _)⟩
    · rw [if_neg hstarts, Option.map_eq_some_iff] at h
      obtain ⟨k, hk, rfl⟩ := h
      obtain ⟨hhere, hbefore⟩ := ih hk
      refine ⟨hhere, fun other hlt => ?_⟩
      cases other with
      | zero => exact fun hd => hstarts (declarationStarts_iff.2 hd)
      | succ other => exact hbefore other (Nat.lt_of_succ_lt_succ hlt)

theorem declarationColumn?_eq_none {line : List Char} (h : declarationColumn? name line = none)
    (column : Nat) : ¬ Declares EndsAtQuote name (line.drop column) := by
  induction line generalizing column with
  | nil =>
    rw [List.drop_nil]
    exact not_declares_nil
  | cons c rest ih =>
    rw [declarationColumn?] at h
    by_cases hstarts : declarationStarts name (c :: rest) = true
    · rw [if_pos hstarts] at h
      contradiction
    · rw [if_neg hstarts, Option.map_eq_none_iff] at h
      cases column with
      | zero => exact fun hd => hstarts (declarationStarts_iff.2 hd)
      | succ column => exact ih h column

theorem findDeclarationFrom_eq_some {lines : List (List Char)} {number : Nat} {place : Place}
    (h : findDeclarationFrom name number lines = some place) :
    ∃ k, place.line = number + k ∧
      FirstPlace (Declares EndsAtQuote name) lines ⟨k, place.character⟩ := by
  -- The numbers go on from line to line, but `k` counts from the first one left.
  induction lines generalizing number with
  | nil => contradiction
  | cons line rest ih =>
    rw [findDeclarationFrom] at h
    cases hcolumn : declarationColumn? name line with
    | some column =>
      rw [hcolumn] at h
      obtain rfl := Option.some.inj h
      obtain ⟨hhere, hbefore⟩ := declarationColumn?_eq_some hcolumn
      exact ⟨0, rfl, ⟨line, rfl, hhere, hbefore⟩, fun _ hlt => absurd hlt (Nat.not_lt_zero _)⟩
    | none =>
      rw [hcolumn] at h
      obtain ⟨k, hline, hfirst⟩ := ih h
      refine ⟨k + 1, by omega, hfirst.here, fun above hlt => ?_⟩
      cases above with
      | zero =>
        intro other hother
        obtain rfl := Option.some.inj hother
        exact declarationColumn?_eq_none hcolumn
      | succ above => exact hfirst.not_above above (Nat.lt_of_succ_lt_succ hlt)

theorem findDeclarationFrom_eq_none {lines : List (List Char)} {number : Nat}
    (h : findDeclarationFrom name number lines = none) :
    ∀ line ∈ lines, ∀ column, ¬ Declares EndsAtQuote name (line.drop column) := by
  induction lines generalizing number with
  | nil => simp
  | cons line rest ih =>
    rw [findDeclarationFrom] at h
    cases hcolumn : declarationColumn? name line with
    | some column =>
      rw [hcolumn] at h
      contradiction
    | none =>
      rw [hcolumn] at h
      exact List.forall_mem_cons.2 ⟨declarationColumn?_eq_none hcolumn, ih h⟩

/-- **What is found is the first declaration of a text.** -/
theorem findDeclaration_eq_some {text : List Char} {place : Place}
    (h : findDeclaration text name = some place) :
    FirstPlace (Declares EndsAtQuote name) (lines text) place := by
  obtain ⟨k, hline, hfirst⟩ := findDeclarationFrom_eq_some h
  rw [Nat.zero_add] at hline
  rwa [← hline] at hfirst

-- A quote of the other kind ends the name as well, though the value goes on behind it.
example : findDeclaration "<p th:fragment=\"card's\"></p>".toList "card".toList = some ⟨0, 3⟩ := by
  decide +kernel

/-- **When none is found, there is none.** -/
theorem findDeclaration_eq_none {text : List Char} (h : findDeclaration text name = none) :
    ∀ line ∈ lines text, ∀ column, ¬ Declares EndsAtQuote name (line.drop column) :=
  findDeclarationFrom_eq_none h

end TemplateAnalysis.Fragment
