import TemplateAnalysis.Text.Lines

/-! # Lines of a text

    A stretch of a text without line ends stands on one line of it, and the number of
    this line is that of the line ends before it (**`exists_line`**). A line feed cuts
    a text in two that have their lines apart (**`lines_append_newline`**).
-/

namespace TemplateAnalysis.Text

variable {c : Char} {cs rest before stretch : List Char}

/-! ## Reading a line -/

theorem lines_crlf (rest : List Char) : lines ('\r' :: '\n' :: rest) = [] :: lines rest :=
  rfl

/-- A character that is not a carriage return with a line feed behind it. -/
theorem lines_cons_apart (h : c = '\r' → rest.head? ≠ some '\n') : lines (c :: rest) =
    if isLineEnd c then [] :: lines rest
    else match lines rest with
      | [] => [[c]]
      | line :: more => (c :: line) :: more := by
  apply lines.eq_3
  rintro more rfl rfl
  exact h rfl rfl

theorem lines_cons_of_end (h : isLineEnd c = true) (hpair : c = '\r' → rest.head? ≠ some '\n') :
    lines (c :: rest) = [] :: lines rest := by
  rw [lines_cons_apart hpair, if_pos h]

theorem ne_cr_of_isLineEnd_eq_false (h : isLineEnd c = false) : c ≠ '\r' := by
  rintro rfl
  exact absurd h (by decide)

theorem lines_cons (h : isLineEnd c = false) : lines (c :: rest) =
    match lines rest with
    | [] => [[c]]
    | line :: more => (c :: line) :: more := by
  rw [lines_cons_apart fun hc => absurd hc (ne_cr_of_isLineEnd_eq_false h),
    if_neg (Bool.eq_false_iff.1 h)]

/-- A stretch without line ends begins the first line. -/
theorem exists_lines_append (hne : stretch ≠ []) (h : ∀ c ∈ stretch, isLineEnd c = false)
    (rest : List Char) : ∃ more others, lines (stretch ++ rest) = (stretch ++ more) :: others := by
  induction stretch with
  | nil => contradiction
  | cons c stretch ih =>
    obtain ⟨hc, hstretch⟩ := List.forall_mem_cons.1 h
    rw [List.cons_append, lines_cons hc]
    by_cases hnil : stretch = []
    · subst hnil
      cases lines ([] ++ rest) with
      | nil => exact ⟨[], [], rfl⟩
      | cons line others => exact ⟨line, others, rfl⟩
    · obtain ⟨more, others, hlines⟩ := ih hnil hstretch
      rw [hlines]
      exact ⟨more, others, rfl⟩

/-! ## Line ends -/

/-- How many lines end in a text. A carriage return and a line feed behind it end one. -/
def lineBreaks : List Char → Nat
  | [] => 0
  | '\r' :: '\n' :: rest => lineBreaks rest + 1
  | c :: rest => if isLineEnd c then lineBreaks rest + 1 else lineBreaks rest

theorem lineBreaks_crlf (rest : List Char) :
    lineBreaks ('\r' :: '\n' :: rest) = lineBreaks rest + 1 :=
  rfl

theorem lineBreaks_cons_apart (h : c = '\r' → rest.head? ≠ some '\n') :
    lineBreaks (c :: rest) = if isLineEnd c then lineBreaks rest + 1 else lineBreaks rest := by
  apply lineBreaks.eq_3
  rintro more rfl rfl
  exact h rfl rfl

theorem lineBreaks_cons (h : isLineEnd c = false) : lineBreaks (c :: rest) = lineBreaks rest := by
  rw [lineBreaks_cons_apart fun hc => absurd hc (ne_cr_of_isLineEnd_eq_false h),
    if_neg (Bool.eq_false_iff.1 h)]

/-- Induction along the lines of a text: at the front of it a line ends, or else stands a
    character of its first line. -/
@[elab_as_elim]
theorem lines_induction {motive : List Char → Prop} (nil : motive [])
    (crlf : ∀ rest, motive rest → motive ('\r' :: '\n' :: rest))
    (lineEnd : ∀ c rest, isLineEnd c = true → (c = '\r' → rest.head? ≠ some '\n') →
      motive rest → motive (c :: rest))
    (other : ∀ c rest, isLineEnd c = false → motive rest → motive (c :: rest))
    (cs : List Char) : motive cs := by
  fun_induction lineBreaks cs with
  | case1 => exact nil
  | case2 rest ih => exact crlf rest ih
  | case3 c rest hpair hend ih =>
    refine lineEnd c rest hend (fun hc hnext => ?_) ih
    obtain ⟨more, rfl⟩ := List.head?_eq_some_iff.1 hnext
    exact hpair more hc rfl
  | case4 c rest hpair hend ih => exact other c rest (Bool.eq_false_iff.2 hend) ih

/-- **The line of a stretch without line ends**, by its number. -/
theorem exists_line (before : List Char) (hne : stretch ≠ [])
    (h : ∀ c ∈ stretch, isLineEnd c = false) (rest : List Char) :
    ∃ line, (lines (before ++ (stretch ++ rest)))[lineBreaks before]? = some line ∧
      ∃ column more, line.drop column = stretch ++ more := by
  induction before using lines_induction with
  | nil =>
    obtain ⟨more, others, hlines⟩ := exists_lines_append hne h rest
    exact ⟨stretch ++ more, by rw [List.nil_append, hlines]; rfl, 0, more, rfl⟩
  | crlf before ih =>
    rw [List.cons_append, List.cons_append, lines_crlf, lineBreaks_crlf]
    exact ih
  | lineEnd c before hend hpair ih =>
    rw [List.cons_append, lines_cons_of_end hend, lineBreaks_cons_apart hpair, if_pos hend]
    · exact ih
    · rintro rfl hnext
      cases before with
      | nil =>
        obtain ⟨d, others, rfl⟩ := List.exists_cons_of_ne_nil hne
        obtain rfl : d = '\n' := Option.some.inj hnext
        have hd := h '\n' List.mem_cons_self
        revert hd
        decide
      | cons d before => exact hpair rfl hnext
  | other c before hc ih =>
    obtain ⟨line, hline, column, more, hdrop⟩ := ih
    rw [List.cons_append, lines_cons hc, lineBreaks_cons hc]
    cases hlines : lines (before ++ (stretch ++ rest)) with
    | nil =>
      rw [hlines] at hline
      contradiction
    | cons first others =>
      rw [hlines] at hline
      -- The character is put in front of the first line, which may be this one.
      cases hbreaks : lineBreaks before with
      | zero =>
        rw [hbreaks] at hline
        obtain rfl := Option.some.inj hline
        exact ⟨c :: first, rfl, column + 1, more, hdrop⟩
      | succ k =>
        rw [hbreaks] at hline
        exact ⟨line, hline, column, more, hdrop⟩

/-- Where only line feeds end lines, they are counted. -/
theorem lineBreaks_eq_count (h : ∀ c ∈ cs, isLineEnd c = true → c = '\n') :
    lineBreaks cs = cs.count '\n' := by
  induction cs using lines_induction with
  | nil => rfl
  | crlf rest ih => exact absurd (h '\r' List.mem_cons_self (by decide)) (by decide)
  | lineEnd c rest hend hpair ih =>
    obtain ⟨hc, hrest⟩ := List.forall_mem_cons.1 h
    rw [lineBreaks_cons_apart hpair, if_pos hend, ih hrest, hc hend, List.count_cons_self]
  | other c rest hc ih =>
    obtain ⟨-, hrest⟩ := List.forall_mem_cons.1 h
    rw [lineBreaks_cons hc, ih hrest, List.count_cons_of_ne]
    rintro rfl
    exact absurd hc (by decide)

/-! ## Cutting a text -/

theorem lines_ne_nil {cs : List Char} (h : cs ≠ []) : lines cs ≠ [] := by
  cases cs using lines_induction with
  | nil => contradiction
  | crlf rest =>
    rw [lines_crlf]
    exact List.cons_ne_nil _ _
  | lineEnd c rest hend hpair =>
    rw [lines_cons_of_end hend hpair]
    exact List.cons_ne_nil _ _
  | other c rest hc =>
    rw [lines_cons hc]
    cases lines rest with
    | nil => exact List.cons_ne_nil _ _
    | cons line more => exact List.cons_ne_nil _ _

theorem lines_newline (rest : List Char) : lines ('\n' :: rest) = [] :: lines rest :=
  lines_cons_of_end (by decide) fun h => absurd h (by decide)

/-- **A line feed cuts a text in two.** It ends the line before it, also together with a
    carriage return. -/
theorem lines_append_newline (before rest : List Char) :
    lines (before ++ '\n' :: rest) = lines (before ++ ['\n']) ++ lines rest := by
  induction before using lines_induction with
  | nil =>
    rw [List.nil_append, List.nil_append, lines_newline, lines_newline]
    rfl
  | crlf before ih =>
    rw [List.cons_append, List.cons_append, List.cons_append, List.cons_append, lines_crlf,
      lines_crlf, ih]
    rfl
  | lineEnd c before hend hpair ih =>
    rw [List.cons_append, List.cons_append]
    by_cases hcr : c = '\r' ∧ before = []
    · obtain ⟨rfl, rfl⟩ := hcr
      rw [List.nil_append, List.nil_append, lines_crlf, lines_crlf]
      rfl
    · have hapart : ∀ more, c = '\r' → (before ++ '\n' :: more).head? ≠ some '\n' := by
        intro more hc
        obtain ⟨d, others, rfl⟩ := List.exists_cons_of_ne_nil fun hnil => hcr ⟨hc, hnil⟩
        exact hpair hc
      rw [lines_cons_of_end hend (hapart rest), lines_cons_of_end hend (hapart []), ih]
      rfl
  | other c before hc ih =>
    obtain ⟨line, more, hlines⟩ :=
      List.exists_cons_of_ne_nil (lines_ne_nil (show before ++ ['\n'] ≠ [] by simp))
    rw [List.cons_append, List.cons_append, lines_cons hc, lines_cons hc, ih, hlines]
    rfl

/-- The first line begins the text. -/
theorem prefix_of_lines {cs line : List Char} {more : List (List Char)}
    (h : lines cs = line :: more) : line <+: cs := by
  induction cs using lines_induction generalizing line more with
  | nil => cases h
  | crlf rest ih =>
    rw [lines_crlf] at h
    rw [← (List.cons.inj h).1]
    exact List.nil_prefix
  | lineEnd c rest hend hpair ih =>
    rw [lines_cons_of_end hend hpair] at h
    rw [← (List.cons.inj h).1]
    exact List.nil_prefix
  | other c rest hc ih =>
    rw [lines_cons hc] at h
    cases hlines : lines rest with
    | nil =>
      rw [hlines] at h
      rw [← (List.cons.inj h).1]
      exact List.cons_prefix_cons.2 ⟨rfl, List.nil_prefix⟩
    | cons first others =>
      rw [hlines] at h
      rw [← (List.cons.inj h).1]
      exact List.cons_prefix_cons.2 ⟨rfl, ih hlines⟩

/-- Every line is a stretch of the text. -/
theorem infix_of_mem_lines {cs line : List Char} (h : line ∈ lines cs) : line <:+: cs := by
  induction cs using lines_induction with
  | nil => cases h
  | crlf rest ih =>
    rw [lines_crlf] at h
    rcases List.mem_cons.1 h with rfl | h
    · exact List.nil_infix
    · exact (ih h).trans (List.suffix_append ['\r', '\n'] rest).isInfix
  | lineEnd c rest hend hpair ih =>
    rw [lines_cons_of_end hend hpair] at h
    rcases List.mem_cons.1 h with rfl | h
    · exact List.nil_infix
    · exact (ih h).trans (List.suffix_cons c rest).isInfix
  | other c rest hc ih =>
    obtain ⟨first, others, hlines⟩ := List.exists_cons_of_ne_nil (List.ne_nil_of_mem h)
    rw [hlines] at h
    rcases List.mem_cons.1 h with rfl | h
    · exact (prefix_of_lines hlines).isInfix
    · -- The other lines are those of the rest.
      refine (ih ?_).trans (List.suffix_cons c rest).isInfix
      rw [lines_cons hc] at hlines
      cases hrest : lines rest with
      | nil =>
        rw [hrest] at hlines
        rw [← (List.cons.inj hlines).2] at h
        cases h
      | cons next more =>
        rw [hrest] at hlines
        rw [← (List.cons.inj hlines).2] at h
        exact List.mem_cons_of_mem next h

end TemplateAnalysis.Text
