import TemplateAnalysis.Text.CodePoint

/-! # Strings that can be written

    Strings without halves of surrogate pairs are the same thing as lists of
    characters (**`CodePoints.ofList_chars`**).

    Strings that are written one after the other are all written or are broken off at
    the first that cannot be (**`CodePoints.written_append`** and
    **`CodePoints.written_append_of_not`**), and there is an error exactly in the
    second case (**`CodePoints.encodingError?_eq_none_iff`**).
-/

namespace TemplateAnalysis.Text.CodePoints

/-! ## Characters -/

@[simp] theorem chars_nil : chars [] = [] := rfl

@[simp] theorem chars_scalar_cons (c : Char) (points : CodePoints) :
    chars (.scalar c :: points) = c :: chars points := rfl

@[simp] theorem chars_append (points others : CodePoints) :
    (points ++ others).chars = points.chars ++ others.chars :=
  List.filterMap_append

@[simp] theorem chars_ofList (cs : List Char) : (ofList cs).chars = cs := by
  induction cs with
  | nil => rfl
  | cons c cs ih => exact congrArg (c :: ·) ih

theorem ofList_injective {cs ds : List Char} (h : ofList cs = ofList ds) : cs = ds := by
  rw [← chars_ofList cs, h, chars_ofList]

@[simp] theorem ofList_inj {cs ds : List Char} : ofList cs = ofList ds ↔ cs = ds :=
  ⟨ofList_injective, congrArg ofList⟩

@[simp] theorem ofString_ofList (cs : List Char) : ofString (String.ofList cs) = ofList cs := by
  rw [ofString, String.toList_ofList]

/-- Without halves of pairs all characters are one stretch. -/
@[simp] theorem stretches_ofList (cs : List Char) : (ofList cs).stretches = [cs] := by
  induction cs with
  | nil => rfl
  | cons c cs ih =>
    show stretches (.scalar c :: ofList cs) = [c :: cs]
    rw [stretches, ih]

/-! ## Paired strings -/

theorem paired_nil : Paired [] := by
  intro point hpoint
  cases hpoint

theorem paired_cons_iff {point : CodePoint} {points : CodePoints} :
    Paired (point :: points) ↔ point.char?.isSome = true ∧ points.Paired :=
  List.forall_mem_cons

theorem paired_append_iff {points others : CodePoints} :
    Paired (points ++ others) ↔ points.Paired ∧ others.Paired :=
  List.forall_mem_append

@[simp] theorem paired_ofList (cs : List Char) : (ofList cs).Paired := by
  intro point hpoint
  obtain ⟨c, -, rfl⟩ := List.mem_map.1 hpoint
  rfl

@[simp] theorem paired_ofString (s : String) : (ofString s).Paired :=
  paired_ofList s.toList

/-- **A string without halves of pairs is one of characters.** -/
theorem ofList_chars {points : CodePoints} (h : points.Paired) : ofList points.chars = points := by
  induction points with
  | nil => rfl
  | cons point points ih =>
    obtain ⟨hpoint, hpoints⟩ := paired_cons_iff.1 h
    cases point with
    | scalar c => exact congrArg (.scalar c :: ·) (ih hpoints)
    | surrogate half => cases hpoint

/-! ## Writing -/

variable {piece : CodePoints} {pieces others : List CodePoints}

@[simp] theorem written_nil : written [] = [] := rfl

theorem written_cons (h : piece.Paired) (pieces : List CodePoints) :
    written (piece :: pieces) = piece.chars ++ written pieces := by
  unfold written
  rw [List.takeWhile_cons_of_pos (by simpa using h), List.flatMap_cons]

theorem written_cons_of_not (h : ¬ piece.Paired) (pieces : List CodePoints) :
    written (piece :: pieces) = [] := by
  unfold written
  rw [List.takeWhile_cons_of_neg (by simpa using h), List.flatMap_nil]

@[simp] theorem written_ofList_cons (cs : List Char) (pieces : List CodePoints) :
    written (ofList cs :: pieces) = cs ++ written pieces := by
  rw [written_cons (paired_ofList cs), chars_ofList]

/-- What is behind strings that can be written is begun. -/
theorem written_append (h : ∀ piece ∈ pieces, piece.Paired) (others : List CodePoints) :
    written (pieces ++ others) = pieces.flatMap chars ++ written others := by
  induction pieces with
  | nil => rfl
  | cons piece pieces ih =>
    obtain ⟨hpiece, hpieces⟩ := List.forall_mem_cons.1 h
    rw [List.cons_append, written_cons hpiece, ih hpieces, List.flatMap_cons, List.append_assoc]

/-- What is behind a string that cannot be written is not. -/
theorem written_append_of_not (h : ¬ ∀ piece ∈ pieces, piece.Paired) (others : List CodePoints) :
    written (pieces ++ others) = written pieces := by
  induction pieces with
  | nil => exact absurd (List.forall_mem_nil _) h
  | cons piece pieces ih =>
    rw [List.cons_append]
    by_cases hpiece : piece.Paired
    · have hpieces : ¬ ∀ other ∈ pieces, Paired other := fun hall =>
        h (List.forall_mem_cons.2 ⟨hpiece, hall⟩)
      rw [written_cons hpiece, written_cons hpiece, ih hpieces]
    · rw [written_cons_of_not hpiece, written_cons_of_not hpiece]

/-- Nothing is written but characters of the strings. -/
theorem mem_of_mem_written {c : Char} (h : c ∈ written pieces) : c ∈ pieces.flatMap chars := by
  obtain ⟨piece, hpiece, hc⟩ := List.mem_flatMap.1 h
  exact List.mem_flatMap.2 ⟨piece, (List.takeWhile_sublist _).subset hpiece, hc⟩

theorem unpaired?_eq_none_iff {points : CodePoints} {position : Nat} :
    unpaired? position points = none ↔ points.Paired := by
  induction points generalizing position with
  | nil => exact iff_of_true rfl paired_nil
  | cons point points ih =>
    rw [paired_cons_iff]
    cases point with
    | scalar c => simpa [unpaired?, CodePoint.char?] using ih
    | surrogate half => simp [unpaired?, CodePoint.char?]

/-- **Writing is broken off when one of the strings cannot be written.** -/
theorem encodingError?_eq_none_iff :
    encodingError? pieces = none ↔ ∀ piece ∈ pieces, piece.Paired := by
  unfold encodingError?
  rw [List.findSome?_eq_none_iff]
  simp only [unpaired?_eq_none_iff]

end TemplateAnalysis.Text.CodePoints
