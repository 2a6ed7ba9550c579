import TemplateAnalysis.Json.Printer
import TemplateAnalysis.Proofs.Text.CodePoint

/-! # The pieces of a value

    A value is written in pieces. Put together they are its text, which is `render`
    (**`flatMap_pieces`**), and all of them can be written exactly when the value is
    **paired**: when no string and no key in it holds half of a surrogate pair
    (**`forall_mem_pieces_iff`**).
-/

namespace TemplateAnalysis.Json

open Text

/-! ## Texts -/

/-- The characters of a string, with its quotes. -/
def renderString (s : CodePoints) : List Char :=
  '"' :: s.chars.flatMap escapeChar ++ ['"']

mutual

/-- The characters of a value. -/
def render (layout : Layout) : Value → List Char
  | .null => "null".toList
  | .bool true => "true".toList
  | .bool false => "false".toList
  | .integer n => renderInteger n
  | .double x => renderDouble x
  | .string s => renderString s
  | .array [] => ['[', ']']
  | .array (item :: items) =>
    '[' :: layout.inner.edge ++ render layout.inner item ++ renderItems layout.inner items ++
      layout.edge ++ [']']
  | .object [] => ['{', '}']
  | .object ((key, value) :: members) =>
    '{' :: layout.inner.edge ++ renderString key ++ ':' :: ' ' :: render layout.inner value ++
      renderMembers layout.inner members ++ layout.edge ++ ['}']

/-- The characters of the items behind the first. -/
def renderItems (layout : Layout) : List Value → List Char
  | [] => []
  | item :: items => layout.separator ++ render layout item ++ renderItems layout items

/-- The characters of the members behind the first. -/
def renderMembers (layout : Layout) : List (CodePoints × Value) → List Char
  | [] => []
  | (key, value) :: members =>
    layout.separator ++ renderString key ++ ':' :: ' ' :: render layout value ++
      renderMembers layout members

end

theorem chars_flatMap_escapePoint (s : CodePoints) :
    CodePoints.chars (s.flatMap escapePoint) = s.chars.flatMap escapeChar := by
  induction s with
  | nil => rfl
  | cons point s ih =>
    rw [List.flatMap_cons, CodePoints.chars_append, ih]
    cases point with
    | scalar c =>
      rw [escapePoint, CodePoints.chars_ofList, CodePoints.chars_scalar_cons, List.flatMap_cons]
    | surrogate half => rfl

@[simp] theorem chars_quoted (s : CodePoints) : (quoted s).chars = renderString s := by
  unfold quoted renderString
  rw [CodePoints.chars_append, CodePoints.chars_scalar_cons, chars_flatMap_escapePoint]
  rfl

theorem flatMap_leadBy (front : List Char) (item : Value) (pieces : List CodePoints) :
    (leadBy front item pieces).flatMap CodePoints.chars =
      front ++ pieces.flatMap CodePoints.chars := by
  unfold leadBy
  split
  · simp
  · split <;> simp

mutual

/-- **The pieces of a value are its text.** -/
theorem flatMap_pieces (layout : Layout) : ∀ value : Value,
    (pieces layout value).flatMap CodePoints.chars = render layout value
  | .null => rfl
  | .bool true => rfl
  | .bool false => rfl
  | .integer n => by simp [pieces, render]
  | .double x => by simp [pieces, render]
  | .string s => by simp [pieces, render]
  | .array [] => rfl
  | .array (item :: items) => by
    simp [pieces, render, flatMap_leadBy, flatMap_pieces layout.inner item,
      flatMap_itemPieces layout.inner items]
  | .object [] => rfl
  | .object ((key, value) :: members) => by
    simp [pieces, render, CodePoints.ofString, flatMap_pieces layout.inner value,
      flatMap_memberPieces layout.inner members]

theorem flatMap_itemPieces (layout : Layout) : ∀ items : List Value,
    (itemPieces layout items).flatMap CodePoints.chars = renderItems layout items
  | [] => rfl
  | item :: items => by
    simp [itemPieces, renderItems, flatMap_leadBy, flatMap_pieces layout item,
      flatMap_itemPieces layout items]

theorem flatMap_memberPieces (layout : Layout) : ∀ members : List (CodePoints × Value),
    (memberPieces layout members).flatMap CodePoints.chars = renderMembers layout members
  | [] => rfl
  | (key, value) :: members => by
    simp [memberPieces, renderMembers, CodePoints.ofString, flatMap_pieces layout value,
      flatMap_memberPieces layout members]

end

/-! ## Paired values -/

mutual

/-- The strings of a value, keys among them. -/
def Value.strings : Value → List CodePoints
  | .null | .bool _ | .integer _ | .double _ => []
  | .string s => [s]
  | .array items => itemStrings items
  | .object members => memberStrings members

/-- The strings of items. -/
def itemStrings : List Value → List CodePoints
  | [] => []
  | item :: items => item.strings ++ itemStrings items

/-- The keys of members, and the strings of their values. -/
def memberStrings : List (CodePoints × Value) → List CodePoints
  | [] => []
  | (key, value) :: members => key :: (value.strings ++ memberStrings members)

end

/-- Does no string of the value hold half of a surrogate pair? -/
def Value.Paired (value : Value) : Prop :=
  ∀ s ∈ value.strings, s.Paired

instance (value : Value) : Decidable value.Paired :=
  inferInstanceAs (Decidable (∀ s ∈ value.strings, s.Paired))

theorem paired_string_iff {s : CodePoints} : (Value.string s).Paired ↔ s.Paired := by
  simp [Value.Paired, Value.strings]

theorem forall_mem_itemStrings_iff {items : List Value} :
    (∀ s ∈ itemStrings items, s.Paired) ↔ ∀ item ∈ items, item.Paired := by
  induction items with
  | nil => simp [itemStrings]
  | cons item items ih => rw [itemStrings, List.forall_mem_append, List.forall_mem_cons, ih]; rfl

theorem forall_mem_memberStrings_iff {members : Members} :
    (∀ s ∈ memberStrings members, s.Paired) ↔
      ∀ entry ∈ members, entry.1.Paired ∧ entry.2.Paired := by
  induction members with
  | nil => simp [memberStrings]
  | cons entry members ih =>
    rw [memberStrings, List.forall_mem_cons, List.forall_mem_append, List.forall_mem_cons, ih,
      and_assoc]
    rfl

/-- An array is paired when its items are. -/
theorem paired_array_iff {items : List Value} :
    (Value.array items).Paired ↔ ∀ item ∈ items, item.Paired := by
  unfold Value.Paired
  rw [Value.strings]
  exact forall_mem_itemStrings_iff

/-- An object is paired when its keys and their values are. -/
theorem paired_object_iff {members : Members} :
    (Value.object members).Paired ↔ ∀ entry ∈ members, entry.1.Paired ∧ entry.2.Paired := by
  unfold Value.Paired
  rw [Value.strings]
  exact forall_mem_memberStrings_iff

theorem paired_escapePoint_iff {point : CodePoint} :
    (escapePoint point).Paired ↔ point.char?.isSome = true := by
  cases point with
  | scalar c => exact iff_of_true (CodePoints.paired_ofList _) rfl
  | surrogate half => simp [escapePoint, CodePoints.paired_cons_iff, CodePoint.char?]

@[simp] theorem paired_quoted_iff {s : CodePoints} : (quoted s).Paired ↔ s.Paired := by
  have hbody : CodePoints.Paired (s.flatMap escapePoint) ↔ s.Paired := by
    induction s with
    | nil => exact Iff.rfl
    | cons point s ih =>
      rw [List.flatMap_cons, CodePoints.paired_append_iff, ih, paired_escapePoint_iff,
        CodePoints.paired_cons_iff]
  have hquote : CodePoints.Paired [.scalar '"'] := CodePoints.paired_ofList ['"']
  unfold quoted
  rw [CodePoints.paired_append_iff, CodePoints.paired_cons_iff, hbody]
  exact ⟨fun h => h.1.2, fun h => ⟨⟨rfl, h⟩, hquote⟩⟩

theorem forall_mem_leadBy_iff {front : List Char} {item : Value} {pieces : List CodePoints} :
    (∀ piece ∈ leadBy front item pieces, piece.Paired) ↔ ∀ piece ∈ pieces, piece.Paired := by
  unfold leadBy
  split
  · simp
  · split <;> simp [CodePoints.paired_append_iff]

mutual

/-- **All pieces of a value can be written when it is paired**, and otherwise not. -/
theorem forall_mem_pieces_iff (layout : Layout) : ∀ value : Value,
    (∀ piece ∈ pieces layout value, piece.Paired) ↔ value.Paired
  | .null => by simp [pieces, Value.Paired, Value.strings]
  | .bool true => by simp [pieces, Value.Paired, Value.strings]
  | .bool false => by simp [pieces, Value.Paired, Value.strings]
  | .integer n => by simp [pieces, Value.Paired, Value.strings]
  | .double x => by simp [pieces, Value.Paired, Value.strings]
  | .string s => by simp [pieces, Value.Paired, Value.strings]
  | .array [] => by simp [pieces, paired_array_iff]
  | .array (item :: items) => by
    rw [pieces, paired_array_iff, List.forall_mem_append, List.forall_mem_append,
      forall_mem_leadBy_iff, forall_mem_pieces_iff layout.inner item,
      forall_mem_itemPieces_iff layout.inner items, List.forall_mem_cons]
    simp
  | .object [] => by simp [pieces, paired_object_iff]
  | .object ((key, value) :: members) => by
    rw [paired_object_iff, List.forall_mem_cons, ← forall_mem_pieces_iff layout.inner value,
      ← forall_mem_memberPieces_iff layout.inner members]
    simp only [pieces, List.forall_mem_cons, List.forall_mem_append, paired_quoted_iff,
      CodePoints.paired_ofList, CodePoints.paired_ofString, true_and, and_assoc]
    simp

theorem forall_mem_itemPieces_iff (layout : Layout) : ∀ items : List Value,
    (∀ piece ∈ itemPieces layout items, piece.Paired) ↔ ∀ item ∈ items, item.Paired
  | [] => by simp [itemPieces]
  | item :: items => by
    rw [itemPieces, List.forall_mem_append, forall_mem_leadBy_iff,
      forall_mem_pieces_iff layout item, forall_mem_itemPieces_iff layout items,
      List.forall_mem_cons]

theorem forall_mem_memberPieces_iff (layout : Layout) : ∀ members : List (CodePoints × Value),
    (∀ piece ∈ memberPieces layout members, piece.Paired) ↔
      ∀ entry ∈ members, entry.1.Paired ∧ entry.2.Paired
  | [] => by simp [memberPieces]
  | (key, value) :: members => by
    rw [List.forall_mem_cons, ← forall_mem_pieces_iff layout value,
      ← forall_mem_memberPieces_iff layout members]
    simp only [memberPieces, List.forall_mem_cons, List.forall_mem_append, paired_quoted_iff,
      CodePoints.paired_ofList, CodePoints.paired_ofString, true_and, and_assoc]

end

end TemplateAnalysis.Json
