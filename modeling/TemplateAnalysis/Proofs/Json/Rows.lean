import TemplateAnalysis.Markup.Tag
import TemplateAnalysis.Proofs.Json.RoundTrip
import TemplateAnalysis.Proofs.Text.Lines

/-! # Rows of a laid out value

    A value is laid out in rows: one for every item and member, and one for every
    bracket that is closed below its items. A row is not the same as a line, since
    a text may hold characters that end a line.

    * **`spell_rows`**: the rows of a value, one after another, are its text, so
      every member has its key at the front of a row, behind the blanks alone;
    * **`sealsRows`**: no quote behind the key of a row has a colon after it,
      unless it is the first one, or stands behind a backslash.
-/

namespace TemplateAnalysis.Json

open Text Markup

/-! ## Rows -/

/-- One step into a value. -/
inductive Hop
  | member (name : CodePoints)
  | item (index : Nat)
  deriving DecidableEq, Repr

/-- A row: how far it is indented, the way to the value that begins in it, the
    key of that value if it is a member, and what stands behind the key. -/
structure Row where
  level : Nat
  path : List Hop
  key? : Option CodePoints
  body : List Char

/-- A key as it is written in front of its value. -/
def keyText : Option CodePoints → List Char
  | none => []
  | some key => renderString key ++ [':', ' ']

/-- The text of a row. -/
def Row.text (row : Row) : List Char :=
  List.replicate (2 * row.level) ' ' ++ keyText row.key? ++ row.body

/-- The comma behind a value with others behind it. -/
def commaBefore {α : Type} (others : List α) : List Char :=
  if others.isEmpty then [] else [',']

mutual

/-- The rows of a value: on which level and at the end of which way it stands,
    the key in front of it, and what stands behind it. -/
def rows (level : Nat) (path : List Hop) (key? : Option CodePoints) (trail : List Char) :
    Value → List Row
  | .array (item :: items) =>
    ⟨level, path, key?, ['[']⟩ ::
      (rows (level + 1) (path ++ [.item 0]) none (commaBefore items) item ++
        itemRows (level + 1) path 1 items ++ [⟨level, path, none, ']' :: trail⟩])
  | .object ((key, value) :: members) =>
    ⟨level, path, key?, ['{']⟩ ::
      (rows (level + 1) (path ++ [.member key]) (some key) (commaBefore members) value ++
        memberRows (level + 1) path members ++ [⟨level, path, none, '}' :: trail⟩])
  | value => [⟨level, path, key?, render (.indented level) value ++ trail⟩]

/-- The rows of items, of which the first has a given index. -/
def itemRows (level : Nat) (path : List Hop) (index : Nat) : List Value → List Row
  | [] => []
  | item :: items =>
    rows level (path ++ [.item index]) none (commaBefore items) item ++
      itemRows level path (index + 1) items

/-- The rows of members. -/
def memberRows (level : Nat) (path : List Hop) : List (CodePoints × Value) → List Row
  | [] => []
  | (key, value) :: members =>
    rows level (path ++ [.member key]) (some key) (commaBefore members) value ++
      memberRows level path members

end

/-- Rows one after another, each ended by a line feed. -/
def spell (rows : List Row) : List Char :=
  rows.flatMap fun row => row.text ++ ['\n']

theorem spell_append (before after : List Row) :
    spell (before ++ after) = spell before ++ spell after :=
  List.flatMap_append

theorem spell_cons (row : Row) (rest : List Row) :
    spell (row :: rest) = row.text ++ '\n' :: spell rest := by
  simp [spell]

theorem rows_array (level : Nat) (path : List Hop) (key? : Option CodePoints) (trail : List Char)
    (item : Value) (items : List Value) :
    rows level path key? trail (.array (item :: items)) =
      ⟨level, path, key?, ['[']⟩ ::
        (itemRows (level + 1) path 0 (item :: items) ++ [⟨level, path, none, ']' :: trail⟩]) := by
  rw [rows, itemRows]

theorem rows_object (level : Nat) (path : List Hop) (key? : Option CodePoints) (trail : List Char)
    (entry : CodePoints × Value) (members : Members) :
    rows level path key? trail (.object (entry :: members)) =
      ⟨level, path, key?, ['{']⟩ ::
        (memberRows (level + 1) path (entry :: members) ++
          [⟨level, path, none, '}' :: trail⟩]) := by
  rw [rows, memberRows]

/-- Does the value stand in one row? -/
def isSingle : Value → Bool
  | .array (_ :: _) | .object (_ :: _) => false
  | _ => true

theorem rows_single {value : Value} (h : isSingle value = true) (level : Nat) (path : List Hop)
    (key? : Option CodePoints) (trail : List Char) :
    rows level path key? trail value =
      [⟨level, path, key?, render (.indented level) value ++ trail⟩] := by
  rw [rows]
  · rintro item items rfl
    cases h
  · rintro key member members rfl
    cases h

/-- The rows of the value are its text, whatever stands around it. -/
def SpellsRows (value : Value) : Prop :=
  ∀ level path key? trail, spell (rows level path key? trail value) =
    List.replicate (2 * level) ' ' ++ keyText key? ++ render (.indented level) value ++ trail ++
      ['\n']

theorem spellsRows_single {value : Value} (h : isSingle value = true) : SpellsRows value := by
  intro level path key? trail
  rw [rows_single h, spell_cons]
  simp [spell, Row.text]

theorem spell_itemRows {item : Value} {items : List Value}
    (h : ∀ other ∈ item :: items, SpellsRows other) (level : Nat) (path : List Hop)
    (index : Nat) :
    spell (itemRows level path index (item :: items)) =
      List.replicate (2 * level) ' ' ++ render (.indented level) item ++
        renderItems (.indented level) items ++ ['\n'] := by
  induction items generalizing item index with
  | nil =>
    rw [itemRows, itemRows, List.append_nil, h item List.mem_cons_self]
    simp [keyText, commaBefore, renderItems]
  | cons second items ih =>
    -- The comma behind an item ends its last row, so the separator is cut in two.
    have hrest := ih (fun other hm => h other (List.mem_cons_of_mem item hm)) (index + 1)
    rw [itemRows, spell_append, h item List.mem_cons_self, hrest]
    simp [keyText, commaBefore, renderItems, Layout.separator]

theorem spell_memberRows {entry : CodePoints × Value} {members : Members}
    (h : ∀ other ∈ entry :: members, SpellsRows other.2) (level : Nat) (path : List Hop) :
    spell (memberRows level path (entry :: members)) =
      List.replicate (2 * level) ' ' ++ keyText (some entry.1) ++
        render (.indented level) entry.2 ++ renderMembers (.indented level) members ++ ['\n'] := by
  induction members generalizing entry with
  | nil =>
    rw [memberRows, memberRows, List.append_nil, h entry List.mem_cons_self]
    simp [commaBefore, renderMembers]
  | cons second members ih =>
    have hrest := ih fun other hm => h other (List.mem_cons_of_mem entry hm)
    rw [memberRows, spell_append, h entry List.mem_cons_self, hrest]
    simp [keyText, commaBefore, renderMembers, Layout.separator]

/-- **The rows of a value are its text.** -/
theorem spell_rows {value : Value} (hw : value.WellFormed) : SpellsRows value := by
  induction hw with
  | null => exact spellsRows_single rfl
  | bool b => exact spellsRows_single rfl
  | integer n => exact spellsRows_single rfl
  | double _ => exact spellsRows_single rfl
  | string s => exact spellsRows_single rfl
  | @array items _ ih =>
    cases items with
    | nil => exact spellsRows_single rfl
    | cons item items =>
      intro level path key? trail
      rw [rows_array, spell_cons, spell_append, spell_itemRows ih]
      simp [spell, Row.text, keyText, render, Layout.inner, Layout.edge]
  | @object members _ _ ih =>
    cases members with
    | nil => exact spellsRows_single rfl
    | cons entry members =>
      intro level path key? trail
      rw [rows_object, spell_cons, spell_append, spell_memberRows ih]
      simp [spell, Row.text, keyText, render, Layout.inner, Layout.edge]

/-! ## Quotes in a row -/

/-- No quote has a colon after it, but for blanks between them, unless it comes
    first, or stands behind a backslash. -/
def Sealed (text : List Char) : Prop :=
  ∀ before rest, text = before ++ '"' :: rest →
    before = [] ∨ before.getLast? = some '\\' ∨ (trimLeft rest).head? ≠ some ':'

theorem sealed_of_notMem {text : List Char} (h : '"' ∉ text) : Sealed text := by
  rintro before rest rfl
  simp at h

/-- A quote in a string is written behind a backslash. -/
theorem getLast?_of_escapeChar {c : Char} {before rest : List Char}
    (h : escapeChar c = before ++ '"' :: rest) : before.getLast? = some '\\' := by
  have hquote : '"' ∈ escapeChar c := by simp [h]
  rcases escapeChar_cases c with ⟨letter, heq, -, -⟩ | ⟨hcontrol, heq⟩ | ⟨-, hne, -, heq⟩
  · rw [heq] at h
    cases before with
    | nil => exact absurd (List.cons.inj h).1 (by decide)
    | cons first more =>
      obtain ⟨rfl, hletter⟩ := List.cons.inj h
      cases more with
      | nil => rfl
      | cons second more => simp at hletter
  · have hhigh : hexDigit (c.toNat / 16) ≠ '"' := hexDigit_ne (by omega) rfl
    have hlow : hexDigit (c.toNat % 16) ≠ '"' := hexDigit_ne (by omega) rfl
    simp [heq, hhigh.symm, hlow.symm] at hquote
  · rw [heq] at hquote
    exact absurd (List.mem_singleton.1 hquote).symm hne

/-- The first quote behind the opening one that is not behind a backslash is the
    closing one. -/
theorem quote_in_string {cs tail before rest : List Char} (htail : '"' ∉ tail)
    (h : cs.flatMap escapeChar ++ '"' :: tail = before ++ '"' :: rest) :
    before.getLast? = some '\\' ∨ rest = tail := by
  induction cs generalizing before with
  | nil =>
    right
    cases before with
    | nil => exact (List.cons.inj h).2.symm
    | cons first more =>
      obtain ⟨-, rfl⟩ := List.cons.inj h
      simp at htail
  | cons c cs ih =>
    rw [List.flatMap_cons, List.append_assoc] at h
    rcases List.append_eq_append_iff.1 h with ⟨more, rfl, hmore⟩ | ⟨more, hc, hmore⟩
    · refine (ih hmore).imp_left fun hlast => ?_
      rw [List.getLast?_append, hlast]
      rfl
    · cases more with
      | nil =>
        -- The character ends where the quote begins, which is then one further on.
        rw [List.append_nil] at hc
        refine (@ih [] hmore.symm).imp_left fun hlast => ?_
        cases hlast
      | cons first more =>
        obtain ⟨rfl, -⟩ := List.cons.inj hmore
        exact .inl (getLast?_of_escapeChar hc)

theorem sealed_string (s : CodePoints) {tail : List Char} (hquote : '"' ∉ tail)
    (hcolon : (trimLeft tail).head? ≠ some ':') : Sealed (renderString s ++ tail) := by
  intro before rest h
  rw [renderString, List.append_assoc, List.singleton_append] at h
  cases before with
  | nil => exact .inl rfl
  | cons first more =>
    right
    obtain ⟨rfl, hmore⟩ := List.cons.inj h
    refine (quote_in_string hquote hmore).imp (fun hlast => ?_) fun hrest => ?_
    · rw [List.getLast?_cons, hlast]
      rfl
    · rw [hrest]
      exact hcolon

/-- What stands behind a value in its last row: a comma, or nothing. -/
def IsTrail (trail : List Char) : Prop :=
  trail = [] ∨ trail = [',']

theorem isTrail_commaBefore {α : Type} (others : List α) : IsTrail (commaBefore others) := by
  cases others with
  | nil => exact .inl rfl
  | cons _ _ => exact .inr rfl

theorem IsTrail.notMem {trail : List Char} (h : IsTrail trail) : '"' ∉ trail ++ ['\n'] := by
  rcases h with rfl | rfl <;> decide

theorem IsTrail.no_colon {trail : List Char} (h : IsTrail trail) :
    (trimLeft (trail ++ ['\n'])).head? ≠ some ':' := by
  rcases h with rfl | rfl <;> decide

theorem sealed_scalar {text trail : List Char} (htext : '"' ∉ text) (h : IsTrail trail) :
    Sealed (text ++ trail ++ ['\n']) := by
  apply sealed_of_notMem
  rw [List.append_assoc, List.mem_append, not_or]
  exact ⟨htext, h.notMem⟩

theorem quote_notMem_of_numeral {text : List Char} (h : ∀ c ∈ text, isNumeral c = true) :
    '"' ∉ text :=
  fun hm => absurd (h _ hm) (by decide)

/-- The rows of the value are sealed behind their keys. -/
def SealsRows (value : Value) : Prop :=
  ∀ level path key? trail, IsTrail trail →
    ∀ row ∈ rows level path key? trail value, Sealed (row.body ++ ['\n'])

theorem sealsRows_single {value : Value} (hsingle : isSingle value = true)
    (h : ∀ level trail, IsTrail trail →
      Sealed (render (.indented level) value ++ trail ++ ['\n'])) : SealsRows value := by
  intro level path key? trail htrail row hrow
  rw [rows_single hsingle, List.mem_singleton] at hrow
  rw [hrow]
  exact h level trail htrail

theorem sealsRows_itemRows {items : List Value} (h : ∀ item ∈ items, SealsRows item)
    (level : Nat) (path : List Hop) (index : Nat) :
    ∀ row ∈ itemRows level path index items, Sealed (row.body ++ ['\n']) := by
  induction items generalizing index with
  | nil =>
    intro row hrow
    rw [itemRows] at hrow
    cases hrow
  | cons item items ih =>
    intro row hrow
    rw [itemRows, List.mem_append] at hrow
    rcases hrow with hrow | hrow
    · exact h item List.mem_cons_self _ _ _ _ (isTrail_commaBefore items) row hrow
    · exact ih (fun other hm => h other (List.mem_cons_of_mem item hm)) _ row hrow

theorem sealsRows_memberRows {members : Members} (h : ∀ entry ∈ members, SealsRows entry.2)
    (level : Nat) (path : List Hop) :
    ∀ row ∈ memberRows level path members, Sealed (row.body ++ ['\n']) := by
  induction members with
  | nil =>
    intro row hrow
    rw [memberRows] at hrow
    cases hrow
  | cons entry members ih =>
    intro row hrow
    rw [memberRows, List.mem_append] at hrow
    rcases hrow with hrow | hrow
    · exact h entry List.mem_cons_self _ _ _ _ (isTrail_commaBefore members) row hrow
    · exact ih (fun other hm => h other (List.mem_cons_of_mem entry hm)) row hrow

/-- **Nothing behind the key of a row looks like a key.** -/
theorem sealsRows {value : Value} (hw : value.WellFormed) : SealsRows value := by
  induction hw with
  | null => exact sealsRows_single rfl fun _ _ => sealed_scalar (by simp [render])
  | bool b => exact sealsRows_single rfl fun _ _ => sealed_scalar (by cases b <;> simp [render])
  | integer n =>
    exact sealsRows_single rfl fun _ _ =>
      sealed_scalar (quote_notMem_of_numeral (numeral_renderInteger n))
  | @double x _ =>
    exact sealsRows_single rfl fun _ _ =>
      sealed_scalar (quote_notMem_of_numeral (numeral_renderDouble x))
  | string s =>
    refine sealsRows_single rfl fun level trail htrail => ?_
    rw [render, List.append_assoc]
    exact sealed_string s htrail.notMem htrail.no_colon
  | @array items _ ih =>
    cases items with
    | nil => exact sealsRows_single rfl fun _ _ => sealed_scalar (by simp [render])
    | cons item items =>
      intro level path key? trail htrail row hrow
      rw [rows_array, List.mem_cons, List.mem_append, List.mem_singleton] at hrow
      rcases hrow with rfl | hrow | rfl
      · exact sealed_of_notMem (by simp)
      · exact sealsRows_itemRows ih _ _ _ row hrow
      · show Sealed ([']'] ++ trail ++ ['\n'])
        exact sealed_scalar (by decide) htrail
  | @object members _ _ ih =>
    cases members with
    | nil => exact sealsRows_single rfl fun _ _ => sealed_scalar (by simp [render])
    | cons entry members =>
      intro level path key? trail htrail row hrow
      rw [rows_object, List.mem_cons, List.mem_append, List.mem_singleton] at hrow
      rcases hrow with rfl | hrow | rfl
      · exact sealed_of_notMem (by simp)
      · exact sealsRows_memberRows ih _ _ row hrow
      · show Sealed (['}'] ++ trail ++ ['\n'])
        exact sealed_scalar (by decide) htrail

end TemplateAnalysis.Json
