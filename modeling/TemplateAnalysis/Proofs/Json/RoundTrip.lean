import TemplateAnalysis.Proofs.Json.Numbers
import TemplateAnalysis.Proofs.Json.Pieces
import TemplateAnalysis.Proofs.Json.Value

/-! # Values are read as they were written

    The text of a value that is paired, in any layout, is read as that value:

    * **`readString_flatMap`**: a string comes back from its written form,
      whatever stands behind its closing quote;
    * **`readsBack`**: so does every well-formed value that is paired, by induction on
      how it is built;
    * **`parse_render`**: a document that holds the text of a value stands for it.

    Positions count only for problems, so they are left open here.
-/

namespace TemplateAnalysis.Json

open Decimal Markup Text

/-- A step that reads a value and leaves this text. -/
def Reads {α : Type} (step : Step α) (found : α) (rest : List Char) : Prop :=
  ∃ position, step = .ok (found, ⟨position, rest⟩)

theorem Reads.map {α β : Type} {step : Step α} {found : α} {rest : List Char}
    (h : Reads step found rest) (f : α → β) :
    Reads (step.map fun read => (f read.1, read.2)) (f found) rest := by
  obtain ⟨position, rfl⟩ := h
  exact ⟨position, rfl⟩

/-! ## Strings -/

theorem hexValue?_hexDigit {n : Nat} (h : n < 16) : hexValue? (hexDigit n) = some n := by
  revert n
  decide

/-- The code of a control character is read from its two digits. -/
theorem readCodeUnit_control (position : Nat) {n : Nat} (h : n < 0x20) {tail : List Char}
    (ht : tail ≠ []) :
    readCodeUnit position ('0' :: '0' :: hexDigit (n / 16) :: hexDigit (n % 16) :: tail) =
      .ok (.scalar (Char.ofNat n), 4) := by
  have hunit : codeUnit? ['0', '0', hexDigit (n / 16), hexDigit (n % 16)] = some n := by
    have hhigh := hexValue?_hexDigit (show n / 16 < 16 by omega)
    have hlow := hexValue?_hexDigit (show n % 16 < 16 by omega)
    have hzero : hexValue? '0' = some 0 := rfl
    simp [codeUnit?, isHexDigit, numberOfDigits, hhigh, hlow, hzero]
    omega
  have hsurrogate : isHighSurrogate n = false := by
    simp [isHighSurrogate]
    omega
  have hwhole : ¬(0xD800 ≤ n ∧ n ≤ 0xDFFF) := by omega
  have hlong : 0 < tail.length := List.length_pos_iff.2 ht
  have hnotShort :
      ¬('0' :: '0' :: hexDigit (n / 16) :: hexDigit (n % 16) :: tail).length ≤ 4 := by
    simp only [List.length_cons]
    omega
  unfold readCodeUnit
  rw [if_neg hnotShort]
  simp [hunit, hsurrogate, ofCodeUnit, hwhole]

/-- A character that is written as a backslash and a letter is read from them. -/
theorem readString_escaped (opening position : Nat) {letter c : Char} (hu : letter ≠ 'u')
    (hc : escaped? letter = some c) (tail : List Char) :
    readString opening position ('\\' :: letter :: tail) =
      (readString opening (position + 2) tail).map fun read => (.scalar c :: read.1, read.2) := by
  rw [readString.eq_def]
  simp [hu, hc]

/-- A character is written with a letter of its own, with its code, or as it is. -/
theorem escapeChar_cases (c : Char) :
    (∃ letter, escapeChar c = ['\\', letter] ∧ letter ≠ 'u' ∧ escaped? letter = some c) ∨
    (c.toNat < 0x20 ∧ escapeChar c =
      ['\\', 'u', '0', '0', hexDigit (c.toNat / 16), hexDigit (c.toNat % 16)]) ∨
    (¬c.toNat < 0x20 ∧ c ≠ '"' ∧ c ≠ '\\' ∧ escapeChar c = [c]) := by
  by_cases hq : c = '"'
  · exact .inl ⟨'"', by rw [hq]; rfl, by decide, by rw [hq]; rfl⟩
  by_cases hb : c = '\\'
  · exact .inl ⟨'\\', by rw [hb]; rfl, by decide, by rw [hb]; rfl⟩
  by_cases hn : c = '\n'
  · exact .inl ⟨'n', by rw [hn]; rfl, by decide, by rw [hn]; rfl⟩
  by_cases hr : c = '\r'
  · exact .inl ⟨'r', by rw [hr]; rfl, by decide, by rw [hr]; rfl⟩
  by_cases ht : c = '\t'
  · exact .inl ⟨'t', by rw [ht]; rfl, by decide, by rw [ht]; rfl⟩
  by_cases hback : c = '\x08'
  · exact .inl ⟨'b', by rw [hback]; rfl, by decide, by rw [hback]; rfl⟩
  by_cases hfeed : c = '\x0c'
  · exact .inl ⟨'f', by rw [hfeed]; rfl, by decide, by rw [hfeed]; rfl⟩
  -- No letter stands for any other character.
  by_cases hcontrol : c.toNat < 0x20
  · refine .inr (.inl ⟨hcontrol, ?_⟩)
    simp [escapeChar, hq, hb, hn, hr, ht, hback, hfeed, hcontrol]
  · refine .inr (.inr ⟨hcontrol, hq, hb, ?_⟩)
    simp [escapeChar, hq, hb, hn, hr, ht, hback, hfeed, hcontrol]

/-- A written character is read, and then what stands behind it. -/
theorem readString_escapeChar (opening position : Nat) (c : Char) {tail : List Char}
    (htail : tail ≠ []) : ∃ next,
    readString opening position (escapeChar c ++ tail) =
      (readString opening next tail).map fun read => (.scalar c :: read.1, read.2) := by
  rcases escapeChar_cases c with ⟨letter, h, hu, he⟩ | ⟨hcontrol, h⟩ | ⟨hcontrol, hq, hb, h⟩
  · rw [h]
    exact ⟨_, readString_escaped opening position hu he tail⟩
  · -- The digits of a code must not end the text; the closing quote is behind them.
    have hread := readCodeUnit_control (position + 1) hcontrol htail
    refine ⟨position + 2 + 4, ?_⟩
    rw [h]
    simp only [List.cons_append, List.nil_append]
    rw [readString.eq_def]
    simp [hread]
  · refine ⟨position + 1, ?_⟩
    rw [h, List.singleton_append, readString.eq_def]
    have hplain : ¬c.toNat ≤ 0x1F := by omega
    simp [hq, hb, hplain]

/-- **A string is read as it was written.** -/
theorem readString_flatMap (opening position : Nat) (cs rest : List Char) :
    Reads (readString opening position (cs.flatMap escapeChar ++ '"' :: rest))
      (CodePoints.ofList cs) rest := by
  induction cs generalizing position with
  | nil =>
    refine ⟨position + 1, ?_⟩
    show readString opening position ('"' :: rest) = _
    rw [readString.eq_def]
    simp [CodePoints.ofList]
  | cons c cs ih =>
    have hne : cs.flatMap escapeChar ++ '"' :: rest ≠ [] := by simp
    obtain ⟨next, hnext⟩ := readString_escapeChar opening position c hne
    rw [List.flatMap_cons, List.append_assoc, hnext]
    exact (ih next).map (.scalar c :: ·)

/-! ## White space -/

theorem skipSpace_append {space rest : List Char} (hs : ∀ c ∈ space, isSpace c = true)
    (hr : ∀ c, rest.head? = some c → isSpace c = false) (position : Nat) : ∃ next,
    Cursor.skipSpace ⟨position, space ++ rest⟩ = ⟨next, rest⟩ := by
  have hnone : rest.takeWhile isSpace = [] := by
    cases rest with
    | nil => rfl
    | cons c cs => rw [List.takeWhile_cons_of_neg (by simp [hr c rfl])]
  refine ⟨position + space.length, ?_⟩
  unfold Cursor.skipSpace Cursor.skip
  rw [List.takeWhile_append_of_pos hs, hnone, List.append_nil, List.drop_left]

theorem skipSpace_cons {c : Char} (h : isSpace c = false) (position : Nat) (cs : List Char) :
    Cursor.skipSpace ⟨position, c :: cs⟩ = ⟨position, c :: cs⟩ := by
  unfold Cursor.skipSpace Cursor.skip
  rw [List.takeWhile_cons_of_neg (by simp [h])]
  rfl

/-- What stands before the first item is white space. -/
theorem isSpace_of_mem_edge {layout : Layout} {c : Char} (h : c ∈ layout.edge) :
    isSpace c = true := by
  cases layout with
  | line => contradiction
  | indented level =>
    rcases List.mem_cons.1 h with rfl | h
    · rfl
    · rw [(List.mem_replicate.1 h).2]
      rfl

/-- The white space between two items, behind the comma. -/
def Layout.gap : Layout → List Char
  | .line => [' ']
  | .indented level => '\n' :: List.replicate (2 * level) ' '

theorem Layout.separator_eq (layout : Layout) : layout.separator = ',' :: layout.gap := by
  cases layout <;> rfl

theorem isSpace_of_mem_gap {layout : Layout} {c : Char} (h : c ∈ layout.gap) :
    isSpace c = true := by
  cases layout with
  | line =>
    rw [List.mem_singleton.1 h]
    rfl
  | indented level => exact isSpace_of_mem_edge (show c ∈ (Layout.indented level).edge from h)

/-! ## Scalars -/

/-- A text that is read as a number begins with a digit. -/
theorem isDigit_of_unsignedNumber? {negative : Bool} {cs : List Char} {found : Value × Nat}
    (h : unsignedNumber? negative cs = some found) :
    ∃ c rest, cs = c :: rest ∧ c.isDigit = true := by
  rw [unsignedNumber?_eq] at h
  cases cs with
  | nil => simp [wholeDigits, leadingDigits] at h
  | cons c rest =>
    refine ⟨c, rest, rfl, ?_⟩
    by_cases hc : c.isDigit = true
    · exact hc
    · have hz : c ≠ '0' := fun heq => hc (heq ▸ rfl)
      simp [wholeDigits, leadingDigits, hz, hc] at h

theorem ne_of_isDigit {c d : Char} (h : c.isDigit = true) (hd : d.isDigit = false) : c ≠ d := by
  rintro rfl
  rw [h] at hd
  contradiction

/-- No word begins with a digit. -/
theorem find?_words_digit {c : Char} (h : c.isDigit = true) (rest : List Char) :
    (words.find? fun word => word.1.isPrefixOf (c :: rest)) = none := by
  have hne : ∀ d, d.isDigit = false → (d == c) = false := by
    intro d hd
    exact beq_eq_false_iff_ne.2 (ne_of_isDigit h hd).symm
  simp [words, List.isPrefixOf, hne]

/-- No word begins with the sign of a number. -/
theorem find?_words_minus {c : Char} (h : c.isDigit = true) (rest : List Char) :
    (words.find? fun word => word.1.isPrefixOf ('-' :: c :: rest)) = none := by
  have hne : ('I' == c) = false := beq_eq_false_iff_ne.2 (ne_of_isDigit h rfl).symm
  simp [words, List.isPrefixOf, hne]

/-- A value that begins like no string, object or array is a scalar. -/
theorem readValue_scalar (fuel position : Nat) {c : Char} (rest : List Char) (hq : c ≠ '"')
    (ho : c ≠ '{') (ha : c ≠ '[') :
    readValue (fuel + 1) ⟨position, c :: rest⟩ = readScalar ⟨position, c :: rest⟩ := by
  rw [readValue]
  split
  · rename_i heq
    exact absurd (List.cons.inj heq).1 hq
  · rename_i heq
    exact absurd (List.cons.inj heq).1 ho
  · rename_i heq
    exact absurd (List.cons.inj heq).1 ha
  · rfl

/-- What a number takes up of a text is skipped. -/
theorem readScalar_number (position : Nat) {text rest : List Char} {value : Value}
    (hw : (words.find? fun word => word.1.isPrefixOf (text ++ rest)) = none)
    (h : number? (text ++ rest) = some (value, text.length)) :
    Reads (readScalar ⟨position, text ++ rest⟩) value rest := by
  refine ⟨position + text.length, ?_⟩
  unfold readScalar
  simp only [hw, h, Cursor.skip, List.drop_left]

/-- A number with its sign is read when the number without it is. -/
theorem readValue_number (fuel position : Nat) {negative : Bool} {text rest : List Char}
    {value : Value}
    (h : unsignedNumber? negative (text ++ rest) = some (value, text.length)) :
    Reads (readValue (fuel + 1)
      ⟨position, (if negative then ['-'] else []) ++ text ++ rest⟩) value rest := by
  obtain ⟨c, more, hcs, hdigit⟩ := isDigit_of_unsignedNumber? h
  have hne : ∀ d, d.isDigit = false → c ≠ d := fun _ => ne_of_isDigit hdigit
  cases negative with
  | true =>
    -- One word begins with a sign, too, but goes on with a letter.
    have hwords := find?_words_minus hdigit more
    rw [← hcs] at hwords
    have hnumber : number? (('-' :: text) ++ rest) = some (value, ('-' :: text).length) := by
      rw [List.cons_append, number?, h]
      rfl
    simp only [if_true]
    rw [List.singleton_append, List.cons_append,
      readValue_scalar fuel position _ (by decide) (by decide) (by decide)]
    exact readScalar_number position hwords hnumber
  | false =>
    have hwords := find?_words_digit hdigit more
    have hnumber : number? (text ++ rest) = some (value, text.length) := by
      rw [← h, hcs]
      unfold number?
      split
      · rename_i heq
        exact absurd (List.cons.inj heq).1 (hne '-' rfl)
      · rfl
    simp only [Bool.false_eq_true, if_false, List.nil_append]
    rw [hcs, readValue_scalar fuel position _ (hne _ rfl) (hne _ rfl) (hne _ rfl), ← hcs]
    rw [← hcs] at hwords
    exact readScalar_number position hwords hnumber

/-! ## Values -/

/-- A value is read from its text in any layout, given enough fuel and a text
    behind it that a number would not go on with. -/
def ReadsBack (value : Value) : Prop :=
  ∀ layout fuel position rest, NumberEnd rest → (render layout value).length < fuel →
    Reads (readValue fuel ⟨position, render layout value ++ rest⟩) value rest

/-- The text of a value begins neither with white space nor with what closes an
    array, nor with a byte order mark. -/
def StartsValue (text : List Char) : Prop :=
  ∃ c cs, text = c :: cs ∧ isSpace c = false ∧ c ≠ ']' ∧ c ≠ '\uFEFF'

theorem startsValue_digit {c : Char} (h : c.isDigit = true) (cs : List Char) :
    StartsValue (c :: cs) := by
  have hne : ∀ d, d.isDigit = false → c ≠ d := fun _ => ne_of_isDigit h
  exact ⟨c, cs, rfl, by simp [isSpace, hne], hne _ rfl, hne _ rfl⟩

theorem startsValue_number {negative : Bool} {text : List Char} {value : Value}
    (h : unsignedNumber? negative (text ++ []) = some (value, text.length)) :
    StartsValue ((if negative then ['-'] else []) ++ text) := by
  obtain ⟨c, cs, hcs, hdigit⟩ := isDigit_of_unsignedNumber? h
  rw [List.append_nil] at hcs
  cases negative with
  | true => exact ⟨'-', text, rfl, by decide, by decide, by decide⟩
  | false =>
    rw [hcs]
    exact startsValue_digit hdigit cs

theorem numberEnd_nil : NumberEnd [] := by
  intro c hc
  contradiction

theorem numberEnd_cons {c : Char} (h : c.isDigit = false ∧ c ≠ '.' ∧ c ≠ 'e' ∧ c ≠ 'E')
    (rest : List Char) : NumberEnd (c :: rest) := by
  intro d hd
  obtain rfl : c = d := Option.some.inj hd
  exact h

theorem numberEnd_space {space rest : List Char} (hs : ∀ c ∈ space, isSpace c = true)
    (hr : NumberEnd rest) : NumberEnd (space ++ rest) := by
  cases space with
  | nil => exact hr
  | cons c cs =>
    have hc := hs c List.mem_cons_self
    simp only [isSpace, Bool.or_eq_true, beq_iff_eq] at hc
    refine numberEnd_cons ?_ _
    rcases hc with ((rfl | rfl) | rfl) | rfl <;> decide

theorem renderInteger_eq (n : Int) :
    renderInteger n = (if decide (n < 0) then ['-'] else []) ++ naturalDigits n.natAbs := by
  simp [renderInteger]

theorem unsignedNumber?_natAbs (n : Int) {rest : List Char} (hr : NumberEnd rest) :
    unsignedNumber? (decide (n < 0)) (naturalDigits n.natAbs ++ rest) =
      some (.integer n, (naturalDigits n.natAbs).length) := by
  have hn : (if decide (n < 0) then -(n.natAbs : Int) else n.natAbs) = n := by
    by_cases h : n < 0
    · simp only [h, decide_true, if_true]
      omega
    · simp only [h, decide_false, Bool.false_eq_true, if_false]
      omega
  rw [unsignedNumber?_naturalDigits _ _ hr, hn]

theorem startsValue_render (layout : Layout) {value : Value} (h : value.WellFormed) :
    StartsValue (render layout value) := by
  cases h with
  | null => exact ⟨'n', _, rfl, by decide⟩
  | bool b => cases b <;> exact ⟨_, _, rfl, by decide⟩
  | integer n =>
    rw [render, renderInteger_eq]
    exact startsValue_number (unsignedNumber?_natAbs n numberEnd_nil)
  | @double x hx =>
    cases x with
    | finite negative m e =>
      exact startsValue_number (unsignedNumber?_writeMagnitude hx numberEnd_nil)
    | infinity negative => cases negative <;> exact ⟨_, _, rfl, by decide⟩
    | nan => exact ⟨_, _, rfl, by decide⟩
  | string s => exact ⟨'"', _, rfl, by decide⟩
  | @array items hi => cases items <;> exact ⟨'[', _, rfl, by decide⟩
  | @object members hd hm => cases members <;> exact ⟨'{', _, rfl, by decide⟩

theorem StartsValue.skipSpace {space text : List Char} (h : StartsValue text)
    (hs : ∀ c ∈ space, isSpace c = true) (position : Nat) (rest : List Char) : ∃ next,
    Cursor.skipSpace ⟨position, space ++ (text ++ rest)⟩ = ⟨next, text ++ rest⟩ := by
  obtain ⟨c, cs, rfl, hspace, -⟩ := h
  refine skipSpace_append hs ?_ position
  intro d hd
  obtain rfl : c = d := Option.some.inj hd
  exact hspace

theorem numberEnd_renderItems (layout : Layout) (items : List Value) {rest : List Char}
    (h : NumberEnd rest) : NumberEnd (renderItems layout items ++ rest) := by
  cases items with
  | nil => exact h
  | cons item items =>
    rw [renderItems, Layout.separator_eq]
    exact numberEnd_cons (by decide) _

theorem numberEnd_renderMembers (layout : Layout) (members : Members) {rest : List Char}
    (h : NumberEnd rest) : NumberEnd (renderMembers layout members ++ rest) := by
  cases members with
  | nil => exact h
  | cons entry members =>
    rw [renderMembers, Layout.separator_eq]
    exact numberEnd_cons (by decide) _

/-- The last item stands before the closing bracket. -/
theorem readItems_last {fuel : Nat} {cursor behind : Cursor} {item : Value} {next : Nat}
    {rest : List Char} (hread : readValue fuel cursor = .ok (item, behind))
    (hnext : behind.skipSpace = ⟨next, ']' :: rest⟩) :
    Reads (readItems (fuel + 1) cursor) [item] rest := by
  refine ⟨next + 1, ?_⟩
  rw [readItems, hread]
  simp only [bind, Except.bind, hnext]
  rfl

/-- Any other item stands before a comma and the next item. -/
theorem readItems_more {fuel : Nat} {cursor behind inner : Cursor} {item : Value}
    {items : List Value} {next : Nat} {text rest : List Char}
    (hread : readValue fuel cursor = .ok (item, behind))
    (hnext : behind.skipSpace = ⟨next, ',' :: text⟩)
    (hinner : Cursor.skipSpace ⟨next + 1, text⟩ = inner)
    (hitems : Reads (readItems fuel inner) items rest) :
    Reads (readItems (fuel + 1) cursor) (item :: items) rest := by
  obtain ⟨last, hitems⟩ := hitems
  refine ⟨last, ?_⟩
  rw [readItems, hread]
  simp only [bind, Except.bind, hnext, Cursor.skip, List.drop_succ_cons, List.drop_zero, hinner,
    hitems]

/-- The items of an array are read, when each of them is. -/
theorem readItems_render (layout : Layout) {first : Value} {items : List Value}
    (hw : ∀ item ∈ first :: items, item.WellFormed)
    (hb : ∀ item ∈ first :: items, ReadsBack item)
    {space : List Char} (hs : ∀ c ∈ space, isSpace c = true) (fuel : Nat)
    (hf : (render layout first).length + (renderItems layout items).length + 1 < fuel)
    (position : Nat) (rest : List Char) :
    Reads (readItems fuel ⟨position,
      render layout first ++ (renderItems layout items ++ (space ++ ']' :: rest))⟩)
      (first :: items) rest := by
  have hclose : NumberEnd (space ++ ']' :: rest) :=
    numberEnd_space hs (numberEnd_cons (by decide) rest)
  induction items generalizing first fuel position with
  | nil =>
    obtain ⟨fuel, rfl⟩ : ∃ k, fuel = k + 1 := ⟨fuel - 1, by omega⟩
    obtain ⟨behind, hread⟩ :=
      hb first List.mem_cons_self layout fuel position _ hclose (by omega)
    obtain ⟨next, hnext⟩ := @skipSpace_append space (']' :: rest) hs (by simp [isSpace]) behind
    exact readItems_last hread hnext
  | cons second items ih =>
    obtain ⟨fuel, rfl⟩ : ∃ k, fuel = k + 1 := ⟨fuel - 1, by omega⟩
    have hend := numberEnd_renderItems layout (second :: items) hclose
    obtain ⟨behind, hread⟩ :=
      hb first List.mem_cons_self layout fuel position _ hend (by omega)
    simp only [renderItems, Layout.separator_eq, List.length_append, List.length_cons] at hf
    simp only [renderItems, Layout.separator_eq, List.cons_append, List.append_assoc] at hread ⊢
    have hcomma := skipSpace_cons (show isSpace ',' = false by decide) behind
      (layout.gap ++ (render layout second ++
        (renderItems layout items ++ (space ++ ']' :: rest))))
    obtain ⟨next, hnext⟩ := (startsValue_render layout (hw second (by simp))).skipSpace
      (fun _ => @isSpace_of_mem_gap layout _) (behind + 1)
      (renderItems layout items ++ (space ++ ']' :: rest))
    have hrest := ih (fun item h => hw item (List.mem_cons_of_mem first h))
      (fun item h => hb item (List.mem_cons_of_mem first h)) fuel (by omega) next
    exact readItems_more hread hcomma hnext hrest

/-- The reader comes from the front of a member to the place behind its value. -/
def ReadsMember (fuel : Nat) (cursor : Cursor) (key : CodePoints) (value : Value)
    (behind : Cursor) : Prop :=
  ∃ text behindKey colon more, cursor.rest = '"' :: text ∧
    readString cursor.position (cursor.position + 1) text = .ok (key, behindKey) ∧
    behindKey.skipSpace = ⟨colon, ':' :: more⟩ ∧
    readValue fuel (Cursor.skipSpace ⟨colon + 1, more⟩) = .ok (value, behind)

/-- The last member stands before the closing brace. -/
theorem readMembers_last {fuel : Nat} {cursor behind : Cursor} {key : CodePoints} {value : Value}
    {before : Members} {next : Nat} {rest : List Char}
    (hread : ReadsMember fuel cursor key value behind)
    (hnext : behind.skipSpace = ⟨next, '}' :: rest⟩) :
    Reads (readMembers (fuel + 1) before cursor) (Members.put key value before) rest := by
  obtain ⟨text, behindKey, colon, more, hrest, hkey, hcolon, hvalue⟩ := hread
  refine ⟨next + 1, ?_⟩
  rw [readMembers, hrest]
  simp only [hkey, bind, Except.bind, hcolon, Cursor.skip, List.drop_succ_cons, List.drop_zero,
    hvalue, hnext]

/-- Any other member stands before a comma and the next member. -/
theorem readMembers_more {fuel : Nat} {cursor behind inner : Cursor} {key : CodePoints}
    {value : Value} {before members : Members} {next : Nat} {text rest : List Char}
    (hread : ReadsMember fuel cursor key value behind)
    (hnext : behind.skipSpace = ⟨next, ',' :: text⟩)
    (hinner : Cursor.skipSpace ⟨next + 1, text⟩ = inner)
    (hmembers : Reads (readMembers fuel (Members.put key value before) inner) members rest) :
    Reads (readMembers (fuel + 1) before cursor) members rest := by
  obtain ⟨_, behindKey, colon, more, hrest, hkey, hcolon, hvalue⟩ := hread
  obtain ⟨last, hmembers⟩ := hmembers
  refine ⟨last, ?_⟩
  rw [readMembers, hrest]
  simp only [hkey, bind, Except.bind, hcolon, Cursor.skip, List.drop_succ_cons, List.drop_zero,
    hvalue, hnext, hinner, hmembers]

/-- A member is read, when its value is. -/
theorem readsMember_render {layout : Layout} {key : CodePoints} {value : Value}
    (hkey : key.Paired) (hw : value.WellFormed) (hb : ReadsBack value) {fuel : Nat}
    (hf : (render layout value).length < fuel) (position : Nat) {rest : List Char}
    (hend : NumberEnd rest) : ∃ behind,
    ReadsMember fuel ⟨position, renderString key ++ ':' :: ' ' :: (render layout value ++ rest)⟩
      key value ⟨behind, rest⟩ := by
  obtain ⟨colon, hread⟩ := readString_flatMap position (position + 1) key.chars
    (':' :: ' ' :: (render layout value ++ rest))
  rw [CodePoints.ofList_chars hkey] at hread
  have hblank : ∀ c ∈ [' '], isSpace c = true := List.all_eq_true.1 (by decide)
  obtain ⟨inner, hinner⟩ :=
    (startsValue_render layout hw).skipSpace hblank (colon + 1) rest
  obtain ⟨behind, hvalue⟩ := hb layout fuel inner rest hend hf
  refine ⟨behind, _, _, colon, ' ' :: (render layout value ++ rest), ?_, hread, ?_, ?_⟩
  · simp only [renderString, List.cons_append, List.append_assoc, List.nil_append]
  · exact skipSpace_cons (by decide) colon _
  · rw [← hvalue, ← hinner]
    rfl

theorem notMem_keys_of_nodup {before members : Members} {key : CodePoints} {value : Value}
    (h : (Members.keys (before ++ (key, value) :: members)).Nodup) :
    key ∉ Members.keys before := by
  intro hm
  simp only [Members.keys, List.map_append, List.nodup_append] at h
  exact h.2.2 key hm key (by simp) rfl

/-- The members of an object are read, when the value of each of them is. -/
theorem readMembers_render (layout : Layout) {key : CodePoints} {value : Value} {members : Members}
    (hk : ∀ entry ∈ (key, value) :: members, entry.1.Paired)
    (hw : ∀ entry ∈ (key, value) :: members, entry.2.WellFormed)
    (hb : ∀ entry ∈ (key, value) :: members, ReadsBack entry.2)
    {space : List Char} (hs : ∀ c ∈ space, isSpace c = true) (fuel : Nat)
    (hf : (render layout value).length + (renderMembers layout members).length + 1 < fuel)
    (before : Members) (hd : (Members.keys (before ++ (key, value) :: members)).Nodup)
    (position : Nat) (rest : List Char) :
    Reads (readMembers fuel before ⟨position, renderString key ++ ':' :: ' ' ::
      (render layout value ++ (renderMembers layout members ++ (space ++ '}' :: rest)))⟩)
      (before ++ (key, value) :: members) rest := by
  have hclose : NumberEnd (space ++ '}' :: rest) :=
    numberEnd_space hs (numberEnd_cons (by decide) rest)
  induction members generalizing key value before fuel position with
  | nil =>
    obtain ⟨fuel, rfl⟩ : ∃ k, fuel = k + 1 := ⟨fuel - 1, by omega⟩
    obtain ⟨behind, hread⟩ := @readsMember_render layout key value (hk _ List.mem_cons_self)
      (hw _ List.mem_cons_self) (hb _ List.mem_cons_self) fuel (by omega) position _ hclose
    obtain ⟨next, hnext⟩ := @skipSpace_append space ('}' :: rest) hs (by simp [isSpace]) behind
    -- The key is new, so the member comes last.
    have hnew := notMem_keys_of_nodup hd
    have h := @readMembers_last fuel _ _ key value before next rest hread hnext
    rwa [Members.put_of_notMem hnew] at h
  | cons second members ih =>
    obtain ⟨fuel, rfl⟩ : ∃ k, fuel = k + 1 := ⟨fuel - 1, by omega⟩
    have hend := numberEnd_renderMembers layout (second :: members) hclose
    obtain ⟨behind, hread⟩ := @readsMember_render layout key value (hk _ List.mem_cons_self)
      (hw _ List.mem_cons_self) (hb _ List.mem_cons_self) fuel (by omega) position _ hend
    simp only [renderMembers, Layout.separator_eq, List.length_append, List.length_cons] at hf
    have hnew := notMem_keys_of_nodup hd
    have hquote : StartsValue (renderString second.1) := ⟨'"', _, rfl, by decide⟩
    have hcomma := skipSpace_cons (show isSpace ',' = false by decide) behind
      (layout.gap ++ (renderString second.1 ++ (':' :: ' ' :: (render layout second.2 ++
        (renderMembers layout members ++ (space ++ '}' :: rest))))))
    obtain ⟨next, hnext⟩ := hquote.skipSpace (fun _ => @isSpace_of_mem_gap layout _) (behind + 1)
      (':' :: ' ' :: (render layout second.2 ++
        (renderMembers layout members ++ (space ++ '}' :: rest))))
    -- What has been read so far goes to the members before the others.
    have hrest := @ih second.1 second.2
      (fun entry h => hk entry (List.mem_cons_of_mem _ h))
      (fun entry h => hw entry (List.mem_cons_of_mem _ h))
      (fun entry h => hb entry (List.mem_cons_of_mem _ h)) fuel (by omega)
      (before ++ [(key, value)]) (by simpa using hd) next
    rw [← Members.put_of_notMem hnew value] at hrest
    simp only [renderMembers, Layout.separator_eq, List.cons_append, List.append_assoc]
      at hread ⊢
    have h := readMembers_more hread hcomma hnext hrest
    rw [Members.put_of_notMem hnew] at h
    simpa using h

theorem readValue_array {fuel position next : Nat} {text inner rest : List Char}
    {items : List Value} (hskip : Cursor.skipSpace ⟨position + 1, text⟩ = ⟨next, inner⟩)
    (hstart : inner.head? ≠ some ']') (hitems : Reads (readItems fuel ⟨next, inner⟩) items rest) :
    Reads (readValue (fuel + 1) ⟨position, '[' :: text⟩) (.array items) rest := by
  obtain ⟨last, hitems⟩ := hitems
  refine ⟨last, ?_⟩
  rw [readValue]
  simp only [Cursor.skip, List.drop_succ_cons, List.drop_zero, hskip]
  cases inner with
  | nil => rw [hitems]; rfl
  | cons c cs =>
    split
    · rename_i heq
      exact absurd (by rw [(List.cons.inj heq).1]; rfl) hstart
    · rw [hitems]
      rfl

theorem readValue_object {fuel position next : Nat} {text inner rest : List Char}
    {members : Members} (hskip : Cursor.skipSpace ⟨position + 1, text⟩ = ⟨next, inner⟩)
    (hstart : inner.head? ≠ some '}')
    (hmembers : Reads (readMembers fuel [] ⟨next, inner⟩) members rest) :
    Reads (readValue (fuel + 1) ⟨position, '{' :: text⟩) (.object members) rest := by
  obtain ⟨last, hmembers⟩ := hmembers
  refine ⟨last, ?_⟩
  rw [readValue]
  simp only [Cursor.skip, List.drop_succ_cons, List.drop_zero, hskip]
  cases inner with
  | nil => rw [hmembers]; rfl
  | cons c cs =>
    split
    · rename_i heq
      exact absurd (by rw [(List.cons.inj heq).1]; rfl) hstart
    · rw [hmembers]
      rfl

/-- A word is read as the value it stands for. -/
theorem readsBack_word {value : Value} {c : Char} {word : List Char}
    (hrender : ∀ layout, render layout value = c :: word)
    (hfind : ∀ rest, (words.find? fun entry => entry.1.isPrefixOf (c :: word ++ rest)) =
      some (c :: word, value))
    (hc : c ≠ '"' ∧ c ≠ '{' ∧ c ≠ '[') : ReadsBack value := by
  intro layout fuel position rest _ hf
  obtain ⟨fuel, rfl⟩ : ∃ k, fuel = k + 1 := ⟨fuel - 1, by omega⟩
  obtain ⟨hquote, hbrace, hbracket⟩ := hc
  refine ⟨position + (c :: word).length, ?_⟩
  rw [hrender, List.cons_append, readValue_scalar fuel position _ hquote hbrace hbracket,
    ← List.cons_append]
  unfold readScalar
  simp only [hfind, Cursor.skip, List.drop_left]

/-- A number is read as the value it stands for. -/
theorem readsBack_number {negative : Bool} {value : Value} {text : List Char}
    (hrender : ∀ layout, render layout value = (if negative then ['-'] else []) ++ text)
    (hread : ∀ rest, NumberEnd rest →
      unsignedNumber? negative (text ++ rest) = some (value, text.length)) :
    ReadsBack value := by
  intro layout fuel position rest hend hf
  obtain ⟨fuel, rfl⟩ : ∃ k, fuel = k + 1 := ⟨fuel - 1, by omega⟩
  rw [hrender]
  exact readValue_number fuel position (hread rest hend)

theorem readsBack_double {x : Binary64} (hx : x.Canonical) : ReadsBack (.double x) := by
  cases x with
  | finite negative m e =>
    exact readsBack_number (fun _ => rfl) fun _ => unsignedNumber?_writeMagnitude hx
  | infinity negative =>
    cases negative with
    | true =>
      refine @readsBack_word _ '-' ['I', 'n', 'f', 'i', 'n', 'i', 't', 'y'] (fun _ => rfl)
        (fun rest => ?_) (by decide)
      simp [words, List.isPrefixOf]
    | false =>
      refine @readsBack_word _ 'I' ['n', 'f', 'i', 'n', 'i', 't', 'y'] (fun _ => rfl)
        (fun rest => ?_) (by decide)
      simp [words, List.isPrefixOf]
  | nan =>
    refine @readsBack_word _ 'N' ['a', 'N'] (fun _ => rfl) (fun rest => ?_) (by decide)
    simp [words, List.isPrefixOf]

theorem readsBack_string {s : CodePoints} (hs : s.Paired) : ReadsBack (.string s) := by
  intro layout fuel position rest _ hf
  obtain ⟨fuel, rfl⟩ : ∃ k, fuel = k + 1 := ⟨fuel - 1, by omega⟩
  have h := (readString_flatMap position (position + 1) s.chars rest).map Value.string
  rw [CodePoints.ofList_chars hs] at h
  rw [render, renderString, List.cons_append, List.cons_append, List.append_assoc, readValue]
  exact h

theorem readsBack_array {items : List Value} (hw : ∀ item ∈ items, item.WellFormed)
    (hb : ∀ item ∈ items, ReadsBack item) : ReadsBack (.array items) := by
  intro layout fuel position rest _ hf
  obtain ⟨fuel, rfl⟩ : ∃ k, fuel = k + 1 := ⟨fuel - 1, by omega⟩
  cases items with
  | nil => exact ⟨position + 2, rfl⟩
  | cons first items =>
    simp only [render, List.length_cons, List.length_append] at hf
    have hfirst := startsValue_render layout.inner (hw first List.mem_cons_self)
    obtain ⟨next, hskip⟩ := hfirst.skipSpace
      (fun _ => @isSpace_of_mem_edge layout.inner _) (position + 1)
      (renderItems layout.inner items ++ (layout.edge ++ ']' :: rest))
    have hitems := readItems_render layout.inner hw hb
      (fun _ => @isSpace_of_mem_edge layout _) fuel (by omega) next rest
    -- An item that began with the closing bracket would be taken for the end.
    have hstart : ∀ more, (render layout.inner first ++ more).head? ≠ some ']' := by
      obtain ⟨c, cs, hcs, -, hclose, -⟩ := hfirst
      intro more
      rw [hcs]
      simpa using hclose
    have h := readValue_array hskip (hstart _) hitems
    simpa [render] using h

theorem readsBack_object {members : Members} (hd : (Members.keys members).Nodup)
    (hk : ∀ entry ∈ members, entry.1.Paired) (hw : ∀ entry ∈ members, entry.2.WellFormed)
    (hb : ∀ entry ∈ members, ReadsBack entry.2) : ReadsBack (.object members) := by
  intro layout fuel position rest _ hf
  obtain ⟨fuel, rfl⟩ : ∃ k, fuel = k + 1 := ⟨fuel - 1, by omega⟩
  cases members with
  | nil => exact ⟨position + 2, rfl⟩
  | cons entry members =>
    obtain ⟨key, value⟩ := entry
    simp only [render, List.length_cons, List.length_append] at hf
    have hquote : StartsValue (renderString key) := ⟨'"', _, rfl, by decide⟩
    obtain ⟨next, hskip⟩ := hquote.skipSpace
      (fun _ => @isSpace_of_mem_edge layout.inner _) (position + 1)
      (':' :: ' ' :: (render layout.inner value ++
        (renderMembers layout.inner members ++ (layout.edge ++ '}' :: rest))))
    have hmembers := readMembers_render layout.inner hk hw hb
      (fun _ => @isSpace_of_mem_edge layout _) fuel (by omega) [] hd next rest
    have hstart : ∀ more, (renderString key ++ more).head? ≠ some '}' := by
      intro more
      simp [renderString]
    have h := readValue_object hskip (hstart _) hmembers
    simpa [render] using h

/-- **Every well-formed value that is paired is read as it was written**, by induction
    on what makes it well formed. -/
theorem readsBack {value : Value} (hw : value.WellFormed) (hp : value.Paired) :
    ReadsBack value := by
  induction hw with
  | null =>
    refine @readsBack_word _ 'n' ['u', 'l', 'l'] (fun _ => rfl) (fun rest => ?_) (by decide)
    simp [words, List.isPrefixOf]
  | bool b =>
    cases b with
    | true =>
      refine @readsBack_word _ 't' ['r', 'u', 'e'] (fun _ => rfl) (fun rest => ?_) (by decide)
      simp [words, List.isPrefixOf]
    | false =>
      refine @readsBack_word _ 'f' ['a', 'l', 's', 'e'] (fun _ => rfl) (fun rest => ?_)
        (by decide)
      simp [words, List.isPrefixOf]
  | integer n =>
    exact readsBack_number (fun _ => renderInteger_eq n) fun _ => unsignedNumber?_natAbs n
  | double hx => exact readsBack_double hx
  | string s => exact readsBack_string (paired_string_iff.1 hp)
  | array hi ih =>
    have hitems := paired_array_iff.1 hp
    exact readsBack_array hi fun item hm => ih item hm (hitems item hm)
  | object hd hm ih =>
    have hmembers := paired_object_iff.1 hp
    exact readsBack_object hd (fun entry he => (hmembers entry he).1) hm
      fun entry he => ih entry he (hmembers entry he).2

/-! ## Line ends -/

/-- A character of a number, or of a word that stands for one. -/
def isNumeral (c : Char) : Bool :=
  c.isDigit || ['.', '+', '-', 'e', 'I', 'n', 'f', 'i', 't', 'y', 'N', 'a'].contains c

theorem AllDigits.numeral {digits : List Char} (h : AllDigits digits) :
    ∀ c ∈ digits, isNumeral c = true := by
  intro c hc
  unfold isNumeral
  rw [h c hc, Bool.true_or]

theorem numeral_positional {digits : List Char} (h : AllDigits digits) (point : Int) :
    ∀ c ∈ positional digits point, isNumeral c = true := by
  have hdigits := h.numeral
  have hzeros : ∀ n, ∀ c ∈ List.replicate n '0', isNumeral c = true :=
    fun n => (allDigits_zeros n).numeral
  unfold positional
  intro c hc
  split at hc
  · simp only [List.cons_append, List.mem_cons, List.mem_append] at hc
    rcases hc with rfl | rfl | hc | hc
    · rfl
    · rfl
    · exact hzeros _ c hc
    · exact hdigits c hc
  · split at hc
    · simp only [List.mem_append, List.mem_cons, List.not_mem_nil, or_false] at hc
      rcases hc with (hc | hc) | rfl | rfl
      · exact hdigits c hc
      · exact hzeros _ c hc
      · rfl
      · rfl
    · simp only [List.mem_append, List.mem_cons] at hc
      rcases hc with hc | rfl | hc
      · exact hdigits c (List.mem_of_mem_take hc)
      · rfl
      · exact hdigits c (List.mem_of_mem_drop hc)

theorem numeral_scientific {digits : List Char} (h : AllDigits digits) (exponent : Int) :
    ∀ c ∈ scientific digits exponent, isNumeral c = true := by
  have hdigits := h.numeral
  have hpower := (allDigits_naturalDigits exponent.natAbs).numeral
  unfold scientific
  intro c hc
  rcases List.mem_append.1 hc with hc | hc
  · split at hc
    · simp only [List.mem_cons] at hc hdigits
      rcases hc with rfl | rfl | hc
      · exact hdigits c (.inl rfl)
      · rfl
      · exact hdigits c (.inr hc)
    · exact hdigits c hc
  · simp only [List.mem_cons] at hc
    rcases hc with rfl | rfl | hc
    · rfl
    · split <;> rfl
    · split at hc
      · rcases List.mem_cons.1 hc with rfl | hc
        · rfl
        · exact hpower c hc
      · exact hpower c hc

theorem numeral_renderDouble (x : Binary64) : ∀ c ∈ renderDouble x, isNumeral c = true := by
  cases x with
  | finite negative m e =>
    have hmagnitude : ∀ c ∈ writeMagnitude m e, isNumeral c = true := by
      unfold writeMagnitude
      split
      · exact List.all_eq_true.1 rfl
      · simp only
        split
        · exact numeral_positional (allDigits_naturalDigits _) _
        · exact numeral_scientific (allDigits_naturalDigits _) _
    intro c hc
    rcases List.mem_append.1 hc with hc | hc
    · cases negative with
      | true =>
        rw [List.mem_singleton.1 hc]
        rfl
      | false => cases hc
    · exact hmagnitude c hc
  | infinity negative => cases negative <;> exact List.all_eq_true.1 rfl
  | nan => exact List.all_eq_true.1 rfl

theorem numeral_renderInteger (n : Int) : ∀ c ∈ renderInteger n, isNumeral c = true := by
  intro c hc
  rcases List.mem_append.1 hc with hc | hc
  · split at hc
    · rw [List.mem_singleton.1 hc]
      rfl
    · cases hc
  · exact (allDigits_naturalDigits n.natAbs).numeral c hc

theorem isAlphanum_hexDigit {n : Nat} (h : n < 16) : (hexDigit n).isAlphanum = true := by
  revert n
  decide

/-- Neither of the digits of a control character is a sign. -/
theorem hexDigit_ne {n : Nat} (h : n < 16) {c : Char} (hc : c.isAlphanum = false) :
    hexDigit n ≠ c := by
  rintro rfl
  rw [isAlphanum_hexDigit h] at hc
  cases hc

theorem cr_notMem_escapeChar (c : Char) : '\r' ∉ escapeChar c := by
  rcases escapeChar_cases c with ⟨letter, h, -, he⟩ | ⟨hcontrol, h⟩ | ⟨hcontrol, -, -, h⟩
  · have hne : letter ≠ '\r' := by
      rintro rfl
      contradiction
    simp [h, hne.symm]
  · have hhigh : hexDigit (c.toNat / 16) ≠ '\r' := hexDigit_ne (by omega) rfl
    have hlow : hexDigit (c.toNat % 16) ≠ '\r' := hexDigit_ne (by omega) rfl
    simp [h, hhigh.symm, hlow.symm]
  · have hne : c ≠ '\r' := by
      rintro rfl
      exact hcontrol (by decide)
    simp [h, hne.symm]

theorem cr_notMem_renderString (s : CodePoints) : '\r' ∉ renderString s := by
  simp [renderString, cr_notMem_escapeChar]

theorem Layout.cr_notMem_edge (layout : Layout) : '\r' ∉ layout.edge := by
  cases layout <;> simp [Layout.edge]

theorem Layout.cr_notMem_separator (layout : Layout) : '\r' ∉ layout.separator := by
  cases layout <;> simp [Layout.separator]

theorem cr_notMem_renderItems {layout : Layout} {items : List Value}
    (h : ∀ item ∈ items, '\r' ∉ render layout item) : '\r' ∉ renderItems layout items := by
  induction items with
  | nil => exact List.not_mem_nil
  | cons item items ih =>
    have hrest := ih fun item hm => h item (List.mem_cons_of_mem _ hm)
    simp [renderItems, Layout.cr_notMem_separator, h item, hrest]

theorem cr_notMem_renderMembers {layout : Layout} {members : Members}
    (h : ∀ entry ∈ members, '\r' ∉ render layout entry.2) :
    '\r' ∉ renderMembers layout members := by
  induction members with
  | nil => exact List.not_mem_nil
  | cons entry members ih =>
    have hrest := ih fun entry hm => h entry (List.mem_cons_of_mem _ hm)
    simp [renderMembers, Layout.cr_notMem_separator, cr_notMem_renderString, h entry, hrest]

/-- A written value holds no carriage return. -/
theorem cr_notMem_render {value : Value} (hw : value.WellFormed) (layout : Layout) :
    '\r' ∉ render layout value := by
  induction hw generalizing layout with
  | null => simp [render]
  | bool b => cases b <;> simp [render]
  | integer n => exact fun hm => absurd (numeral_renderInteger n _ hm) (by decide)
  | @double x _ => exact fun hm => absurd (numeral_renderDouble x _ hm) (by decide)
  | string s => exact cr_notMem_renderString s
  | @array items _ ih =>
    cases items with
    | nil => simp [render]
    | cons first items =>
      have hitems := cr_notMem_renderItems fun item hm =>
        ih item (List.mem_cons_of_mem first hm) layout.inner
      simp [render, Layout.cr_notMem_edge, ih first, hitems]
  | @object members _ _ ih =>
    cases members with
    | nil => simp [render]
    | cons entry members =>
      have hmembers := cr_notMem_renderMembers fun other hm =>
        ih other (List.mem_cons_of_mem entry hm) layout.inner
      simp [render, Layout.cr_notMem_edge, cr_notMem_renderString, ih entry, hmembers]

/-! ## Documents -/

/-- **A document stands for the value that is written in it**, with white space
    behind the value. -/
theorem parse_render {value : Value} (hw : value.WellFormed) (hp : value.Paired) (layout : Layout)
    {space : List Char} (hs : ∀ c ∈ space, isSpace c = true) :
    parse (render layout value ++ space) = .ok value := by
  have hspace : NumberEnd (space ++ []) := numberEnd_space hs numberEnd_nil
  rw [List.append_nil] at hspace
  obtain ⟨c, cs, hcs, hfirst, -, hmark⟩ := startsValue_render layout hw
  have hhead : (render layout value ++ space).head? ≠ some '\uFEFF' := by
    rw [hcs]
    simpa using hmark
  have hskip : Cursor.skipSpace ⟨0, render layout value ++ space⟩ =
      ⟨0, render layout value ++ space⟩ := by
    rw [hcs, List.cons_append]
    exact skipSpace_cons hfirst 0 _
  obtain ⟨behind, hread⟩ := readsBack hw hp layout
    ((render layout value ++ space).length + 1) 0 space hspace
    (by rw [List.length_append]; omega)
  obtain ⟨last, hlast⟩ := @skipSpace_append space [] hs (by simp) behind
  rw [List.append_nil] at hlast
  unfold parse readDocument
  rw [if_neg hhead, hskip, hread]
  simp only [bind, Except.bind, hlast]
  rfl

end TemplateAnalysis.Json
