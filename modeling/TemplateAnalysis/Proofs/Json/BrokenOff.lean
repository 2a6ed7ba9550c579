import TemplateAnalysis.Proofs.Json.RoundTrip

/-! # A value that was broken off is not read

    Of a value that is not paired, only the pieces in front of the first half of a
    surrogate pair come to be written. No reader takes that text for a value:

    * **`breaksOff`**: it is refused, by induction on what makes the value well
      formed. What stands in front of the break is read as it was written, so the
      reader comes to the break, and finds the text at an end there;
    * **`parse_written_of_not_paired`**: so a document that was broken off stands for
      nothing.
-/

namespace TemplateAnalysis.Json

open Text CodePoints

/-- The step ends in a problem. -/
def Refuses {α : Type} (step : Except (Problem × Nat) α) : Prop :=
  ∃ problem, step = .error problem

/-! ## The text that is left -/

/-- The text of an item begins with what stands in front of it, unless that is lost
    together with a half in the first piece of the item. -/
theorem written_leadBy (front : List Char) (item : Value) (pieces others : List CodePoints) :
    written (leadBy front item pieces ++ others) = front ++ written (pieces ++ others) ∨
      written (leadBy front item pieces ++ others) = [] ∧ ¬ ∀ piece ∈ pieces, piece.Paired := by
  unfold leadBy
  split
  · exact .inl (written_ofList_cons front others)
  · rename_i piece pieces
    split
    · exact .inl (written_ofList_cons front _)
    · rw [List.cons_append, List.cons_append]
      by_cases hpiece : piece.Paired
      · left
        rw [written_cons (paired_append_iff.2 ⟨paired_ofList front, hpiece⟩), written_cons hpiece,
          chars_append, chars_ofList, List.append_assoc]
      · right
        refine ⟨written_cons_of_not (fun h => hpiece (paired_append_iff.1 h).2) _, fun h => ?_⟩
        exact hpiece (h piece List.mem_cons_self)

/-- The pieces of a paired value are all written. -/
theorem written_pieces {value : Value} (h : value.Paired) (layout : Layout)
    (others : List CodePoints) :
    written (pieces layout value ++ others) = render layout value ++ written others := by
  rw [written_append ((forall_mem_pieces_iff layout value).2 h), flatMap_pieces]

/-- Behind a value that is not paired nothing is written. -/
theorem written_pieces_of_not {value : Value} (h : ¬ value.Paired) (layout : Layout)
    (others : List CodePoints) :
    written (pieces layout value ++ others) = written (pieces layout value) :=
  written_append_of_not (mt (forall_mem_pieces_iff layout value).1 h) others

theorem startsValue_append {text : List Char} (h : StartsValue text) (rest : List Char) :
    StartsValue (text ++ rest) := by
  obtain ⟨c, cs, rfl, hc⟩ := h
  exact ⟨c, cs ++ rest, rfl, hc⟩

/-- What is written of a value is nothing, or begins like a value. -/
theorem written_pieces_starts {value : Value} (hw : value.WellFormed) (layout : Layout)
    (others : List CodePoints) :
    written (pieces layout value ++ others) = [] ∨
      StartsValue (written (pieces layout value ++ others)) := by
  by_cases hp : value.Paired
  · rw [written_pieces hp]
    exact .inr (startsValue_append (startsValue_render layout hw) _)
  · -- Only a string, an array or an object can be broken off.
    cases value with
    | string s =>
      rw [pieces, List.singleton_append, written_cons_of_not]
      · exact .inl rfl
      · exact mt paired_quoted_iff.1 (mt paired_string_iff.2 hp)
    | array items =>
      cases items with
      | nil => exact absurd (paired_array_iff.2 (List.forall_mem_nil _)) hp
      | cons item items =>
        rw [pieces, List.append_assoc, List.append_assoc]
        rcases written_leadBy ('[' :: layout.inner.edge) item (pieces layout.inner item)
          (itemPieces layout.inner items ++
            ([ofList layout.edge, ofList [']']] ++ others)) with h | ⟨h, -⟩
        · rw [h]
          exact .inr ⟨'[', _, rfl, by decide⟩
        · exact .inl h
    | object members =>
      cases members with
      | nil => exact absurd (paired_object_iff.2 (List.forall_mem_nil _)) hp
      | cons entry members =>
        rw [pieces, List.cons_append, written_ofList_cons]
        exact .inr ⟨'{', _, rfl, by decide⟩
    | null | bool _ | integer _ | double _ =>
      exact absurd (by simp [Value.Paired, Value.strings]) hp

/-- White space in front of such a text is skipped. -/
theorem skipSpace_written {space text : List Char} (hs : ∀ c ∈ space, isSpace c = true)
    (ht : text = [] ∨ StartsValue text) (position : Nat) : ∃ next,
    Cursor.skipSpace ⟨position, space ++ text⟩ = ⟨next, text⟩ := by
  refine skipSpace_append hs ?_ position
  intro c hc
  rcases ht with rfl | ⟨d, cs, rfl, hspace, -⟩
  · cases hc
  · obtain rfl : d = c := Option.some.inj hc
    exact hspace

/-! ## Readers at the break -/

theorem refuses_readValue_nil (fuel position : Nat) : Refuses (readValue fuel ⟨position, []⟩) := by
  cases fuel with
  | zero => exact ⟨_, by rw [readValue]⟩
  | succ fuel => exact ⟨(.valueExpected, position), by rw [readValue]; rfl⟩

theorem refuses_readMembers_nil (fuel position : Nat) (before : Members) :
    Refuses (readMembers fuel before ⟨position, []⟩) := by
  cases fuel with
  | zero => exact ⟨_, by rw [readMembers]⟩
  | succ fuel => exact ⟨(.nameExpected, position), by rw [readMembers]⟩

/-- Items are refused when the first of them is. -/
theorem refuses_readItems_first {fuel : Nat} {cursor : Cursor}
    (h : Refuses (readValue fuel cursor)) : Refuses (readItems (fuel + 1) cursor) := by
  obtain ⟨problem, h⟩ := h
  refine ⟨problem, ?_⟩
  rw [readItems, h]
  rfl

/-- They are refused when the text ends behind an item. -/
theorem refuses_readItems_end {fuel : Nat} {cursor : Cursor} {item : Value} {behind : Nat}
    (hread : readValue fuel cursor = .ok (item, ⟨behind, []⟩)) :
    Refuses (readItems (fuel + 1) cursor) := by
  refine ⟨(.commaExpected, behind), ?_⟩
  rw [readItems, hread]
  rfl

/-- They are refused when the others are. -/
theorem refuses_readItems_more {fuel : Nat} {cursor behind inner : Cursor} {item : Value}
    {next : Nat} {text : List Char} (hread : readValue fuel cursor = .ok (item, behind))
    (hnext : behind.skipSpace = ⟨next, ',' :: text⟩)
    (hinner : Cursor.skipSpace ⟨next + 1, text⟩ = inner) (h : Refuses (readItems fuel inner)) :
    Refuses (readItems (fuel + 1) cursor) := by
  obtain ⟨problem, h⟩ := h
  refine ⟨problem, ?_⟩
  rw [readItems, hread]
  simp only [bind, Except.bind, hnext, Cursor.skip, List.drop_succ_cons, List.drop_zero, hinner, h]

/-- Members are refused when the value of the first of them is. -/
theorem refuses_readMembers_first {fuel position : Nat} {key : CodePoints} {before : Members}
    {text : List Char} (hkey : key.Paired)
    (hskip : ∀ colon, ∃ next, Cursor.skipSpace ⟨colon, ' ' :: text⟩ = ⟨next, text⟩)
    (h : ∀ next, Refuses (readValue fuel ⟨next, text⟩)) :
    Refuses (readMembers (fuel + 1) before ⟨position, renderString key ++ ':' :: ' ' :: text⟩) := by
  obtain ⟨colon, hread⟩ := readString_flatMap position (position + 1) key.chars (':' :: ' ' :: text)
  rw [ofList_chars hkey] at hread
  obtain ⟨inner, hinner⟩ := hskip (colon + 1)
  obtain ⟨problem, h⟩ := h inner
  refine ⟨problem, ?_⟩
  have hrest : renderString key ++ ':' :: ' ' :: text =
      '"' :: (key.chars.flatMap escapeChar ++ '"' :: ':' :: ' ' :: text) := by
    simp [renderString]
  rw [readMembers, hrest]
  simp only [hread, bind, Except.bind, skipSpace_cons (show isSpace ':' = false by decide),
    Cursor.skip, List.drop_succ_cons, List.drop_zero, hinner, h]

/-- They are refused when the others are. -/
theorem refuses_readMembers_more {fuel : Nat} {cursor behind inner : Cursor} {key : CodePoints}
    {value : Value} {before : Members} {next : Nat} {text : List Char}
    (hread : ReadsMember fuel cursor key value behind)
    (hnext : behind.skipSpace = ⟨next, ',' :: text⟩)
    (hinner : Cursor.skipSpace ⟨next + 1, text⟩ = inner)
    (h : Refuses (readMembers fuel (Members.put key value before) inner)) :
    Refuses (readMembers (fuel + 1) before cursor) := by
  obtain ⟨_, behindKey, colon, more, hrest, hkey, hcolon, hvalue⟩ := hread
  obtain ⟨problem, h⟩ := h
  refine ⟨problem, ?_⟩
  rw [readMembers, hrest]
  simp only [hkey, bind, Except.bind, hcolon, Cursor.skip, List.drop_succ_cons, List.drop_zero,
    hvalue, hnext, hinner, h]

/-! ## Values -/

/-- What is written of the value in lines is refused. -/
def BreaksOff (value : Value) : Prop :=
  ∀ level fuel position, (written (pieces (.indented level) value)).length < fuel →
    Refuses (readValue fuel ⟨position, written (pieces (.indented level) value)⟩)

theorem length_edge (level : Nat) : (Layout.indented level).edge.length = 2 * level + 1 := by
  simp [Layout.edge]

theorem numberEnd_comma (rest : List Char) : NumberEnd (',' :: rest) :=
  numberEnd_cons (by decide) rest

/-- Items are refused when one of them is broken off. -/
theorem refuses_readItems (level : Nat) {item : Value} {items : List Value}
    (hw : ∀ other ∈ item :: items, other.WellFormed)
    (hb : ∀ other ∈ item :: items, ¬ other.Paired → BreaksOff other)
    (hp : ¬ ∀ other ∈ item :: items, other.Paired) (others : List CodePoints) (fuel : Nat)
    (hf : (written (pieces (.indented level) item ++
      (itemPieces (.indented level) items ++ others))).length + 1 < fuel) (position : Nat) :
    Refuses (readItems fuel ⟨position, written (pieces (.indented level) item ++
      (itemPieces (.indented level) items ++ others))⟩) := by
  induction items generalizing item fuel position with
  | nil =>
    obtain ⟨fuel, rfl⟩ : ∃ k, fuel = k + 1 := ⟨fuel - 1, by omega⟩
    have hitem : ¬ item.Paired := by simpa using hp
    rw [written_pieces_of_not hitem] at hf ⊢
    exact refuses_readItems_first (hb item List.mem_cons_self hitem level fuel position (by omega))
  | cons second items ih =>
    obtain ⟨fuel, rfl⟩ : ∃ k, fuel = k + 1 := ⟨fuel - 1, by omega⟩
    by_cases hitem : item.Paired
    · have hrest : ¬ ∀ other ∈ second :: items, other.Paired := fun h =>
        hp (List.forall_mem_cons.2 ⟨hitem, h⟩)
      have hread := readsBack (hw item List.mem_cons_self) hitem (.indented level) fuel position
      rw [written_pieces hitem, itemPieces, List.append_assoc] at hf ⊢
      rcases written_leadBy (Layout.indented level).separator second
        (pieces (.indented level) second) (itemPieces (.indented level) items ++ others) with
        h | ⟨h, -⟩
      · -- The comma is written, and the second item, or what is left of it.
        rw [h, Layout.separator_eq, List.cons_append] at hf ⊢
        simp only [List.length_append, List.length_cons] at hf
        obtain ⟨behind, hread⟩ := hread _ (numberEnd_comma _) (by omega)
        have hcomma := skipSpace_cons (show isSpace ',' = false by decide) behind
          ((Layout.indented level).gap ++ written (pieces (.indented level) second ++
            (itemPieces (.indented level) items ++ others)))
        obtain ⟨next, hnext⟩ := skipSpace_written
          (fun _ => @isSpace_of_mem_gap (.indented level) _)
          (written_pieces_starts (hw second (by simp)) (.indented level)
            (itemPieces (.indented level) items ++ others)) (behind + 1)
        refine refuses_readItems_more hread hcomma hnext (ih ?_ ?_ hrest fuel (by omega) next)
        · exact fun other ho => hw other (List.mem_cons_of_mem _ ho)
        · exact fun other ho => hb other (List.mem_cons_of_mem _ ho)
      · rw [h, List.append_nil] at hf ⊢
        obtain ⟨behind, hread⟩ := hread [] numberEnd_nil (by omega)
        rw [List.append_nil] at hread
        exact refuses_readItems_end hread
    · rw [written_pieces_of_not hitem] at hf ⊢
      exact refuses_readItems_first
        (hb item List.mem_cons_self hitem level fuel position (by omega))

/-- The key of a member is written, and its value, or what is left of it. -/
theorem written_member {key : CodePoints} (h : key.Paired) (rest : List CodePoints) :
    written (quoted key :: ": " :: rest) = renderString key ++ ':' :: ' ' :: written rest := by
  rw [written_cons (paired_quoted_iff.2 h), chars_quoted, written_cons (paired_ofString _)]
  rfl

/-- What is written of a member is nothing, or begins with a quote. -/
theorem written_member_starts (key : CodePoints) (rest : List CodePoints) :
    written (quoted key :: rest) = [] ∨ StartsValue (written (quoted key :: rest)) := by
  by_cases h : key.Paired
  · rw [written_cons (paired_quoted_iff.2 h), chars_quoted]
    exact .inr ⟨'"', _, rfl, by decide⟩
  · exact .inl (written_cons_of_not (mt paired_quoted_iff.1 h) rest)

theorem skipSpace_blank {text : List Char} (h : text = [] ∨ StartsValue text) (position : Nat) :
    ∃ next, Cursor.skipSpace ⟨position, ' ' :: text⟩ = ⟨next, text⟩ :=
  skipSpace_written (List.forall_mem_singleton.2 rfl) h position

/-- Members are refused when the first key cannot be written. -/
theorem refuses_readMembers_key {key : CodePoints} (hkey : ¬ key.Paired) (rest : List CodePoints)
    (fuel : Nat) (before : Members) (position : Nat) :
    Refuses (readMembers fuel before ⟨position, written (quoted key :: rest)⟩) := by
  rw [written_cons_of_not (mt paired_quoted_iff.1 hkey)]
  exact refuses_readMembers_nil _ _ _

/-- They are refused when the first value is broken off. -/
theorem refuses_readMembers_value {key : CodePoints} {value : Value} {level fuel : Nat}
    (hkey : key.Paired) (hw : value.WellFormed) (hvalue : ¬ value.Paired) (hb : BreaksOff value)
    (rest : List CodePoints)
    (hf : (written (quoted key :: ": " :: (pieces (.indented level) value ++ rest))).length + 1 <
      fuel) (before : Members) (position : Nat) :
    Refuses (readMembers fuel before
      ⟨position, written (quoted key :: ": " :: (pieces (.indented level) value ++ rest))⟩) := by
  obtain ⟨fuel, rfl⟩ : ∃ k, fuel = k + 1 := ⟨fuel - 1, by omega⟩
  rw [written_member hkey, written_pieces_of_not hvalue] at hf ⊢
  simp only [List.length_append, List.length_cons] at hf
  have hstart := written_pieces_starts hw (.indented level) []
  rw [List.append_nil] at hstart
  exact refuses_readMembers_first hkey (skipSpace_blank hstart) fun next =>
    hb level fuel next (by omega)

/-- When both are written they are refused if the others are, which stand behind a
    comma. -/
theorem refuses_readMembers_comma {key : CodePoints} {value : Value} {level fuel : Nat}
    (hkey : key.Paired) (hw : value.WellFormed) (hvalue : value.Paired) (second : CodePoints)
    (rest : List CodePoints)
    (hf : (written (quoted key :: ": " :: (pieces (.indented level) value ++
      ofList (Layout.indented level).separator :: quoted second :: rest))).length + 1 < fuel)
    {before : Members}
    (h : ∀ fuel next, (written (quoted second :: rest)).length + 1 < fuel →
      Refuses (readMembers fuel (Members.put key value before)
        ⟨next, written (quoted second :: rest)⟩)) (position : Nat) :
    Refuses (readMembers fuel before ⟨position, written (quoted key :: ": " ::
      (pieces (.indented level) value ++
        ofList (Layout.indented level).separator :: quoted second :: rest))⟩) := by
  obtain ⟨fuel, rfl⟩ : ∃ k, fuel = k + 1 := ⟨fuel - 1, by omega⟩
  rw [written_member hkey, written_pieces hvalue, written_ofList_cons, Layout.separator_eq,
    List.cons_append] at hf ⊢
  simp only [List.length_append, List.length_cons] at hf
  obtain ⟨behind, hread⟩ := readsMember_render hkey hw (readsBack hw hvalue)
    (show (render (.indented level) value).length < fuel by omega) position
    (numberEnd_comma ((Layout.indented level).gap ++ written (quoted second :: rest)))
  have hcomma := skipSpace_cons (show isSpace ',' = false by decide) behind
    ((Layout.indented level).gap ++ written (quoted second :: rest))
  obtain ⟨next, hnext⟩ := skipSpace_written (fun _ => @isSpace_of_mem_gap (.indented level) _)
    (written_member_starts second rest) (behind + 1)
  exact refuses_readMembers_more hread hcomma hnext (h fuel next (by omega))

/-- Members are refused when a key or a value among them is broken off. -/
theorem refuses_readMembers (level : Nat) {key : CodePoints} {value : Value} {members : Members}
    (hw : ∀ entry ∈ (key, value) :: members, entry.2.WellFormed)
    (hb : ∀ entry ∈ (key, value) :: members, ¬ entry.2.Paired → BreaksOff entry.2)
    (hp : ¬ ∀ entry ∈ (key, value) :: members, entry.1.Paired ∧ entry.2.Paired)
    (others : List CodePoints) (fuel : Nat)
    (hf : (written (quoted key :: ": " :: (pieces (.indented level) value ++
      (memberPieces (.indented level) members ++ others)))).length + 1 < fuel)
    (before : Members) (position : Nat) :
    Refuses (readMembers fuel before ⟨position, written (quoted key :: ": " ::
      (pieces (.indented level) value ++
        (memberPieces (.indented level) members ++ others)))⟩) := by
  induction members generalizing key value before fuel position with
  | nil =>
    by_cases hkey : key.Paired
    · have hvalue : ¬ value.Paired := fun h => hp (by simpa using ⟨hkey, h⟩)
      exact refuses_readMembers_value hkey (hw _ List.mem_cons_self) hvalue
        (hb _ List.mem_cons_self hvalue) others hf before position
    · exact refuses_readMembers_key hkey _ fuel before position
  | cons second members ih =>
    by_cases hkey : key.Paired
    · by_cases hvalue : value.Paired
      · have hrest : ¬ ∀ entry ∈ second :: members, entry.1.Paired ∧ entry.2.Paired := fun h =>
          hp (List.forall_mem_cons.2 ⟨⟨hkey, hvalue⟩, h⟩)
        simp only [memberPieces, List.cons_append, List.append_assoc] at hf ⊢
        refine refuses_readMembers_comma hkey (hw _ List.mem_cons_self) hvalue second.1 _ hf
          (fun fuel next hf => ih ?_ ?_ hrest fuel hf _ next) position
        · exact fun entry he => hw entry (List.mem_cons_of_mem _ he)
        · exact fun entry he => hb entry (List.mem_cons_of_mem _ he)
      · exact refuses_readMembers_value hkey (hw _ List.mem_cons_self) hvalue
          (hb _ List.mem_cons_self hvalue) _ hf before position
    · exact refuses_readMembers_key hkey _ fuel before position

/-- An array is refused when its items are. -/
theorem refuses_readValue_array {fuel position next : Nat} {text inner : List Char}
    (hskip : Cursor.skipSpace ⟨position + 1, text⟩ = ⟨next, inner⟩)
    (hstart : inner.head? ≠ some ']') (h : Refuses (readItems fuel ⟨next, inner⟩)) :
    Refuses (readValue (fuel + 1) ⟨position, '[' :: text⟩) := by
  obtain ⟨problem, h⟩ := h
  refine ⟨problem, ?_⟩
  rw [readValue]
  simp only [Cursor.skip, List.drop_succ_cons, List.drop_zero, hskip]
  cases inner with
  | nil => rw [h]; rfl
  | cons c cs =>
    split
    · rename_i heq
      exact absurd (by rw [(List.cons.inj heq).1]; rfl) hstart
    · rw [h]
      rfl

/-- An object is refused when its members are. -/
theorem refuses_readValue_object {fuel position next : Nat} {text inner : List Char}
    (hskip : Cursor.skipSpace ⟨position + 1, text⟩ = ⟨next, inner⟩)
    (hstart : inner.head? ≠ some '}') (h : Refuses (readMembers fuel [] ⟨next, inner⟩)) :
    Refuses (readValue (fuel + 1) ⟨position, '{' :: text⟩) := by
  obtain ⟨problem, h⟩ := h
  refine ⟨problem, ?_⟩
  rw [readValue]
  simp only [Cursor.skip, List.drop_succ_cons, List.drop_zero, hskip]
  cases inner with
  | nil => rw [h]; rfl
  | cons c cs =>
    split
    · rename_i heq
      exact absurd (by rw [(List.cons.inj heq).1]; rfl) hstart
    · rw [h]
      rfl

theorem breaksOff_array {items : List Value} (hw : ∀ item ∈ items, item.WellFormed)
    (hb : ∀ item ∈ items, ¬ item.Paired → BreaksOff item)
    (hp : ¬ (Value.array items).Paired) : BreaksOff (.array items) := by
  intro level fuel position hf
  cases items with
  | nil => exact absurd (paired_array_iff.2 (List.forall_mem_nil _)) hp
  | cons item items =>
    rw [pieces, List.append_assoc] at hf ⊢
    rcases written_leadBy ('[' :: (Layout.indented level).inner.edge) item
      (pieces (Layout.indented level).inner item) (itemPieces (Layout.indented level).inner items ++
        [ofList (Layout.indented level).edge, ofList [']']]) with h | ⟨h, -⟩
    · rw [h, List.cons_append] at hf ⊢
      simp only [List.length_cons, List.length_append, Layout.inner, length_edge] at hf
      obtain ⟨fuel, rfl⟩ : ∃ k, fuel = k + 1 := ⟨fuel - 1, by omega⟩
      have hstart := written_pieces_starts (hw item List.mem_cons_self) (.indented (level + 1))
        (itemPieces (.indented (level + 1)) items ++
          [ofList (Layout.indented level).edge, ofList [']']])
      obtain ⟨next, hnext⟩ := skipSpace_written
        (fun _ => @isSpace_of_mem_edge (.indented (level + 1)) _) hstart (position + 1)
      refine refuses_readValue_array hnext ?_ (refuses_readItems (level + 1) hw hb
        (mt paired_array_iff.2 hp) _ fuel (by omega) next)
      rcases hstart with hnil | ⟨c, cs, hcs, -, hclose, -⟩
      · rw [hnil]
        simp
      · rw [hcs]
        simpa using hclose
    · rw [h]
      exact refuses_readValue_nil _ _

theorem breaksOff_object {members : Members} (hw : ∀ entry ∈ members, entry.2.WellFormed)
    (hb : ∀ entry ∈ members, ¬ entry.2.Paired → BreaksOff entry.2)
    (hp : ¬ (Value.object members).Paired) : BreaksOff (.object members) := by
  intro level fuel position hf
  cases members with
  | nil => exact absurd (paired_object_iff.2 (List.forall_mem_nil _)) hp
  | cons entry members =>
    rw [pieces, List.append_assoc, written_ofList_cons, written_ofList_cons] at hf ⊢
    simp only [List.singleton_append, List.length_cons, List.length_append, Layout.inner,
      length_edge] at hf ⊢
    obtain ⟨fuel, rfl⟩ : ∃ k, fuel = k + 1 := ⟨fuel - 1, by omega⟩
    have hstart := written_member_starts entry.1 (": " :: (pieces (.indented (level + 1)) entry.2 ++
      (memberPieces (.indented (level + 1)) members ++
        [ofList (Layout.indented level).edge, ofList ['}']])))
    obtain ⟨next, hnext⟩ := skipSpace_written
      (fun _ => @isSpace_of_mem_edge (.indented (level + 1)) _) hstart (position + 1)
    refine refuses_readValue_object hnext ?_ (refuses_readMembers (level + 1) hw hb
      (mt paired_object_iff.2 hp) _ fuel (by omega) [] next)
    by_cases hkey : entry.1.Paired
    · rw [written_member hkey]
      simp [renderString]
    · rw [written_cons_of_not (mt paired_quoted_iff.1 hkey)]
      simp

/-- **A value that is broken off is refused**, by induction on what makes it well
    formed. -/
theorem breaksOff {value : Value} (hw : value.WellFormed) (hp : ¬ value.Paired) :
    BreaksOff value := by
  induction hw with
  | null | bool _ | integer _ | double _ =>
    exact absurd (by simp [Value.Paired, Value.strings]) hp
  | string s =>
    intro level fuel position _
    rw [pieces, written_cons_of_not (mt paired_quoted_iff.1 (mt paired_string_iff.2 hp))]
    exact refuses_readValue_nil _ _
  | array hi ih => exact breaksOff_array hi ih hp
  | object _ hm ih => exact breaksOff_object hm ih hp

/-! ## Documents -/

/-- **A document that was broken off stands for no value.** -/
theorem parse_written_of_not_paired {value : Value} (hw : value.WellFormed)
    (hp : ¬ value.Paired) (level : Nat) :
    ∃ error, parse (written (pieces (.indented level) value)) = .error error := by
  have hstart := written_pieces_starts hw (.indented level) []
  rw [List.append_nil] at hstart
  obtain ⟨next, hnext⟩ := skipSpace_written (List.forall_mem_nil _) hstart 0
  rw [List.nil_append] at hnext
  obtain ⟨problem, hread⟩ := breaksOff hw hp level
    ((written (pieces (.indented level) value)).length + 1) next (Nat.lt_succ_self _)
  have hhead : (written (pieces (.indented level) value)).head? ≠ some '\uFEFF' := by
    rcases hstart with hnil | ⟨c, cs, hcs, -, -, hmark⟩
    · rw [hnil]
      simp
    · rw [hcs]
      simpa using hmark
  refine ⟨SyntaxError.at (written (pieces (.indented level) value)) problem.1 problem.2, ?_⟩
  unfold parse readDocument
  rw [if_neg hhead, hnext, hread]
  rfl

end TemplateAnalysis.Json
