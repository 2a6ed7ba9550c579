import Mathlib.Data.List.Nodup
import TemplateAnalysis.Proofs.Json.Rows
import TemplateAnalysis.Store.Steps

/-! # Keys in a data file

    A data file has at most one key in a line, so a key is told by its line. A
    dotted variable names several keys, and there are two ways to find them:

    * in the data, **`keyPath?`** descends from value to value and says at the end
      of which way the last key stands;
    * in the text, **`ReadsDown`** reads the names from top to bottom, each in the
      line of the one before it or further down.

    What is found in the data can be read in the text as well
    (**`exists_readsDown`**), but not the other way round: a key further up may
    have the same name.
-/

namespace TemplateAnalysis.Store

open Text Json Markup

/-! ## Lines of rows -/

/-- The lines of a row. -/
def rowLines (row : Row) : List (List Char) :=
  lines (row.text ++ ['\n'])

/-- How many lines rows have. -/
def height (rows : List Row) : Nat :=
  (rows.flatMap rowLines).length

theorem lines_spell (rows : List Row) : lines (spell rows) = rows.flatMap rowLines := by
  induction rows with
  | nil => rfl
  | cons row rest ih =>
    rw [spell_cons, lines_append_newline, ih]
    rfl

theorem height_cons (row : Row) (rest : List Row) :
    height (row :: rest) = (rowLines row).length + height rest := by
  simp [height]

theorem height_append (before after : List Row) :
    height (before ++ after) = height before + height after := by
  simp [height]

theorem rowLines_ne_nil (row : Row) : rowLines row ≠ [] :=
  lines_ne_nil (by simp)

/-! ## Keys and their places -/

/-- A key of a document: the way to its value, its name, and its place. -/
structure WrittenKey where
  path : List Hop
  name : CodePoints
  place : Place
  deriving DecidableEq, Repr

/-- The key of a row that begins in a given line, if it has one. -/
def keysIn (line : Nat) (row : Row) : List WrittenKey :=
  row.key?.toList.map fun key => ⟨row.path, key, ⟨line, 2 * row.level⟩⟩

/-- The keys of rows, of which the first begins in a given line. -/
def keysFrom (line : Nat) : List Row → List WrittenKey
  | [] => []
  | row :: rest => keysIn line row ++ keysFrom (line + (rowLines row).length) rest

/-- The keys of a value as it is laid out in a file, from top to bottom. -/
def writtenKeys (value : Value) : List WrittenKey :=
  keysFrom 0 (rows 0 [] none [] value)

theorem mem_keysIn {line : Nat} {row : Row} {key : WrittenKey} :
    key ∈ keysIn line row ↔ row.key? = some key.name ∧ key.path = row.path ∧
      key.place = ⟨line, 2 * row.level⟩ := by
  unfold keysIn
  rw [List.mem_map]
  constructor
  · rintro ⟨name, hname, rfl⟩
    exact ⟨Option.mem_toList.1 hname, rfl, rfl⟩
  · rintro ⟨hname, hpath, hplace⟩
    refine ⟨key.name, Option.mem_toList.2 hname, ?_⟩
    rw [← hpath, ← hplace]

theorem keysFrom_append (line : Nat) (before after : List Row) :
    keysFrom line (before ++ after) =
      keysFrom line before ++ keysFrom (line + height before) after := by
  induction before generalizing line with
  | nil => rfl
  | cons row rest ih =>
    rw [List.cons_append, keysFrom, keysFrom, ih, height_cons, Nat.add_assoc, List.append_assoc]

/-- A key stands at the front of a row, in the line that is told by the rows
    above. -/
theorem mem_keysFrom_iff {line : Nat} {rows : List Row} {key : WrittenKey} :
    key ∈ keysFrom line rows ↔ ∃ before row after, rows = before ++ row :: after ∧
      key ∈ keysIn (line + height before) row := by
  constructor
  · intro h
    induction rows generalizing line with
    | nil => cases h
    | cons row rest ih =>
      rw [keysFrom, List.mem_append] at h
      rcases h with h | h
      · exact ⟨[], row, rest, rfl, h⟩
      · obtain ⟨before, found, after, rfl, hkey⟩ := ih h
        refine ⟨row :: before, found, after, rfl, ?_⟩
        rw [height_cons, ← Nat.add_assoc]
        exact hkey
  · rintro ⟨before, row, after, rfl, hkey⟩
    rw [keysFrom_append, keysFrom]
    exact List.mem_append_right _ (List.mem_append_left _ hkey)

theorem line_le_of_mem_keysFrom {line : Nat} {rows : List Row} {key : WrittenKey}
    (h : key ∈ keysFrom line rows) : line ≤ key.place.line := by
  obtain ⟨before, row, after, -, hkey⟩ := mem_keysFrom_iff.1 h
  rw [(mem_keysIn.1 hkey).2.2]
  exact Nat.le_add_right _ _

theorem line_lt_of_mem_keysFrom {line : Nat} {rows : List Row} {key : WrittenKey}
    (h : key ∈ keysFrom line rows) : key.place.line < line + height rows := by
  obtain ⟨before, row, after, rfl, hkey⟩ := mem_keysFrom_iff.1 h
  have hpos := List.length_pos_iff.2 (rowLines_ne_nil row)
  rw [(mem_keysIn.1 hkey).2.2, height_append, height_cons]
  dsimp only
  omega

/-- **No two keys stand in one line.** -/
theorem pairwise_keysFrom (line : Nat) (rows : List Row) :
    (keysFrom line rows).Pairwise fun first second => first.place.line < second.place.line := by
  induction rows generalizing line with
  | nil => exact List.Pairwise.nil
  | cons row rest ih =>
    have hpos := List.length_pos_iff.2 (rowLines_ne_nil row)
    have hbehind : ∀ key ∈ keysIn line row, ∀ other ∈ keysFrom (line + (rowLines row).length) rest,
        key.place.line < other.place.line := by
      intro key hkey other hother
      have hle := line_le_of_mem_keysFrom hother
      rw [(mem_keysIn.1 hkey).2.2]
      dsimp only
      omega
    refine List.pairwise_append.2 ⟨?_, ih _, hbehind⟩
    unfold keysIn
    cases row.key? with
    | none => exact List.Pairwise.nil
    | some name => exact List.pairwise_singleton _ _

/-- So a key is told by its line. -/
theorem eq_of_line_eq {line : Nat} {rows : List Row} {first second : WrittenKey}
    (hfirst : first ∈ keysFrom line rows) (hsecond : second ∈ keysFrom line rows)
    (h : first.place.line = second.place.line) : first = second := by
  have hnodup : ((keysFrom line rows).map fun key => key.place.line).Nodup :=
    List.pairwise_map.2 ((pairwise_keysFrom line rows).imp Nat.ne_of_lt)
  exact List.inj_on_of_nodup_map hnodup hfirst hsecond h

/-- What is found first stands furthest up. -/
theorem line_le_of_find? {line : Nat} {rows : List Row} {test : WrittenKey → Bool}
    {first key : WrittenKey} (h : (keysFrom line rows).find? test = some first)
    (hkey : key ∈ keysFrom line rows) (htest : test key = true) :
    first.place.line ≤ key.place.line := by
  obtain ⟨-, before, after, hkeys, hbefore⟩ := List.find?_eq_some_iff_append.1 h
  have hsorted := pairwise_keysFrom line rows
  rw [hkeys] at hkey hsorted
  rcases List.mem_append.1 hkey with hm | hm
  · have hnone := hbefore key hm
    rw [htest] at hnone
    cases hnone
  · rcases List.mem_cons.1 hm with rfl | hm
    · exact Nat.le_refl _
    · obtain ⟨-, hbehind, -⟩ := List.pairwise_append.1 hsorted
      exact Nat.le_of_lt ((List.pairwise_cons.1 hbehind).1 key hm)

/-! ## Ways in the data -/

/-- The member of an object with this key. -/
def ownMember? (name : CodePoints) : Value → Option Value
  | .object members => Members.get? members name
  | _ => none

/-- The member of the first object among items that has one with this key, by the
    way to it and with its value. The first of the items has a given index. -/
def memberPathFrom? (name : CodePoints) (index : Nat) : List Value → Option (List Hop × Value)
  | [] => none
  | item :: items =>
    match ownMember? name item with
    | some value => some ([.item index, .member name], value)
    | none => memberPathFrom? name (index + 1) items

/-- The member of a value with this key, by the way to it and with its value. -/
def memberPath? (name : CodePoints) : Value → Option (List Hop × Value)
  | .object members => (Members.get? members name).map fun value => ([.member name], value)
  | .array items => memberPathFrom? name 0 items
  | _ => none

/-- The way to the value at the end of a path of keys, and that value. -/
def keyPath? : List CodePoints → Value → Option (List Hop × Value)
  | [], value => some ([], value)
  | name :: rest, value =>
    (memberPath? name value).bind fun found =>
      (keyPath? rest found.2).map fun last => (found.1 ++ last.1, last.2)

theorem snd_memberPathFrom? (name : CodePoints) (index : Nat) (items : List Value) :
    (memberPathFrom? name index items).map Prod.snd = items.findSome? (ownMember? name) := by
  induction items generalizing index with
  | nil => rfl
  | cons item items ih =>
    rw [memberPathFrom?, List.findSome?_cons]
    cases ownMember? name item with
    | none => exact ih _
    | some value => rfl

theorem snd_memberPath? (name : CodePoints) (value : Value) :
    (memberPath? name value).map Prod.snd = memberOf name value := by
  cases value with
  | array items =>
    rw [memberPath?, snd_memberPathFrom?, memberOf]
    rfl
  | object members =>
    rw [memberPath?, memberOf, Option.map_map]
    cases Members.get? members name <;> rfl
  | _ => rfl

/-- **The way leads to the value that is looked up.** -/
theorem snd_keyPath? (names : List CodePoints) (value : Value) :
    (keyPath? names value).map Prod.snd = lookUp names value := by
  induction names generalizing value with
  | nil => rfl
  | cons name rest ih =>
    rw [keyPath?, lookUp, ← snd_memberPath?]
    cases memberPath? name value with
    | none => rfl
    | some found =>
      rw [Option.bind_some, Option.map_map, Option.map_some, Option.bind_some, ← ih]
      rfl

/-! ## Rows of members -/

/-- Rows that begin with the key of this way, and go on with its value. -/
def HasRows (all : List Row) (path : List Hop) (name : CodePoints) (value : Value) : Prop :=
  ∃ before level trail after, all = before ++ rows level path (some name) trail value ++ after

theorem HasRows.behind {all : List Row} {path : List Hop} {name : CodePoints} {value : Value}
    (h : HasRows all path name value) (before : List Row) :
    HasRows (before ++ all) path name value := by
  obtain ⟨front, level, trail, back, rfl⟩ := h
  exact ⟨before ++ front, level, trail, back, by simp only [List.append_assoc]⟩

theorem HasRows.append {all : List Row} {path : List Hop} {name : CodePoints} {value : Value}
    (h : HasRows all path name value) (after : List Row) :
    HasRows (all ++ after) path name value := by
  obtain ⟨front, level, trail, back, rfl⟩ := h
  exact ⟨front, level, trail, back ++ after, by simp only [List.append_assoc]⟩

theorem hasRows_memberRows {members : Members} {name : CodePoints} {value : Value}
    (h : Members.get? members name = some value) (level : Nat) (path : List Hop) :
    HasRows (memberRows level path members) (path ++ [.member name]) name value := by
  induction members with
  | nil => cases h
  | cons entry members ih =>
    rw [Members.get?_cons] at h
    rw [memberRows]
    by_cases hname : entry.1 = name
    · rw [if_pos hname] at h
      obtain rfl := Option.some.inj h
      subst hname
      exact ⟨[], level, commaBefore members, memberRows level path members, rfl⟩
    · rw [if_neg hname] at h
      exact (ih h).behind _

theorem hasRows_object {members : Members} {name : CodePoints} {value : Value}
    (h : Members.get? members name = some value) (level : Nat) (path : List Hop)
    (key? : Option CodePoints) (trail : List Char) :
    HasRows (rows level path key? trail (.object members)) (path ++ [.member name]) name value := by
  cases members with
  | nil => cases h
  | cons entry members =>
    rw [rows_object]
    exact ((hasRows_memberRows h (level + 1) path).append _).behind [_]

theorem hasRows_itemRows {items : List Value} {name : CodePoints} {index : Nat} {hops : List Hop}
    {value : Value} (h : memberPathFrom? name index items = some (hops, value)) (level : Nat)
    (path : List Hop) : HasRows (itemRows level path index items) (path ++ hops) name value := by
  induction items generalizing index with
  | nil => cases h
  | cons item items ih =>
    rw [memberPathFrom?] at h
    rw [itemRows]
    cases hown : ownMember? name item with
    | some found =>
      rw [hown] at h
      obtain ⟨rfl, rfl⟩ := Prod.mk.inj (Option.some.inj h)
      -- Only an object has members, and its rows are those of the item.
      cases item with
      | object members =>
        have hmember := hasRows_object hown level (path ++ [.item index]) none (commaBefore items)
        rw [List.append_assoc] at hmember
        exact hmember.append _
      | _ => cases hown
    | none =>
      rw [hown] at h
      exact (ih h).behind _

/-- **A member has its rows among those of the value that it is found in.** -/
theorem hasRows_of_memberPath? {name : CodePoints} {value found : Value} {hops : List Hop}
    (h : memberPath? name value = some (hops, found)) (level : Nat) (path : List Hop)
    (key? : Option CodePoints) (trail : List Char) :
    HasRows (rows level path key? trail value) (path ++ hops) name found := by
  cases value with
  | object members =>
    obtain ⟨member, hmember, heq⟩ := Option.map_eq_some_iff.1 h
    obtain ⟨rfl, rfl⟩ := Prod.mk.inj heq
    exact hasRows_object hmember level path key? trail
  | array items =>
    rw [memberPath?] at h
    cases items with
    | nil => cases h
    | cons item items =>
      rw [rows_array]
      exact ((hasRows_itemRows h (level + 1) path).append _).behind [_]
  | _ => cases h

/-- The first row of a value begins with its key. -/
theorem exists_rows_eq_cons (level : Nat) (path : List Hop) (key? : Option CodePoints)
    (trail : List Char) (value : Value) :
    ∃ body rest, rows level path key? trail value = ⟨level, path, key?, body⟩ :: rest := by
  by_cases hsingle : isSingle value = true
  · exact ⟨_, _, rows_single hsingle level path key? trail⟩
  · cases value with
    | array items =>
      cases items with
      | nil => exact absurd rfl hsingle
      | cons item items => exact ⟨_, _, rows_array level path key? trail item items⟩
    | object members =>
      cases members with
      | nil => exact absurd rfl hsingle
      | cons entry members => exact ⟨_, _, rows_object level path key? trail entry members⟩
    | _ => exact absurd rfl hsingle

/-! ## Readings -/

/-- Names can be read from one place down to another: each at a key with this name, in
    the line of the one before it or further down. -/
def ReadsDown (keys : List WrittenKey) (place : Place) : List CodePoints → Place → Prop
  | [], final => final = place
  | name :: names, final => ∃ key ∈ keys, key.name = name ∧ place.line ≤ key.place.line ∧
      ReadsDown keys key.place names final

theorem ReadsDown.mono {keys others : List WrittenKey} {place final : Place}
    {names : List CodePoints} (h : ReadsDown keys place names final)
    (hkeys : ∀ key ∈ keys, key ∈ others) : ReadsDown others place names final := by
  induction names generalizing place with
  | nil => exact h
  | cons name names ih =>
    obtain ⟨key, hkey, hname, hle, hrest⟩ := h
    exact ⟨key, hkeys key hkey, hname, hle, ih hrest⟩

/-- What can be read from a place can be read from further up. -/
theorem ReadsDown.of_line_le {keys : List WrittenKey} {above place final : Place}
    {name : CodePoints} {names : List CodePoints} (h : ReadsDown keys place (name :: names) final)
    (hle : above.line ≤ place.line) : ReadsDown keys above (name :: names) final := by
  obtain ⟨key, hkey, hname, hline, hrest⟩ := h
  exact ⟨key, hkey, hname, Nat.le_trans hle hline, hrest⟩

/-- The last name is read at a key. -/
theorem ReadsDown.exists_key {keys : List WrittenKey} {place final : Place} {name : CodePoints}
    {names : List CodePoints} (h : ReadsDown keys place (name :: names) final) :
    ∃ key ∈ keys, key.place = final := by
  induction names generalizing place name with
  | nil =>
    obtain ⟨key, hkey, -, -, rfl⟩ := h
    exact ⟨key, hkey, rfl⟩
  | cons second names ih =>
    obtain ⟨key, -, -, -, hrest⟩ := h
    exact ih hrest

/-- Every name is that of a key. -/
theorem ReadsDown.exists_named {keys : List WrittenKey} {place final : Place}
    {names : List CodePoints} (h : ReadsDown keys place names final) :
    ∀ name ∈ names, ∃ key ∈ keys, key.name = name := by
  induction names generalizing place with
  | nil =>
    intro name hname
    cases hname
  | cons first names ih =>
    obtain ⟨key, hkey, hfirst, -, hrest⟩ := h
    intro name hname
    rcases List.mem_cons.1 hname with rfl | hname
    · exact ⟨key, hkey, hfirst⟩
    · exact ih hrest name hname

/-- A member has its key among those of the value that it is found in, and the keys
    inside it stand there from the same line on. -/
theorem exists_key_of_memberPath? {name : CodePoints} {value inner : Value} {step : List Hop}
    (h : memberPath? name value = some (step, inner)) (level : Nat) (path : List Hop)
    (key? : Option CodePoints) (trail : List Char) (line : Nat) :
    ∃ key ∈ keysFrom line (rows level path key? trail value),
      key.path = path ++ step ∧ key.name = name ∧ ∃ inside comma,
        ∀ other ∈ keysFrom key.place.line (rows inside (path ++ step) (some name) comma inner),
          other ∈ keysFrom line (rows level path key? trail value) := by
  obtain ⟨before, inside, comma, after, hrows⟩ :=
    hasRows_of_memberPath? h level path key? trail
  obtain ⟨body, rest, hfirst⟩ := exists_rows_eq_cons inside (path ++ step) (some name) comma inner
  refine ⟨⟨path ++ step, name, ⟨line + height before, 2 * inside⟩⟩, ?_, rfl, rfl, inside, comma, ?_⟩
  · rw [hrows, hfirst]
    refine mem_keysFrom_iff.2 ⟨before, ⟨inside, path ++ step, some name, body⟩, rest ++ after, ?_,
      mem_keysIn.2 ⟨rfl, rfl, rfl⟩⟩
    rw [List.append_assoc, List.cons_append]
  · intro other hother
    rw [hrows, keysFrom_append, keysFrom_append]
    exact List.mem_append_left _ (List.mem_append_right _ hother)

/-- **What is found in the data can be read in its text**, and the last name is
    then read at the key that was found. -/
theorem exists_readsDown {name : CodePoints} {names : List CodePoints} {value found : Value}
    {hops : List Hop} (h : keyPath? (name :: names) value = some (hops, found)) (level : Nat)
    (path : List Hop) (key? : Option CodePoints) (trail : List Char) (place : Place) :
    ∃ key ∈ keysFrom place.line (rows level path key? trail value), key.path = path ++ hops ∧
      (name :: names).getLast? = some key.name ∧
      ReadsDown (keysFrom place.line (rows level path key? trail value)) place (name :: names)
        key.place := by
  -- The keys of an inner value are among those of the outer one, from its own line on.
  induction names generalizing name value hops level path key? trail place with
  | nil =>
    rw [keyPath?] at h
    obtain ⟨⟨step, inner⟩, hmember, h⟩ := Option.bind_eq_some_iff.1 h
    obtain ⟨rfl, rfl⟩ := Prod.mk.inj (Option.some.inj h)
    obtain ⟨key, hkey, hpath, rfl, -⟩ :=
      exists_key_of_memberPath? hmember level path key? trail place.line
    refine ⟨key, hkey, ?_, rfl, key, hkey, rfl, line_le_of_mem_keysFrom hkey, rfl⟩
    rw [hpath, List.append_nil]
  | cons second names ih =>
    rw [keyPath?] at h
    obtain ⟨⟨step, inner⟩, hmember, h⟩ := Option.bind_eq_some_iff.1 h
    obtain ⟨⟨others, last⟩, hothers, heq⟩ := Option.map_eq_some_iff.1 h
    obtain ⟨rfl, rfl⟩ := Prod.mk.inj heq
    obtain ⟨key, hkey, hpath, hname, inside, comma, hsub⟩ :=
      exists_key_of_memberPath? hmember level path key? trail place.line
    obtain ⟨final, hfinal, hfinalPath, hlast, hreads⟩ :=
      ih hothers inside (path ++ step) (some name) comma key.place
    refine ⟨final, hsub final hfinal, ?_, ?_, key, hkey, hname, line_le_of_mem_keysFrom hkey,
      hreads.mono hsub⟩
    · rw [hfinalPath, List.append_assoc]
    · rw [List.getLast?_cons_cons]
      exact hlast

end TemplateAnalysis.Store
