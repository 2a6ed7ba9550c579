import TemplateAnalysis.Proofs.Documents
import TemplateAnalysis.Proofs.Markup.Attribute
import TemplateAnalysis.Proofs.Store.Keys
import TemplateAnalysis.Proofs.Store.Generating
import TemplateAnalysis.Proofs.Text.Search
import TemplateAnalysis.Store.DataFile

/-! # Where a variable is defined

    The value of a dotted variable is found in the data, its place in the text of
    the data file: the names are looked for one after another, each from the line
    of the one before it. In a file that was written with its data laid out, a
    search comes upon keys only (**`Searchable.keyPlaceFrom?_rows`**), and upon the first
    that can be read in this way (**`readsDown_placeOfKeys`**).

    So the place is that of the key which the value belongs to, exactly when no
    other reading of the names ends further up (**`findDefinition_place`**).
-/

namespace TemplateAnalysis.Store

open Files Text Json Markup

/-! ## Keys at the front of a text -/

theorem keyStarts_eq_true_iff {name text : List Char} :
    keyStarts name text = true ↔
      ∃ rest, text = '"' :: (name ++ '"' :: rest) ∧ (trimLeft rest).head? = some ':' := by
  unfold keyStarts
  constructor
  · intro h
    split at h
    · rename_i rest hrest
      refine ⟨rest, ?_, of_decide_eq_true h⟩
      rw [after?_eq_some_iff.1 hrest]
      simp
    · cases h
  · rintro ⟨rest, rfl, hcolon⟩
    have hrest : after? ('"' :: name ++ ['"']) ('"' :: (name ++ '"' :: rest)) = some rest :=
      after?_eq_some_iff.2 (by simp)
    rw [hrest]
    exact decide_eq_true hcolon

/-- A name that is found as it stands: it holds neither quotes nor backslashes, no
    character that ends a line, and is not what stands between two strings. -/
structure Searchable (name : List Char) : Prop where
  noQuote : '"' ∉ name
  noBackslash : '\\' ∉ name
  noLineEnd : ∀ c ∈ name, isLineEnd c = false
  notBetween : name ≠ [':', ' ']

/-- The key is written as it is. -/
def Unescaped (key : CodePoints) : Prop :=
  key.Paired ∧ ∀ c ∈ key.chars, escapeChar c = [c]

instance (key : CodePoints) : Decidable (Unescaped key) :=
  -- The characters of the key are checked, not all that there are.
  @instDecidableAnd _ _ _ (List.decidableBAll _ _)

theorem Unescaped.notMem {key : CodePoints} (h : Unescaped key) {c : Char}
    (hc : escapeChar c ≠ [c]) : c ∉ key.chars :=
  fun hm => hc (h.2 c hm)

theorem Unescaped.render {key : CodePoints} (h : Unescaped key) :
    renderString key = '"' :: (key.chars ++ ['"']) := by
  have hflat : key.chars.flatMap escapeChar = key.chars := by
    rw [List.flatMap_congr fun c hc => h.2 c hc]
    simp
  rw [renderString, hflat]
  rfl

/-- A quote behind a text without quotes. -/
theorem exists_of_append_quote {front rest before behind : List Char} (hfront : '"' ∉ front)
    (h : front ++ rest = before ++ '"' :: behind) :
    ∃ more, before = front ++ more ∧ rest = more ++ '"' :: behind := by
  rcases List.append_eq_append_iff.1 h with ⟨more, hbefore, hrest⟩ | ⟨more, rfl, hmore⟩
  · exact ⟨more, hbefore, hrest⟩
  · cases more with
    | nil => exact ⟨[], by simp, hmore.symm⟩
    | cons c more =>
      obtain ⟨rfl, -⟩ := List.cons.inj hmore
      simp at hfront

theorem eq_of_append_quote {first second behind rest : List Char} (hfirst : '"' ∉ first)
    (hsecond : '"' ∉ second) (h : first ++ '"' :: behind = second ++ '"' :: rest) :
    first = second := by
  obtain ⟨more, rfl, -⟩ := exists_of_append_quote hfirst h
  obtain ⟨others, hothers, -⟩ := exists_of_append_quote hsecond h.symm
  have hlength := congrArg List.length hothers
  rw [List.append_assoc, List.length_append, List.length_append] at hlength
  rw [List.length_eq_zero_iff.1 (show more.length = 0 by omega), List.append_nil]

section

variable {name : List Char}

/-- Nothing that looks like a key stands in a sealed text. -/
theorem Searchable.no_colon_of_sealed (hname : Searchable name) {text before rest : List Char}
    (hsealed : Sealed text) (h : text = before ++ '"' :: (name ++ '"' :: rest)) :
    (trimLeft rest).head? ≠ some ':' := by
  have hsplit : text = (before ++ '"' :: name) ++ '"' :: rest := by
    rw [h, List.append_assoc, List.cons_append]
  rcases hsealed _ _ hsplit with hnil | hlast | hcolon
  · simp at hnil
  · -- The last character is one of the name, or the quote in front of it.
    rw [List.getLast?_append, List.getLast?_cons, Option.some_or] at hlast
    cases hname' : name.getLast? with
    | none => simp [hname'] at hlast
    | some c =>
      rw [hname'] at hlast
      obtain rfl : c = '\\' := Option.some.inj hlast
      exact absurd (List.mem_of_getLast? hname') hname.noBackslash
  · exact hcolon

/-- **A row looks like a key at its own key alone.** -/
theorem Searchable.keyStarts_row (hname : Searchable name) {row : Row}
    (hsealed : Sealed (row.body ++ ['\n'])) (hkey : ∀ key, row.key? = some key → Unescaped key)
    (hne : row.key? ≠ some (CodePoints.ofList name)) {before text : List Char}
    (h : row.text ++ ['\n'] = before ++ text) : keyStarts name text = false := by
  refine Bool.eq_false_iff.2 fun hstarts => ?_
  obtain ⟨rest, rfl, hcolon⟩ := keyStarts_eq_true_iff.1 hstarts
  have hindent : '"' ∉ List.replicate (2 * row.level) ' ' := by simp
  rw [Row.text, List.append_assoc, List.append_assoc] at h
  obtain ⟨before, -, hbehind⟩ := exists_of_append_quote hindent h
  cases hrow : row.key? with
  | none =>
    rw [hrow] at hbehind
    exact hname.no_colon_of_sealed hsealed hbehind hcolon
  | some key =>
    have hplain := hkey key hrow
    have hquote : '"' ∉ key.chars := hplain.notMem (by decide)
    have hbetween : '"' ∉ [':', ' '] := by decide
    have hkeyText : keyText (some key) ++ (row.body ++ ['\n']) =
        '"' :: (key.chars ++ '"' :: ([':', ' '] ++ (row.body ++ ['\n']))) := by
      simp [keyText, hplain.render]
    rw [hrow, hkeyText] at hbehind
    cases before with
    | nil =>
      -- At the opening quote stands the key, which would be the name.
      obtain ⟨-, hbody⟩ := List.cons.inj hbehind
      apply hne
      rw [hrow, ← eq_of_append_quote hquote hname.noQuote hbody, CodePoints.ofList_chars hplain.1]
    | cons first before =>
      obtain ⟨-, hbody⟩ := List.cons.inj hbehind
      obtain ⟨before, rfl, hclosing⟩ := exists_of_append_quote hquote hbody
      cases before with
      | nil =>
        -- At the closing quote the name would go on to the value.
        obtain ⟨-, hvalue⟩ := List.cons.inj hclosing
        obtain ⟨more, rfl, hmore⟩ := exists_of_append_quote hbetween hvalue
        rcases hsealed _ _ hmore with rfl | hlast | hnone
        · exact hname.notBetween rfl
        · exact hname.noBackslash (List.mem_append_right _ (List.mem_of_getLast? hlast))
        · exact hnone hcolon
      | cons second before =>
        obtain ⟨-, hvalue⟩ := List.cons.inj hclosing
        obtain ⟨more, -, hmore⟩ := exists_of_append_quote hbetween hvalue
        exact hname.no_colon_of_sealed hsealed hmore hcolon

/-! ## Keys in lines -/

theorem keyColumn?_eq_none {line : List Char}
    (h : ∀ before text, line = before ++ text → keyStarts name text = false) :
    keyColumn? name line = none := by
  induction line with
  | nil => rfl
  | cons c rest ih =>
    have hrest := ih fun before text heq => h (c :: before) text (by rw [heq, List.cons_append])
    rw [keyColumn?, h [] (c :: rest) rfl, hrest]
    rfl

/-- A key at the front of a text does not go away when more stands behind it. -/
theorem keyStarts_append {text : List Char} (h : keyStarts name text = true) (more : List Char) :
    keyStarts name (text ++ more) = true := by
  obtain ⟨rest, rfl, hcolon⟩ := keyStarts_eq_true_iff.1 h
  refine keyStarts_eq_true_iff.2 ⟨rest ++ more, by simp, ?_⟩
  obtain ⟨blanks, hblanks, hrest⟩ := exists_eq_append_trimLeft rest
  obtain ⟨tail, htail⟩ := List.head?_eq_some_iff.1 hcolon
  rw [hrest, htail, List.append_assoc, trimLeft_append hblanks, List.cons_append,
    trimLeft_cons (by decide)]
  rfl

theorem keyColumn?_indented (n : Nat) {text : List Char} (h : keyStarts name text = true) :
    keyColumn? name (List.replicate n ' ' ++ text) = some n := by
  induction n with
  | zero =>
    obtain ⟨rest, rfl, -⟩ := keyStarts_eq_true_iff.1 h
    rw [List.replicate_zero, List.nil_append, keyColumn?, if_pos h]
  | succ n ih =>
    have hblank : keyStarts name (' ' :: (List.replicate n ' ' ++ text)) = false := by
      refine Bool.eq_false_iff.2 fun hstarts => ?_
      obtain ⟨rest, heq, -⟩ := keyStarts_eq_true_iff.1 hstarts
      exact absurd (List.cons.inj heq).1 (by decide)
    rw [List.replicate_succ, List.cons_append, keyColumn?, hblank, ih]
    rfl

/-- A row whose keys are written as they are, and that holds nothing else that
    looks like a key. -/
structure Fair (row : Row) : Prop where
  sealed : Sealed (row.body ++ ['\n'])
  unescaped : ∀ key, row.key? = some key → Unescaped key

/-- No line of a row with another key, or with none, holds the name as a key. -/
theorem Searchable.keyColumn?_row (hname : Searchable name) {row : Row} (hrow : Fair row)
    (hne : row.key? ≠ some (CodePoints.ofList name)) :
    ∀ line ∈ rowLines row, keyColumn? name line = none := by
  intro line hline
  obtain ⟨front, back, hinfix⟩ := infix_of_mem_lines hline
  refine keyColumn?_eq_none fun before text heq => ?_
  refine Bool.eq_false_iff.2 fun hstarts => ?_
  have hwhole : row.text ++ ['\n'] = (front ++ before) ++ (text ++ back) := by
    rw [← hinfix, heq]
    simp only [List.append_assoc]
  have hnone := hname.keyStarts_row hrow.sealed hrow.unescaped hne hwhole
  rw [keyStarts_append hstarts back] at hnone
  cases hnone

/-- The first line of a row with a key has it behind the blanks. -/
theorem Searchable.exists_rowLines (hname : Searchable name) {row : Row} (hrow : Fair row)
    (hown : row.key? = some (CodePoints.ofList name)) : ∃ more others, rowLines row =
      (List.replicate (2 * row.level) ' ' ++ '"' :: (name ++ '"' :: ':' :: more)) :: others := by
  have hkey := (hrow.unescaped _ hown).render
  rw [CodePoints.chars_ofList] at hkey
  -- The blanks, the key and the colon have no line ends.
  have htext : row.text ++ ['\n'] =
      (List.replicate (2 * row.level) ' ' ++ '"' :: (name ++ ['"', ':'])) ++
        (' ' :: row.body ++ ['\n']) := by
    simp [Row.text, hown, keyText, hkey]
  have hfront : ∀ c ∈ List.replicate (2 * row.level) ' ' ++ '"' :: (name ++ ['"', ':']),
      isLineEnd c = false := by
    intro c hc
    rw [List.mem_append, List.mem_cons, List.mem_append] at hc
    rcases hc with hc | rfl | hc | hc
    · rw [(List.mem_replicate.1 hc).2]
      rfl
    · rfl
    · exact hname.noLineEnd c hc
    · simp only [List.mem_cons, List.not_mem_nil, or_false] at hc
      rcases hc with rfl | rfl <;> rfl
  obtain ⟨more, others, hlines⟩ := exists_lines_append (by simp) hfront (' ' :: row.body ++ ['\n'])
  refine ⟨more, others, ?_⟩
  unfold rowLines
  rw [htext, hlines]
  simp

theorem keyColumn?_own (n : Nat) (more : List Char) :
    keyColumn? name (List.replicate n ' ' ++ '"' :: (name ++ '"' :: ':' :: more)) = some n := by
  apply keyColumn?_indented
  refine keyStarts_eq_true_iff.2 ⟨':' :: more, rfl, ?_⟩
  rw [trimLeft_cons (by decide)]
  rfl

/-! ## Keys in a file -/

theorem keyPlaceFrom?_append (number : Nat) (before after : List (List Char)) :
    keyPlaceFrom? name number (before ++ after) =
      (keyPlaceFrom? name number before).or
        (keyPlaceFrom? name (number + before.length) after) := by
  induction before generalizing number with
  | nil => rfl
  | cons line rest ih =>
    rw [List.cons_append, keyPlaceFrom?, keyPlaceFrom?]
    cases keyColumn? name line with
    | some column => rfl
    | none =>
      rw [List.length_cons, ← Nat.add_assoc, Nat.add_right_comm]
      exact ih (number + 1)

theorem keyPlaceFrom?_eq_none {lines : List (List Char)}
    (h : ∀ line ∈ lines, keyColumn? name line = none) (number : Nat) :
    keyPlaceFrom? name number lines = none := by
  induction lines generalizing number with
  | nil => rfl
  | cons line rest ih =>
    rw [keyPlaceFrom?, h line List.mem_cons_self]
    exact ih (fun other hm => h other (List.mem_cons_of_mem line hm)) _

/-- **A search comes upon keys only**, and upon the first one with the name. -/
theorem Searchable.keyPlaceFrom?_rows (hname : Searchable name) {rows : List Row}
    (hrows : ∀ row ∈ rows, Fair row) (line : Nat) :
    keyPlaceFrom? name line (rows.flatMap rowLines) =
      ((keysFrom line rows).find? fun key => key.name = CodePoints.ofList name).map
        WrittenKey.place := by
  induction rows generalizing line with
  | nil => rfl
  | cons row rest ih =>
    have hrest := ih (fun other hm => hrows other (List.mem_cons_of_mem row hm))
      (line + (rowLines row).length)
    have hrow := hrows row List.mem_cons_self
    rw [List.flatMap_cons, keysFrom]
    by_cases hown : row.key? = some (CodePoints.ofList name)
    · obtain ⟨more, others, hlines⟩ := hname.exists_rowLines hrow hown
      rw [hlines, List.cons_append, keyPlaceFrom?, keyColumn?_own]
      simp [keysIn, hown]
    · -- A row without the name is passed over, with all its lines.
      rw [keyPlaceFrom?_append, keyPlaceFrom?_eq_none (hname.keyColumn?_row hrow hown), hrest,
        Option.none_or, List.find?_append]
      have hnone :
          (keysIn line row).find? (fun key => key.name = CodePoints.ofList name) = none := by
        rw [List.find?_eq_none]
        intro key hkey hsame
        exact hown ((mem_keysIn.1 hkey).1.trans (congrArg some (of_decide_eq_true hsame)))
      rw [hnone, Option.none_or]

/-- A search from the line of a row finds the first of the keys from there on. -/
theorem Searchable.exists_first (hname : Searchable name) {before after : List Row}
    (hrows : ∀ row ∈ before ++ after, Fair row) {key : WrittenKey}
    (hkey : key ∈ keysFrom 0 (before ++ after)) (hnamed : key.name = CodePoints.ofList name)
    (hline : height before ≤ key.place.line) :
    ∃ found ∈ keysFrom 0 (before ++ after), found.name = CodePoints.ofList name ∧
      height before ≤ found.place.line ∧ found.place.line ≤ key.place.line ∧
      keyPlaceFrom? name (height before)
        (((before ++ after).flatMap rowLines).drop (height before)) = some found.place := by
  have hdrop : ((before ++ after).flatMap rowLines).drop (height before) =
      after.flatMap rowLines := by
    rw [List.flatMap_append]
    exact List.drop_left
  have hafter := hname.keyPlaceFrom?_rows
    (fun row hm => hrows row (List.mem_append_right _ hm)) (height before)
  rw [hdrop, hafter]
  rw [keysFrom_append, Nat.zero_add] at hkey ⊢
  -- The key is none of those above, which stand in lines further up.
  have hbelow : key ∈ keysFrom (height before) after := by
    rcases List.mem_append.1 hkey with habove | hbelow
    · have := line_lt_of_mem_keysFrom habove
      omega
    · exact hbelow
  have htest : decide (key.name = CodePoints.ofList name) = true := decide_eq_true hnamed
  cases hfind : (keysFrom (height before) after).find? fun key =>
      key.name = CodePoints.ofList name with
  | none => exact absurd htest (List.find?_eq_none.1 hfind key hbelow)
  | some found =>
    have hfound := List.mem_of_find?_eq_some hfind
    have hfoundName : found.name = CodePoints.ofList name := by simpa using List.find?_some hfind
    exact ⟨found, List.mem_append_right _ hfound, hfoundName, line_le_of_mem_keysFrom hfound,
      line_le_of_find? hfind hbelow htest, rfl⟩

end

/-- **The names are found at the first place where they can be read**: the place
    that a search ends at can be read, and no other one is further up. -/
theorem readsDown_placeOfKeys {rows before after : List Row} (hrows : ∀ row ∈ rows, Fair row)
    {place final : Place} (hsplit : rows = before ++ after) (hplace : place.line = height before)
    {names : List (List Char)} (hnames : ∀ name ∈ names, Searchable name)
    (h : ReadsDown (keysFrom 0 rows) place (names.map CodePoints.ofList) final) :
    ReadsDown (keysFrom 0 rows) place (names.map CodePoints.ofList)
        (placeOfKeys (rows.flatMap rowLines) place names) ∧
      (placeOfKeys (rows.flatMap rowLines) place names).line ≤ final.line := by
  induction names generalizing place before after with
  | nil => exact ⟨rfl, Nat.le_of_eq (congrArg Place.line (Eq.symm h))⟩
  | cons name names ih =>
    obtain ⟨key, hkey, hnamed, hle, hrest⟩ := h
    have hname := hnames name List.mem_cons_self
    have hothers : ∀ other ∈ names, Searchable other :=
      fun other hm => hnames other (List.mem_cons_of_mem name hm)
    rw [hsplit] at hrows hkey
    rw [hplace] at hle
    -- The other names can be read from the first key as well, since it is further up.
    obtain ⟨first, hfirst, hfirstName, hbelow, hfirstLe, hfound⟩ :=
      hname.exists_first hrows hkey hnamed hle
    rw [← hsplit] at hrows hfirst hfound
    have hstep : placeOfKeys (rows.flatMap rowLines) place (name :: names) =
        placeOfKeys (rows.flatMap rowLines) first.place names := by
      rw [placeOfKeys, hplace, hfound]
      rfl
    rw [hstep]
    have hhere : place.line ≤ first.place.line := by
      rw [hplace]
      exact hbelow
    cases names with
    | nil =>
      obtain rfl : final = key.place := hrest
      exact ⟨⟨first, hfirst, hfirstName, hhere, rfl⟩, hfirstLe⟩
    | cons second names =>
      -- The line of a key is that of a row, where the next search begins.
      obtain ⟨above, row, below, hrow, hin⟩ := mem_keysFrom_iff.1 hfirst
      have hline : first.place.line = height above := by
        rw [(mem_keysIn.1 hin).2.2, Nat.zero_add]
      obtain ⟨hreads, hleast⟩ := ih hrow hline hothers (hrest.of_line_le hfirstLe)
      exact ⟨⟨first, hfirst, hfirstName, hhere, hreads⟩, hleast⟩

/-- A key stands at its place. -/
theorem exists_line_of_mem_keysFrom {rows : List Row} (hrows : ∀ row ∈ rows, Fair row)
    {key : WrittenKey} (hkey : key ∈ keysFrom 0 rows) (hname : Searchable key.name.chars) :
    ∃ more, (rows.flatMap rowLines)[key.place.line]? =
      some (List.replicate key.place.character ' ' ++
        '"' :: (key.name.chars ++ '"' :: ':' :: more)) := by
  obtain ⟨before, row, after, rfl, hin⟩ := mem_keysFrom_iff.1 hkey
  obtain ⟨hown, -, hplace⟩ := mem_keysIn.1 hin
  have hrow := hrows row (List.mem_append_right _ List.mem_cons_self)
  rw [← CodePoints.ofList_chars (hrow.unescaped _ hown).1] at hown
  obtain ⟨more, others, hlines⟩ := hname.exists_rowLines hrow hown
  refine ⟨more, ?_⟩
  rw [hplace, Nat.zero_add, List.flatMap_append]
  dsimp only
  rw [height, List.getElem?_append_right (Nat.le_refl _), Nat.sub_self, List.flatMap_cons, hlines]
  rfl

/-! ## Definitions -/

theorem fair_of_mem_rows {value : Value} (hw : value.WellFormed)
    (hkeys : ∀ key ∈ writtenKeys value, Unescaped key.name) :
    ∀ row ∈ rows 0 [] none [] value, Fair row := by
  intro row hrow
  refine ⟨sealsRows hw 0 [] none [] (.inl rfl) row hrow, fun key hkey => ?_⟩
  obtain ⟨before, after, hsplit⟩ := List.append_of_mem hrow
  exact hkeys ⟨row.path, key, ⟨0 + height before, 2 * row.level⟩⟩
    (mem_keysFrom_iff.2 ⟨before, row, after, hsplit, mem_keysIn.2 ⟨hkey, rfl, rfl⟩⟩)

/-- The text of a data file, in rows. -/
theorem dataText_eq_spell {value : Value} (hw : value.WellFormed) (hp : value.Paired) :
    (dataText value).toList = spell (rows 0 [] none [] value) := by
  rw [spell_rows hw, toList_dataText hp]
  simp [keyText]

/-- The names of a dotted variable. -/
def namesOf (path : List Char) : List CodePoints :=
  (splitOn '.' path).map CodePoints.ofList

/-- The names of a variable can be read from the top of the data down to a place. -/
def ReadsTo (members : Members) (path : List Char) (place : Place) : Prop :=
  ReadsDown (writtenKeys (.object members)) ⟨0, 0⟩ (namesOf path) place

theorem exists_namesOf_eq_cons (path : List Char) :
    ∃ name names, namesOf path = name :: names := by
  obtain ⟨name, names, hsplit⟩ := List.exists_cons_of_ne_nil (splitOn_ne_nil '.' path)
  refine ⟨CodePoints.ofList name, names.map CodePoints.ofList, ?_⟩
  rw [namesOf, hsplit, List.map_cons]

/-- A variable with a value can be read down to the key that the value belongs to. -/
theorem exists_readsTo {members : Members} {path : List Char} {value : Value}
    (h : lookUp (namesOf path) (.object members) = some value) :
    ∃ key ∈ writtenKeys (.object members),
      keyPath? (namesOf path) (.object members) = some (key.path, value) ∧
      (namesOf path).getLast? = some key.name ∧ ReadsTo members path key.place := by
  obtain ⟨⟨hops, found⟩, hway, rfl⟩ : ∃ last, keyPath? (namesOf path) (.object members) =
      some last ∧ last.2 = value := by
    rw [← snd_keyPath?] at h
    exact Option.map_eq_some_iff.1 h
  obtain ⟨name, names, hcons⟩ := exists_namesOf_eq_cons path
  obtain ⟨key, hkey, hpath, hlast, hreads⟩ :=
    exists_readsDown (hcons ▸ hway) 0 [] none [] ⟨0, 0⟩
  rw [← hcons] at hreads hlast
  refine ⟨key, hkey, ?_, hlast, hreads⟩
  rw [hway, hpath, List.nil_append]

/-- No two places in one line can both be read, since a line has one key. -/
theorem ReadsTo.unique_in_line {members : Members} {path : List Char} {first second : Place}
    (hfirst : ReadsTo members path first) (hsecond : ReadsTo members path second)
    (h : first.line = second.line) : first = second := by
  obtain ⟨name, names, hcons⟩ := exists_namesOf_eq_cons path
  unfold ReadsTo at hfirst hsecond
  rw [hcons] at hfirst hsecond
  obtain ⟨key, hkey, rfl⟩ := hfirst.exists_key
  obtain ⟨other, hother, rfl⟩ := hsecond.exists_key
  rw [eq_of_line_eq hkey hother h]

/-- Finding the file of a template changes none. -/
theorem inspects_fileFor (project : Project) (template : Path) :
    Inspects (fileFor project template) fun tree =>
      ((textIn tree template).bind fun text => .ok (text.getD "").toList).bind fun text =>
        fileForText project template text := by
  have htext : Inspects (templateText template) fun tree =>
      (textIn tree template).bind fun text => .ok (text.getD "").toList :=
    (inspects_readText template).bind fun text => inspects_pure (text.getD "").toList
  refine htext.bind fun text => ?_
  cases fileForText project template text with
  | ok file => exact inspects_pure file
  | error failure => exact inspects_throw failure

theorem fileFor_of_text {project : Project} {template file : Path} {session : Session}
    {text : String} (htext : textOf session.files template = .ok text)
    (hfile : fileForText project template text.toList = .ok file) :
    fileFor project template session = .ok file session := by
  have hread : templateText template session = .ok text.toList session := by
    unfold templateText
    rw [bind_of_ok (readText_of_ok htext)]
    rfl
  unfold fileFor
  rw [bind_of_ok hread]
  simp only [hfile]
  rfl

/-- The place of a definition is found in the text of the data file. -/
theorem findDefinition_eq_ok {project : Project} {template file : Path}
    {session after : Session} {path : List Char} {text : String} {members : Members}
    {value : Value} (hfile : fileFor project template session = .ok file after)
    (htext : textOf session.files file = .ok text)
    (hdata : dataIn session.files file = .ok members)
    (hvalue : lookUp (namesOf path) (.object members) = some value) : ∃ last,
    findDefinition project template path session =
      .ok (some ⟨file, placeOfKeys (lines text.toList) ⟨0, 0⟩ (splitOn '.' path), value⟩) last := by
  have hfiles : after.files = session.files := by
    obtain ⟨last, hlast, hjob⟩ := inspects_fileFor project template session
    rw [hfile] at hjob
    split at hjob
    · injection hjob with _ hsame
      rw [hsame, hlast]
    · cases hjob
  obtain ⟨loaded, hload, hloaded⟩ := loadData_eq file after
  rw [hfiles] at hload hloaded
  rw [heldIn_of_dataIn hdata] at hload
  have hread : templateText file loaded = .ok text.toList loaded := by
    unfold templateText
    rw [bind_of_ok (readText_of_ok (hloaded ▸ htext))]
    rfl
  refine ⟨loaded, ?_⟩
  unfold findDefinition
  rw [bind_of_ok hfile, bind_of_ok hload]
  unfold namesOf at hvalue
  simp only [hvalue]
  rw [bind_of_ok hread]
  rfl

/-- A name of a variable that is found among keys that are written as they are. -/
theorem searchable_of_named {keys : List WrittenKey} (hkeys : ∀ key ∈ keys, Unescaped key.name)
    {place final : Place} {names : List (List Char)}
    (hnames : ∀ name ∈ names, (∀ c ∈ name, isLineEnd c = false) ∧ name ≠ [':', ' '])
    (h : ReadsDown keys place (names.map CodePoints.ofList) final) :
    ∀ name ∈ names, Searchable name := by
  intro name hname
  obtain ⟨key, hkey, hnamed⟩ := h.exists_named _ (List.mem_map_of_mem hname)
  have hplain := hkeys key hkey
  have hname' : key.name.chars = name := by rw [hnamed, CodePoints.chars_ofList]
  refine ⟨?_, ?_, (hnames name hname).1, (hnames name hname).2⟩
  · rw [← hname']
    exact hplain.notMem (by decide)
  · rw [← hname']
    exact hplain.notMem (by decide)

/-- **Where a variable is found to be defined**, in a data file that was written with
    its data laid out, and whose keys are written as they are: the first place down to
    which its names can be read from the top. So it is the place of the key of the value
    that is looked up, exactly when the names can be read down to no place further up. -/
theorem findDefinition_place {project : Project} {template file : Path}
    {session after : Session} {path : List Char} {members : Members} {value : Value}
    (hfile : fileFor project template session = .ok file after)
    (hread : session.files.read file = .ok (dataText (.object members)).toUTF8)
    (hwf : Value.WellFormed (.object members)) (hpaired : Value.Paired (.object members))
    (hkeys : ∀ key ∈ writtenKeys (.object members), Unescaped key.name)
    (hnames : ∀ name ∈ splitOn '.' path,
      (∀ c ∈ name, isLineEnd c = false) ∧ name ≠ [':', ' '])
    (hvalue : lookUp (namesOf path) (.object members) = some value) :
    ∃ place last key more,
      findDefinition project template path session = .ok (some ⟨file, place, value⟩) last ∧
      key ∈ writtenKeys (.object members) ∧ (namesOf path).getLast? = some key.name ∧
      keyPath? (namesOf path) (.object members) = some (key.path, value) ∧
      (lines (dataText (.object members)).toList)[key.place.line]? =
        some (List.replicate key.place.character ' ' ++
          '"' :: (key.name.chars ++ '"' :: ':' :: more)) ∧
      (ReadsTo members path place ∧ ∀ other, ReadsTo members path other →
        place.line ≤ other.line) ∧
      (place = key.place ↔ ∀ other, ReadsTo members path other →
        key.place.line ≤ other.line) := by
  have hfair := fair_of_mem_rows hwf hkeys
  have hlines : lines (dataText (.object members)).toList =
      (rows 0 [] none [] (.object members)).flatMap rowLines := by
    rw [dataText_eq_spell hwf hpaired, lines_spell]
  obtain ⟨key, hkey, hway, hlast, hreads⟩ := exists_readsTo hvalue
  -- All the names are those of keys, so they are searched for as they stand.
  have hsearch := searchable_of_named hkeys hnames hreads
  have hmem : key.name.chars ∈ splitOn '.' path := by
    obtain ⟨part, hpart, hname⟩ := List.mem_map.1 (List.mem_of_getLast? hlast)
    rw [← hname, CodePoints.chars_ofList]
    exact hpart
  obtain ⟨more, hline⟩ := exists_line_of_mem_keysFrom hfair hkey (hsearch _ hmem)
  rw [← hlines] at hline
  have hfirst : ∀ other, ReadsTo members path other →
      ReadsTo members path (placeOfKeys (lines (dataText (.object members)).toList) ⟨0, 0⟩
        (splitOn '.' path)) ∧
      (placeOfKeys (lines (dataText (.object members)).toList) ⟨0, 0⟩
        (splitOn '.' path)).line ≤ other.line := by
    intro other hother
    rw [hlines]
    exact readsDown_placeOfKeys hfair (List.nil_append _).symm rfl hsearch hother
  obtain ⟨hplace, hle⟩ := hfirst key.place hreads
  obtain ⟨last, hrun⟩ := findDefinition_eq_ok hfile (textOf_of_read hread (cr_notMem_dataText hwf))
    (dataIn_of_read hwf hpaired hread) hvalue
  refine ⟨_, last, key, more, hrun, hkey, hlast, hway, hline,
    ⟨hplace, fun other hother => (hfirst other hother).2⟩, ?_⟩
  constructor
  · intro hsame other hother
    rw [← hsame]
    exact (hfirst other hother).2
  · intro hleast
    exact hplace.unique_in_line hreads (Nat.le_antisymm hle (hleast _ hplace))

/-- A member, and one with the same name inside another member above it. -/
def nestedMembers : Members :=
  [("a", .object [("b", .integer 1)]), ("b", .integer 2)]

/-- The sample project with these members in the data file. -/
def nestedSession : Session :=
  { files :=
      { current := ["ws"]
        nodes :=
          [(["ws"], .folder), (["ws", "templates"], .folder), (["ws", "data"], .folder),
            (["ws", "templates", "a.html"], .file "${b}".toUTF8),
            (["ws", "data", "a.json"], .file (dataText (.object nestedMembers)).toUTF8)] }
    out := ""
    err := "" }

theorem wellFormed_nestedMembers : Value.WellFormed (.object nestedMembers) := by
  refine .object (by decide) fun entry hm => ?_
  rcases List.mem_cons.1 hm with rfl | hm
  · refine .object (by decide) fun entry hm => ?_
    rw [List.mem_singleton.1 hm]
    exact .integer 1
  · rw [List.mem_singleton.1 hm]
    exact .integer 2

theorem writtenKeys_nestedMembers : writtenKeys (.object nestedMembers) =
    [⟨[.member "a"], "a", ⟨1, 2⟩⟩, ⟨[.member "a", .member "b"], "b", ⟨2, 4⟩⟩,
      ⟨[.member "b"], "b", ⟨4, 2⟩⟩] := by
  decide +kernel

/-- The key inside the other member is taken for that of the variable. -/
theorem findDefinition_place_nested : ∃ place last key,
    findDefinition sampleProject sampleTemplate "b".toList nestedSession =
      .ok (some ⟨sampleFile, place, .integer 2⟩) last ∧
    key ∈ writtenKeys (.object nestedMembers) ∧ key.path = [.member "b"] ∧
    key.place = ⟨4, 2⟩ ∧ place = ⟨2, 4⟩ := by
  have htext : textOf nestedSession.files sampleTemplate = .ok "${b}" :=
    textOf_of_read rfl (by decide +kernel)
  have hfile := fileFor_of_text htext
    (show fileForText sampleProject sampleTemplate "${b}".toList = .ok sampleFile by decide +kernel)
  have hplain : ∀ name ∈ splitOn '.' "b".toList,
      (∀ c ∈ name, isLineEnd c = false) ∧ name ≠ [':', ' '] := by
    rw [show splitOn '.' "b".toList = [['b']] by decide +kernel]
    intro name hname
    rw [List.mem_singleton.1 hname]
    refine ⟨fun c hc => ?_, by decide⟩
    rw [List.mem_singleton.1 hc]
    rfl
  obtain ⟨place, last, key, more, hrun, hkey, -, hway, -, ⟨hreads, hleast⟩, -⟩ :=
    @findDefinition_place _ _ _ _ _ "b".toList nestedMembers (.integer 2) hfile rfl
      wellFormed_nestedMembers (by decide) (by rw [writtenKeys_nestedMembers]; decide +kernel)
      hplain rfl
  obtain ⟨hpath, -⟩ := Prod.mk.inj (Option.some.inj hway)
  have hnames : namesOf "b".toList = ["b"] := by decide +kernel
  unfold ReadsTo at hreads hleast
  rw [hnames, writtenKeys_nestedMembers] at hreads hleast
  rw [writtenKeys_nestedMembers] at hkey
  have hplace : place = ⟨2, 4⟩ := by
    -- Of the two keys with the name, the one inside stands further up.
    have hle : place.line ≤ 2 := hleast ⟨2, 4⟩ ⟨_, .tail _ (.head _), rfl, Nat.zero_le _, rfl⟩
    obtain ⟨found, hfound, hnamed, -, rfl⟩ := hreads
    simp only [List.mem_cons, List.not_mem_nil, or_false] at hfound
    rcases hfound with rfl | rfl | rfl
    · exact absurd hnamed (by decide)
    · rfl
    · exact absurd hle (by decide)
  have hown : key.place = ⟨4, 2⟩ := by
    simp only [List.mem_cons, List.not_mem_nil, or_false] at hkey
    rcases hkey with rfl | rfl | rfl
    · exact absurd hpath (by decide)
    · exact absurd hpath (by decide)
    · rfl
  refine ⟨place, last, key, hrun, ?_, hpath.symm, hown, hplace⟩
  rw [writtenKeys_nestedMembers]
  exact hkey

end TemplateAnalysis.Store
