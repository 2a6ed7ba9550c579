import TemplateAnalysis.Text.Search
import TemplateAnalysis.Text.Blank

/-! # Quotes and brackets

    Expression text is read one character at a time under two small machines:

    * **`Quoting`** knows whether the reading stands in a string literal. A
      backslash inside a literal covers the character behind it, whatever that
      is, so a covered quote does not end the literal.
    * **`Nesting`** adds how many brackets are open, of all kinds together. A
      closing bracket with nothing open is ignored.

    The searches below are readings that stop at the first position of
    interest: the partner of a bracket, a token outside quotes and brackets,
    the `=` of an assignment, the commas of a parameter list.
-/

namespace TemplateAnalysis.Expression

open Text

/-! ## Brackets and quotes -/

/-- A character that opens and closes a string literal. -/
def isQuote (c : Char) : Bool :=
  c == '\'' || c == '"'

/-- The bracket that closes an opening bracket. -/
def closerOf? (c : Char) : Option Char :=
  if c = '(' then some ')' else if c = '[' then some ']' else if c = '{' then some '}' else none

/-- The bracket that a closing bracket closes. -/
def openerOf? (c : Char) : Option Char :=
  if c = ')' then some '(' else if c = ']' then some '[' else if c = '}' then some '{' else none

/-- An opening bracket of any kind. -/
def isOpener (c : Char) : Bool :=
  (closerOf? c).isSome

/-- A closing bracket of any kind. -/
def isCloser (c : Char) : Bool :=
  (openerOf? c).isSome

/-! ## Where a reading stands -/

/-- Where a reading stands with respect to string literals. -/
inductive Quoting
  /-- Between literals. -/
  | outside
  /-- In a literal opened by `quote`. -/
  | inside (quote : Char)
  /-- In a literal opened by `quote`, right behind a backslash. -/
  | covered (quote : Char)
  deriving DecidableEq, Repr

/-- Read one character. -/
def Quoting.step : Quoting → Char → Quoting
  | .outside, c => if isQuote c then .inside c else .outside
  | .inside q, c => if c = '\\' then .covered q else if c = q then .outside else .inside q
  | .covered q, _ => .inside q

/-- Where a reading stands with respect to literals and brackets. -/
structure Nesting where
  quoting : Quoting := .outside
  depth : Nat := 0
  deriving DecidableEq, Repr

/-- Read one character. Brackets count only outside literals. -/
def Nesting.step (s : Nesting) (c : Char) : Nesting :=
  { quoting := s.quoting.step c
    depth :=
      if s.quoting = .outside then
        if isOpener c then s.depth + 1 else if isCloser c then s.depth - 1 else s.depth
      else s.depth }

/-- Outside all literals and brackets. -/
def Nesting.isTop (s : Nesting) : Bool :=
  s.quoting = .outside && s.depth == 0

/-! ## The partner of a bracket -/

/-- How many characters are read before the closing bracket that brings the
    open brackets of its own kind, `depth` so far, back to none. -/
def closingOffset (opener closer : Char) : Quoting → Nat → List Char → Option Nat
  | _, _, [] => none
  | .outside, depth, c :: rest =>
    if c = opener then
      (closingOffset opener closer .outside (depth + 1) rest).map (· + 1)
    else if c = closer then
      -- The bracket that is looked for brings the count back to none.
      if depth ≤ 1 then some 0
      else (closingOffset opener closer .outside (depth - 1) rest).map (· + 1)
    else (closingOffset opener closer (Quoting.outside.step c) depth rest).map (· + 1)
  | q, depth, c :: rest => (closingOffset opener closer (q.step c) depth rest).map (· + 1)

/-- The position of the bracket that closes the one at `position`. Only
    brackets of the same kind are counted, and those in literals are not. There
    is none when no opening bracket stands at `position` or when it is never
    closed, the normal case for text that is still being typed. -/
def findClosing (text : List Char) (position : Nat) : Option Nat :=
  match text.drop position with
  | [] => none
  | opener :: rest =>
    match closerOf? opener with
    | none => none
    | some closer =>
      (closingOffset opener closer .outside 0 (opener :: rest)).map (· + position)

/-- The same for an index that may lie in front of the text, where nothing stands. -/
def findClosingAt (text : List Char) : Int → Option Nat
  | .ofNat position => findClosing text position
  | .negSucc _ => none

/-- Every character read before a closing bracket is one of the text's. -/
theorem closingOffset_lt {opener closer : Char} {q : Quoting} {depth k : Nat} {cs : List Char}
    (h : closingOffset opener closer q depth cs = some k) : k < cs.length := by
  induction cs generalizing q depth k with
  | nil => cases q <;> simp [closingOffset] at h
  | cons c rest ih =>
    have next : ∀ {q' : Quoting} {d : Nat},
        (closingOffset opener closer q' d rest).map (· + 1) = some k →
          k < (c :: rest).length := by
      intro q' d h'
      obtain ⟨j, hj, rfl⟩ := Option.map_eq_some_iff.1 h'
      have := ih hj
      simp only [List.length_cons]
      omega
    cases q with
    | outside =>
      simp only [closingOffset] at h
      split at h
      · exact next h
      · split at h
        · split at h
          · simp only [Option.some.injEq] at h
            subst h
            simp
          · exact next h
        · exact next h
    | inside quote => exact next h
    | covered quote => exact next h

/-! ## Tokens outside quotes and brackets -/

/-- How many characters are read before `token` stands at the top level, within
    a window of the next `window` characters. The token has to end inside the
    window as well. -/
def topLevelOffset (token : List Char) : Nesting → Nat → List Char → Option Nat
  | _, 0, _ => none
  | _, _ + 1, [] => none
  | s, window + 1, c :: rest =>
    if s.isTop && token.isPrefixOf (c :: rest) && token.length ≤ window + 1 then some 0
    else (topLevelOffset token (s.step c) window rest).map (· + 1)

/-- Where `token` first stands outside quotes and brackets in the window from
    `start` to `stop`. The reading begins at `start`. -/
def findTopLevelIn (token text : List Char) (start stop : Nat) : Option Nat :=
  (topLevelOffset token {} (stop - start) (text.drop start)).map (· + start)

/-- Where `token` first stands outside quotes and brackets. -/
def findTopLevel (token text : List Char) : Option Nat :=
  findTopLevelIn token text 0 text.length

theorem topLevelOffset_lt {token : List Char} {s : Nesting} {window k : Nat} {cs : List Char}
    (h : topLevelOffset token s window cs = some k) : k < window ∧ k < cs.length := by
  induction cs generalizing s window k with
  | nil => cases window <;> simp [topLevelOffset] at h
  | cons c rest ih =>
    cases window with
    | zero => simp [topLevelOffset] at h
    | succ window =>
      simp only [topLevelOffset] at h
      split at h
      · simp only [Option.some.injEq] at h
        subst h
        simp
      · obtain ⟨j, hj, rfl⟩ := Option.map_eq_some_iff.1 h
        have := ih hj
        simp only [List.length_cons]
        omega

/-- A position found in a window lies in the window. -/
theorem findTopLevelIn_bounds {token text : List Char} {start stop i : Nat}
    (h : findTopLevelIn token text start stop = some i) : start ≤ i ∧ i < stop := by
  obtain ⟨k, hk, rfl⟩ := Option.map_eq_some_iff.1 h
  have := topLevelOffset_lt hk
  omega

/-! ## Assignments -/

/-- The first `=` at or behind `start` that is the sign of an assignment. Each
    sign that belongs to a comparison starts the reading anew two characters
    further on. -/
def findAssignmentFrom (text : List Char) (start : Nat) : Option Nat :=
  match h : findTopLevelIn ['='] text start text.length with
  | none => none
  | some i =>
    let before := if i = 0 then none else text[i - 1]?
    if text[i + 1]? ≠ some '=' ∧ before ∉ ['=', '!', '<', '>'].map some then some i
    -- A comparison: both its characters are stepped over, and whatever was open
    -- at the first of them is forgotten.
    else findAssignmentFrom text (i + 2)
termination_by text.length - start
decreasing_by
  have := findTopLevelIn_bounds h
  omega

/-- The position of the `=` of a `name=value` pair. The signs `==`, `!=`, `<=`
    and `>=` are comparisons. -/
def findAssignment (text : List Char) : Option Nat :=
  findAssignmentFrom text 0

/-- What a parameter passes: the text behind its assignment sign, and all of it
    when it is not an assignment. -/
def assignedValue (parameter : List Char) : List Char :=
  match findAssignment parameter with
  | some i => parameter.drop (i + 1)
  | none => parameter

theorem length_assignedValue_le (parameter : List Char) :
    (assignedValue parameter).length ≤ parameter.length := by
  unfold assignedValue
  split <;> simp

/-! ## Parameter lists -/

/-- The stretches between the commas outside quotes and brackets. -/
def cutAtCommas : Nesting → List Char → List (List Char)
  | _, [] => [[]]
  | s, c :: rest =>
    if s.isTop && c == ',' then [] :: cutAtCommas s rest
    else match cutAtCommas (s.step c) rest with
      | [] => [[c]]
      | piece :: pieces => (c :: piece) :: pieces

/-- The parameters of a list: what stands between its commas, without blanks
    around it, and without the empty ones. -/
def splitParameters (text : List Char) : List (List Char) :=
  ((cutAtCommas {} text).map trim).filter fun parameter => !parameter.isEmpty

theorem length_le_of_mem_cutAtCommas {s : Nesting} {text piece : List Char}
    (h : piece ∈ cutAtCommas s text) : piece.length ≤ text.length := by
  induction text generalizing s piece with
  | nil =>
    simp only [cutAtCommas, List.mem_singleton] at h
    simp [h]
  | cons c rest ih =>
    simp only [cutAtCommas] at h
    split at h
    · rcases List.mem_cons.1 h with rfl | h
      · simp
      · exact Nat.le_succ_of_le (ih h)
    · split at h
      · simp only [List.mem_singleton] at h
        simp [h]
      · rename_i p ps hp
        rcases List.mem_cons.1 h with rfl | h
        · exact Nat.succ_le_succ (ih (hp ▸ List.mem_cons_self))
        · exact Nat.le_succ_of_le (ih (hp ▸ List.mem_cons_of_mem _ h))

theorem length_le_of_mem_splitParameters {text parameter : List Char}
    (h : parameter ∈ splitParameters text) : parameter.length ≤ text.length := by
  obtain ⟨piece, hp, rfl⟩ := List.mem_map.1 (List.mem_filter.1 h).1
  exact Nat.le_trans (length_trim_le piece) (length_le_of_mem_cutAtCommas hp)

end TemplateAnalysis.Expression
