import TemplateAnalysis.Proofs.Expression.Parameters
import TemplateAnalysis.Proofs.Variable.Reading

/-! # Segments are names

    Every segment of a path is named by the text that is read:

    * **`named_of_mem_segments`**: the segments of a chain are identifiers among
      the tokens, or keys in quotes;
    * **`named_of_mem_fields`**: those of a form field are parts of a dotted path
      in quotes;
    * **`exists_wholeWord_of_named`**: either way, such a segment is what is left
      of a whole word of the text.
-/

namespace TemplateAnalysis.Variable

open Text Expression Reference

variable {text segment : List Char}

/-! ## Dotted paths -/

theorem dot_notMem_of_isIdentifier {name : List Char} (h : isIdentifier name = true) :
    '.' ∉ name :=
  not_mem_of_class (fun _ hc => isWordChar_of_mem_identifier h hc) (by decide)

theorem splitOn_of_isIdentifier {name : List Char} (h : isIdentifier name = true) :
    splitOn '.' name = [name] :=
  splitOn_of_notMem (dot_notMem_of_isIdentifier h)

/-- A name has no blanks to be trimmed. -/
theorem trim_of_isIdentifier {name : List Char} (h : isIdentifier name = true) :
    trim name = name := by
  have plain : ∀ c ∈ name, isBlank c = false := by
    intro c hc
    by_contra hblank
    have hword := isWordChar_of_mem_identifier h hc
    rw [isWordChar_eq_false_of_isBlank (by simpa using hblank)] at hword
    contradiction
  apply trim_eq_self
  · intro c hc
    exact plain c (List.mem_of_head? hc)
  · intro c hc
    exact plain c (List.mem_of_getLast? hc)

/-- The segments of the paths along names are those names. -/
theorem mem_of_mem_pathsFrom {path p : List Char} {segments : List (List Char)}
    (hs : ∀ segment ∈ segments, isIdentifier segment = true) (h : p ∈ pathsFrom path segments)
    (hsegment : segment ∈ splitOn '.' p) :
    segment ∈ segments ∨ (path ≠ [] ∧ segment ∈ splitOn '.' path) := by
  induction segments generalizing path with
  | nil => simp [pathsFrom] at h
  | cons name others ih =>
    have hname := hs name List.mem_cons_self
    -- Each step adds one name to the segments of the path so far.
    have longer : segment ∈ splitOn '.' (if path.isEmpty then name else path ++ '.' :: name) →
        segment = name ∨ (path ≠ [] ∧ segment ∈ splitOn '.' path) := by
      intro hlonger
      cases path with
      | nil =>
        rw [List.isEmpty_nil, if_pos rfl, splitOn_of_isIdentifier hname] at hlonger
        exact .inl (List.mem_singleton.1 hlonger)
      | cons c cs =>
        rw [List.isEmpty_cons, if_neg (by simp), splitOn_append_cons,
          splitOn_of_isIdentifier hname] at hlonger
        rcases List.mem_append.1 hlonger with hpath | hlast
        · exact .inr ⟨by simp, hpath⟩
        · exact .inl (List.mem_singleton.1 hlast)
    have first : segment = name ∨ (path ≠ [] ∧ segment ∈ splitOn '.' path) →
        segment ∈ name :: others ∨ (path ≠ [] ∧ segment ∈ splitOn '.' path) := by
      rintro (rfl | hpath)
      · exact .inl List.mem_cons_self
      · exact .inr hpath
    rw [pathsFrom, if_neg (by simpa using ne_nil_of_isIdentifier hname)] at h
    rcases List.mem_cons.1 h with rfl | h
    · exact first (longer hsegment)
    · rcases ih (fun s hm => hs s (List.mem_cons_of_mem name hm)) h with hmem | ⟨-, hpath⟩
      · exact .inl (List.mem_cons_of_mem name hmem)
      · exact first (longer hpath)

/-! ## What a text names -/

/-- The text names the segment: with an identifier, or in a literal that holds a
    dotted path. -/
inductive Named (text segment : List Char) : Prop
  | identifier (t : Token) (mem : t ∈ tokenize text) (kind : t.kind = .identifier)
      (eq : segment = t.text)
  | literal (t : Token) (mem : t ∈ tokenize text) (kind : t.kind = .string)
      (dotted : isPropertyPath (trim (unquote t.text)) = true)
      (part : segment ∈ splitOn '.' (trim (unquote t.text)))

theorem isIdentifier_of_named (h : Named text segment) : isIdentifier segment = true := by
  cases h with
  | identifier t mem kind eq => exact eq ▸ isIdentifier_of_mem_tokenize mem kind
  | literal t mem kind dotted part => exact List.all_eq_true.1 dotted segment part

/-- **A segment is what is left of a whole word**, from its first ASCII letter or
    underscore on. -/
theorem exists_wholeWord_of_named (h : Named text segment) :
    ∃ word, WholeWord word text ∧ nameOf word = segment := by
  cases h with
  | identifier t mem kind eq => exact eq ▸ exists_wholeWord_of_mem_tokenize mem kind
  | literal t mem kind dotted part =>
    -- The quotes, blanks and dots around it set the segment apart.
    have hname : isIdentifier segment = true := List.all_eq_true.1 dotted segment part
    obtain ⟨quote, inner, htext, hinner⟩ := exists_quoted_of_mem_tokenize mem kind
    rw [htext, unquote_quoted] at part
    have hpart := delimited_of_mem_joinWith (show isWordChar '.' = false by decide) part
    rw [joinWith_splitOn] at hpart
    refine ⟨segment, ⟨?_, ?_⟩, nameOf_of_isIdentifier hname⟩
    · intro c hc
      exact isWordChar_of_mem_identifier hname hc
    · exact hpart.trans ((delimited_trim inner).trans hinner)

/-! ## Chains -/

section Chains

variable {index stop : Nat}

theorem exists_mem_of_hasKind {kind : TokenKind}
    (h : (Body.ofText text).hasKind index stop kind = true) :
    ∃ t ∈ tokenize text, t.kind = kind ∧ (Body.ofText text).textAt index = t.text := by
  obtain ⟨-, h⟩ := Bool.and_eq_true _ _ ▸ h
  obtain ⟨t, ht, hk⟩ := (Option.any_eq_true _ _).1 h
  refine ⟨t, List.mem_of_getElem? ht, of_decide_eq_true hk, ?_⟩
  rw [Body.textAt, ht]
  rfl

theorem named_of_identifier (h : (Body.ofText text).hasKind index stop .identifier = true) :
    Named text ((Body.ofText text).textAt index) := by
  obtain ⟨t, ht, hk, htext⟩ := exists_mem_of_hasKind h
  exact .identifier t ht hk htext

/-- A key in quotes is a dotted path of one name. -/
theorem named_of_key (h : (Body.ofText text).hasKind index stop .string = true)
    (hkey : isIdentifier (unquote ((Body.ofText text).textAt index)) = true) :
    Named text (unquote ((Body.ofText text).textAt index)) := by
  obtain ⟨t, ht, hk, htext⟩ := exists_mem_of_hasKind h
  rw [htext] at hkey ⊢
  have htrim := trim_of_isIdentifier hkey
  refine .literal t ht hk ?_ ?_
  · rw [htrim, isPropertyPath, splitOn_of_isIdentifier hkey, List.all_cons, hkey]
    rfl
  · rw [htrim, splitOn_of_isIdentifier hkey]
    exact List.mem_singleton_self _

/-- The name that an access adds to a path. -/
def Access.name? : Access → Option (List Char)
  | .member name | .call name _ | .item name _ => some name
  | .selection _ | .arguments _ | .index _ => none

theorem named_of_accessAt? {next : Nat} {access : Access}
    (h : accessAt? (Body.ofText text) index stop = some (access, next)) {name : List Char}
    (hn : access.name? = some name) : Named text name := by
  have member := @named_of_identifier text (index + 1) stop
  have key := @named_of_key text (index + 1)
  simp only [accessAt?, bracketBody] at h
  grind [Access.name?]

theorem named_of_mem_accessesFrom {access : Access}
    (h : access ∈ (accessesFrom (Body.ofText text) stop index).1) {name : List Char}
    (hn : access.name? = some name) : Named text name := by
  fun_induction accessesFrom (Body.ofText text) stop index with
  | case1 index _ haccess => simp at h
  | case2 index _ first next haccess more ih =>
    rcases List.mem_cons.1 h with rfl | h
    · exact named_of_accessAt? haccess hn
    · exact ih h
  | case3 index _ => simp at h

/-- What is no summing call adds its name. -/
theorem segmentsOf_sublist (afterSelection : Bool) (accesses : List Access) :
    (segmentsOf afterSelection accesses).Sublist (accesses.filterMap Access.name?) := by
  fun_induction segmentsOf afterSelection accesses with
  | case1 => exact List.Sublist.slnil
  | case2 selected name rest ih => exact ih.cons_cons name
  | case3 selected name args rest _ ih => exact ih.cons name
  | case4 selected name args rest _ ih => exact ih.cons_cons name
  | case5 selected body rest ih => exact ih
  | case6 selected key body rest ih => exact ih.cons_cons key
  | case7 selected body rest ih => exact ih
  | case8 selected body rest ih => exact ih

theorem named_of_headAt {first : Token} (hfirst : first ∈ (Body.ofText text).tokens)
    {name : List Char} (h : (headAt (Body.ofText text) index stop first).segment = some name) :
    Named text name := by
  have identifier := @Named.identifier text first.text first hfirst
  have member := @named_of_identifier text (index + 2) stop
  simp only [headAt] at h
  grind

/-- **The segments of the path of a chain** are named by the text. -/
theorem named_of_mem_segments {first : Token} (hfirst : first ∈ (Body.ofText text).tokens)
    (h : segment ∈ (chainAt (Body.ofText text) index stop first).segments) :
    Named text segment := by
  simp only [chainAt] at h
  split at h
  · rename_i name hname
    rcases List.mem_cons.1 h with rfl | h
    · exact named_of_headAt hfirst hname
    · obtain ⟨access, ha, hn⟩ := List.mem_filterMap.1 ((segmentsOf_sublist _ _).mem h)
      exact named_of_mem_accessesFrom ha hn
  · simp at h

/-- **The segments of the form fields that a chain names** are named by the text,
    too. -/
theorem named_of_mem_fields {first : Token} {field : List (List Char)}
    (hf : field ∈ (chainAt (Body.ofText text) index stop first).fields) (h : segment ∈ field) :
    Named text segment := by
  simp only [chainAt] at hf
  split at hf
  · obtain ⟨access, -, ha⟩ := List.mem_filterMap.1 hf
    have dotted : ∀ args : Range,
        (Body.ofText text).hasKind args.start args.stop .string = true →
        isPropertyPath (trim (unquote ((Body.ofText text).textAt args.start))) = true →
        segment ∈ splitOn '.' (trim (unquote ((Body.ofText text).textAt args.start))) →
          Named text segment := by
      intro args hkind hpath hmem
      obtain ⟨t, ht, hk, htext⟩ := exists_mem_of_hasKind hkind
      rw [htext] at hpath hmem
      exact .literal t ht hk hpath hmem
    unfold fieldOf? fieldPath? at ha
    grind
  · simp at hf

end Chains

end TemplateAnalysis.Variable
