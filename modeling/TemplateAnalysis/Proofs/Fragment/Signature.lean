import TemplateAnalysis.Fragment.Signature
import TemplateAnalysis.Proofs.Expression.Splitting
import TemplateAnalysis.Proofs.Reference.Syntax

/-! # Signatures as they are written

    A signature is written as a name with parameters in parentheses, each a name with
    a default behind `=` when it has one. Whatever the defaults hold in quotes and
    brackets, the names are read back:

    * **`parameterName_print`**: a parameter is called what stands before its default;
    * **`ofText_print`**: a signature that is printed is read as the name and the names
      of its parameters.

    A default is any text that the reading of a parameter list passes over without
    a cut. It can hold what ends a name, a parameter or the whole list elsewhere.
-/

namespace TemplateAnalysis.Fragment

open Text Markup Expression Reference

/-! ## Parameters -/

/-- A character that can stand in the name of a parameter: no blank, and nothing that
    a parameter list is divided by. -/
def isParameterChar (c : Char) : Bool :=
  isBare c && !isBlank c && c != ',' && c != '='

/-- The name of a parameter. -/
structure ParameterName where
  text : List Char
  ne_nil : text ≠ []
  chars : ∀ c ∈ text, isParameterChar c = true

/-- The text of a default: no comma at the top level, and no quote and no bracket
    left open. -/
structure DefaultText where
  text : List Char
  unbroken : Unbroken {} text
  closed : Nesting.behind {} text = {}

/-- A parameter that is declared. -/
structure DeclaredParameter where
  name : ParameterName
  fallback : Option DefaultText

/-- The text of a default with the sign in front of it. -/
def fallbackText : Option DefaultText → List Char
  | none => []
  | some fallback => '=' :: fallback.text

/-- The text of a parameter. -/
def DeclaredParameter.print (parameter : DeclaredParameter) : List Char :=
  parameter.name.text ++ fallbackText parameter.fallback

theorem isParameterChar_iff {c : Char} : isParameterChar c = true ↔
    isBare c = true ∧ isBlank c = false ∧ c ≠ ',' ∧ c ≠ '=' := by
  simp [isParameterChar, and_assoc]

/-- Identifiers are names of parameters. -/
theorem isParameterChar_of_isWordChar {c : Char} (h : isWordChar c = true) :
    isParameterChar c = true := by
  rw [isParameterChar_iff]
  refine ⟨isBare_of_class h (by decide) (by decide) (by decide), ?_,
    ne_of_class h (by decide), ne_of_class h (by decide)⟩
  by_contra hblank
  rw [isWordChar_eq_false_of_isBlank (by simpa using hblank)] at h
  contradiction

/-- The name of a parameter that is an identifier. -/
def ParameterName.ofIdentifier (name : Expression.Name) : ParameterName where
  text := name.text
  ne_nil := by
    intro hnil
    have hname := name.identifier
    rw [hnil] at hname
    contradiction
  chars := fun _ hc =>
    isParameterChar_of_isWordChar (isWordChar_of_mem_identifier name.identifier hc)

theorem ParameterName.solid (name : ParameterName) : Solid name.text where
  ne_nil := name.ne_nil
  first := fun c hc => (isParameterChar_iff.1 (name.chars c (List.mem_of_head? hc))).2.1
  last := fun c hc => (isParameterChar_iff.1 (name.chars c (List.mem_of_getLast? hc))).2.1

theorem ParameterName.trim_text (name : ParameterName) : trim name.text = name.text :=
  trim_eq_self name.solid.first name.solid.last

/-- Nothing in the name ends it. -/
theorem ParameterName.takeWhile_append (name : ParameterName) (cs : List Char) :
    (name.text ++ cs).takeWhile (· != '=') = name.text ++ cs.takeWhile (· != '=') := by
  apply List.takeWhile_append_of_pos
  intro c hc
  rw [bne_iff_ne]
  exact (isParameterChar_iff.1 (name.chars c hc)).2.2.2

/-- Only the end of a default is trimmed. -/
theorem DeclaredParameter.trim_print (parameter : DeclaredParameter) :
    trim parameter.print = parameter.name.text ++ trimRight (fallbackText parameter.fallback) := by
  obtain ⟨name, fallback⟩ := parameter
  cases fallback with
  | none =>
    show trim (name.text ++ []) = name.text ++ []
    rw [List.append_nil]
    exact name.trim_text
  | some fallback =>
    obtain ⟨c, others, hname⟩ := List.exists_cons_of_ne_nil name.ne_nil
    have hfirst : isBlank c = false := name.solid.first c (by rw [hname]; rfl)
    have hleft : trimLeft (name.text ++ '=' :: fallback.text) =
        name.text ++ '=' :: fallback.text := by
      rw [hname]
      exact trimLeft_cons hfirst _
    have hsign : trimRight ('=' :: fallback.text) = '=' :: trimRight fallback.text :=
      trimRight_append_cons (by decide) [] fallback.text
    show trimRight (trimLeft (name.text ++ '=' :: fallback.text)) =
      name.text ++ trimRight ('=' :: fallback.text)
    rw [hleft, hsign, trimRight_append_cons (by decide)]

/-- **A parameter is called** what stands before its default. -/
theorem parameterName_print (parameter : DeclaredParameter) :
    parameterName (trim parameter.print) = parameter.name.text := by
  have hends : (trimRight (fallbackText parameter.fallback)).takeWhile (· != '=') = [] := by
    cases parameter.fallback with
    | none => rfl
    | some fallback =>
      show (trimRight ([] ++ '=' :: fallback.text)).takeWhile (· != '=') = []
      rw [trimRight_append_cons (by decide)]
      rfl
  rw [parameterName, DeclaredParameter.trim_print, ParameterName.takeWhile_append, hends,
    List.append_nil, ParameterName.trim_text]

/-- A parameter can be written in a list. -/
theorem DeclaredParameter.writable (parameter : DeclaredParameter) :
    Writable parameter.print where
  unbroken := by
    have hname : ∀ c ∈ parameter.name.text, isBare c = true ∧ c ≠ ',' := by
      intro c hc
      obtain ⟨hbare, -, hcomma, -⟩ := isParameterChar_iff.1 (parameter.name.chars c hc)
      exact ⟨hbare, hcomma⟩
    have hfallback : Unbroken {} (fallbackText parameter.fallback) := by
      cases parameter.fallback with
      | none => trivial
      | some fallback =>
        show Unbroken {} (['='] ++ fallback.text)
        apply fallback.unbroken.behind_bare
        intro c hc
        rw [List.mem_singleton.1 hc]
        decide
    exact hfallback.behind_bare hname
  ends := by
    have hname : ∀ c ∈ parameter.name.text, isBare c = true := by
      intro c hc
      exact (isParameterChar_iff.1 (parameter.name.chars c hc)).1
    rw [DeclaredParameter.print, Nesting.behind_append, behind_bare hname]
    cases parameter.fallback with
    | none => rfl
    | some fallback => exact fallback.closed
  trim_ne_nil := by
    rw [DeclaredParameter.trim_print]
    exact List.append_ne_nil_of_left_ne_nil parameter.name.ne_nil _

/-! ## Signatures -/

/-- A signature that is declared. -/
structure DeclaredSignature where
  name : FragmentName
  parameters : List DeclaredParameter

/-- The text of its parameters. -/
def DeclaredSignature.list (declared : DeclaredSignature) : List Char :=
  joinWith [',', ' '] (declared.parameters.map DeclaredParameter.print)

/-- The text of a signature. -/
def DeclaredSignature.print (declared : DeclaredSignature) : List Char :=
  declared.name.text ++ '(' :: (declared.list ++ [')'])

/-- What the parentheses at the two ends of a text hold, whatever parentheses there
    are between them. -/
theorem parenthesized?_append (cs : List Char) :
    parenthesized? ('(' :: (cs ++ [')'])) = some cs := by
  rw [parenthesized?, List.getLast?_concat, if_pos rfl, List.dropLast_concat]

/-- Neither end of a signature is blank. -/
theorem DeclaredSignature.trim_print (declared : DeclaredSignature) :
    trim declared.print = declared.print := by
  apply trim_eq_self
  · intro c hc
    rw [DeclaredSignature.print, List.head?_append_of_ne_nil _ declared.name.ne_nil] at hc
    have hname := declared.name.chars c (List.mem_of_head? hc)
    by_contra hblank
    rw [isNameChar_eq_false_of_isBlank (by simpa using hblank)] at hname
    contradiction
  · intro c hc
    rw [DeclaredSignature.print, ← List.cons_append, ← List.append_assoc,
      List.getLast?_concat, Option.some.injEq] at hc
    subst hc
    decide

/-- The list is split into the parameters that were written. -/
theorem DeclaredSignature.splitParameters_list (declared : DeclaredSignature) :
    splitParameters declared.list =
      declared.parameters.map fun parameter => trim parameter.print := by
  have hwritten : ∀ piece ∈ declared.parameters.map DeclaredParameter.print, Writable piece := by
    intro piece hpiece
    obtain ⟨parameter, -, rfl⟩ := List.mem_map.1 hpiece
    exact parameter.writable
  have hsplit := splitParameters_joinWith (List.forall_mem_nil (isBlank · = true)) hwritten
  rw [List.nil_append, List.map_map] at hsplit
  exact hsplit

/-- **Signatures are read back**: the name is the name that was written, and the
    parameters are called what they were called, whatever their defaults are. -/
theorem ofText_print (declared : DeclaredSignature) :
    Signature.ofText declared.print =
      ⟨declared.name.text, declared.parameters.map (·.name.text)⟩ := by
  have hname : declared.print.takeWhile isNameChar = declared.name.text := by
    rw [DeclaredSignature.print, List.takeWhile_append_of_pos declared.name.chars,
      List.takeWhile_cons_of_neg (by decide), List.append_nil]
  have hbehind : trimLeft (declared.print.drop declared.name.text.length) =
      '(' :: (declared.list ++ [')']) := by
    rw [DeclaredSignature.print, List.drop_left, trimLeft_cons (by decide)]
  have hcalled : (declared.parameters.map fun parameter => trim parameter.print).map parameterName =
      declared.parameters.map (·.name.text) := by
    rw [List.map_map]
    exact List.map_congr_left fun parameter _ => parameterName_print parameter
  unfold Signature.ofText
  rw [declared.trim_print]
  dsimp only
  rw [hname, hbehind, if_neg (by simpa using declared.name.ne_nil), if_neg (by simp),
    parenthesized?_append]
  dsimp only
  rw [declared.splitParameters_list, hcalled]

/-- A default with everything in it that ends something elsewhere. -/
example :
    let fallback : DefaultText := ⟨"a(b, [')']) + ', ='".toList, by decide, by decide⟩
    let body : DeclaredParameter := ⟨.ofIdentifier ⟨"body".toList, by decide⟩, some fallback⟩
    let title : DeclaredParameter := ⟨.ofIdentifier ⟨"title".toList, by decide⟩, none⟩
    let card : DeclaredSignature :=
      ⟨⟨"card".toList, by decide, List.all_eq_true.1 (by decide)⟩, [body, title]⟩
    card.print = "card(body=a(b, [')']) + ', =', title)".toList ∧
      Signature.ofText card.print = ⟨"card".toList, ["body".toList, "title".toList]⟩ := by
  decide

end TemplateAnalysis.Fragment
