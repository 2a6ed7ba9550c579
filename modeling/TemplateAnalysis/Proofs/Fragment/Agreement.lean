import Mathlib.Data.List.TakeWhile
import TemplateAnalysis.Proofs.Expression.Parameters
import TemplateAnalysis.Proofs.Fragment.Declaring
import TemplateAnalysis.Proofs.Markup.Tag
import TemplateAnalysis.Proofs.Text.Lines

/-! # The two ways to find a declaration

    The declarations of a text are read as markup, the declaration of a name is
    searched for as text, line by line. The search knows nothing of tags: it also finds
    what is written in a comment (**`not_forall_exists_findDeclaration`**), and it
    misses what is spelled in another way than a plain attribute. For attributes that
    are written plainly the two agree:

    * **`exists_eq_of_signature`**: how the value of a declaration is written;
    * **`exists_line_declares`**: a plain attribute declares its name on its line;
    * **`exists_findDeclaration`**: so the search finds it, or something above it that
      is written in the same way.
-/

namespace TemplateAnalysis.Fragment

open Text Markup Expression

/-! ## The value of a declaration -/

section Signatures

variable {value text word rest : List Char}

theorem exists_of_parenthesized? {parameters : List Char}
    (h : parenthesized? text = some parameters) : ∃ more, text = '(' :: more := by
  unfold parenthesized? at h
  split at h
  · exact ⟨_, rfl⟩
  · contradiction

/-- The name of a signature is the word that the value begins with, up to its
    parameters or its end; or it is the whole value, which has other characters then. -/
theorem ofText_name_cases (hword : trim value = word ++ rest)
    (htake : (trim value).takeWhile isNameChar = word) :
    ((Signature.ofText value).name = word ∧
        (trimLeft rest = [] ∨ ∃ more, trimLeft rest = '(' :: more)) ∨
      ((Signature.ofText value).name = trim value ∧ (word = [] ∨ trimLeft rest ≠ [])) := by
  have hdrop : (trim value).drop word.length = rest := by rw [hword, List.drop_left]
  unfold Signature.ofText
  dsimp only
  rw [htake, hdrop]
  split
  · rename_i hempty
    exact .inr ⟨rfl, .inl (List.isEmpty_iff.1 hempty)⟩
  · split
    · rename_i hblank
      exact .inl ⟨rfl, .inl (List.isEmpty_iff.1 hblank)⟩
    · rename_i hbehind
      split
      · rename_i parameters hparameters
        exact .inl ⟨rfl, .inr (exists_of_parenthesized? hparameters)⟩
      · exact .inr ⟨rfl, .inr (mt List.isEmpty_iff.2 hbehind)⟩

/-- **How a signature is written** whose name is made of characters of names: the name
    between blanks, and parameters or nothing behind it. -/
theorem exists_eq_of_signature (hname : ∀ c ∈ (Signature.ofText value).name, isNameChar c = true) :
    ∃ before behind rest, (∀ c ∈ before, isBlank c = true) ∧ (∀ c ∈ behind, isBlank c = true) ∧
      (rest = [] ∨ ∃ more, rest = '(' :: more) ∧
      value = before ++ ((Signature.ofText value).name ++ (behind ++ rest)) := by
  obtain ⟨front, back, hfront, hback, hvalue⟩ := exists_eq_append_trim value
  obtain ⟨rest, hword⟩ := List.takeWhile_prefix isNameChar (l := trim value)
  obtain ⟨blanks, hblanks, hrest⟩ := exists_eq_append_trimLeft rest
  rcases ofText_name_cases hword.symm rfl with ⟨heq, hends⟩ | ⟨heq, hother⟩
  · rw [heq]
    rw [← hword] at hvalue
    rcases hends with hnil | ⟨more, hmore⟩
    · rw [hnil, List.append_nil] at hrest
      refine ⟨front, blanks ++ back, [], hfront, ?_, .inl rfl, ?_⟩
      · exact List.forall_mem_append.2 ⟨hblanks, hback⟩
      · rw [List.append_nil, ← hrest]
        exact hvalue.trans (by rw [List.append_assoc])
    · rw [hmore] at hrest
      refine ⟨front, blanks, '(' :: (more ++ back), hfront, hblanks, .inr ⟨_, rfl⟩, ?_⟩
      rw [hrest] at hvalue
      exact hvalue.trans (by simp only [List.append_assoc, List.cons_append])
  · -- A whole value of such characters would be a word with nothing behind it.
    rw [heq] at hname ⊢
    have hwhole := List.takeWhile_eq_self_iff.2 hname
    rw [hwhole] at hword hother
    obtain rfl : rest = [] := List.append_cancel_left (hword.trans (List.append_nil _).symm)
    rcases hother with hnil | hbehind
    · refine ⟨front, back, [], hfront, hback, .inl rfl, ?_⟩
      rw [List.append_nil]
      exact hvalue
    · exact absurd rfl hbehind

end Signatures

/-! ## Plain attributes -/

/-- The part of a value that can name a fragment: up to its parameters. -/
def namePart (value : List Char) : List Char :=
  value.takeWhile (· != '(')

/-- An attribute that declares a fragment is written plainly: in lower case, without
    the prefix for data, with one sign and a quoted value; and up to the parameters it
    holds no character reference and stands on one line. -/
def PlainlyWritten (spelled : List Char) : Prop :=
  ∃ attr ∈ Reference.declarationNames, ∃ (sign : Sign) (quote : Char) (value rest : List Char),
    isQuote quote = true ∧ quote ∉ value ∧ '&' ∉ namePart value ∧
      (∀ c ∈ sign.print ++ namePart value, isLineEnd c = false) ∧
      spelled = attr ++ (sign.print ++ quote :: (value ++ quote :: rest))

/-- The attribute that is read declares the fragment. -/
def declaresSignature (signature : Signature) (attr : TagAttribute) : Bool :=
  (declaringAttributes.map String.toList).contains attr.name && !attr.value.isEmpty &&
    Signature.ofText attr.value == signature

/-- The texts from which the attributes are read that make a declaration. -/
def declaringTexts (text : List Char) (declaration : Declaration) : List (List Char) :=
  (attributeTexts (textFrom declaration.place ⟨0, 0⟩ text)).filter fun spelled =>
    declaresSignature declaration.signature (readAttribute spelled)

section Plain

variable {text spelled value cs rest : List Char} {signature : Signature}

/-- What is read from a plain attribute. -/
theorem value_readAttribute {attr value rest : List Char}
    (hattr : attr ∈ Reference.declarationNames) (sign : Sign) {quote : Char}
    (hquote : isQuote quote = true) (hvalue : quote ∉ value) :
    (readAttribute (attr ++ (sign.print ++ quote :: (value ++ quote :: rest)))).value =
      decodeReferences value := by
  have chars : ∀ attr ∈ Reference.declarationNames,
      attr ≠ [] ∧ attr.all isAttributeNameChar = true := by
    decide
  obtain ⟨hne, hall⟩ := chars attr hattr
  rw [readAttribute_quoted hne (List.all_eq_true.1 hall) sign (isQuote_cases hquote) hvalue]

/-- What ends the name part: the end of the value, or the parameters. -/
theorem namePart_append (hrest : rest = [] ∨ ∃ more, rest = '(' :: more) (h : '(' ∉ cs) :
    namePart (cs ++ rest) = cs := by
  have open_ne : ∀ c ∈ cs, (c != '(') = true := by
    intro c hc
    rw [bne_iff_ne]
    rintro rfl
    exact h hc
  rw [namePart, List.takeWhile_append_of_pos open_ne]
  rcases hrest with rfl | ⟨more, rfl⟩ <;> exact List.append_nil _

theorem exists_eq_namePart_append (value : List Char) :
    ∃ rest, (rest = [] ∨ ∃ more, rest = '(' :: more) ∧ value = namePart value ++ rest := by
  refine ⟨value.dropWhile (· != '('), ?_, List.takeWhile_append_dropWhile.symm⟩
  cases hrest : value.dropWhile (· != '(') with
  | nil => exact .inl rfl
  | cons c more =>
    right
    have hc := List.head?_dropWhile_not (· != '(') value
    rw [hrest] at hc
    refine ⟨more, ?_⟩
    rw [show c = '(' by simpa using hc]

/-- References in the parameters do not change the name part. -/
theorem namePart_decodeReferences (hrefs : '&' ∉ namePart value) :
    namePart (decodeReferences value) = namePart value := by
  obtain ⟨rest, hrest, hvalue⟩ := exists_eq_namePart_append value
  have hopen : '(' ∉ namePart value :=
    not_mem_of_class (fun _ hc => List.mem_takeWhile_imp hc) (by decide)
  conv_lhs => rw [hvalue, decodeReferences_append hrefs]
  refine namePart_append ?_ hopen
  rcases hrest with rfl | ⟨more, rfl⟩
  · exact .inl decodeReferences.eq_1
  · exact .inr ⟨_, decodeReferences_cons (by decide) more⟩

/-- The value of a plain attribute, up to what ends the name of the fragment. -/
theorem exists_namePart (hrefs : '&' ∉ namePart value)
    (hname : ∀ c ∈ (Signature.ofText (decodeReferences value)).name, isNameChar c = true) :
    ∃ before behind, (∀ c ∈ before, isBlank c = true) ∧ (∀ c ∈ behind, isBlank c = true) ∧
      namePart value =
        before ++ ((Signature.ofText (decodeReferences value)).name ++ behind) := by
  obtain ⟨before, behind, rest, hbefore, hbehind, hrest, hvalue⟩ := exists_eq_of_signature hname
  refine ⟨before, behind, hbefore, hbehind, ?_⟩
  have hopen : '(' ∉ before ++ ((Signature.ofText (decodeReferences value)).name ++ behind) := by
    simp only [List.mem_append, not_or]
    exact ⟨not_mem_of_class hbefore (by decide), not_mem_of_class hname (by decide),
      not_mem_of_class hbehind (by decide)⟩
  rw [← namePart_decodeReferences hrefs]
  conv_lhs => rw [hvalue, ← List.append_assoc _ behind, ← List.append_assoc before]
  exact namePart_append hrest hopen

theorem isLineEnd_eq_false_of_isQuote {c : Char} (h : isQuote c = true) : isLineEnd c = false := by
  rcases isQuote_cases h with rfl | rfl <;> decide

/-- The name of a plain attribute ends at the parameters, or at the quote that closes
    the value. -/
theorem exists_endsExactly (hrest : rest = [] ∨ ∃ more, rest = '(' :: more) (quote : Char)
    (others : List Char) :
    ∃ stop more, EndsExactly quote stop ∧ rest ++ quote :: others = stop :: more := by
  rcases hrest with rfl | ⟨more, rfl⟩
  · exact ⟨quote, others, .inr rfl, rfl⟩
  · exact ⟨'(', _, .inl rfl, rfl⟩

/-- A plain attribute stands on one line up to the end of its name. -/
theorem onLine_declaration {attr part : List Char} (hattr : attr ∈ Reference.declarationNames)
    {sign : Sign} {quote stop : Char} (hquote : isQuote quote = true)
    (hstop : EndsExactly quote stop) (hline : ∀ c ∈ sign.print ++ part, isLineEnd c = false) :
    ∀ c ∈ attr ++ (sign.print ++ quote :: (part ++ [stop])), isLineEnd c = false := by
  have names : ∀ attr ∈ Reference.declarationNames, attr.any isLineEnd = false := by decide
  obtain ⟨hsign, hpart⟩ := List.forall_mem_append.1 hline
  have hends : isLineEnd stop = false := by
    rcases hstop with rfl | rfl
    · decide
    · exact isLineEnd_eq_false_of_isQuote hquote
  refine List.forall_mem_append.2 ⟨fun c hc => ?_, List.forall_mem_append.2 ⟨hsign, ?_⟩⟩
  · exact eq_false_of_ne_true (List.any_eq_false.1 (names attr hattr) c hc)
  · exact List.forall_mem_cons.2 ⟨isLineEnd_eq_false_of_isQuote hquote,
      List.forall_mem_append.2 ⟨hpart, List.forall_mem_singleton.2 hends⟩⟩

/-- **A plain attribute declares its name** on the line that it stands on. -/
theorem exists_line_declares (before : List Char) (hplain : PlainlyWritten spelled)
    (hname : ∀ c ∈ (Signature.ofText (readAttribute spelled).value).name, isNameChar c = true) :
    ∃ line, (lines (before ++ spelled))[lineBreaks before]? = some line ∧
      ∃ column, Declares EndsExactly (Signature.ofText (readAttribute spelled).value).name
        (line.drop column) := by
  obtain ⟨attr, hattr, sign, quote, value, others, hquote, hvalue, hrefs, hline, rfl⟩ := hplain
  rw [value_readAttribute hattr sign hquote hvalue] at hname ⊢
  obtain ⟨front, back, hfront, hback, hpart⟩ := exists_namePart hrefs hname
  obtain ⟨rest, hrest, hsplit⟩ := exists_eq_namePart_append value
  obtain ⟨stop, more, hstop, hends⟩ := exists_endsExactly hrest quote others
  generalize (Signature.ofText (decodeReferences value)).name = name at hname hpart ⊢
  have hspelled : attr ++ (sign.print ++ quote :: (value ++ quote :: others)) =
      attr ++ (sign.print ++ quote :: (namePart value ++ [stop])) ++ more := by
    conv_lhs => rw [hsplit, List.append_assoc _ rest, hends]
    simp
  obtain ⟨line, hhere, column, further, hdrop⟩ :=
    exists_line before (by simp) (onLine_declaration hattr hquote hstop hline) more
  rw [hspelled]
  refine ⟨line, hhere, column, attr, hattr, sign, quote, stop, front, back, further, hquote,
    hfront, hback, hstop, ?_⟩
  rw [hdrop, hpart]
  simp

end Plain

/-! ## Declarations and what is found -/

section Agreement

variable {text : List Char} {listed : List Declaration} {declaration : Declaration}

/-- What a tag declares is read from one of its attributes. -/
theorem exists_attribute_of_mem_tagDeclarations {tag : StartTag}
    (h : declaration ∈ tagDeclarations tag) :
    declaration.place = tag.place ∧
      ∃ attr ∈ tag.attributes, declaresSignature declaration.signature attr = true := by
  obtain ⟨name, hname, hmade⟩ := List.mem_filterMap.1 h
  split at hmade
  · contradiction
  · contradiction
  · rename_i value hne hvalue
    obtain rfl := Option.some.inj hmade
    obtain ⟨attr, hattr, rfl⟩ := Option.map_eq_some_iff.1 hvalue
    refine ⟨rfl, attr, List.mem_reverse.1 (List.mem_of_find?_eq_some hattr), ?_⟩
    have hnamed : attr.name = name.toList := by simpa using List.find?_some hattr
    have hfilled : attr.value.isEmpty = false :=
      Bool.eq_false_iff.2 fun hempty => hne (List.isEmpty_iff.1 hempty)
    have hlisted : (declaringAttributes.map String.toList).contains attr.name = true :=
      List.contains_iff_mem.2 (hnamed ▸ List.mem_map_of_mem hname)
    rw [declaresSignature, hlisted, hfilled, beq_self_eq_true]
    rfl

/-- **Every declaration is read from a text** that stands behind its place. -/
theorem exists_mem_declaringTexts (h : declarations text = .ok listed) (hd : declaration ∈ listed) :
    ∃ opening front, ∃ spelled ∈ declaringTexts text declaration,
      text = opening ++ (front ++ spelled) ∧
        declaration.place = Place.advance ⟨0, 0⟩ opening := by
  unfold declarations at h
  cases htags : startTags text with
  | error e =>
    rw [htags] at h
    contradiction
  | ok tags =>
    rw [htags] at h
    obtain rfl := Except.ok.inj h
    obtain ⟨tag, htag, hd⟩ := List.mem_flatMap.1 hd
    obtain ⟨hplace, attr, hattr, hdeclares⟩ := exists_attribute_of_mem_tagDeclarations hd
    obtain ⟨opening, htext, hopening, hattributes⟩ := attributes_of_mem_startTags htags htag
    rw [hattributes] at hattr
    obtain ⟨spelled, hspelled, rfl⟩ := List.mem_map.1 hattr
    obtain ⟨front, hfront⟩ := suffix_of_mem_attributeTexts hspelled
    refine ⟨opening, front, spelled, List.mem_filter.2 ⟨hplace ▸ hspelled, hdeclares⟩, ?_,
      hplace.trans hopening⟩
    rw [hfront]
    exact htext

theorem signature_of_mem_declaringTexts {spelled : List Char}
    (h : spelled ∈ declaringTexts text declaration) :
    Signature.ofText (readAttribute spelled).value = declaration.signature := by
  obtain ⟨-, hdeclares⟩ := List.mem_filter.1 h
  exact beq_iff_eq.1 (Bool.and_eq_true _ _ ▸ hdeclares).2

/-- **The search finds what is declared plainly**, on the line of the attribute or an
    earlier one; and where no stray quote is in the way, at the first place that is
    written like a declaration of the name. The attribute stands on the line of its tag,
    if no line ends between them and all lines above end in newlines. -/
theorem exists_findDeclaration (h : declarations text = .ok listed) (hd : declaration ∈ listed)
    (hname : ∀ c ∈ declaration.signature.name, isNameChar c = true)
    (hplain : ∀ spelled ∈ declaringTexts text declaration, PlainlyWritten spelled) :
    ∃ place, findDeclaration text declaration.signature.name = some place ∧
      ((∀ line ∈ lines text, ∀ column,
          Declares EndsAtQuote declaration.signature.name (line.drop column) →
            Declares EndsExactly declaration.signature.name (line.drop column)) →
        FirstPlace (Declares EndsExactly declaration.signature.name) (lines text) place) ∧
      ∃ opening front, ∃ spelled ∈ declaringTexts text declaration,
        text = opening ++ (front ++ spelled) ∧
        declaration.place = Place.advance ⟨0, 0⟩ opening ∧
        place.line ≤ lineBreaks (opening ++ front) ∧
        ((∀ c ∈ opening, isLineEnd c = true → c = '\n') → (∀ c ∈ front, isLineEnd c = false) →
          lineBreaks (opening ++ front) = declaration.place.line) := by
  obtain ⟨opening, front, spelled, hspelled, htext, hplace⟩ := exists_mem_declaringTexts h hd
  have hsignature := signature_of_mem_declaringTexts hspelled
  have whole : opening ++ front ++ spelled = text := by rw [htext, List.append_assoc]
  obtain ⟨line, hline, column, hdeclares⟩ :=
    exists_line_declares (opening ++ front) (hplain spelled hspelled) (hsignature ▸ hname)
  rw [hsignature] at hdeclares
  rw [whole] at hline
  cases hfound : findDeclaration text declaration.signature.name with
  | none =>
    have missing := findDeclaration_eq_none hfound line (List.mem_of_getElem? hline) column
    exact absurd hdeclares.atQuote missing
  | some place =>
    have first := findDeclaration_eq_some hfound
    refine ⟨place, rfl, first.exactly, opening, front, spelled, hspelled, htext, hplace, ?_, ?_⟩
    · refine Nat.le_of_not_lt fun habove => ?_
      exact first.not_above _ habove line hline column hdeclares.atQuote
    · intro hopening hfront
      have newlines : ∀ c ∈ opening ++ front, isLineEnd c = true → c = '\n' := by
        refine List.forall_mem_append.2 ⟨hopening, fun c hc hend => ?_⟩
        rw [hfront c hc] at hend
        contradiction
      have none : front.count '\n' = 0 :=
        List.count_eq_zero.2 fun hmem => absurd (hfront _ hmem) (by decide)
      rw [lineBreaks_eq_count newlines, List.count_append, none, hplace, Place.line_advance]
      exact (Nat.zero_add _).symm

end Agreement

/-- A page with one declaration, which has a parameter. -/
def cardPage : List Char :=
  "<p>\n<div th:fragment=\"card(title)\"></div>\n".toList

/-- What the page declares. -/
def cardDeclaration : Declaration :=
  ⟨⟨"card".toList, ["title".toList]⟩, ⟨1, 0⟩⟩

theorem eq_ok_of_toOption {ε α : Type} {result : Except ε α} {a : α}
    (h : result.toOption = some a) : result = .ok a := by
  cases result with
  | error e => contradiction
  | ok b => exact congrArg _ (Option.some.inj h)

/-- The declaration of the page is found on its line or above. -/
theorem exists_findDeclaration_cardPage :
    declarations cardPage = .ok [cardDeclaration] ∧
      ∃ place, findDeclaration cardPage "card".toList = some place ∧
        ∃ opening front, ∃ spelled ∈ declaringTexts cardPage cardDeclaration,
          cardPage = opening ++ (front ++ spelled) ∧
            place.line ≤ lineBreaks (opening ++ front) := by
  have hread : declarations cardPage = .ok [cardDeclaration] :=
    eq_ok_of_toOption (by decide +kernel)
  have htexts : declaringTexts cardPage cardDeclaration =
      ["th:fragment=\"card(title)\"></div>\n".toList] := by
    decide +kernel
  have hplain : ∀ spelled ∈ declaringTexts cardPage cardDeclaration, PlainlyWritten spelled := by
    have oneLine : ("=card".toList).any isLineEnd = false := by decide
    rw [htexts]
    exact List.forall_mem_singleton.2 ⟨"th:fragment".toList, by decide,
      ⟨[], [], List.forall_mem_nil _, List.forall_mem_nil _⟩, '"', "card(title)".toList,
      "></div>\n".toList, by decide, by decide, by decide,
      fun c hc => eq_false_of_ne_true (List.any_eq_false.1 oneLine c hc), by decide⟩
  obtain ⟨place, hfound, -, opening, front, spelled, hspelled, htext, -, hline, -⟩ :=
    exists_findDeclaration hread List.mem_cons_self (List.all_eq_true.1 (by decide)) hplain
  exact ⟨hread, place, hfound, opening, front, spelled, hspelled, htext, hline⟩

/-- A page that names its fragment in a comment above. -/
def commentedPage : List Char :=
  "<!-- th:fragment=\"card\" -->\n<div th:fragment=\"card\"></div>\n".toList

/-- **Not every line that is found is that of a declaration**: the comment comes first. -/
theorem not_forall_exists_findDeclaration :
    ¬ ∀ (text : List Char) (listed : List Declaration) (declaration : Declaration),
      declarations text = .ok listed → declaration ∈ listed →
        (∀ c ∈ declaration.signature.name, isNameChar c = true) →
          ∃ place, findDeclaration text declaration.signature.name = some place ∧
            ∃ other ∈ listed, other.signature.name = declaration.signature.name ∧
              other.place.line = place.line := by
  intro hall
  have hread : declarations commentedPage = .ok [⟨⟨"card".toList, []⟩, ⟨1, 0⟩⟩] :=
    eq_ok_of_toOption (by decide +kernel)
  have hcomment : findDeclaration commentedPage "card".toList = some ⟨0, 5⟩ := by decide +kernel
  obtain ⟨place, hfound, other, hother, -, hline⟩ :=
    hall _ _ _ hread List.mem_cons_self (List.all_eq_true.1 (by decide))
  obtain rfl := Option.some.inj (hcomment.symm.trans hfound)
  obtain rfl := List.mem_singleton.1 hother
  exact absurd hline (by decide)

end TemplateAnalysis.Fragment
