import TemplateAnalysis.Markup.Tag
import TemplateAnalysis.Proofs.Markup.Attribute

/-! # Where tags stand

    A start tag that is found in a text opens at its place, and its attributes are read
    from texts that stand behind it (**`exists_opening_of_mem_startTags`**,
    **`attributes_eq_map`**). An attribute that is written with a sign and a quoted
    value is read with its name in lower case and with its value
    (**`readAttribute_quoted`**).
-/

namespace TemplateAnalysis.Markup

open Text

/-! ## Places -/

section Places

variable {place a b c : Place} {cs : List Char}

theorem Place.advance_cons (place : Place) (c : Char) (cs : List Char) :
    place.advance (c :: cs) = (place.step c).advance cs :=
  rfl

theorem Place.advance_append (place : Place) (cs ds : List Char) :
    place.advance (cs ++ ds) = (place.advance cs).advance ds :=
  List.foldl_append

/-- Newlines count the lines. -/
theorem Place.line_advance (place : Place) (cs : List Char) :
    (place.advance cs).line = place.line + cs.count '\n' := by
  induction cs generalizing place with
  | nil => rfl
  | cons c cs ih =>
    rw [advance_cons, ih, Place.step]
    split
    · rename_i hc
      rw [hc, List.count_cons_self]
      exact Nat.add_right_comm _ _ _
    · rename_i hc
      rw [List.count_cons_of_ne hc]

/-- One place is in front of the other. -/
def Place.Before (a b : Place) : Prop :=
  a.line < b.line ∨ a.line = b.line ∧ a.character < b.character

theorem Place.Before.trans (h : a.Before b) (h' : b.Before c) : a.Before c := by
  unfold Place.Before at *
  omega

theorem Place.Before.ne (h : a.Before b) : a ≠ b := by
  rintro rfl
  unfold Place.Before at h
  omega

theorem Place.before_step (place : Place) (c : Char) : place.Before (place.step c) := by
  unfold Place.step
  split
  · exact .inl (Nat.lt_succ_self _)
  · exact .inr ⟨rfl, Nat.lt_succ_self _⟩

theorem Place.before_advance (place : Place) (hne : cs ≠ []) : place.Before (place.advance cs) := by
  induction cs generalizing place with
  | nil => contradiction
  | cons c cs ih =>
    by_cases hcs : cs = []
    · rw [hcs]
      exact place.before_step c
    · exact (place.before_step c).trans (ih _ hcs)

/-- What is left of a text from a place on. -/
def textFrom (target : Place) (place : Place) : List Char → List Char
  | [] => []
  | c :: rest => if place = target then c :: rest else textFrom target (place.step c) rest

/-- **Places tell where a text goes on.** -/
theorem textFrom_advance (place : Place) (before cs : List Char) :
    textFrom (place.advance before) place (before ++ cs) = cs := by
  induction before generalizing place with
  | nil =>
    cases cs with
    | nil => rfl
    | cons c rest => exact if_pos rfl
  | cons c before ih =>
    rw [List.cons_append, textFrom, if_neg (place.before_advance (List.cons_ne_nil c before)).ne]
    exact ih _

end Places

/-! ## Attributes -/

/-- The attribute that is read from a text. -/
def readAttribute (cs : List Char) : TagAttribute :=
  ((tagAttribute? ' ' cs).map Prod.fst).getD ⟨[], []⟩

/-- The texts from which the attributes of a tag are read, each up to the end of the
    text. -/
def attributeTextsFrom (before : Char) (cs : List Char) : List (List Char) :=
  match tagAttribute? before cs with
  | none => []
  | some (_, length) =>
    match _h : cs.drop (length - 1) with
    | [] => [cs]
    | last :: rest => cs :: attributeTextsFrom last rest
termination_by cs.length
decreasing_by
  have := congrArg List.length _h
  simp only [List.length_drop, List.length_cons] at this
  omega

/-- The texts from which the attributes of the tag at the front of a text are read. -/
def attributeTexts (cs : List Char) : List (List Char) :=
  let name := (cs.drop 1).takeWhile isTagNameChar
  let behindName := cs.drop (name.length + 1)
  let last := (name.getLast?).getD '<'
  let filler := fillerLength behindName
  let before := if filler = 0 then last else (behindName[filler - 1]?).getD last
  attributeTextsFrom before (behindName.drop filler)

section Attributes

variable {before : Char} {cs text name value rest : List Char} {attr : TagAttribute} {length : Nat}

/-- What stands in front of an attribute decides only whether there is one. -/
theorem readAttribute_of_tagAttribute? (h : tagAttribute? before cs = some (attr, length)) :
    readAttribute cs = attr := by
  unfold readAttribute
  cases cs with
  | nil => contradiction
  | cons c rest =>
    unfold tagAttribute? at h ⊢
    dsimp only at h ⊢
    split at h
    · rename_i hstarts
      rw [if_pos (Bool.and_eq_true _ _ ▸ ⟨rfl, (Bool.and_eq_true _ _ ▸ hstarts).2⟩)]
      exact congrArg Prod.fst (Option.some.inj h)
    · contradiction

theorem tagAttributes_eq_map (before : Char) (cs : List Char) :
    (tagAttributes before cs).1 = (attributeTextsFrom before cs).map readAttribute := by
  fun_induction attributeTextsFrom before cs with
  | case1 before cs hnone => rw [tagAttributes, hnone]; rfl
  | case2 before cs attr length hattr hdrop =>
    rw [tagAttributes, hattr]
    dsimp only
    split
    · rw [List.map_singleton, readAttribute_of_tagAttribute? hattr]
    · rename_i last rest hmore
      exact absurd (hmore.symm.trans hdrop) (List.cons_ne_nil _ _)
  | case3 before cs attr length hattr last rest hdrop ih =>
    rw [tagAttributes, hattr]
    dsimp only
    split
    · rename_i hnone
      exact absurd (hdrop.symm.trans hnone) (List.cons_ne_nil _ _)
    · rename_i last' rest' hmore
      obtain ⟨rfl, rfl⟩ := List.cons.inj (hmore.symm.trans hdrop)
      rw [List.map_cons, readAttribute_of_tagAttribute? hattr, ← ih]

theorem suffix_of_mem_attributeTextsFrom (h : text ∈ attributeTextsFrom before cs) :
    text <:+ cs := by
  fun_induction attributeTextsFrom before cs with
  | case1 => contradiction
  | case2 before cs =>
    obtain rfl := List.mem_singleton.1 h
    exact List.suffix_refl _
  | case3 before cs attr length hattr last rest hdrop ih =>
    rcases List.mem_cons.1 h with rfl | h
    · exact List.suffix_refl _
    · exact (ih h).trans ((List.suffix_cons last rest).trans (hdrop ▸ List.drop_suffix _ _))

theorem suffix_of_mem_attributeTexts (h : text ∈ attributeTexts cs) : text <:+ cs :=
  (suffix_of_mem_attributeTextsFrom h).trans
    ((List.drop_suffix _ _).trans (List.drop_suffix _ _))

end Attributes

/-! ## Constructs -/

section Constructs

variable {cs : List Char} {construct : Construct}

/-- What a construct says of the text it opens: it takes up room, and a tag has the
    attributes that are read there. -/
def Construct.Fits (cs : List Char) : Construct → Prop
  | .tag _ attributes _ length => 0 < length ∧ attributes = (attributeTexts cs).map readAttribute
  | .other length => 0 < length
  | .unfinished => True

theorem fits_startTag (cs : List Char) : (startTag cs).Fits cs := by
  have attributes := tagAttributes_eq_map
  unfold startTag
  dsimp only
  split
  · exact ⟨Nat.succ_pos _, attributes _ _⟩
  · exact ⟨Nat.succ_pos _, attributes _ _⟩
  · trivial
  · split
    · trivial
    · show 0 < _
      omega

theorem fits_upToClose (start : Nat) (cs rest : List Char) : (upToClose start rest).Fits cs := by
  unfold upToClose
  split
  · exact Nat.succ_pos _
  · trivial

theorem fits_upToEnd (endHere? : List Char → Option Nat) {start : Nat} (hstart : 0 < start)
    (cs rest : List Char) : (upToEnd endHere? start rest).Fits cs := by
  unfold upToEnd
  split
  · exact Nat.add_pos_left hstart _
  · trivial

theorem fits_markedSection (h : markedSection cs = .ok construct) : construct.Fits cs := by
  unfold markedSection at h
  dsimp only at h
  split at h
  · rw [← Except.ok.inj h]
    trivial
  · split at h
    · split at h
      · rw [← Except.ok.inj h]
        trivial
      · split at h
        · rw [← Except.ok.inj h]
          exact fits_upToEnd _ (by decide) cs cs
        · split at h
          · rw [← Except.ok.inj h]
            exact fits_upToEnd _ (by decide) cs cs
          · contradiction
    · contradiction

/-- **What a `<` opens** is a tag with its attributes, or is passed over. -/
theorem fits_constructAt (h : constructAt cs = .ok construct) : construct.Fits cs := by
  unfold constructAt at h
  split at h
  · rw [← Except.ok.inj h]
    exact Nat.one_pos
  · split at h
    · rw [← Except.ok.inj h]
      exact fits_startTag cs
    · split at h
      · rw [← Except.ok.inj h]
        exact fits_upToClose 1 cs cs
      · split at h
        · rw [← Except.ok.inj h]
          exact fits_upToClose 2 cs cs
        · split at h
          · split at h
            · rw [← Except.ok.inj h]
              exact fits_upToEnd _ (by decide) cs cs
            · split at h
              · exact fits_markedSection h
              · rw [← Except.ok.inj h]
                exact fits_upToClose 2 cs cs
          · rw [← Except.ok.inj h]
            exact Nat.one_pos

end Constructs

/-! ## The search -/

section Search

variable {forgiving : Bool} {place : Place} {cs : List Char} {piece : Piece} {tags : List StartTag}
  {tag : StartTag}

/-- What a piece says of the text: the search moves on, and a tag has the attributes
    that are read there. -/
def Piece.Fits (cs : List Char) : Piece → Prop
  | .text length => 0 < length
  | .strict length => 0 < length
  | .tag _ attributes length => 0 < length ∧ attributes = (attributeTexts cs).map readAttribute
  | .final => True

theorem pos_unfinishedLength (cs : List Char) : 0 < unfinishedLength cs := by
  unfold unfinishedLength
  split
  · exact Nat.succ_pos _
  · split <;> exact Nat.succ_pos _

theorem fits_pieceAt (h : pieceAt forgiving cs = .ok piece) : piece.Fits cs := by
  unfold pieceAt at h
  split at h
  · rename_i rest
    cases hconstruct : constructAt ('<' :: rest) with
    | error e => simp [hconstruct, bind, Except.bind] at h
    | ok construct =>
      have fits := fits_constructAt hconstruct
      simp only [hconstruct, bind, Except.bind] at h
      cases construct with
      | other length =>
        rw [← Except.ok.inj h]
        exact fits
      | unfinished =>
        rw [← Except.ok.inj h]
        exact pos_unfinishedLength _
      | tag name attributes isEmpty length =>
        -- The content of a raw element belongs to its piece.
        obtain ⟨hlength, hattributes⟩ := fits
        dsimp only at h
        split at h
        · split at h
          · rw [← Except.ok.inj h]
            exact ⟨Nat.add_pos_left hlength _, hattributes⟩
          · rw [← Except.ok.inj h]
            exact ⟨Nat.succ_pos _, hattributes⟩
        · rw [← Except.ok.inj h]
          exact ⟨hlength, hattributes⟩
  · split at h
    · rw [← Except.ok.inj h]
      exact Nat.two_pos
    · split at h
      · rw [← Except.ok.inj h]
        exact Nat.two_pos
      · rw [← Except.ok.inj h]
        trivial
  · rw [← Except.ok.inj h]
    exact Nat.one_pos

/-- Where a tag of a text opens, when the text stands at a place. -/
def StartTag.OpensIn (place : Place) (cs : List Char) (tag : StartTag) : Prop :=
  ∃ before behind, cs = before ++ behind ∧ tag.place = place.advance before ∧
    tag.attributes = (attributeTexts behind).map readAttribute

theorem StartTag.OpensIn.behind {length : Nat}
    (h : tag.OpensIn (place.advance (cs.take length)) (cs.drop length)) : tag.OpensIn place cs := by
  obtain ⟨before, behind, hcs, hplace, hattributes⟩ := h
  refine ⟨cs.take length ++ before, behind, ?_, ?_, hattributes⟩
  · rw [List.append_assoc, ← hcs, List.take_append_drop]
  · rw [hplace, Place.advance_append]

/-- **Every tag opens at its place**, with the attributes that are read there. -/
theorem opensIn_of_mem_startTagsFrom (h : startTagsFrom forgiving place cs = .ok tags)
    (htag : tag ∈ tags) : tag.OpensIn place cs := by
  fun_induction startTagsFrom forgiving place cs generalizing tags with
  | case1 =>
    obtain rfl := Except.ok.inj h
    contradiction
  | case2 forgiving place c rest ih ihStrict =>
    -- A piece takes up room, so what is left is the text behind it.
    have left : ∀ length, 0 < length → rest.drop (length - 1) = (c :: rest).drop length := by
      intro length hpos
      obtain ⟨k, rfl⟩ := Nat.exists_eq_add_one.2 hpos
      rfl
    cases hpiece : pieceAt forgiving (c :: rest) with
    | error e => simp [hpiece, bind, Except.bind] at h
    | ok piece =>
      have fits := fits_pieceAt hpiece
      simp only [hpiece, bind, Except.bind] at h
      cases piece with
      | text length =>
        have opens := ih length h htag
        rw [left length fits] at opens
        exact opens.behind
      | strict length =>
        have opens := ihStrict length h htag
        rw [left length fits] at opens
        exact opens.behind
      | tag name attributes length =>
        obtain ⟨hlength, hattributes⟩ := fits
        dsimp only at h
        split at h
        · contradiction
        · rename_i more hmore
          obtain rfl := Except.ok.inj h
          rcases List.mem_cons.1 htag with rfl | htag
          · exact ⟨[], c :: rest, rfl, rfl, hattributes⟩
          · have opens := ih length hmore htag
            rw [left length hlength] at opens
            exact opens.behind
      | final =>
        obtain rfl := Except.ok.inj h
        contradiction

/-- **The tags of a text**, by what is left of it at their places. -/
theorem attributes_of_mem_startTags {text : List Char} (h : startTags text = .ok tags)
    (htag : tag ∈ tags) :
    ∃ before, text = before ++ textFrom tag.place ⟨0, 0⟩ text ∧
      tag.place = Place.advance ⟨0, 0⟩ before ∧
      tag.attributes = (attributeTexts (textFrom tag.place ⟨0, 0⟩ text)).map readAttribute := by
  obtain ⟨before, behind, htext, hplace, hattributes⟩ := opensIn_of_mem_startTagsFrom h htag
  have hbehind : textFrom tag.place ⟨0, 0⟩ text = behind := by
    rw [hplace, htext, textFrom_advance]
  rw [hbehind]
  exact ⟨before, htext, hplace, hattributes⟩

end Search

/-! ## Attributes with a sign and quotes -/

section Quoted

variable {name value rest : List Char} {quote : Char}

theorem decodeReferences_cons {c : Char} (h : c ≠ '&') (rest : List Char) :
    decodeReferences (c :: rest) = c :: decodeReferences rest := by
  rw [decodeReferences.eq_def]
  exact if_neg (mt beq_iff_eq.1 h)

theorem decodeReferences_append {cs : List Char} (h : '&' ∉ cs) (rest : List Char) :
    decodeReferences (cs ++ rest) = cs ++ decodeReferences rest := by
  induction cs with
  | nil => rfl
  | cons c cs ih =>
    obtain ⟨hc, hcs⟩ := not_or.1 (mt List.mem_cons.2 h)
    rw [List.cons_append, decodeReferences_cons (Ne.symm hc), ih hcs, List.cons_append]

/-- A sign and a quoted value behind a name. -/
theorem valueAfterName?_quoted (sign : Sign) (hq : quote = '\'' ∨ quote = '"')
    (hv : quote ∉ value) (rest : List Char) :
    ∃ length, valueAfterName? (sign.print ++ quote :: (value ++ quote :: rest)) =
      some (decodeReferences value, length) := by
  have hblank : isBlank quote = false := by rcases hq with rfl | rfl <;> decide
  have hquotes : (quote == '\'' || quote == '"') = true := by rcases hq with rfl | rfl <;> decide
  have print : sign.print ++ quote :: (value ++ quote :: rest) =
      sign.front ++ '=' :: (sign.back ++ quote :: (value ++ quote :: rest)) := by
    rw [Sign.print, List.append_assoc]
    rfl
  -- The blanks in front of the sign, the one sign, and the blanks behind it.
  have front : (sign.front ++ '=' :: (sign.back ++ quote :: (value ++ quote :: rest))).takeWhile
      isBlank = sign.front := by
    rw [List.takeWhile_append_of_pos sign.front_blank]
    exact List.append_nil _
  have signs : ('=' :: (sign.back ++ quote :: (value ++ quote :: rest))).takeWhile (· == '=') =
      ['='] := by
    rw [List.takeWhile_cons_of_pos (by decide)]
    cases hback : sign.back with
    | nil => rcases hq with rfl | rfl <;> rfl
    | cons c others =>
      have hc := sign.back_blank c (hback ▸ List.mem_cons_self)
      rw [List.cons_append, List.takeWhile_cons_of_neg]
      rw [beq_iff_eq]
      rintro rfl
      exact absurd hc (by decide)
  have back : (sign.back ++ quote :: (value ++ quote :: rest)).takeWhile isBlank = sign.back := by
    rw [List.takeWhile_append_of_pos sign.back_blank, List.takeWhile_cons_of_neg (by simp [hblank]),
      List.append_nil]
  have behindSign : (sign.front ++ '=' :: (sign.back ++ quote :: (value ++ quote :: rest))).drop
      (sign.front.length + 1) = sign.back ++ quote :: (value ++ quote :: rest) := by
    rw [← List.drop_drop, List.drop_left]
    rfl
  have quoted : (sign.front ++ '=' :: (sign.back ++ quote :: (value ++ quote :: rest))).drop
      (sign.front.length + 1 + sign.back.length) = quote :: (value ++ quote :: rest) := by
    rw [← List.drop_drop, behindSign, List.drop_left]
  have closed : (value ++ quote :: rest).contains quote = true := by simp
  unfold valueAfterName?
  simp only [print, front, List.drop_left, signs, List.length_singleton, behindSign, back, quoted,
    Nat.one_ne_zero, if_false, hquotes, if_true, closed, takeWhile_ne_quote hv]
  exact ⟨_, rfl⟩

/-- **An attribute that is written with a sign and a quoted value** is read with its
    name in lower case and with the value, its character references replaced. -/
theorem readAttribute_quoted (hne : name ≠ []) (hname : ∀ c ∈ name, isAttributeNameChar c = true)
    (sign : Sign) (hq : quote = '\'' ∨ quote = '"') (hv : quote ∉ value) (rest : List Char) :
    readAttribute (name ++ (sign.print ++ quote :: (value ++ quote :: rest))) =
      ⟨lower name, decodeReferences value⟩ := by
  obtain ⟨length, hvalue⟩ := valueAfterName?_quoted sign hq hv rest
  obtain ⟨c, others, rfl⟩ := List.exists_cons_of_ne_nil hne
  obtain ⟨hc, hothers⟩ := List.forall_mem_cons.1 hname
  -- The sign ends the name.
  have ends :
      (sign.print ++ quote :: (value ++ quote :: rest)).takeWhile isAttributeNameChar = [] := by
    unfold Sign.print
    cases hfront : sign.front with
    | nil => rfl
    | cons d more =>
      have hd := sign.front_blank d (hfront ▸ List.mem_cons_self)
      exact List.takeWhile_cons_of_neg (by simp [isAttributeNameChar, hd])
  have whole : (others ++ (sign.print ++ quote :: (value ++ quote :: rest))).takeWhile
      isAttributeNameChar = others := by
    rw [List.takeWhile_append_of_pos hothers, ends, List.append_nil]
  have starts : (endsBeforeAttribute ' ' && !(isBlank c || c == '/' || c == '>')) = true := by
    simp only [isAttributeNameChar, Bool.not_eq_true', Bool.or_eq_false_iff] at hc
    rw [hc.1.1.1, hc.1.1.2, hc.2]
    decide
  have behindName : (c :: (others ++ (sign.print ++ quote :: (value ++ quote :: rest)))).drop
      (c :: others).length = sign.print ++ quote :: (value ++ quote :: rest) :=
    List.drop_left
  rw [List.cons_append]
  unfold readAttribute tagAttribute?
  simp only [starts, if_true, whole, behindName, hvalue, Option.map_some, Option.getD_some]

end Quoted

end TemplateAnalysis.Markup
