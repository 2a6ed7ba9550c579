import TemplateAnalysis.Markup.Attribute

/-! # Where attributes stand

    An attribute that is found in a text is written there, with its name, the
    sign and the quotes around its value:

    * **`attributeNamed?_eq_some_iff`**: how the attribute at the front of a text
      is spelled;
    * **`exists_written_of_mem_attributesFrom`**: every attribute that is found
      is spelled that way somewhere, and its name continues no other;
    * **`pairwise_attributesFrom`**: attributes are found in the order of the
      text, and none of them ends behind the start of the next;
    * **`attributesFrom_append`**: text that names no attribute holds none;
    * **`attributesFrom_attribute`**: an attribute that is written is found, when
      of the names looked for none is the beginning of another.
-/

namespace TemplateAnalysis.Markup

open Text

/-! ## Blanks at the front -/

theorem trimLeft_append {blanks : List Char} (h : ∀ c ∈ blanks, isBlank c = true)
    (rest : List Char) : trimLeft (blanks ++ rest) = trimLeft rest :=
  List.dropWhile_append_of_pos h

theorem trimLeft_cons {c : Char} (h : isBlank c = false) (rest : List Char) :
    trimLeft (c :: rest) = c :: rest :=
  List.dropWhile_cons_of_neg (by simp [h])

theorem exists_eq_append_trimLeft (cs : List Char) :
    ∃ blanks, (∀ c ∈ blanks, isBlank c = true) ∧ cs = blanks ++ trimLeft cs :=
  ⟨cs.takeWhile isBlank, fun _ hc => List.all_eq_true.1 List.all_takeWhile _ hc,
    List.takeWhile_append_dropWhile.symm⟩

/-! ## One attribute -/

/-- What stands between the name of an attribute and its value: the sign, with
    or without blanks around it. -/
structure Sign where
  front : List Char
  back : List Char
  front_blank : ∀ c ∈ front, isBlank c = true
  back_blank : ∀ c ∈ back, isBlank c = true

/-- The text of a sign. -/
def Sign.print (sign : Sign) : List Char :=
  sign.front ++ '=' :: sign.back

/-- A quoted text ends at the first quote. -/
theorem takeWhile_ne_quote {quote : Char} {value : List Char} (h : quote ∉ value)
    (rest : List Char) : (value ++ quote :: rest).takeWhile (· != quote) = value := by
  rw [List.takeWhile_append_of_pos, List.takeWhile_cons_of_neg (by simp), List.append_nil]
  intro c hc
  rw [bne_iff_ne]
  rintro rfl
  exact h hc

/-- A quoted value is read back, up to the quote that closes it. -/
theorem quotedValue?_print (sign : Sign) {quote : Char} (hq : quote = '\'' ∨ quote = '"')
    {value : List Char} (hv : quote ∉ value) (rest : List Char) :
    quotedValue? (sign.print ++ quote :: (value ++ quote :: rest)) =
      some (sign.print.length + 1, value) := by
  have blank : isBlank quote = false := by rcases hq with rfl | rfl <;> decide
  have quotes : (quote == '\'' || quote == '"') = true := by rcases hq with rfl | rfl <;> decide
  unfold quotedValue? Sign.print
  rw [List.append_assoc, trimLeft_append sign.front_blank, List.cons_append,
    trimLeft_cons (by decide)]
  simp only [trimLeft_append sign.back_blank, trimLeft_cons blank, quotes, takeWhile_ne_quote hv,
    List.contains_eq_mem, List.mem_append, List.mem_cons, true_or, or_true, decide_true,
    Bool.and_self, if_true, Option.some.injEq, Prod.mk.injEq, and_true, List.length_append,
    List.length_cons]
  omega

/-- A value that is read is quoted, behind a sign. -/
theorem exists_of_quotedValue? {cs value : List Char} {skipped : Nat}
    (h : quotedValue? cs = some (skipped, value)) :
    ∃ (sign : Sign) (quote : Char) (rest : List Char), (quote = '\'' ∨ quote = '"') ∧
      quote ∉ value ∧ cs = sign.print ++ quote :: (value ++ quote :: rest) := by
  unfold quotedValue? at h
  split at h
  · rename_i behindSign hsign
    split at h
    · rename_i quote rest hquote
      split at h
      · rename_i hcond
        obtain ⟨hq, hmem⟩ := Bool.and_eq_true _ _ ▸ hcond
        obtain ⟨-, rfl⟩ := Prod.mk.inj (Option.some.inj h)
        obtain ⟨front, hfront, hcs⟩ := exists_eq_append_trimLeft cs
        obtain ⟨back, hback, hbehind⟩ := exists_eq_append_trimLeft behindSign
        obtain ⟨value, others, hrest, hvalue⟩ :=
          List.eq_append_cons_of_mem (List.contains_iff_mem.1 hmem)
        have htake : rest.takeWhile (· != quote) = value := by
          rw [hrest, takeWhile_ne_quote hvalue]
        refine ⟨⟨front, back, hfront, hback⟩, quote, others, by simpa using hq, ?_, ?_⟩
        · rw [htake]
          exact hvalue
        · rw [htake, Sign.print, hcs, hsign, hbehind, hquote, hrest]
          simp
      · contradiction
    · contradiction
  · contradiction

/-- **How an attribute is spelled**: its name, a sign, and its value between two
    quotes that do not occur in it. -/
theorem attributeNamed?_eq_some_iff {name cs : List Char} {attr : Attribute} :
    attributeNamed? name cs = some attr ↔
      ∃ (sign : Sign) (quote : Char) (rest : List Char), (quote = '\'' ∨ quote = '"') ∧
        quote ∉ attr.value ∧ attr.name = name ∧
        attr.start = name.length + sign.print.length + 1 ∧
        cs = name ++ (sign.print ++ quote :: (attr.value ++ quote :: rest)) := by
  constructor
  · intro h
    unfold attributeNamed? after? at h
    simp only [Option.bind_eq_bind, Option.bind_eq_some_iff, Option.pure_def, Option.some.injEq,
      Option.ite_none_right_eq_some, List.isPrefixOf_iff_prefix] at h
    obtain ⟨rest, ⟨⟨others, rfl⟩, rfl⟩, ⟨skipped, value⟩, hvalue, rfl⟩ := h
    rw [List.drop_left] at hvalue
    obtain ⟨sign, quote, rest, hq, hv, hothers⟩ := exists_of_quotedValue? hvalue
    refine ⟨sign, quote, rest, hq, hv, rfl, ?_, by rw [hothers]⟩
    rw [hothers, quotedValue?_print sign hq hv] at hvalue
    obtain ⟨rfl, -⟩ := Prod.mk.inj (Option.some.inj hvalue)
    exact (Nat.add_assoc _ _ _).symm
  · rintro ⟨sign, quote, rest, hq, hv, rfl, hstart, rfl⟩
    unfold attributeNamed? after?
    rw [if_pos (List.isPrefixOf_iff_prefix.2 (List.prefix_append _ _)), List.drop_left]
    simp only [Option.bind_eq_bind, Option.bind_some, quotedValue?_print sign hq hv,
      Option.pure_def, ← Nat.add_assoc, ← hstart]

/-! ## Attributes of a text -/

/-- Does the text end in a character of a name? -/
def endsInName (text : List Char) : Bool :=
  text.getLast?.any isNameChar

/-- The attribute stands in the text, and its name starts behind `outer`. -/
structure Attribute.WrittenBehind (outer text : List Char) (attr : Attribute) : Prop where
  spelled : ∃ (sign : Sign) (quote : Char) (rest : List Char),
    (quote = '\'' ∨ quote = '"') ∧ quote ∉ attr.value ∧
      attr.start = outer.length + attr.name.length + sign.print.length + 1 ∧
      text = outer ++ (attr.name ++ (sign.print ++ quote :: (attr.value ++ quote :: rest)))
  apart : endsInName outer = false

/-- The text up to and with the quote that closes the first attribute. -/
theorem take_stop_of_attributeNamed? {name cs : List Char} {attr : Attribute}
    (h : attributeNamed? name cs = some attr) :
    (cs.take (attr.stop + 1)).length = attr.stop + 1 ∧
      endsInName (cs.take (attr.stop + 1)) = false := by
  obtain ⟨sign, quote, rest, hq, -, -, hstart, rfl⟩ := attributeNamed?_eq_some_iff.1 h
  have hcs : name ++ (sign.print ++ quote :: (attr.value ++ quote :: rest)) =
      (name ++ sign.print ++ quote :: attr.value ++ [quote]) ++ rest := by simp
  have hlen : attr.stop + 1 = (name ++ sign.print ++ quote :: attr.value ++ [quote]).length := by
    simp only [Attribute.stop, hstart, List.length_append, List.length_cons, List.length_nil]
    omega
  rw [hcs, hlen, List.take_left]
  refine ⟨rfl, ?_⟩
  unfold endsInName
  rw [List.getLast?_concat]
  rcases hq with rfl | rfl <;> decide

/-- An attribute is found by one of the names, and not in the middle of another. -/
theorem exists_name_of_found {names : List (List Char)} {behindName : Bool} {cs : List Char}
    {attr : Attribute}
    (h : (if behindName then none else names.findSome? (attributeNamed? · cs)) = some attr) :
    behindName = false ∧ ∃ name ∈ names, attributeNamed? name cs = some attr := by
  cases behindName with
  | true => contradiction
  | false => exact ⟨rfl, List.exists_of_findSome?_eq_some h⟩

/-- Every attribute that is found is written in the text, behind what has been
    read before. -/
theorem exists_written_of_mem_attributesFrom {names : List (List Char)} {position : Nat}
    {behindName : Bool} {before cs : List Char} {attr : Attribute}
    (hp : position = before.length) (hb : behindName = endsInName before)
    (h : attr ∈ attributesFrom names position behindName cs) :
    ∃ outer, before.length ≤ outer.length ∧ attr.name ∈ names ∧
      attr.WrittenBehind outer (before ++ cs) := by
  fun_induction attributesFrom names position behindName cs generalizing before
  case case1 => simp at h
  case case2 position behindName c rest found attr' hfound ih =>
    obtain ⟨hbehind, name, hname, hn⟩ := exists_name_of_found hfound
    rcases List.mem_cons.1 h with rfl | h
    · obtain ⟨sign, quote, others, hq, hv, rfl, hstart, hcs⟩ := attributeNamed?_eq_some_iff.1 hn
      refine ⟨before, Nat.le_refl _, hname, ⟨sign, quote, others, hq, hv, ?_, by rw [hcs]⟩,
        hb ▸ hbehind⟩
      simp only [hstart, hp]
      omega
    · -- Reading goes on behind the closing quote, which no name ends in.
      obtain ⟨hlen, hends⟩ := take_stop_of_attributeNamed? hn
      have hcs : c :: rest = (c :: rest).take (attr'.stop + 1) ++ rest.drop attr'.stop :=
        (List.take_append_drop (attr'.stop + 1) (c :: rest)).symm
      have hends' : endsInName (before ++ (c :: rest).take (attr'.stop + 1)) = false := by
        unfold endsInName at hends ⊢
        rw [List.getLast?_append]
        cases hl : ((c :: rest).take (attr'.stop + 1)).getLast? with
        | none => simp at hl
        | some last => rwa [hl] at hends
      obtain ⟨outer, hle, hmem, hwritten⟩ :=
        ih (by rw [List.length_append, hlen, hp, Nat.add_assoc]) hends'.symm h
      rw [List.append_assoc, ← hcs] at hwritten
      rw [List.length_append] at hle
      exact ⟨outer, by omega, hmem, hwritten⟩
  case case3 position behindName c rest found hfound ih =>
    have hends : isNameChar c = endsInName (before ++ [c]) := by simp [endsInName]
    obtain ⟨outer, hle, hmem, hwritten⟩ := ih (by simp [hp]) hends h
    rw [List.append_assoc, List.singleton_append] at hwritten
    rw [List.length_append] at hle
    exact ⟨outer, by omega, hmem, hwritten⟩

/-- The value of an attribute stands in the text. -/
theorem infix_of_mem_attributesFrom {names : List (List Char)} {position : Nat}
    {behindName : Bool} {cs : List Char} {attr : Attribute}
    (h : attr ∈ attributesFrom names position behindName cs) : attr.value <:+: cs := by
  fun_induction attributesFrom names position behindName cs with
  | case1 => simp at h
  | case2 position behindName c rest found attr' hfound ih =>
    rcases List.mem_cons.1 h with rfl | h
    · obtain ⟨-, name, -, hn⟩ := exists_name_of_found hfound
      obtain ⟨sign, quote, others, -, -, -, -, hcs⟩ := attributeNamed?_eq_some_iff.1 hn
      refine ⟨name ++ sign.print ++ [quote], quote :: others, ?_⟩
      rw [hcs]
      simp
    · exact (ih h).trans ((List.drop_suffix _ _).isInfix.trans (List.suffix_cons c rest).isInfix)
  | case3 position behindName c rest found hfound ih =>
    exact (ih h).trans (List.suffix_cons c rest).isInfix

theorem lt_start_of_mem_attributesFrom {names : List (List Char)} {position : Nat}
    {behindName : Bool} {cs : List Char} {attr : Attribute}
    (h : attr ∈ attributesFrom names position behindName cs) : position < attr.start := by
  fun_induction attributesFrom names position behindName cs with
  | case1 => simp at h
  | case2 position behindName c rest found attr' hfound ih =>
    rcases List.mem_cons.1 h with rfl | h
    · obtain ⟨-, name, -, hn⟩ := exists_name_of_found hfound
      obtain ⟨sign, -, -, -, -, -, hstart, -⟩ := attributeNamed?_eq_some_iff.1 hn
      simp only [hstart]
      omega
    · have := ih h
      omega
  | case3 position behindName c rest found hfound ih =>
    have := ih h
    omega

/-- **The order of attributes**: each ends before the value of the next starts. -/
theorem pairwise_attributesFrom (names : List (List Char)) (position : Nat) (behindName : Bool)
    (cs : List Char) :
    (attributesFrom names position behindName cs).Pairwise fun a b => a.stop < b.start := by
  fun_induction attributesFrom names position behindName cs with
  | case1 => exact List.Pairwise.nil
  | case2 position behindName c rest found attr hfound ih =>
    refine List.pairwise_cons.2 ⟨fun other h => ?_, ih⟩
    have := lt_start_of_mem_attributesFrom h
    simp only [Attribute.stop] at this ⊢
    omega
  | case3 position behindName c rest found hfound ih => exact ih

/-! ## Text without attributes -/

section Skipping

variable {cs rest : List Char} {position : Nat} {behindName : Bool}

theorem attributeNamed?_eq_none {name : List Char} (h : ¬ name <+: cs) :
    attributeNamed? name cs = none := by
  unfold attributeNamed? after?
  rw [if_neg (by rwa [List.isPrefixOf_iff_prefix])]
  rfl

/-- Where no name starts, no attribute does. -/
theorem attributesFrom_cons {names : List (List Char)} {c : Char}
    (h : ∀ name ∈ names, ¬ name <+: c :: cs) :
    attributesFrom names position behindName (c :: cs) =
      attributesFrom names (position + 1) (isNameChar c) cs := by
  have none : names.findSome? (attributeNamed? · (c :: cs)) = none :=
    List.findSome?_eq_none_iff.2 fun name hname => attributeNamed?_eq_none (h name hname)
  rw [attributesFrom]
  simp only [none, ite_self]

theorem attributesFrom_eq_nil {names : List (List Char)} (h : ∀ name ∈ names, ¬ name <:+: cs) :
    attributesFrom names position behindName cs = [] := by
  induction cs generalizing position behindName with
  | nil => rw [attributesFrom]
  | cons c cs ih =>
    rw [attributesFrom_cons fun name hname hp => h name hname hp.isInfix]
    exact ih fun name hname hi => h name hname (List.infix_cons hi)

/-- A name that does not hold a character does not reach over it. -/
theorem prefix_of_prefix_append {name : List Char} {c : Char} (hc : c ∉ name)
    (h : name <+: cs ++ c :: rest) : name <+: cs := by
  obtain ⟨others, heq⟩ := h
  rcases List.append_eq_append_iff.1 heq with ⟨more, hcs, -⟩ | ⟨more, hname, hbehind⟩
  · exact ⟨more, hcs.symm⟩
  · cases more with
    | nil => exact ⟨[], by rw [hname, List.append_nil, List.append_nil]⟩
    | cons d more =>
      obtain ⟨rfl, -⟩ := List.cons.inj hbehind
      exact absurd (hname ▸ by simp) hc

/-- Text that names no attribute is skipped, up to and with a character that
    stands in no name. -/
theorem attributesFrom_append {names : List (List Char)} {c : Char}
    (hne : ∀ name ∈ names, name ≠ []) (hc : ∀ name ∈ names, c ∉ name) (hchar : isNameChar c = false)
    (h : ∀ name ∈ names, ¬ name <:+: cs) :
    attributesFrom names position behindName (cs ++ c :: rest) =
      attributesFrom names (position + cs.length + 1) false rest := by
  induction cs generalizing position behindName with
  | nil =>
    rw [List.nil_append, attributesFrom_cons, hchar]
    · rfl
    · intro name hname hp
      exact hne name hname (List.prefix_nil.1 (prefix_of_prefix_append (hc name hname) hp))
  | cons d cs ih =>
    rw [List.cons_append, attributesFrom_cons, ih, List.length_cons]
    · congr 1
      omega
    · exact fun name hname hi => h name hname (List.infix_cons hi)
    · intro name hname hp
      rw [← List.cons_append] at hp
      exact h name hname (prefix_of_prefix_append (hc name hname) hp).isInfix

end Skipping

/-! ## Names that are looked for -/

/-- Names to look for: each has a character, and none is the beginning of
    another. -/
structure NamesApart (names : List (List Char)) : Prop where
  ne_nil : ∀ name ∈ names, name ≠ []
  eq_of_isPrefixOf : ∀ name ∈ names, ∀ other ∈ names, other.isPrefixOf name = true → other = name

section Looking

variable {names : List (List Char)} {name value : List Char}

/-- Of the names that are looked for only the one that is there fits. -/
theorem findSome?_attribute (hnames : NamesApart names) (hname : name ∈ names) (sign : Sign)
    (hvalue : '"' ∉ value) (rest : List Char) :
    names.findSome? (attributeNamed? · (name ++ (sign.print ++ '"' :: (value ++ '"' :: rest)))) =
      some ⟨name, name.length + sign.print.length + 1, value⟩ := by
  have found : attributeNamed? name (name ++ (sign.print ++ '"' :: (value ++ '"' :: rest))) =
      some ⟨name, name.length + sign.print.length + 1, value⟩ :=
    attributeNamed?_eq_some_iff.2 ⟨sign, '"', rest, .inr rfl, hvalue, rfl, rfl, rfl⟩
  cases hsome : names.findSome?
      (attributeNamed? · (name ++ (sign.print ++ '"' :: (value ++ '"' :: rest)))) with
  | none =>
    rw [List.findSome?_eq_none_iff.1 hsome name hname] at found
    contradiction
  | some attr =>
    obtain ⟨other, hother, hattr⟩ := List.exists_of_findSome?_eq_some hsome
    obtain ⟨sign', quote, rest', -, -, -, -, heq⟩ := attributeNamed?_eq_some_iff.1 hattr
    -- Both names start the same text, so one is the beginning of the other.
    have same : other = name := by
      rcases List.prefix_or_prefix_of_prefix (List.prefix_append name _)
        (heq ▸ List.prefix_append other _) with hp | hp
      · exact (hnames.eq_of_isPrefixOf other hother name hname
          (List.isPrefixOf_iff_prefix.2 hp)).symm
      · exact hnames.eq_of_isPrefixOf name hname other hother (List.isPrefixOf_iff_prefix.2 hp)
    rw [same, found] at hattr
    exact hattr.symm

/-- **An attribute that is written is found**, and the reading goes on behind the
    quote that closes it. -/
theorem attributesFrom_attribute (hnames : NamesApart names) (hname : name ∈ names) (sign : Sign)
    (hvalue : '"' ∉ value) (position : Nat) (rest : List Char) :
    attributesFrom names position false
        (name ++ (sign.print ++ '"' :: (value ++ '"' :: rest))) =
      ⟨name, position + (name.length + sign.print.length + 1), value⟩ ::
        attributesFrom names
          (position + (name.length + sign.print.length + 1 + value.length) + 1) false rest := by
  have found := findSome?_attribute hnames hname sign hvalue rest
  have behind : (name ++ (sign.print ++ '"' :: (value ++ '"' :: rest))).drop
      (name.length + sign.print.length + 1 + value.length + 1) = rest := by
    have regroup : name ++ (sign.print ++ '"' :: (value ++ '"' :: rest)) =
        (name ++ (sign.print ++ '"' :: (value ++ ['"']))) ++ rest := by simp
    rw [regroup, List.drop_left']
    simp only [List.length_append, List.length_cons, List.length_nil]
    omega
  obtain ⟨c, others, hcs⟩ := List.exists_cons_of_ne_nil
    (show name ++ (sign.print ++ '"' :: (value ++ '"' :: rest)) ≠ [] by
      simp [hnames.ne_nil name hname])
  rw [hcs] at found behind ⊢
  rw [attributesFrom]
  simp only [Bool.false_eq_true, if_false, found, Attribute.stop]
  rw [List.drop_succ_cons] at behind
  rw [behind]

end Looking

end TemplateAnalysis.Markup
