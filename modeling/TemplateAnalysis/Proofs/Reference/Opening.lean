import TemplateAnalysis.Proofs.Reference.Region
import TemplateAnalysis.Reference.Selector

/-! # What opens in front of a path

    A link is told from other references by the nearest opening in front of its path
    (**`isLink_iff`**). What falls away around a path opens nothing, but for a wrapper;
    so it is the wrapper that decides, or else what stands in front of the region the
    path was cut out of (**`isLink_iff_of_mem_referenceIn`**).
-/

namespace TemplateAnalysis.Reference

open Text Expression

/-! ## Openings -/

/-- The openings besides that of a link. -/
def otherOpenings : List (List Char) :=
  [['~', '{'], ['=', '"'], ['=', '\'']]

/-- The nearest opening in front of a position is that of a link. -/
def BehindLink (text : List Char) (position : Nat) : Prop :=
  ∃ link, occursAt ['@', '{'] text link = true ∧ link + 2 ≤ position ∧
    ∀ opening ∈ otherOpenings, ∀ later, link < later → later + 2 ≤ position →
      occursAt opening text later = false

/-- No opening ends between two positions. -/
def Unopened (text : List Char) (start stop : Nat) : Prop :=
  ∀ opening ∈ ['@', '{'] :: otherOpenings, ∀ i, start < i + 2 → i + 2 ≤ stop →
    occursAt opening text i = false

section Opening

variable {text opening : List Char} {start middle stop position : Nat}

theorem occursAt_pair {a b : Char} :
    occursAt [a, b] text position = true ↔
      text[position]? = some a ∧ text[position + 1]? = some b := by
  rw [occursAt_cons, occursAt_cons, occursAt_nil, and_iff_left rfl]

theorem length_of_mem_otherOpenings (h : opening ∈ otherOpenings) : opening.length = 2 := by
  revert opening
  decide

/-- Another opening does not stand where a link opens. -/
theorem occursAt_eq_false_of_link (h : opening ∈ otherOpenings)
    (hlink : occursAt ['@', '{'] text position = true) :
    occursAt opening text position = false := by
  have differ : ∀ opening ∈ otherOpenings, opening.head? ≠ some '@' := by decide
  obtain ⟨c, rest, rfl⟩ := List.exists_cons_of_length_pos
    (Nat.lt_of_lt_of_eq Nat.zero_lt_two (length_of_mem_otherOpenings h).symm)
  refine Bool.eq_false_iff.2 fun hoccurs => differ _ h ?_
  rw [List.head?_cons, ← (occursAt_cons.1 hoccurs).1, (occursAt_cons.1 hlink).1]

/-- What opens in the text in front of a position opens there in the whole text. -/
theorem occursAt_front (hlength : opening.length = 2) {i : Nat} :
    occursAt opening (text.take position) i = true ↔
      occursAt opening text i = true ∧ i + 2 ≤ position := by
  rw [occursAt_take (List.ne_nil_of_length_pos (by omega)), hlength]

/-- No other opening comes last, where none is left. -/
theorem all_lastIndexOf?_lt_iff {link : Nat} :
    (otherOpenings.all fun opening => (lastIndexOf? opening text).all (· < link)) = true ↔
      ∀ opening ∈ otherOpenings, ∀ later, link ≤ later → occursAt opening text later = false := by
  rw [List.all_eq_true]
  refine forall₂_congr fun opening hopening => lastIndexOf?_all_lt_iff ?_
  exact List.ne_nil_of_length_pos (by rw [length_of_mem_otherOpenings hopening]; decide)

/-- **A reference is taken for a link** when the nearest opening in front of it is that
    of a link. -/
theorem isLink_iff {reference : ReferredPath} :
    isLink text reference = true ↔ BehindLink text reference.start := by
  unfold isLink
  dsimp only
  split
  · rename_i hnone
    refine iff_of_false Bool.false_ne_true ?_
    rintro ⟨link, hlink, hle, -⟩
    have missing := (lastIndexOf?_eq_none_iff (List.cons_ne_nil _ _)).1 hnone link
    rw [(occursAt_front rfl).2 ⟨hlink, hle⟩] at missing
    contradiction
  · rename_i link hlast
    obtain ⟨hhere, hbehind⟩ := (lastIndexOf?_eq_some_iff (List.cons_ne_nil _ _)).1 hlast
    obtain ⟨hlink, hle⟩ := (occursAt_front rfl).1 hhere
    refine all_lastIndexOf?_lt_iff.trans ?_
    constructor
    · intro hnone
      refine ⟨link, hlink, hle, fun opening hopening later hlater hstop => ?_⟩
      refine Bool.eq_false_iff.2 fun hoccurs => ?_
      have hfront := (occursAt_front (length_of_mem_otherOpenings hopening)).2 ⟨hoccurs, hstop⟩
      exact Bool.eq_false_iff.1 (hnone opening hopening later (Nat.le_of_lt hlater)) hfront
    · rintro ⟨first, hfirst, hfirstLe, hnone⟩ opening hopening later hlater
      -- The last link opens no earlier than this one.
      have hfirstLast : first ≤ link := Nat.le_of_not_lt fun hlt =>
        Bool.eq_false_iff.1 (hbehind first hlt) ((occursAt_front rfl).2 ⟨hfirst, hfirstLe⟩)
      refine Bool.eq_false_iff.2 fun hfront => ?_
      obtain ⟨hoccurs, hlaterLe⟩ :=
        (occursAt_front (length_of_mem_otherOpenings hopening)).1 hfront
      rcases Nat.lt_or_eq_of_le (Nat.le_trans hfirstLast hlater) with hlt | rfl
      · exact Bool.eq_false_iff.1 (hnone opening hopening later hlt hlaterLe) hoccurs
      · exact Bool.eq_false_iff.1 (occursAt_eq_false_of_link hopening hfirst) hoccurs

/-! ## Moving the position -/

/-- A position behind an opening of a link. -/
theorem behindLink_of_occursAt (h : occursAt ['@', '{'] text position = true) :
    BehindLink text (position + 2) :=
  ⟨position, h, Nat.le_refl _, fun _ _ later hlater hle => by omega⟩

/-- A position behind another opening. -/
theorem not_behindLink_of_occursAt (hopening : opening ∈ otherOpenings)
    (h : occursAt opening text position = true) : ¬ BehindLink text (position + 2) := by
  rintro ⟨link, hlink, hle, hnone⟩
  rcases Nat.lt_or_eq_of_le (Nat.le_of_add_le_add_right hle) with hlt | rfl
  · exact Bool.eq_false_iff.1 (hnone opening hopening position hlt (Nat.le_refl _)) h
  · exact Bool.eq_false_iff.1 (occursAt_eq_false_of_link hopening hlink) h

/-- Where nothing opens, nothing changes. -/
theorem behindLink_congr (hle : start ≤ stop) (h : Unopened text start stop) :
    BehindLink text start ↔ BehindLink text stop := by
  constructor
  · rintro ⟨link, hlink, hlinkLe, hnone⟩
    refine ⟨link, hlink, Nat.le_trans hlinkLe hle, fun opening hopening later hlater hstop => ?_⟩
    rcases Nat.lt_or_ge start (later + 2) with hbehind | hfront
    · exact h opening (List.mem_cons_of_mem _ hopening) later hbehind hstop
    · exact hnone opening hopening later hlater hfront
  · rintro ⟨link, hlink, hlinkLe, hnone⟩
    refine ⟨link, hlink, Nat.le_of_not_lt fun hlt => ?_,
      fun opening hopening later hlater hstop => ?_⟩
    · exact Bool.eq_false_iff.1 (h _ List.mem_cons_self link hlt hlinkLe) hlink
    · exact hnone opening hopening later hlater (Nat.le_trans hstop hle)

/-- Does a character end an opening? -/
def endsOpening (c : Char) : Bool :=
  c == '{' || isQuote c

/-- Is a character a sign, or does it end an opening? -/
def inOpening (c : Char) : Bool :=
  c == '=' || endsOpening c

/-- The character in front of a position is no sign. -/
def Unsigned (text : List Char) (position : Nat) : Prop :=
  ∀ i, i + 1 = position → charAt text i (· == '=') = false

theorem unsigned_succ {i : Nat} (h : charAt text i (· == '=') = false) : Unsigned text (i + 1) := by
  intro j hj
  obtain rfl := Nat.succ.inj hj
  exact h

/-- Behind a brace no sign stands. -/
theorem unsigned_of_occursAt {c : Char} (h : occursAt [c, '{'] text position = true) :
    Unsigned text (position + 2) := by
  refine unsigned_succ ?_
  rw [charAt, (occursAt_pair.1 h).2]
  decide

theorem exists_pair_of_mem_openings (h : opening ∈ ['@', '{'] :: otherOpenings) :
    ∃ a b, opening = [a, b] ∧ endsOpening b = true ∧ (isQuote b = true → a = '=') := by
  simp only [otherOpenings, List.mem_cons, List.not_mem_nil, or_false] at h
  rcases h with rfl | rfl | rfl | rfl <;> exact ⟨_, _, rfl, by decide, by decide⟩

/-- No opening ends without a character that ends one. -/
theorem unopened_of_chars (h : ∀ i, start ≤ i → i < stop → charAt text i endsOpening = false) :
    Unopened text start stop := by
  intro opening hopening i hstart hstop
  obtain ⟨a, b, rfl, hb, -⟩ := exists_pair_of_mem_openings hopening
  refine Bool.eq_false_iff.2 fun hoccurs => ?_
  have hchar := h (i + 1) (Nat.le_of_lt_succ hstart) hstop
  rw [charAt, (occursAt_pair.1 hoccurs).2, Option.any_some, hb] at hchar
  contradiction

/-- A quote opens nothing unless a sign stands in front of it. -/
theorem unopened_of_quote (hquote : charAt text start isQuote = true)
    (hsign : Unsigned text start) : Unopened text start (start + 1) := by
  intro opening hopening i hstart hstop
  obtain ⟨a, b, rfl, -, hb⟩ := exists_pair_of_mem_openings hopening
  refine Bool.eq_false_iff.2 fun hoccurs => ?_
  obtain ⟨hfirst, hsecond⟩ := occursAt_pair.1 hoccurs
  obtain rfl : i + 1 = start := by omega
  rw [charAt, hsecond, Option.any_some] at hquote
  have hbefore := hsign i rfl
  rw [charAt, hfirst, hb hquote] at hbefore
  contradiction

/-! ## What falls away opens nothing -/

theorem inOpening_eq_false_of_isBlank {c : Char} (h : isBlank c = true) : inOpening c = false := by
  cases hc : inOpening c with
  | false => rfl
  | true =>
    have chars : c = '=' ∨ c = '{' ∨ c = '\'' ∨ c = '"' := by
      simpa [inOpening, endsOpening, isQuote, or_assoc] using hc
    rcases chars with rfl | rfl | rfl | rfl <;> exact absurd h (by decide)

theorem Shed.inOpening_eq_false (h : Shed plainTokens text start stop) :
    ∀ i, start ≤ i → i < stop → ∀ c, text[i]? = some c → inOpening c = false := by
  have plain : ∀ token ∈ plainTokens, token.any inOpening = false := by decide
  refine h.forall_between (fun i hblank c hc => ?_) fun token hmem position ht i hle hlt c hc => ?_
  · rw [charAt, hc] at hblank
    exact inOpening_eq_false_of_isBlank hblank
  · obtain ⟨k, rfl⟩ := Nat.exists_eq_add_of_le hle
    rw [getElem?_of_occursAt ht (Nat.lt_of_add_lt_add_left hlt)] at hc
    exact eq_false_of_ne_true (List.any_eq_false.1 (plain token hmem) c (List.mem_of_getElem? hc))

/-- **Nothing opens in what falls away.** -/
theorem Shed.behindLink_iff (h : Shed plainTokens text start stop) :
    BehindLink text start ↔ BehindLink text stop := by
  refine behindLink_congr h.le (unopened_of_chars fun i hle hlt => ?_)
  exact (Option.any_eq_false _ _).2 fun c hc =>
    (Bool.or_eq_false_iff.1 (h.inOpening_eq_false i hle hlt c hc)).2

theorem Shed.unsigned (h : Shed plainTokens text start stop) (hsign : Unsigned text start) :
    Unsigned text stop := by
  rintro i rfl
  rcases Nat.lt_or_ge i start with hlt | hge
  · exact hsign i (Nat.le_antisymm hlt h.le)
  · exact (Option.any_eq_false _ _).2 fun c hc =>
      (Bool.or_eq_false_iff.1 (h.inOpening_eq_false i hge (Nat.lt_succ_self i) c hc)).1

/-! ## Wrappers -/

variable {region : Span}

/-- Where the wrapper of a path stands, if it has one: behind blanks and a quote. -/
def wrapperPlace (text : List Char) (region : Span) : Nat :=
  (stripQuotes text (trimRegion text region)).start

/-- Is the path in a region wrapped as a link? -/
def wrappedAsLink (text : List Char) (region : Span) : Bool :=
  occursAt ['@', '{'] text (wrapperPlace text region)

/-- Is the path in a region wrapped as a fragment expression? -/
def wrappedAsFragment (text : List Char) (region : Span) : Bool :=
  occursAt ['~', '{'] text (wrapperPlace text region)

/-- A path is wrapped in one way at most. -/
theorem wrappedAsFragment_eq_false (h : wrappedAsLink text region = true) :
    wrappedAsFragment text region = false :=
  occursAt_eq_false_of_link (by decide) h

/-- Blanks and a quote open nothing, unless a sign stands in front of them. -/
theorem behindLink_wrapperPlace (hsign : Unsigned text region.start) :
    BehindLink text (wrapperPlace text region) ↔ BehindLink text region.start := by
  have blanks : Inside plainTokens text (trimRegion text region) region :=
    inside_trimRegion text region
  unfold wrapperPlace stripQuotes
  split
  · rename_i quote hquote
    split
    · rename_i h
      have first : charAt text (trimRegion text region).start isQuote = true := by
        rw [charAt, hquote]
        exact (Bool.and_eq_true _ _ ▸ h).2
      have behindQuote := behindLink_congr (Nat.le_succ _)
        (unopened_of_quote first (blanks.shed.unsigned hsign))
      exact behindQuote.symm.trans blanks.shed.behindLink_iff.symm
    · exact blanks.shed.behindLink_iff.symm
  · exact blanks.shed.behindLink_iff.symm

/-- Only plain tokens stand between the wrapper and the path. -/
theorem shed_of_mem_referenceIn {reference : ReferredPath}
    (h : reference ∈ referenceIn text region) :
    Shed plainTokens text (stripWrapper text (stripQuotes text (trimRegion text region))).start
      reference.start := by
  have whole := inside_unwrapped text region
  unfold referenceIn at h
  dsimp only at h
  split at h
  · rw [List.mem_singleton.1 h]
    exact whole.shed
  · split at h
    · rw [List.mem_singleton.1 h]
      exact ((inside_trimRegion text _).trans <| (inside_cutAt ['('] text _).trans <|
        (inside_cutAt [':', ':'] text _).trans whole).shed
    · contradiction

/-- **What decides whether a path is taken for a link**: its wrapper, and without one
    the nearest opening in front of the region. -/
theorem isLink_iff_of_mem_referenceIn {reference : ReferredPath}
    (hsign : Unsigned text region.start) (h : reference ∈ referenceIn text region) :
    isLink text reference = true ↔ wrappedAsLink text region = true ∨
      (wrappedAsFragment text region = false ∧ BehindLink text region.start) := by
  have path := (shed_of_mem_referenceIn h).behindLink_iff
  rw [isLink_iff, ← path]
  unfold stripWrapper
  by_cases hlink : wrappedAsLink text region = true
  · rw [if_pos (Bool.or_eq_true _ _ ▸ .inl hlink)]
    exact iff_of_true (behindLink_of_occursAt hlink) (.inl hlink)
  · by_cases hfragment : wrappedAsFragment text region = true
    · rw [if_pos (Bool.or_eq_true _ _ ▸ .inr hfragment)]
      refine iff_of_false (not_behindLink_of_occursAt (by decide) hfragment) ?_
      rintro (h | ⟨h, -⟩)
      · exact hlink h
      · exact Bool.eq_false_iff.1 h hfragment
    · rw [if_neg fun h => (Bool.or_eq_true _ _ ▸ h).elim hlink hfragment, or_iff_right hlink,
        and_iff_right (Bool.eq_false_iff.2 hfragment)]
      exact behindLink_wrapperPlace hsign

end Opening

end TemplateAnalysis.Reference
