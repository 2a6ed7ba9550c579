import TemplateAnalysis.Proofs.Expression.Spans
import TemplateAnalysis.Proofs.Markup.Attribute
import TemplateAnalysis.Proofs.Text.Search
import TemplateAnalysis.Reference.Find

/-! # References lie in their regions

    A region only ever gets narrower on the way to a reference, whatever the
    text is:

    * **`opens_of_mem_referenceIn`**: a reference that a region makes is a
      stretch of that region, not empty and without blanks at its ends, and a
      path unless it is computed before all else; nothing that stands in front
      of it in the region could be the start of an attribute.

    What falls away at the front of a region is of a few kinds only. That no
    attribute starts in it will tell the references of attributes from those of
    the expressions around them.
-/

namespace TemplateAnalysis.Reference

open Text Expression Markup

/-! ## Where no attribute starts -/

/-- Can the name of an attribute that refers to templates start like this? -/
def startsAttribute (c : Char) : Bool :=
  referenceAttributes.any fun name => name.toList.head? == some c

/-- No attribute that refers to templates starts at the position: the character
    is none that starts a name, or it continues one. -/
def Idle (text : List Char) (position : Nat) : Prop :=
  charAt text position startsAttribute = false ∨ endsInName (text.take position) = true

/-- The same for every position of a token, wherever it stands. -/
def idleToken (token : List Char) : Bool :=
  (List.range token.length).all fun k =>
    !(charAt token k startsAttribute) || endsInName (token.take k)

theorem charAt_eq_false_of {text : List Char} {position : Nat} {test other : Char → Bool}
    (h : charAt text position test = true) (hne : ∀ c, test c = true → other c = false) :
    charAt text position other = false := by
  unfold charAt at h ⊢
  obtain ⟨c, hc, ht⟩ := (Option.any_eq_true _ _).1 h
  rw [hc]
  exact hne c ht

theorem startsAttribute_cases {c : Char} (h : startsAttribute c = true) : c = 't' ∨ c = 'l' := by
  have first : 't' = c ∨ 'l' = c := by simpa [startsAttribute, referenceAttributes] using h
  exact first.imp Eq.symm Eq.symm

theorem startsAttribute_eq_false_of_isBlank {c : Char} (h : isBlank c = true) :
    startsAttribute c = false := by
  cases hs : startsAttribute c with
  | false => rfl
  | true =>
    rcases startsAttribute_cases hs with rfl | rfl
    · revert h
      decide
    · revert h
      decide

/-- No attribute starts in a token that is of no use to one. -/
theorem idle_of_occursAt {token text : List Char} {start i : Nat}
    (hidle : idleToken token = true) (h : occursAt token text start = true) (hs : start ≤ i)
    (hi : i < start + token.length) : Idle text i := by
  obtain ⟨rest, hrest⟩ := List.isPrefixOf_iff_prefix.1 h
  obtain ⟨k, rfl⟩ := Nat.exists_eq_add_of_le hs
  have hk : k < token.length := by omega
  have hstart : start ≤ text.length := by
    have hlen := congrArg List.length hrest
    rw [List.length_append, List.length_drop] at hlen
    omega
  have whole : text = text.take start ++ (token ++ rest) := by
    rw [hrest, List.take_append_drop]
  have here : text[start + k]? = token[k]? := getElem?_of_occursAt h hk
  have before : text.take (start + k) = text.take start ++ token.take k := by
    rw [List.take_add, ← hrest, List.take_append_of_le_length (Nat.le_of_lt hk)]
  have hcheck := List.all_eq_true.1 hidle k (List.mem_range.2 hk)
  rcases Bool.or_eq_true _ _ ▸ hcheck with hc | hc
  · refine .inl ?_
    rw [charAt, here]
    simpa [charAt] using hc
  · refine .inr ?_
    unfold endsInName at hc ⊢
    rw [before, List.getLast?_append]
    cases hl : (token.take k).getLast? with
    | none => simp [hl] at hc
    | some last => rwa [hl] at hc

/-! ## What falls away -/

/-- The tokens that fall away in front of a path and open nothing. -/
def plainTokens : List (List Char) :=
  ['|'] :: ['~', '/'] :: ['/'] :: resolverPrefixes

/-- All tokens that fall away in front of a path: quotes and wrappers as well. -/
def shedTokens : List (List Char) :=
  ['\''] :: ['"'] :: ['@', '{'] :: ['~', '{'] :: plainTokens

/-- Nothing but blanks and the given tokens stands between two positions. -/
inductive Shed (tokens : List (List Char)) (text : List Char) (start : Nat) : Nat → Prop
  | refl : Shed tokens text start start
  | blank {stop : Nat} (before : Shed tokens text start stop)
      (h : charAt text stop isBlank = true) : Shed tokens text start (stop + 1)
  | token {stop : Nat} {token : List Char} (before : Shed tokens text start stop)
      (hmem : token ∈ tokens) (h : occursAt token text stop = true) :
      Shed tokens text start (stop + token.length)

section Shedding

variable {tokens others : List (List Char)} {text : List Char} {start middle stop : Nat}

theorem Shed.le (h : Shed tokens text start stop) : start ≤ stop := by
  induction h with
  | refl => exact Nat.le_refl _
  | blank _ _ ih => exact Nat.le_succ_of_le ih
  | token _ _ _ ih => exact Nat.le_add_right_of_le ih

theorem Shed.trans (h : Shed tokens text start middle) (h' : Shed tokens text middle stop) :
    Shed tokens text start stop := by
  induction h' with
  | refl => exact h
  | blank _ hblank ih => exact ih.blank hblank
  | token _ hmem htoken ih => exact ih.token hmem htoken

theorem Shed.mono (hsub : tokens ⊆ others) (h : Shed tokens text start stop) :
    Shed others text start stop := by
  induction h with
  | refl => exact .refl
  | blank _ hblank ih => exact ih.blank hblank
  | token _ hmem htoken ih => exact ih.token (hsub hmem) htoken

/-- A single character is shed. -/
theorem Shed.char {c : Char} (hmem : [c] ∈ tokens) (h : charAt text start (· == c) = true) :
    Shed tokens text start (start + 1) := by
  obtain ⟨d, hd, hc⟩ := (Option.any_eq_true _ _).1 h
  obtain rfl : d = c := by simpa using hc
  exact Shed.token .refl hmem (occursAt_cons.2 ⟨hd, occursAt_nil _ _⟩)

/-- What is true of every blank and of every position of a token. -/
theorem Shed.forall_between {P : Nat → Prop} (h : Shed tokens text start stop)
    (hblank : ∀ i, charAt text i isBlank = true → P i)
    (htoken : ∀ token ∈ tokens, ∀ position, occursAt token text position = true →
      ∀ i, position ≤ i → i < position + token.length → P i) :
    ∀ i, start ≤ i → i < stop → P i := by
  induction h with
  | refl => exact fun i hs hi => absurd hs (Nat.not_le_of_lt hi)
  | blank _ hb ih =>
    intro i hs hi
    rcases Nat.lt_succ_iff_lt_or_eq.1 hi with hlt | rfl
    · exact ih i hs hlt
    · exact hblank i hb
  | @token middle token _ hmem ht ih =>
    intro i hs hi
    rcases Nat.lt_or_ge i middle with hlt | hge
    · exact ih i hs hlt
    · exact htoken token hmem middle ht i hge hi

/-- No attribute starts in what is shed. -/
theorem Shed.idle (h : Shed shedTokens text start stop) :
    ∀ i, start ≤ i → i < stop → Idle text i := by
  have idle : ∀ token ∈ shedTokens, idleToken token = true := by decide
  refine h.forall_between (fun i hblank => ?_) fun token hmem position ht i => ?_
  · exact .inl (charAt_eq_false_of hblank fun _ => startsAttribute_eq_false_of_isBlank)
  · exact idle_of_occursAt (idle token hmem) ht

end Shedding

/-! ## Narrower regions -/

/-- The region lies in another, and in front of it only some tokens fall away. -/
structure Inside (tokens : List (List Char)) (text : List Char) (inner outer : Span) : Prop where
  shed : Shed tokens text outer.start inner.start
  stop_le : inner.stop ≤ outer.stop

section Narrowing

variable {tokens others : List (List Char)} {text : List Char} {inner middle outer : Span}

theorem Inside.start_le (h : Inside tokens text inner outer) : outer.start ≤ inner.start :=
  h.shed.le

theorem Inside.refl (text : List Char) (region : Span) : Inside tokens text region region :=
  ⟨.refl, Nat.le_refl _⟩

theorem Inside.trans (h : Inside tokens text inner middle) (h' : Inside tokens text middle outer) :
    Inside tokens text inner outer :=
  ⟨h'.shed.trans h.shed, Nat.le_trans h.stop_le h'.stop_le⟩

theorem Inside.mono (hsub : tokens ⊆ others) (h : Inside tokens text inner outer) :
    Inside others text inner outer :=
  ⟨h.shed.mono hsub, h.stop_le⟩

/-- The end of a region moves back. -/
theorem inside_of_stop_le {region : Span} {stop : Nat} (h : stop ≤ region.stop) :
    Inside tokens text ⟨region.start, stop⟩ region :=
  ⟨.refl, h⟩

theorem inside_trimFront (text : List Char) (region : Span) :
    Inside tokens text (trimFront text region) region := by
  fun_induction trimFront text region with
  | case1 region _ hblank ih => exact ih.trans ⟨Shed.refl.blank hblank, Nat.le_refl _⟩
  | case2 region _ _ => exact .refl text region
  | case3 region _ => exact .refl text region

theorem inside_trimBack (text : List Char) (region : Span) :
    Inside tokens text (trimBack text region) region := by
  fun_induction trimBack text region with
  | case1 region _ _ ih => exact ih.trans (inside_of_stop_le (Nat.sub_le _ _))
  | case2 region _ _ => exact .refl text region
  | case3 region _ => exact .refl text region

theorem inside_trimRegion (text : List Char) (region : Span) :
    Inside tokens text (trimRegion text region) region :=
  (inside_trimBack text _).trans (inside_trimFront text region)

theorem inside_stripBars (text : List Char) (region : Span) :
    Inside plainTokens text (stripBars text region) region := by
  unfold stripBars
  refine .trans ?_ (inside_trimRegion text region)
  dsimp only
  split
  · rename_i h
    simp only [Bool.and_eq_true] at h
    exact (inside_trimRegion text _).trans ⟨Shed.char (by decide) h.1.2, Nat.sub_le _ _⟩
  · exact .refl text _

theorem inside_cutAt (token text : List Char) (region : Span) :
    Inside tokens text (cutAt token text region) region := by
  unfold cutAt
  split
  · rename_i stop h
    exact inside_of_stop_le (Nat.le_of_lt (findTopLevelIn_bounds h).2)
  · exact .refl text region

theorem inside_dropToken {token : List Char} (hmem : token ∈ tokens) (text : List Char)
    (region : Span) : Inside tokens text (dropToken token text region) region := by
  unfold dropToken
  split
  · rename_i h
    exact ⟨Shed.refl.token hmem h, Nat.le_refl _⟩
  · exact .refl text region

theorem inside_stripQuotes (text : List Char) (region : Span) :
    Inside shedTokens text (stripQuotes text region) region := by
  unfold stripQuotes
  split
  · rename_i quote hquote
    split
    · rename_i h
      have hq := (Bool.and_eq_true _ _ ▸ h).2
      have first : charAt text region.start (· == quote) = true := by
        rw [charAt, hquote, Option.any_some, beq_self_eq_true]
      have quotes : quote = '\'' ∨ quote = '"' := by simpa [isQuote] using hq
      have shed : Shed shedTokens text region.start (region.start + 1) := by
        rcases quotes with rfl | rfl
        · exact Shed.char (by decide) first
        · exact Shed.char (by decide) first
      refine ⟨shed, ?_⟩
      dsimp only
      split
      · exact Nat.sub_le _ _
      · exact Nat.le_refl _
    · exact .refl text region
  · exact .refl text region

theorem inside_stripWrapper (text : List Char) (region : Span) :
    Inside shedTokens text (stripWrapper text region) region := by
  unfold stripWrapper
  split
  · rename_i h
    have shed : Shed shedTokens text region.start (region.start + 2) := by
      rcases Bool.or_eq_true _ _ ▸ h with h | h
      · exact Shed.refl.token (by decide) h
      · exact Shed.refl.token (by decide) h
    refine ⟨shed, ?_⟩
    dsimp only
    split
    · exact Nat.sub_le _ _
    · exact Nat.le_refl _
  · exact .refl text region

theorem inside_stripResolver (text : List Char) (region : Span) :
    Inside plainTokens text (stripResolver text region) region := by
  unfold stripResolver
  split
  · rename_i found hfound
    have hoccurs : occursAt found text region.start = true := by
      simpa using List.find?_some hfound
    have plain : resolverPrefixes ⊆ plainTokens := by decide
    exact ⟨Shed.refl.token (plain (List.mem_of_find?_eq_some hfound)) hoccurs, Nat.le_refl _⟩
  · exact .refl text region

/-- Behind the quotes and the wrapper only plain tokens fall away. -/
theorem inside_unwrapped (text : List Char) (region : Span) :
    Inside plainTokens text (pathRegion text region)
      (stripWrapper text (stripQuotes text (trimRegion text region))) :=
  (inside_dropToken (by decide) text _).trans <|
    (inside_dropToken (by decide) text _).trans <|
    (inside_stripResolver text _).trans (inside_stripBars text _)

theorem plainTokens_subset : plainTokens ⊆ shedTokens := by
  decide

theorem inside_pathRegion (text : List Char) (region : Span) :
    Inside shedTokens text (pathRegion text region) region :=
  ((inside_unwrapped text region).mono plainTokens_subset).trans <|
    (inside_stripWrapper text _).trans <|
    (inside_stripQuotes text _).trans (inside_trimRegion text region)

end Narrowing

/-! ## What a region holds -/

theorem notBlank_trimFront {text : List Char} {region : Span}
    (h : (trimFront text region).start < (trimFront text region).stop) :
    charAt text (trimFront text region).start isBlank = false := by
  fun_induction trimFront text region with
  | case1 region _ _ ih => exact ih h
  | case2 region _ hblank => simpa using hblank
  | case3 region hempty => exact absurd h hempty

theorem start_trimBack (text : List Char) (region : Span) :
    (trimBack text region).start = region.start := by
  fun_induction trimBack text region with
  | case1 region _ _ ih => exact ih
  | case2 region _ _ => rfl
  | case3 region _ => rfl

theorem notBlank_trimBack {text : List Char} {region : Span}
    (h : (trimBack text region).start < (trimBack text region).stop) :
    charAt text ((trimBack text region).stop - 1) isBlank = false := by
  fun_induction trimBack text region with
  | case1 region _ _ ih => exact ih h
  | case2 region _ hblank => simpa using hblank
  | case3 region hempty => exact absurd h hempty

/-- A trimmed region has no blank at either end. -/
theorem notBlank_trimRegion (text : List Char) (region : Span)
    (h : (trimRegion text region).start < (trimRegion text region).stop) :
    charAt text (trimRegion text region).start isBlank = false ∧
      charAt text ((trimRegion text region).stop - 1) isBlank = false := by
  unfold trimRegion at h ⊢
  refine ⟨?_, notBlank_trimBack h⟩
  have back : Inside plainTokens text (trimBack text (trimFront text region)) _ :=
    inside_trimBack text (trimFront text region)
  rw [start_trimBack] at h ⊢
  exact notBlank_trimFront (Nat.lt_of_lt_of_le h back.stop_le)

/-- A text is trimmed when there is no blank at either end of it. -/
theorem trim_eq_self {cs : List Char} (hfirst : ∀ c, cs.head? = some c → isBlank c = false)
    (hlast : ∀ c, cs.getLast? = some c → isBlank c = false) : trim cs = cs := by
  have left : trimLeft cs = cs := by
    cases cs with
    | nil => rfl
    | cons c rest => exact trimLeft_cons (hfirst c rfl) rest
  unfold trim trimRight
  rw [left]
  cases hr : cs.reverse with
  | nil => rw [List.reverse_eq_nil_iff.1 hr]; rfl
  | cons c rest =>
    have hc : cs.getLast? = some c := by rw [← List.head?_reverse, hr]; rfl
    rw [List.dropWhile_cons_of_neg (by simp [hlast c hc]), ← hr, List.reverse_reverse]

/-- A region without blanks at its ends holds a trimmed text. -/
theorem trim_slice {text : List Char} {region : Span} (hstop : region.stop ≤ text.length)
    (hfirst : charAt text region.start isBlank = false)
    (hlast : charAt text (region.stop - 1) isBlank = false) :
    trim (region.slice text) = region.slice text := by
  have hlen := length_slice hstop
  by_cases hlt : region.start < region.stop
  · refine trim_eq_self (fun c hc => ?_) (fun c hc => ?_)
    · rw [List.head?_eq_getElem?, getElem?_slice (by omega), Nat.add_zero] at hc
      simpa [charAt, hc] using hfirst
    · rw [List.getLast?_eq_getElem?, hlen, getElem?_slice (by omega),
        show region.start + (region.stop - region.start - 1) = region.stop - 1 by omega] at hc
      simpa [charAt, hc] using hlast
  · have : region.slice text = [] := List.eq_nil_of_length_eq_zero (by omega)
    rw [this]
    rfl

/-! ## References in a region -/

/-- A reference that was cut out of a region of the text. -/
structure ReferredPath.InRegion (text : List Char) (region : Span) (reference : ReferredPath) :
    Prop where
  start_le : region.start ≤ reference.start
  stop_le : reference.stop ≤ region.stop
  slice_eq : Span.slice ⟨reference.start, reference.stop⟩ text = reference.path
  ne_nil : reference.path ≠ []
  trim_eq : trim reference.path = reference.path
  kind : isPath reference.path = true ∨ isPreprocessed reference.path = true

/-- A reference in a region that has nothing in front of it where an attribute
    could start. -/
structure ReferredPath.Opens (text : List Char) (region : Span) (reference : ReferredPath) :
    Prop extends reference.InRegion text region where
  idle : ∀ i, region.start ≤ i → i < reference.start → Idle text i

theorem ReferredPath.InRegion.mono {text : List Char} {inner outer : Span}
    {reference : ReferredPath} (h : reference.InRegion text inner)
    (hstart : outer.start ≤ inner.start) (hstop : inner.stop ≤ outer.stop) :
    reference.InRegion text outer :=
  { h with
    start_le := Nat.le_trans hstart h.start_le
    stop_le := Nat.le_trans h.stop_le hstop }

theorem ReferredPath.Opens.mono {text : List Char} {inner outer : Span}
    {reference : ReferredPath} (h : reference.Opens text inner)
    (hi : Inside shedTokens text inner outer) : reference.Opens text outer := by
  refine ⟨h.toInRegion.mono hi.start_le hi.stop_le, fun i hs hlt => ?_⟩
  by_cases hm : i < inner.start
  · exact hi.shed.idle i hs hm
  · exact h.idle i (by omega) hlt

/-- What a region holds is a reference in it. -/
theorem opens_slice {text : List Char} {region : Span} (hstop : region.stop ≤ text.length)
    (hne : region.slice text ≠ []) (htrim : trim (region.slice text) = region.slice text)
    (hkind : isPath (region.slice text) = true ∨ isPreprocessed (region.slice text) = true) :
    ReferredPath.Opens text region ⟨region.slice text, region.start⟩ := by
  have hpos := List.length_pos_iff.2 hne
  have hlen := length_slice hstop
  have hend : ReferredPath.stop ⟨region.slice text, region.start⟩ = region.stop := by
    simp only [ReferredPath.stop]
    omega
  exact ⟨⟨Nat.le_refl _, Nat.le_of_eq hend, by rw [hend], hne, htrim, hkind⟩,
    fun _ hs hi => absurd hs (Nat.not_le_of_lt hi)⟩

/-- A path is not empty. -/
theorem ne_nil_of_isPath {path : List Char} (h : isPath path = true) : path ≠ [] := by
  rintro rfl
  revert h
  decide +kernel

/-- A preprocessed path has an underscore at either end. -/
theorem ends_of_isPreprocessed {path : List Char} (h : isPreprocessed path = true) :
    path.head? = some '_' ∧ path.getLast? = some '_' := by
  simp only [isPreprocessed, Bool.and_eq_true, List.isPrefixOf_iff_prefix,
    List.isSuffixOf_iff_suffix] at h
  obtain ⟨⟨-, rest, hp⟩, front, hs⟩ := h
  refine ⟨by rw [← hp]; rfl, ?_⟩
  rw [← hs, show front ++ ['_', '_'] = front ++ ['_'] ++ ['_'] by simp, List.getLast?_concat]

/-- **What a region refers to lies in it.** -/
theorem opens_of_mem_referenceIn {text : List Char} {region : Span} {reference : ReferredPath}
    (hstop : region.stop ≤ text.length) (h : reference ∈ referenceIn text region) :
    reference.Opens text region := by
  have whole := inside_pathRegion text region
  unfold referenceIn at h
  dsimp only at h
  split at h
  · rename_i hpre
    obtain rfl := List.mem_singleton.1 h
    obtain ⟨hfirst, hlast⟩ := ends_of_isPreprocessed hpre
    refine (opens_slice (Nat.le_trans whole.stop_le hstop) ?_ ?_ (.inr hpre)).mono whole
    · intro hnil
      simp [hnil] at hfirst
    · refine trim_eq_self (fun c hc => ?_) (fun c hc => ?_)
      · obtain rfl := Option.some.inj (hfirst.symm.trans hc)
        decide
      · obtain rfl := Option.some.inj (hlast.symm.trans hc)
        decide
  · split at h
    · rename_i hpath
      obtain rfl := List.mem_singleton.1 h
      have named := (inside_trimRegion text _).trans <|
        (inside_cutAt ['('] text _).trans <| (inside_cutAt [':', ':'] text _).trans whole
      have hne := ne_nil_of_isPath hpath
      have hlen := length_slice (Nat.le_trans named.stop_le hstop)
      have hpos := List.length_pos_iff.2 hne
      obtain ⟨hfirst, hlast⟩ := notBlank_trimRegion text
        (cutAt ['('] text (cutAt [':', ':'] text (pathRegion text region))) (by omega)
      exact (opens_slice (Nat.le_trans named.stop_le hstop) hne
        (trim_slice (Nat.le_trans named.stop_le hstop) hfirst hlast) (.inl hpath)).mono named
    · simp at h

/-- A region makes one reference at most. -/
theorem pairwise_referenceIn (R : ReferredPath → ReferredPath → Prop) (text : List Char)
    (region : Span) : (referenceIn text region).Pairwise R := by
  unfold referenceIn
  dsimp only
  split
  · exact List.pairwise_singleton _ _
  · split
    · exact List.pairwise_singleton _ _
    · exact List.Pairwise.nil

theorem opens_of_mem_fragmentReferences {text : List Char} {region : Span}
    {reference : ReferredPath} (hstop : region.stop ≤ text.length)
    (h : reference ∈ fragmentReferences text region) : reference.Opens text region := by
  have cut : Inside shedTokens text _ region := inside_cutAt [':', ':'] text region
  exact (opens_of_mem_referenceIn (Nat.le_trans cut.stop_le hstop) h).mono cut

theorem opens_of_mem_linkReferences {text : List Char} {region : Span}
    {reference : ReferredPath} (hstop : region.stop ≤ text.length)
    (h : reference ∈ linkReferences text region) : reference.Opens text region := by
  have cut := (inside_cutAt ['#'] text _).trans <| (inside_cutAt ['?'] text _).trans <|
    (inside_cutAt ['('] text _).trans (inside_stripBars text region)
  exact (opens_of_mem_referenceIn (Nat.le_trans cut.stop_le hstop) h).mono
    (cut.mono plainTokens_subset)

end TemplateAnalysis.Reference
