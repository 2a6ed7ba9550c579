import Mathlib.Data.List.Induction
import TemplateAnalysis.Proofs.Expression.Nested
import TemplateAnalysis.Proofs.Reference.Region

/-! # What regions hold

    A reading maps a region to a narrower one, step by step. What the narrower
    one holds follows from what the wider one held:

    * **`trimRegion_eq`**: trimming leaves what stands between the blanks;
    * **`stripBars_bars`**, **`stripQuotes_inQuotes`**: bars and quotes fall away
      in pairs;
    * **`stripResolver_append`**, **`dropToken_append`**: a token falls away at
      the front;
    * **`cutAt_token`**: a region ends where a token first is in sight.

    For every step there is a second lemma, for a region that it leaves as it is.
-/

namespace TemplateAnalysis.Reference

open Text Expression

/-! ## What a region holds -/

/-- The region holds a text, and another stands behind it. -/
structure Holds (text : List Char) (region : Span) (cs rest : List Char) : Prop where
  drop_start : text.drop region.start = cs ++ rest
  stop_eq : region.stop = region.start + cs.length

section Holding

variable {text cs ds rest front back : List Char} {region : Span} {start stop : Nat}

theorem Holds.left (h : Holds text region (cs ++ ds) rest) :
    Holds text ⟨region.start, region.start + cs.length⟩ cs (ds ++ rest) :=
  ⟨by rw [h.drop_start, List.append_assoc], rfl⟩

theorem Holds.right (h : Holds text region (cs ++ ds) rest) :
    Holds text ⟨region.start + cs.length, region.stop⟩ ds rest := by
  refine ⟨?_, ?_⟩
  · rw [← List.drop_drop, h.drop_start, List.append_assoc, List.drop_left]
  · rw [h.stop_eq, List.length_append, Nat.add_assoc]

theorem Holds.inner (h : Holds text region (front ++ (cs ++ back)) rest) :
    Holds text ⟨region.start + front.length, region.stop - back.length⟩ cs (back ++ rest) := by
  have narrowed := h.right.left
  have hstop : region.stop - back.length = region.start + front.length + cs.length := by
    rw [h.stop_eq]
    simp only [List.length_append]
    omega
  rw [hstop]
  exact narrowed

theorem Holds.getElem?_start (h : Holds text region cs rest) :
    text[region.start]? = (cs ++ rest).head? := by
  rw [← h.drop_start, List.head?_drop]

theorem Holds.charAt_start (h : Holds text region cs rest) (test : Char → Bool) :
    charAt text region.start test = (cs ++ rest).head?.any test := by
  rw [charAt, h.getElem?_start]

/-- The last character of a region that is not empty. -/
theorem Holds.getElem?_last (h : Holds text region cs rest) (hne : cs ≠ []) :
    text[region.stop - 1]? = cs.getLast? := by
  have hpos := List.length_pos_iff.2 hne
  rw [List.getLast?_eq_getElem?, h.stop_eq,
    show region.start + cs.length - 1 = region.start + (cs.length - 1) by omega,
    ← List.getElem?_drop, h.drop_start, List.getElem?_append_left (by omega)]

theorem Holds.charAt_last (h : Holds text region cs rest) (hne : cs ≠ []) (test : Char → Bool) :
    charAt text (region.stop - 1) test = cs.getLast?.any test := by
  rw [charAt, h.getElem?_last hne]

theorem Holds.slice_eq (h : Holds text region cs rest) : region.slice text = cs := by
  rw [Span.slice, List.extract_eq_take_drop, h.drop_start, h.stop_eq, Nat.add_sub_cancel_left,
    List.take_left]

theorem Holds.occursAt_eq (h : Holds text region cs rest) (token : List Char) :
    occursAt token text region.start = token.isPrefixOf (cs ++ rest) := by
  rw [occursAt, h.drop_start]

theorem Holds.findTopLevelIn_eq (h : Holds text region cs rest) (token : List Char) :
    findTopLevelIn token text region.start region.stop =
      (topLevelOffset token {} cs.length (cs ++ rest)).map (· + region.start) := by
  rw [findTopLevelIn, h.drop_start, h.stop_eq, Nat.add_sub_cancel_left]

theorem Holds.start_lt_stop (h : Holds text region cs rest) (hne : cs ≠ []) :
    region.start < region.stop := by
  have hpos := List.length_pos_iff.2 hne
  rw [h.stop_eq]
  omega

/-! ## Blanks at the ends -/

/-- A text that is not empty and has no blank at either end. -/
structure Solid (cs : List Char) : Prop where
  ne_nil : cs ≠ []
  first : ∀ c, cs.head? = some c → isBlank c = false
  last : ∀ c, cs.getLast? = some c → isBlank c = false

theorem Solid.head?_append (hcs : Solid cs) (rest : List Char) :
    ∃ c, (cs ++ rest).head? = some c ∧ isBlank c = false := by
  obtain ⟨c, others, rfl⟩ := List.exists_cons_of_ne_nil hcs.ne_nil
  exact ⟨c, rfl, hcs.first c rfl⟩

theorem Solid.append (hcs : Solid cs)
    (hds : ∀ c, ds.getLast? = some c → isBlank c = false) : Solid (cs ++ ds) := by
  refine ⟨by simp [hcs.ne_nil], fun c hc => ?_, fun c hc => ?_⟩
  · obtain ⟨d, hd, hblank⟩ := hcs.head?_append ds
    obtain rfl := Option.some.inj (hd.symm.trans hc)
    exact hblank
  · rw [List.getLast?_append] at hc
    cases hl : ds.getLast? with
    | none =>
      rw [hl] at hc
      exact hcs.last c hc
    | some d =>
      rw [hl] at hc
      exact hds c (hl.trans hc)

theorem trimFront_eq (h : Holds text region (front ++ (cs ++ back)) rest)
    (hfront : ∀ c ∈ front, isBlank c = true) (hcs : Solid cs) :
    trimFront text region = ⟨region.start + front.length, region.stop⟩ := by
  have hne := hcs.ne_nil
  induction front generalizing region with
  | nil =>
    obtain ⟨c, hc, hblank⟩ := hcs.head?_append (back ++ rest)
    rw [trimFront, if_pos (h.start_lt_stop (by simp [hne])), h.charAt_start, List.nil_append,
      List.append_assoc, hc, Option.any_some, if_neg (by simp [hblank])]
    rfl
  | cons c front ih =>
    have next : Holds text ⟨region.start + 1, region.stop⟩ (front ++ (cs ++ back)) rest :=
      @Holds.right text [c] (front ++ (cs ++ back)) rest region h
    rw [trimFront, if_pos (h.start_lt_stop (by simp)), h.charAt_start,
      if_pos (by simp [hfront c List.mem_cons_self]),
      ih next fun d hd => hfront d (List.mem_cons_of_mem c hd)]
    simp only [List.length_cons, Span.mk.injEq, and_true]
    omega

theorem trimBack_eq (h : Holds text region (cs ++ back) rest)
    (hback : ∀ c ∈ back, isBlank c = true) (hcs : Solid cs) :
    trimBack text region = ⟨region.start, region.start + cs.length⟩ := by
  induction back using List.reverseRecOn generalizing region rest with
  | nil =>
    rw [List.append_nil] at h
    rw [trimBack, if_pos (h.start_lt_stop hcs.ne_nil), h.charAt_last hcs.ne_nil]
    cases hl : cs.getLast? with
    | none => exact absurd (List.getLast?_eq_none_iff.1 hl) hcs.ne_nil
    | some c =>
      rw [if_neg (by simp [hcs.last c hl]), ← h.stop_eq]
  | append_singleton back c ih =>
    have hne : cs ++ (back ++ [c]) ≠ [] := by simp
    rw [trimBack, if_pos (h.start_lt_stop hne), h.charAt_last hne]
    have hlast : (cs ++ (back ++ [c])).getLast? = some c := by
      rw [← List.append_assoc, List.getLast?_concat]
    have next : Holds text ⟨region.start, region.stop - 1⟩ (cs ++ back) (c :: rest) := by
      rw [← List.append_assoc] at h
      exact @Holds.inner text (cs ++ back) rest [] [c] region h
    rw [if_pos (by simp [hlast, hback c (by simp)])]
    exact ih next fun d hd => hback d (List.mem_append_left _ hd)

/-- Trimming leaves what is between the blanks. -/
theorem trimRegion_eq (h : Holds text region (front ++ (cs ++ back)) rest)
    (hfront : ∀ c ∈ front, isBlank c = true) (hback : ∀ c ∈ back, isBlank c = true)
    (hcs : Solid cs) :
    trimRegion text region =
      ⟨region.start + front.length, region.start + front.length + cs.length⟩ := by
  rw [trimRegion, trimFront_eq h hfront hcs]
  exact trimBack_eq h.right hback hcs

theorem trimRegion_eq_self (h : Holds text region cs rest) (hcs : Solid cs) :
    trimRegion text region = region := by
  have plain : Holds text region ([] ++ (cs ++ [])) rest := by simpa using h
  rw [trimRegion_eq plain (by simp) (by simp) hcs, List.length_nil, Nat.add_zero, ← h.stop_eq]

/-! ## Bars, quotes and wrappers -/

theorem getLast?_enclosed {α : Type} (a b : α) (between : List α) :
    (a :: (between ++ [b])).getLast? = some b := by
  rw [← List.cons_append, List.getLast?_concat]

theorem solid_enclosed {c d : Char} (hc : isBlank c = false) (hd : isBlank d = false)
    (cs : List Char) : Solid (c :: (cs ++ [d])) := by
  refine ⟨by simp, fun a ha => ?_, fun a ha => ?_⟩
  · obtain rfl := Option.some.inj ha
    exact hc
  · rw [getLast?_enclosed] at ha
    obtain rfl := Option.some.inj ha
    exact hd

theorem Holds.inQuotes {inner : List Char} (h : Holds text region (inQuotes inner) rest) :
    Holds text ⟨region.start + 1, region.stop - 1⟩ inner ('\'' :: rest) :=
  @Holds.inner text inner rest ['\''] ['\''] region h

theorem Holds.bars {inner : List Char} (h : Holds text region ('|' :: (inner ++ ['|'])) rest) :
    Holds text ⟨region.start + 1, region.stop - 1⟩ inner ('|' :: rest) :=
  @Holds.inner text inner rest ['|'] ['|'] region h

theorem stripBars_eq_self (h : Holds text region cs rest) (hcs : Solid cs)
    (hbar : cs.head? ≠ some '|') : stripBars text region = region := by
  obtain ⟨c, others, rfl⟩ := List.exists_cons_of_ne_nil hcs.ne_nil
  have hc : c ≠ '|' := by simpa using hbar
  unfold stripBars
  rw [trimRegion_eq_self h hcs]
  dsimp only
  rw [h.charAt_start, if_neg (by simp [hc])]

theorem stripBars_bars (h : Holds text region ('|' :: (cs ++ ['|'])) rest) (hcs : Solid cs) :
    stripBars text region = ⟨region.start + 1, region.stop - 1⟩ := by
  have hroom : region.start + 2 ≤ region.stop := by
    rw [h.stop_eq]
    simp only [List.length_cons, List.length_append, List.length_nil]
    omega
  unfold stripBars
  rw [trimRegion_eq_self h (solid_enclosed (by decide) (by decide) cs)]
  dsimp only
  rw [h.charAt_start, h.charAt_last (by simp), getLast?_enclosed, if_pos (by simp [hroom]),
    trimRegion_eq_self h.bars hcs]

theorem stripQuotes_eq_self (h : Holds text region cs rest) (hcs : cs ≠ [])
    (hquote : ∀ c, cs.head? = some c → isQuote c = false) : stripQuotes text region = region := by
  obtain ⟨c, others, rfl⟩ := List.exists_cons_of_ne_nil hcs
  unfold stripQuotes
  rw [h.getElem?_start]
  simp [hquote c rfl]

theorem stripQuotes_inQuotes (h : Holds text region (inQuotes cs) rest) (hcs : cs ≠ []) :
    stripQuotes text region = ⟨region.start + 1, region.stop - 1⟩ := by
  have hpos := List.length_pos_iff.2 hcs
  have hroom : region.start + 1 < region.stop := by
    rw [h.stop_eq, inQuotes]
    simp only [List.length_cons, List.length_append, List.length_nil]
    omega
  have hend : charAt text (region.stop - 1) (· == '\'') = true := by
    rw [h.charAt_last (by simp [Expression.inQuotes]), Expression.inQuotes, getLast?_enclosed]
    rfl
  unfold stripQuotes
  rw [h.getElem?_start]
  simp [inQuotes, isQuote, hroom, Nat.lt_of_succ_lt hroom, hend]

theorem stripWrapper_eq_self (h : Holds text region cs rest)
    (hlink : ['@', '{'].isPrefixOf (cs ++ rest) = false)
    (hfragment : ['~', '{'].isPrefixOf (cs ++ rest) = false) :
    stripWrapper text region = region := by
  unfold stripWrapper
  rw [h.occursAt_eq, h.occursAt_eq, hlink, hfragment]
  rfl

/-! ## Tokens -/

/-- A text that starts otherwise does not start with the token. -/
theorem isPrefixOf_append_eq_false {token : List Char}
    (h : (token.head?.any fun c => front.head?.any (· != c)) = true) (behind : List Char) :
    token.isPrefixOf (front ++ behind) = false := by
  cases token with
  | nil => simp at h
  | cons c token =>
    cases front with
    | nil => simp at h
    | cons d front =>
      have hne : c ≠ d := fun heq => by simp [heq] at h
      simp [List.isPrefixOf, hne]

theorem dropToken_append {token : List Char} (h : Holds text region (token ++ cs) rest) :
    dropToken token text region = ⟨region.start + token.length, region.stop⟩ := by
  unfold dropToken
  rw [h.occursAt_eq, if_pos]
  exact List.isPrefixOf_iff_prefix.2 ⟨cs ++ rest, by rw [List.append_assoc]⟩

theorem dropToken_eq_self {token : List Char} (h : Holds text region cs rest)
    (htoken : token.isPrefixOf (cs ++ rest) = false) : dropToken token text region = region := by
  unfold dropToken
  rw [h.occursAt_eq, htoken]
  rfl

theorem stripResolver_eq_self (h : Holds text region cs rest)
    (hmiss : ∀ token ∈ resolverPrefixes, token.isPrefixOf (cs ++ rest) = false) :
    stripResolver text region = region := by
  have none : resolverPrefixes.find? (fun token => occursAt token text region.start) = none := by
    rw [List.find?_eq_none]
    intro token htoken
    rw [h.occursAt_eq, hmiss token htoken]
    exact Bool.false_ne_true
  rw [stripResolver, none]

/-- The first resolver prefix that fits is dropped. -/
theorem stripResolver_append {token : List Char} {before after : List (List Char)}
    (h : Holds text region (token ++ cs) rest)
    (hprefixes : resolverPrefixes = before ++ token :: after)
    (hmiss : ∀ other ∈ before, other.isPrefixOf (token ++ cs ++ rest) = false) :
    stripResolver text region = ⟨region.start + token.length, region.stop⟩ := by
  have found : resolverPrefixes.find? (fun token => occursAt token text region.start) =
      some token := by
    rw [List.find?_eq_some_iff_append]
    refine ⟨?_, before, after, hprefixes, fun other hother => ?_⟩
    · rw [h.occursAt_eq, List.append_assoc]
      exact List.isPrefixOf_iff_prefix.2 (List.prefix_append _ _)
    · rw [h.occursAt_eq, hmiss other hother]
      rfl
  rw [stripResolver, found]

/-! ## Cutting -/

theorem findTopLevelIn_append {first : Char} {more : List Char}
    (hpass : Passes [first] ⟨.outside, 0⟩ ⟨.outside, 0⟩ cs)
    (h : Holds text region (cs ++ first :: more) rest) :
    findTopLevelIn [first] text region.start region.stop = some (region.start + cs.length) := by
  have found := hpass.eq_some (List.cons_ne_nil first []) more rest
  rw [h.findTopLevelIn_eq, List.append_assoc]
  simp only [List.singleton_append] at found
  rw [List.cons_append, found, Option.map_some, Nat.add_comm]

theorem cutAt_eq_self {token : List Char} {after : Nesting}
    (hpass : Passes token ⟨.outside, 0⟩ after cs) (h : Holds text region cs rest) :
    cutAt token text region = region := by
  unfold cutAt
  rw [h.findTopLevelIn_eq, hpass.eq_none]
  rfl

theorem cutAt_token {token more : List Char} (hne : token ≠ [])
    (hpass : Passes token ⟨.outside, 0⟩ ⟨.outside, 0⟩ cs)
    (h : Holds text region (cs ++ (token ++ more)) rest) :
    cutAt token text region = ⟨region.start, region.start + cs.length⟩ := by
  unfold cutAt
  rw [h.findTopLevelIn_eq, List.append_assoc, List.append_assoc, hpass.eq_some hne more rest]
  simp [Nat.add_comm]

end Holding

end TemplateAnalysis.Reference
