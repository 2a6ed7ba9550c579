import TemplateAnalysis.Proofs.Expression.Parameters
import TemplateAnalysis.Proofs.Expression.Standing

/-! # Cutting at commas

    A parameter list is cut in one reading. The cuts are where searches for a comma
    end that are begun one behind the other, and cutting again changes nothing:

    * **`splitParameters_searched`**: the parameters are what stands between the
      commas that repeated searches find, and the parameters joined with commas are
      split into the same parameters.

    A comma at the top level is where a reading stands as at the beginning of a
    text, so the pieces can be read one by one (`Separate`). Blanks do not lead to
    the top level and do not leave it, so none of this is lost by trimming.
-/

namespace TemplateAnalysis.Expression

open Text Reference

variable {text cs ds piece : List Char} {pieces : List (List Char)} {s : Nesting} {start i : Nat}
  {c : Char}

/-! ## Repeated searches -/

/-- Where the commas stand that are found by searching again and again, each time
    from behind the comma before. -/
def commasFrom (text : List Char) (start : Nat) : List Nat :=
  match h : findTopLevelIn [','] text start text.length with
  | none => []
  | some i => i :: commasFrom text (i + 1)
termination_by text.length - start
decreasing_by
  have := findTopLevelIn_bounds h
  omega

/-- The slices of a text between cuts, from `start` on. A cut takes up one
    character. -/
def slicesFrom (text : List Char) (start : Nat) : List Nat → List (List Char)
  | [] => [Span.slice ⟨start, text.length⟩ text]
  | cut :: cuts => Span.slice ⟨start, cut⟩ text :: slicesFrom text (cut + 1) cuts

/-- The first cut of a text is where a search for a comma ends, and behind it the
    text is cut as one of its own. -/
theorem cutAtCommas_eq (s : Nesting) (cs : List Char) :
    cutAtCommas s cs = match topLevelOffset [','] s cs.length cs with
      | none => [cs]
      | some k => cs.take k :: cutAtCommas {} (cs.drop (k + 1)) := by
  induction cs generalizing s with
  | nil => rfl
  | cons c rest ih =>
    rw [cutAtCommas, List.length_cons, topLevelOffset]
    by_cases hcomma : s.isTop = true ∧ c = ','
    · obtain ⟨htop, rfl⟩ := hcomma
      rw [isTop_iff] at htop
      subst htop
      rfl
    · have hcut : ¬(s.isTop && c == ',') = true := by simpa using hcomma
      have hend : ¬(s.isTop && [','].isPrefixOf (c :: rest) &&
          decide ([','].length ≤ rest.length + 1)) = true := by
        simp only [List.isPrefixOf, Bool.and_eq_true, beq_iff_eq]
        rintro ⟨⟨htop, hc, -⟩, -⟩
        exact hcomma ⟨htop, hc.symm⟩
      rw [if_neg hcut, if_neg hend, ih]
      cases topLevelOffset [','] (s.step c) rest.length rest with
      | none => rfl
      | some k => rfl

/-- **The cuts of a text** are where repeated searches end. -/
theorem slicesFrom_commasFrom (text : List Char) (start : Nat) :
    slicesFrom text start (commasFrom text start) = cutAtCommas {} (text.drop start) := by
  fun_induction commasFrom text start with
  | case1 start hnone =>
    have hsearch : topLevelOffset [','] {} (text.drop start).length (text.drop start) = none := by
      rw [List.length_drop]
      exact Option.map_eq_none_iff.1 hnone
    rw [cutAtCommas_eq, hsearch, slicesFrom, Span.slice, List.extract_eq_take_drop]
    exact congrArg (fun slice => [slice]) (List.take_of_length_le (List.length_drop ..).le)
  | case2 start i hi ih =>
    obtain ⟨k, hk, rfl⟩ := Option.map_eq_some_iff.1 hi
    rw [← List.length_drop] at hk
    rw [slicesFrom, ih, cutAtCommas_eq {} (text.drop start), hk, Span.slice,
      List.extract_eq_take_drop, Nat.add_sub_cancel]
    dsimp only
    rw [List.drop_drop, show start + (k + 1) = k + start + 1 by omega]

/-! ## Pieces -/

/-- A stretch without a comma at the top level, when the reading enters it at `s`. -/
def Unbroken : Nesting → List Char → Prop
  | _, [] => True
  | s, c :: rest => (s = {} → c ≠ ',') ∧ Unbroken (s.step c) rest

instance decidableUnbroken : (s : Nesting) → (cs : List Char) → Decidable (Unbroken s cs)
  | _, [] => inferInstanceAs (Decidable True)
  | s, c :: rest =>
    have := decidableUnbroken (s.step c) rest
    inferInstanceAs (Decidable ((s = {} → c ≠ ',') ∧ Unbroken (s.step c) rest))

theorem unbroken_append : Unbroken s (cs ++ ds) ↔ Unbroken s cs ∧ Unbroken (s.behind cs) ds := by
  induction cs generalizing s with
  | nil => exact (and_iff_right trivial).symm
  | cons c rest ih =>
    show _ ∧ Unbroken (s.step c) (rest ++ ds) ↔ (_ ∧ _) ∧ _
    rw [ih, and_assoc]
    rfl

/-- Pieces as they come from cutting: none has a comma at the top level, and each
    but the last ends there. -/
inductive Separate : Nesting → List (List Char) → Prop
  | nil {s : Nesting} : Separate s []
  | last {s : Nesting} {piece : List Char} : Unbroken s piece → Separate s [piece]
  | cons {s : Nesting} {piece : List Char} {pieces : List (List Char)} : Unbroken s piece →
      s.behind piece = {} → Separate {} pieces → Separate s (piece :: pieces)

theorem separate_cutAtCommas (s : Nesting) (text : List Char) :
    Separate s (cutAtCommas s text) := by
  induction text generalizing s with
  | nil => exact .last trivial
  | cons c rest ih =>
    rw [cutAtCommas]
    by_cases hcomma : s.isTop = true ∧ c = ','
    · obtain ⟨htop, rfl⟩ := hcomma
      rw [isTop_iff] at htop
      subst htop
      exact .cons trivial rfl (ih {})
    · have hcut : ¬(s.isTop && c == ',') = true := by simpa using hcomma
      have hhere : s = {} → c ≠ ',' := fun htop hc => hcomma ⟨isTop_iff.2 htop, hc⟩
      have hrest := ih (s.step c)
      rw [if_neg hcut]
      generalize cutAtCommas (s.step c) rest = cut at hrest
      cases hrest with
      | nil => exact .last ⟨hhere, trivial⟩
      | last hpiece => exact .last ⟨hhere, hpiece⟩
      | cons hpiece hends hmore => exact .cons ⟨hhere, hpiece⟩ hends hmore

theorem cutAtCommas_unbroken (h : Unbroken s piece) : cutAtCommas s piece = [piece] := by
  induction piece generalizing s with
  | nil => rfl
  | cons c rest ih =>
    have hcut : ¬(s.isTop && c == ',') = true := by
      simpa [isTop_iff] using h.1
    rw [cutAtCommas, if_neg hcut, ih h.2]

theorem cutAtCommas_comma (h : Unbroken s piece) (hends : s.behind piece = {}) (rest : List Char) :
    cutAtCommas s (piece ++ ',' :: rest) = piece :: cutAtCommas {} rest := by
  induction piece generalizing s with
  | nil =>
    obtain rfl : s = {} := hends
    rfl
  | cons c more ih =>
    have hcut : ¬(s.isTop && c == ',') = true := by
      simpa [isTop_iff] using h.1
    rw [List.cons_append, cutAtCommas, if_neg hcut, ih h.2 hends]

/-- **Such pieces are found again** when they are joined. -/
theorem cutAtCommas_joinWith (h : Separate s pieces) (hne : pieces ≠ []) :
    cutAtCommas s (joinWith [','] pieces) = pieces := by
  induction h with
  | nil => contradiction
  | @last s piece hpiece =>
    have hjoin : joinWith [','] [piece] = piece := by simp [joinWith]
    rw [hjoin, cutAtCommas_unbroken hpiece]
  | @cons s piece pieces hpiece hends hmore ih =>
    cases pieces with
    | nil =>
      have hjoin : joinWith [','] [piece] = piece := by simp [joinWith]
      rw [hjoin, cutAtCommas_unbroken hpiece]
    | cons second others =>
      rw [joinWith_cons_cons, List.singleton_append, cutAtCommas_comma hpiece hends,
        ih (List.cons_ne_nil second others)]

/-! ## Trimming -/

/-- Characters that are neither quotes nor brackets do not leave the top level. -/
theorem behind_bare (h : ∀ c ∈ cs, isBare c = true) : Nesting.behind {} cs = {} := by
  induction cs with
  | nil => rfl
  | cons c rest ih =>
    obtain ⟨hquote, hopener, -⟩ := isBare_iff.1 (h c List.mem_cons_self)
    rw [Nesting.behind_cons, step_top hquote hopener]
    exact ih fun d hd => h d (List.mem_cons_of_mem c hd)

/-- Neither do blanks. -/
theorem behind_blanks (h : ∀ c ∈ cs, isBlank c = true) : Nesting.behind {} cs = {} :=
  behind_bare fun c hc => isBare_of_isBlank (h c hc)

/-- They do not lead there either. -/
theorem top_of_behind_blanks (hs : s.quoting.Opened) (h : ∀ c ∈ cs, isBlank c = true)
    (htop : s.behind cs = {}) : s = {} := by
  induction cs generalizing s with
  | nil => exact htop
  | cons c rest ih =>
    have hrest : s.step c = {} :=
      ih (hs.step c) (fun d hd => h d (List.mem_cons_of_mem c hd)) htop
    exact top_of_step hs (isBare_of_isBlank (h c List.mem_cons_self)) hrest

theorem unbroken_trim (h : Unbroken {} piece) : Unbroken {} (trim piece) := by
  obtain ⟨front, back, hfront, -, hpiece⟩ := exists_eq_append_trim piece
  rw [hpiece, unbroken_append, behind_blanks hfront, unbroken_append] at h
  exact h.2.1

theorem behind_trim (h : Nesting.behind {} piece = {}) : Nesting.behind {} (trim piece) = {} := by
  obtain ⟨front, back, hfront, hback, hpiece⟩ := exists_eq_append_trim piece
  rw [hpiece, Nesting.behind_append, behind_blanks hfront, Nesting.behind_append] at h
  exact top_of_behind_blanks (@Nesting.opened_behind {} trivial _) hback h

/-- The parameters that pieces hold: what is left of them without blanks around it,
    and without the empty ones. -/
def parametersIn (pieces : List (List Char)) : List (List Char) :=
  (pieces.map trim).filter fun parameter => !parameter.isEmpty

theorem parametersIn_cons_of_empty (h : trim piece = []) (pieces : List (List Char)) :
    parametersIn (piece :: pieces) = parametersIn pieces := by
  simp [parametersIn, h]

theorem parametersIn_cons (h : trim piece ≠ []) (pieces : List (List Char)) :
    parametersIn (piece :: pieces) = trim piece :: parametersIn pieces := by
  simp [parametersIn, h]

/-- **Trimming keeps pieces apart**, and so does leaving out empty ones. -/
theorem Separate.parametersIn (h : Separate s pieces) (hs : s = {}) :
    Separate {} (parametersIn pieces) := by
  induction h with
  | nil => exact .nil
  | @last s piece hpiece =>
    subst hs
    by_cases hempty : trim piece = []
    · rw [parametersIn_cons_of_empty hempty]
      exact .nil
    · rw [parametersIn_cons hempty]
      exact .last (unbroken_trim hpiece)
  | @cons s piece pieces hpiece hends hmore ih =>
    subst hs
    by_cases hempty : trim piece = []
    · rw [parametersIn_cons_of_empty hempty]
      exact ih rfl
    · rw [parametersIn_cons hempty]
      exact .cons (unbroken_trim hpiece) (behind_trim hends) (ih rfl)

/-- A parameter is solid, so it is trimmed already. -/
theorem trim_of_mem_parametersIn (h : piece ∈ parametersIn pieces) :
    trim piece = piece ∧ piece ≠ [] := by
  obtain ⟨hmem, hne⟩ := List.mem_filter.1 h
  obtain ⟨whole, -, rfl⟩ := List.mem_map.1 hmem
  have hsolid : Solid (trim whole) := solid_trim (by simpa using hne)
  exact ⟨trim_eq_self hsolid.first hsolid.last, hsolid.ne_nil⟩

theorem parametersIn_parametersIn (pieces : List (List Char)) :
    parametersIn (parametersIn pieces) = parametersIn pieces := by
  have hmap : (parametersIn pieces).map trim = parametersIn pieces :=
    List.map_congr_left (fun piece h => (trim_of_mem_parametersIn h).1) |>.trans (List.map_id _)
  have hkeep : ∀ piece ∈ parametersIn pieces, (!piece.isEmpty) = true := by
    intro piece h
    simpa using (trim_of_mem_parametersIn h).2
  show ((parametersIn pieces).map trim).filter _ = _
  rw [hmap, List.filter_eq_self.2 hkeep]

/-! ## Written lists -/

/-- A piece goes on without a comma in front of which there is none. -/
theorem Unbroken.behind_bare (hcs : ∀ c ∈ cs, isBare c = true ∧ c ≠ ',')
    (h : Unbroken {} piece) : Unbroken {} (cs ++ piece) := by
  induction cs with
  | nil => exact h
  | cons c rest ih =>
    obtain ⟨hbare, hcomma⟩ := hcs c List.mem_cons_self
    obtain ⟨hquote, hopener, -⟩ := isBare_iff.1 hbare
    refine ⟨fun _ => hcomma, ?_⟩
    rw [step_top hquote hopener]
    exact ih fun d hd => hcs d (List.mem_cons_of_mem c hd)

theorem Unbroken.behind_blanks (hcs : ∀ c ∈ cs, isBlank c = true) (h : Unbroken {} piece) :
    Unbroken {} (cs ++ piece) := by
  apply h.behind_bare
  intro c hc
  exact ⟨isBare_of_isBlank (hcs c hc), ne_of_class (hcs c hc) (by decide)⟩

/-- A piece as it can be written between two commas: it holds none at the top level,
    it ends there, and it is not blank. -/
structure Writable (piece : List Char) : Prop where
  unbroken : Unbroken {} piece
  ends : Nesting.behind {} piece = {}
  trim_ne_nil : trim piece ≠ []

/-- **A list is split into the pieces that were written**, without the blanks around
    them. -/
theorem splitParameters_joinWith (hcs : ∀ c ∈ cs, isBlank c = true)
    (h : ∀ piece ∈ pieces, Writable piece) :
    splitParameters (cs ++ joinWith [',', ' '] pieces) = pieces.map trim := by
  show parametersIn (cutAtCommas {} (cs ++ joinWith [',', ' '] pieces)) = _
  -- Behind every comma the list goes on with a blank, so blanks are in front throughout.
  induction pieces generalizing cs with
  | nil =>
    have hnil : Unbroken {} [] := trivial
    rw [show joinWith [',', ' '] [] = [] from rfl, cutAtCommas_unbroken (hnil.behind_blanks hcs)]
    exact parametersIn_cons_of_empty (trim_blanks_append hcs []) []
  | cons piece rest ih =>
    have hpiece := h piece List.mem_cons_self
    have hrest : ∀ other ∈ rest, Writable other := by
      intro other hother
      exact h other (List.mem_cons_of_mem piece hother)
    have hunbroken := hpiece.unbroken.behind_blanks hcs
    have htrim := trim_blanks_append hcs piece
    have hne : trim (cs ++ piece) ≠ [] := by
      rw [htrim]
      exact hpiece.trim_ne_nil
    cases rest with
    | nil =>
      have hjoin : joinWith [',', ' '] [piece] = piece := by simp [joinWith]
      rw [hjoin, cutAtCommas_unbroken hunbroken, parametersIn_cons hne, htrim]
      rfl
    | cons second others =>
      have hends : Nesting.behind {} (cs ++ piece) = {} := by
        rw [Nesting.behind_append, behind_blanks hcs, hpiece.ends]
      have hblank : ∀ c ∈ [' '], isBlank c = true := List.all_eq_true.1 (by decide)
      have hwritten : cs ++ joinWith [',', ' '] (piece :: second :: others) =
          (cs ++ piece) ++ ',' :: ([' '] ++ joinWith [',', ' '] (second :: others)) := by
        rw [joinWith_cons_cons, List.append_assoc]
        rfl
      rw [hwritten, cutAtCommas_comma hunbroken hends, parametersIn_cons hne, htrim,
        ih hblank hrest]
      rfl

/-! ## Parameters -/

/-- **Splitting**: whatever the text, its parameters are what repeated searches for
    a comma leave between two of them, without blanks around it and without the
    empty ones; and joined with commas they are split into themselves. -/
theorem splitParameters_searched (text : List Char) :
    splitParameters text =
      ((slicesFrom text 0 (commasFrom text 0)).map trim).filter
        (fun parameter => !parameter.isEmpty) ∧
    splitParameters (joinWith [','] (splitParameters text)) = splitParameters text := by
  refine ⟨?_, ?_⟩
  · rw [slicesFrom_commasFrom, List.drop_zero]
    rfl
  · have hseparate : Separate {} (splitParameters text) :=
      (separate_cutAtCommas {} text).parametersIn rfl
    show parametersIn (cutAtCommas {} (joinWith [','] (splitParameters text))) = _
    by_cases hnone : splitParameters text = []
    · rw [hnone]
      rfl
    · rw [cutAtCommas_joinWith hseparate hnone]
      exact parametersIn_parametersIn _

/-- A literal that is never closed keeps its comma, and a bracket that closes nothing
    keeps none. -/
example : splitParameters "a) , (b,c] ,, 'd, \\".toList =
    ["a)".toList, "(b,c]".toList, "'d, \\".toList] := by
  decide

end TemplateAnalysis.Expression
