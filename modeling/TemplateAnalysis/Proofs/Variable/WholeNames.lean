import TemplateAnalysis.Proofs.Variable.Analysed
import TemplateAnalysis.Proofs.Variable.Prefixes

/-! # Names in the source

    What is reported for an expression can be read in its text:

    * **`exists_wholeWord_of_mem_templateMatches`**: every segment of a path is an
      identifier, and what is left of a whole word of the source from its first
      ASCII letter or underscore on.

    Where a word starts with such a character, the segment is the word itself. A
    word that starts with a digit or with a letter of another script loses its
    front, as the tokens are not cut at the start of a word.
-/

namespace TemplateAnalysis.Variable

open Text Expression

variable {text segment path : List Char} {m : Match}

/-- The segments of the paths of a chain are named by the body. -/
theorem named_of_mem_visits {i : Nat} {chain : Chain} (h : .chain i chain ∈ visits text)
    (hpath : path ∈ chain.paths) (hsegment : segment ∈ splitOn '.' path) :
    Named text segment := by
  obtain ⟨start, stop, first, hfirst, rfl⟩ := exists_chainAt_of_mem_walk h
  have along : ∀ segments : List (List Char), (∀ s ∈ segments, Named text s) →
      path ∈ pathsAlong segments → Named text segment := by
    intro segments hnamed hmem
    rcases mem_of_mem_pathsFrom (fun s hs => isIdentifier_of_named (hnamed s hs)) hmem hsegment with
      hs | ⟨hne, -⟩
    · exact hnamed segment hs
    · contradiction
  rcases List.mem_append.1 hpath with hfield | hown
  · obtain ⟨field, hf, hmem⟩ := List.mem_flatMap.1 hfield
    exact along field (fun s hs => named_of_mem_fields hf hs) hmem
  · exact along _ (fun s hs => named_of_mem_segments hfirst hs) hown

/-- **Names are read from words**: every segment of a path that is reported, unless
    it is the key of a message, is an identifier and what is left of a whole word
    of the source from its first ASCII letter or underscore on. -/
theorem exists_wholeWord_of_mem_templateMatches (hm : m ∈ templateMatches text)
    (hkey : ¬m.IsMessageKey) (hsegment : segment ∈ splitOn '.' m.path) :
    isIdentifier segment = true ∧ ∃ word, WholeWord word m.source ∧ nameOf word = segment := by
  obtain ⟨hanalysed, hown⟩ := mem_templateMatches_iff.1 hm
  obtain ⟨part, hpart, hmatch⟩ := List.mem_flatMap.1 hown
  have hdelimited := delimited_of_mem_parts hanalysed.isExpression.1 hpart
  cases part with
  | key key =>
    have hmessage := isMessageKey_of_mem_parts hpart
    rw [← List.mem_singleton.1 hmatch] at hmessage
    exact absurd hmessage hkey
  | plain inner => simp [Part.ownMatches] at hmatch
  | body inner =>
    obtain ⟨visit, hvisit, hmatch⟩ := List.mem_flatMap.1 hmatch
    cases visit with
    | nested i nested => simp at hmatch
    | chain i chain =>
      obtain ⟨path, hpath, hm⟩ := List.mem_map.1 hmatch
      have hnamed : Named inner segment :=
        named_of_mem_visits hvisit hpath (by rwa [← hm] at hsegment)
      obtain ⟨word, hword, hname⟩ := exists_wholeWord_of_named hnamed
      exact ⟨isIdentifier_of_named hnamed, word, hword.trans hdelimited, hname⟩

/-- A number in hexadecimal notation: its word starts with a digit. -/
def hexadecimalSample : List Char :=
  "${0x1F}".toList

theorem exists_wholeWord_of_hexadecimalSample :
    (⟨hexadecimalSample, "x1F".toList⟩ : Match) ∈ templateMatches hexadecimalSample ∧
      isIdentifier "x1F".toList = true ∧
      ∃ word, WholeWord word hexadecimalSample ∧ nameOf word = "x1F".toList := by
  have hm : (⟨hexadecimalSample, "x1F".toList⟩ : Match) ∈ templateMatches hexadecimalSample := by
    decide +kernel
  have hkey : ¬(⟨hexadecimalSample, "x1F".toList⟩ : Match).IsMessageKey := by
    rintro ⟨hsigil, -⟩
    contradiction
  exact ⟨hm, exists_wholeWord_of_mem_templateMatches hm hkey (by decide)⟩

end TemplateAnalysis.Variable
