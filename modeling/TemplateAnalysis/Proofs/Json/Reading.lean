import TemplateAnalysis.Proofs.Json.Numbers
import TemplateAnalysis.Proofs.Json.Value

/-! # Only well-formed values are read

    Whatever the reader makes of a text, no object in it has a key twice, since
    members are put in one after the other, and every number is one of double
    precision or an integer:

    * **`readsWellFormed`**: this holds for values, items and members alike, by
      induction on the fuel;
    * **`wellFormed_of_parse`**: so it holds for the value of a document.
-/

namespace TemplateAnalysis.Json

open Decimal

/-! ## Steps that succeed -/

theorem map_eq_ok {ε α β : Type} {f : α → β} {x : Except ε α} {b : β} (h : x.map f = .ok b) :
    ∃ a, x = .ok a ∧ f a = b := by
  cases x with
  | error e => contradiction
  | ok a => exact ⟨a, rfl, Except.ok.inj h⟩

theorem bind_eq_ok {ε α β : Type} {f : α → Except ε β} {x : Except ε α} {b : β}
    (h : (x >>= f) = .ok b) : ∃ a, x = .ok a ∧ f a = .ok b := by
  cases x with
  | error e => contradiction
  | ok a => exact ⟨a, rfl, h⟩

/-! ## Scalars -/

theorem wellFormed_of_unsignedNumber? {negative : Bool} {cs : List Char} {found : Value × Nat}
    (h : unsignedNumber? negative cs = some found) : found.1.WellFormed := by
  rw [unsignedNumber?_eq] at h
  split at h
  · contradiction
  · simp only at h
    generalize (if (fractionDigits (cs.drop (wholeDigits cs).length)).isEmpty then 0 else 1) =
      point at h
    split at h
    · rw [← Option.some.inj h]
      exact .integer _
    · rw [← Option.some.inj h]
      exact .double (canonical_ofDecimal _ _ _)

theorem wellFormed_of_number? {cs : List Char} {found : Value × Nat}
    (h : number? cs = some found) : found.1.WellFormed := by
  unfold number? at h
  split at h
  · obtain ⟨read, hread, rfl⟩ := Option.map_eq_some_iff.1 h
    have hw := wellFormed_of_unsignedNumber? hread
    exact hw
  · exact wellFormed_of_unsignedNumber? h

theorem wellFormed_words : ∀ word ∈ words, word.2.WellFormed := by
  intro word hw
  simp only [words, List.mem_cons, List.not_mem_nil, or_false] at hw
  rcases hw with rfl | rfl | rfl | rfl | rfl | rfl
  · exact .null
  · exact .bool true
  · exact .bool false
  all_goals exact .double trivial

theorem wellFormed_of_readScalar {cursor behind : Cursor} {value : Value}
    (h : readScalar cursor = .ok (value, behind)) : value.WellFormed := by
  unfold readScalar at h
  split at h
  · rename_i word hfind
    rw [← (Prod.mk.inj (Except.ok.inj h)).1]
    exact wellFormed_words word (List.mem_of_find?_eq_some hfind)
  · split at h
    · rename_i hnumber
      rw [← (Prod.mk.inj (Except.ok.inj h)).1]
      exact wellFormed_of_number? hnumber
    · contradiction

/-! ## Values -/

/-- With this fuel, only well-formed values, items and members are read. -/
structure ReadsWellFormed (fuel : Nat) : Prop where
  value : ∀ {cursor behind value}, readValue fuel cursor = .ok (value, behind) →
    value.WellFormed
  items : ∀ {cursor behind items}, readItems fuel cursor = .ok (items, behind) →
    ∀ item ∈ items, item.WellFormed
  members : ∀ {before cursor behind members}, Value.WellFormed (.object before) →
    readMembers fuel before cursor = .ok (members, behind) →
    Value.WellFormed (.object members)

theorem ReadsWellFormed.readValue {fuel : Nat} (ih : ReadsWellFormed fuel)
    {cursor behind : Cursor} {value : Value}
    (h : readValue (fuel + 1) cursor = .ok (value, behind)) : value.WellFormed := by
  rw [Json.readValue] at h
  split at h
  · obtain ⟨read, -, hread⟩ := map_eq_ok h
    rw [← (Prod.mk.inj hread).1]
    exact .string _
  · simp only at h
    split at h
    · rw [← (Prod.mk.inj (Except.ok.inj h)).1]
      exact wellFormed_empty
    · obtain ⟨read, hmembers, hread⟩ := map_eq_ok h
      rw [← (Prod.mk.inj hread).1]
      exact ih.members wellFormed_empty hmembers
  · simp only at h
    split at h
    · rw [← (Prod.mk.inj (Except.ok.inj h)).1]
      exact .array fun _ h => absurd h List.not_mem_nil
    · obtain ⟨read, hitems, hread⟩ := map_eq_ok h
      rw [← (Prod.mk.inj hread).1]
      exact .array (ih.items hitems)
  · exact wellFormed_of_readScalar h

theorem ReadsWellFormed.readItems {fuel : Nat} (ih : ReadsWellFormed fuel)
    {cursor behind : Cursor} {items : List Value}
    (h : readItems (fuel + 1) cursor = .ok (items, behind)) :
    ∀ item ∈ items, item.WellFormed := by
  rw [Json.readItems] at h
  obtain ⟨⟨first, next⟩, hfirst, h⟩ := bind_eq_ok h
  have hw := ih.value hfirst
  simp only at h
  split at h
  · rw [← (Prod.mk.inj (Except.ok.inj h)).1]
    intro item hm
    rwa [List.mem_singleton.1 hm]
  · obtain ⟨⟨others, last⟩, hothers, h⟩ := bind_eq_ok h
    rw [← (Prod.mk.inj (Except.ok.inj h)).1]
    intro item hm
    rcases List.mem_cons.1 hm with rfl | hm
    · exact hw
    · exact ih.items hothers item hm
  · contradiction

theorem ReadsWellFormed.readMembers {fuel : Nat} (ih : ReadsWellFormed fuel)
    {before members : Members} {cursor behind : Cursor}
    (hb : Value.WellFormed (.object before))
    (h : readMembers (fuel + 1) before cursor = .ok (members, behind)) :
    Value.WellFormed (.object members) := by
  rw [Json.readMembers] at h
  split at h
  · obtain ⟨⟨key, behindKey⟩, -, h⟩ := bind_eq_ok h
    simp only at h
    split at h
    · obtain ⟨⟨value, next⟩, hvalue, h⟩ := bind_eq_ok h
      have hput := hb.put key (ih.value hvalue)
      simp only at h
      split at h
      · rw [← (Prod.mk.inj (Except.ok.inj h)).1]
        exact hput
      · exact ih.members hput h
      · contradiction
    · contradiction
  · contradiction

/-- **Whatever is read is well formed**, by induction on the fuel. -/
theorem readsWellFormed (fuel : Nat) : ReadsWellFormed fuel := by
  induction fuel with
  | zero =>
    constructor
    · intro cursor behind value h
      rw [readValue] at h
      contradiction
    · intro cursor behind items h
      rw [readItems] at h
      contradiction
    · intro before cursor behind members _ h
      rw [readMembers] at h
      contradiction
  | succ fuel ih => exact ⟨ih.readValue, ih.readItems, ih.readMembers⟩

/-- Only well-formed values are ever read. -/
theorem wellFormed_of_parse {text : List Char} {value : Value} (h : parse text = .ok value) :
    value.WellFormed := by
  unfold parse at h
  cases hd : readDocument text with
  | error problem =>
    rw [hd] at h
    contradiction
  | ok found =>
    rw [hd] at h
    obtain rfl : found = value := Except.ok.inj h
    unfold readDocument at hd
    split at hd
    · contradiction
    · obtain ⟨⟨read, behind⟩, hread, hd⟩ := bind_eq_ok hd
      simp only at hd
      split at hd
      · rw [← Except.ok.inj hd]
        exact (readsWellFormed _).value hread
      · contradiction

end TemplateAnalysis.Json
