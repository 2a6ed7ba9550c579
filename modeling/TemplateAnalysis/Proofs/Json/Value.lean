import TemplateAnalysis.Json.Value
import TemplateAnalysis.Proofs.Decimal.Rounding

/-! # Members and well-formed values

    The members of an object are a table in which a key stands once:

    * **`Members.get?_put`** and **`Members.keys_put`** say what `put` does to
      the values and to the order of the keys;
    * **`Members.ext_of_keys`**: keys and values determine the members.

    A value is **well formed** when this holds for all objects in it, and when
    its numbers are those that a reader can give.
-/

namespace TemplateAnalysis.Json.Members

open Text

/-! ## Members -/

/-- The keys of members, in order. -/
def keys (members : Members) : List CodePoints :=
  members.map Prod.fst

theorem get?_cons (entry : CodePoints × Value) (rest : Members) (key : CodePoints) :
    get? (entry :: rest) key = if entry.1 = key then some entry.2 else get? rest key := by
  unfold get?
  rw [List.lookup_cons]
  by_cases h : entry.1 = key
  · rw [if_pos h, h, beq_self_eq_true]
  · have hb : (key == entry.1) = false := beq_eq_false_iff_ne.2 (Ne.symm h)
    rw [if_neg h, hb]

/-- Giving a key a value changes the value of that key alone. -/
theorem get?_put (name : CodePoints) (value : Value) (members : Members) (key : CodePoints) :
    get? (put name value members) key = if name = key then some value else get? members key := by
  induction members with
  | nil => rw [put, get?_cons]
  | cons entry rest ih =>
    unfold put
    by_cases h : entry.1 = name
    · rw [if_pos h, get?_cons, get?_cons, h]
      by_cases hk : name = key
      · rw [if_pos hk, if_pos hk]
      · rw [if_neg hk, if_neg hk, if_neg hk]
    · rw [if_neg h, get?_cons, get?_cons, ih]
      by_cases hk : entry.1 = key
      · have hne : name ≠ key := fun hn => h (hk.trans hn.symm)
        rw [if_pos hk, if_pos hk, if_neg hne]
      · rw [if_neg hk, if_neg hk]

/-- A key is there when it has a value. -/
theorem mem_keys_iff (members : Members) (key : CodePoints) :
    key ∈ keys members ↔ (get? members key).isSome = true := by
  induction members with
  | nil => simp [keys, get?]
  | cons entry rest ih =>
    rw [get?_cons]
    by_cases h : entry.1 = key
    · rw [if_pos h]
      simp [keys, h]
    · rw [if_neg h, ← ih]
      have hne : key ≠ entry.1 := Ne.symm h
      simp [keys, hne]

/-- A key that is there keeps its place, a new one comes last. -/
theorem keys_put (name : CodePoints) (value : Value) (members : Members) :
    keys (put name value members) =
      if name ∈ keys members then keys members else keys members ++ [name] := by
  induction members with
  | nil => simp [put, keys]
  | cons entry rest ih =>
    unfold put
    by_cases h : entry.1 = name
    · rw [if_pos h]
      simp [keys, h]
    · have hne : name ≠ entry.1 := Ne.symm h
      rw [if_neg h]
      have iff : name ∈ keys (entry :: rest) ↔ name ∈ keys rest := by simp [keys, hne]
      show entry.1 :: keys (put name value rest) = _
      rw [ih]
      by_cases hm : name ∈ keys rest
      · rw [if_pos hm, if_pos (iff.2 hm)]
        rfl
      · rw [if_neg hm, if_neg (fun h => hm (iff.1 h))]
        rfl

/-- A key that is not there is added at the end. -/
theorem put_of_notMem {name : CodePoints} {members : Members} (h : name ∉ keys members)
    (value : Value) : put name value members = members ++ [(name, value)] := by
  induction members with
  | nil => rfl
  | cons entry rest ih =>
    have hne : ¬entry.1 = name := fun heq => h (by simp [keys, heq])
    have hrest : name ∉ keys rest := fun hm => h (List.mem_cons_of_mem _ hm)
    rw [put, if_neg hne, ih hrest, List.cons_append]

/-- A key that is given the value it has changes nothing. -/
theorem put_of_get?_eq_some {name : CodePoints} {value : Value} {members : Members}
    (h : get? members name = some value) : put name value members = members := by
  induction members with
  | nil => contradiction
  | cons entry rest ih =>
    rw [get?_cons] at h
    rw [put]
    by_cases hname : entry.1 = name
    · rw [if_pos hname] at h
      rw [if_pos hname, ← hname, ← Option.some.inj h]
    · rw [if_neg hname] at h
      rw [if_neg hname, ih h]

theorem nodup_keys_put {members : Members} (h : (keys members).Nodup) (name : CodePoints)
    (value : Value) : (keys (put name value members)).Nodup := by
  rw [keys_put]
  by_cases hm : name ∈ keys members
  · rw [if_pos hm]
    exact h
  · rw [if_neg hm]
    rw [List.nodup_append]
    refine ⟨h, by simp, ?_⟩
    intro a ha b hb
    rw [List.mem_singleton.1 hb]
    exact fun heq => hm (heq ▸ ha)

/-- The value of a key is the value of one of the members. -/
theorem mem_of_get?_eq_some {members : Members} {key : CodePoints} {value : Value}
    (h : get? members key = some value) : (key, value) ∈ members := by
  induction members with
  | nil => contradiction
  | cons entry rest ih =>
    rw [get?_cons] at h
    by_cases hk : entry.1 = key
    · rw [if_pos hk] at h
      have hv : entry.2 = value := Option.some.inj h
      rw [← hk, ← hv]
      exact List.mem_cons_self
    · rw [if_neg hk] at h
      exact List.mem_cons_of_mem entry (ih h)

/-- Members with distinct keys are told by their keys and values. -/
theorem ext_of_keys {members others : Members} (h : keys members = keys others)
    (hd : (keys members).Nodup) (hv : ∀ key, get? members key = get? others key) :
    members = others := by
  induction members generalizing others with
  | nil =>
    cases others with
    | nil => rfl
    | cons entry rest => simp [keys] at h
  | cons entry rest ih =>
    cases others with
    | nil => simp [keys] at h
    | cons other more =>
      obtain ⟨hfirst, hkeys⟩ := List.cons.inj h
      obtain ⟨hnew, hrest⟩ := List.nodup_cons.1 hd
      have hvalue : entry.2 = other.2 := by
        have := hv entry.1
        rw [get?_cons, get?_cons, if_pos rfl, if_pos hfirst.symm] at this
        exact Option.some.inj this
      have hmore : rest = more := by
        refine ih hkeys hrest fun key => ?_
        by_cases hk : entry.1 = key
        · -- The first key stands nowhere else.
          have hr : get? rest key = none := by
            rw [← Option.not_isSome_iff_eq_none, ← mem_keys_iff, ← hk]
            exact hnew
          have hm : get? more key = none := by
            rw [← Option.not_isSome_iff_eq_none, ← mem_keys_iff, ← hk]
            show entry.1 ∉ List.map Prod.fst more
            rw [← hkeys]
            exact hnew
          rw [hr, hm]
        · have := hv key
          rw [get?_cons, get?_cons, if_neg hk, if_neg (hfirst ▸ hk)] at this
          exact this
      rw [hmore]
      congr 1
      exact Prod.ext hfirst hvalue

end TemplateAnalysis.Json.Members

namespace TemplateAnalysis.Json

open Text

/-! ## Well-formed values -/

/-- A value that a reader can give: no object in it has a key twice, and every
    number of double precision is written as one. -/
inductive Value.WellFormed : Value → Prop
  | null : WellFormed .null
  | bool (b : Bool) : WellFormed (.bool b)
  | integer (n : Int) : WellFormed (.integer n)
  | double {x : Decimal.Binary64} : x.Canonical → WellFormed (.double x)
  | string (s : CodePoints) : WellFormed (.string s)
  | array {items : List Value} : (∀ item ∈ items, WellFormed item) → WellFormed (.array items)
  | object {members : Members} : (Members.keys members).Nodup →
      (∀ entry ∈ members, WellFormed entry.2) → WellFormed (.object members)

theorem wellFormed_empty : Value.WellFormed (.object []) :=
  .object List.nodup_nil fun _ h => absurd h List.not_mem_nil

theorem Value.WellFormed.items {items : List Value} (h : WellFormed (.array items)) :
    ∀ item ∈ items, WellFormed item := by
  cases h with
  | array hi => exact hi

theorem Value.WellFormed.nodup_keys {members : Members} (h : WellFormed (.object members)) :
    (Members.keys members).Nodup := by
  cases h with
  | object hd _ => exact hd

theorem Value.WellFormed.members {members : Members} (h : WellFormed (.object members)) :
    ∀ entry ∈ members, WellFormed entry.2 := by
  cases h with
  | object _ hm => exact hm

theorem Value.WellFormed.get? {members : Members} (h : WellFormed (.object members))
    {key : CodePoints} {value : Value} (hv : Members.get? members key = some value) :
    WellFormed value :=
  h.members _ (Members.mem_of_get?_eq_some hv)

theorem Members.mem_put {name : CodePoints} {value : Value} {members : Members}
    {entry : CodePoints × Value} (h : entry ∈ Members.put name value members) :
    entry = (name, value) ∨ entry ∈ members := by
  induction members with
  | nil => exact .inl (List.mem_singleton.1 h)
  | cons first rest ih =>
    unfold Members.put at h
    by_cases hk : first.1 = name
    · rw [if_pos hk] at h
      rcases List.mem_cons.1 h with h | h
      · exact .inl h
      · exact .inr (List.mem_cons_of_mem first h)
    · rw [if_neg hk] at h
      rcases List.mem_cons.1 h with h | h
      · exact .inr (h ▸ List.mem_cons_self)
      · rcases ih h with h | h
        · exact .inl h
        · exact .inr (List.mem_cons_of_mem first h)

theorem Value.WellFormed.put {members : Members} (h : WellFormed (.object members))
    (name : CodePoints) {value : Value} (hv : WellFormed value) :
    WellFormed (.object (Members.put name value members)) := by
  refine .object (Members.nodup_keys_put h.nodup_keys name value) ?_
  intro entry he
  rcases Members.mem_put he with rfl | he
  · exact hv
  · exact h.members entry he

end TemplateAnalysis.Json
