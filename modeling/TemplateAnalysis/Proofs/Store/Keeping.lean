import TemplateAnalysis.Proofs.Store.Coverage

/-! # What a run keeps

    A run should keep what the data file holds already. An object or array
    should stay one, and a value that holds no others should stay as it is,
    unless something is read below it.

    * **`insertAll_eq_of_clash`**: where an element is asked of an object, or a
      key of an array, what stood there is lost and everything is built anew;
    * **`keeps_insertAll_iff`**: so the run keeps the data exactly when, at
      every such place, what is built anew happens to have what stood there.
-/

namespace TemplateAnalysis.Store

open Json Text

/-! ## Keeping -/

/-- Is something read below a place? -/
def ReadsBelow (steps : List (List Step)) (place : List Move) : Prop :=
  ∃ these ∈ steps, place <+: these.map Step.move ∧ place.length < these.length

/-- Is a value an object or array? -/
def IsContainer : Value → Prop
  | .object _ | .array _ => True
  | _ => False

/-- Does a value stay what it is? An object or array may get new entries. A
    value that holds no others may become one that does when something is read
    below it. -/
def Kept (below : Prop) (before after : Value) : Prop :=
  match before with
  | .object _ => ∃ members, after = .object members
  | .array _ => ∃ items, after = .array items
  | scalar => after = scalar ∨ (below ∧ IsContainer after)

/-- Is everything in the data still there after steps are inserted, at the same
    place? -/
def Keeps (steps : List (List Step)) (before after : Value) : Prop :=
  ∀ place value, valueAt? place before = some value →
    ∃ value', valueAt? place after = some value' ∧ Kept (ReadsBelow steps place) value value'

theorem kept_refl (below : Prop) (value : Value) : Kept below value value := by
  cases value with
  | object members => exact ⟨members, rfl⟩
  | array items => exact ⟨items, rfl⟩
  | _ => exact .inl rfl

theorem keeps_refl (steps : List (List Step)) (value : Value) : Keeps steps value value :=
  fun _ inner h => ⟨inner, h, kept_refl _ inner⟩

/-- What counts about steps is what is read below which place. -/
theorem Keeps.congr {steps others : List (List Step)} {before after : Value}
    (h : ∀ place, ReadsBelow steps place ↔ ReadsBelow others place)
    (hk : Keeps steps before after) : Keeps others before after := by
  intro place value hv
  obtain ⟨value', hv', hkept⟩ := hk place value hv
  refine ⟨value', hv', ?_⟩
  rw [← propext (h place)]
  exact hkept

/-! ## One move further in -/

/-- What is asked behind a move. Nothing is asked of any element but the first. -/
def behindMove : Move → List (List Step) → List (List Step)
  | .key name, steps => behind (.key name) steps
  | .item 0, steps => behind .element steps
  | .item (_ + 1), _ => []

/-- What is asked of the value at a place. -/
def behindPlace (place : List Move) (steps : List (List Step)) : List (List Step) :=
  place.foldl (fun steps move => behindMove move steps) steps

theorem mem_behindMove {move : Move} {steps : List (List Step)} {rest : List Step} :
    rest ∈ behindMove move steps ↔ ∃ step, step.move = move ∧ step :: rest ∈ steps := by
  constructor
  · intro h
    unfold behindMove at h
    split at h
    · exact ⟨_, rfl, mem_behind.1 h⟩
    · exact ⟨_, rfl, mem_behind.1 h⟩
    · exact absurd h List.not_mem_nil
  · intro ⟨step, hs, hm⟩
    rw [← hs]
    cases step with
    | key name => exact mem_behind.2 hm
    | element => exact mem_behind.2 hm

theorem readsBelow_cons_iff (steps : List (List Step)) (move : Move) (place : List Move) :
    ReadsBelow steps (move :: place) ↔ ReadsBelow (behindMove move steps) place := by
  constructor
  · intro ⟨these, hm, hp, hlt⟩
    cases these with
    | nil => simp at hlt
    | cons step rest =>
      obtain ⟨hmove, hp⟩ := List.cons_prefix_cons.1 hp
      exact ⟨rest, mem_behindMove.2 ⟨step, hmove.symm, hm⟩, hp, Nat.lt_of_succ_lt_succ hlt⟩
  · intro ⟨rest, hm, hp, hlt⟩
    obtain ⟨step, hs, hm⟩ := mem_behindMove.1 hm
    refine ⟨step :: rest, hm, ?_, Nat.succ_lt_succ hlt⟩
    rw [List.map_cons, hs]
    exact List.cons_prefix_cons.2 ⟨rfl, hp⟩

theorem readsBelow_nil_iff (steps : List (List Step)) :
    ReadsBelow steps [] ↔ AsksKey steps ∨ AsksElement steps := by
  constructor
  · intro ⟨these, hm, _, hlt⟩
    cases these with
    | nil => simp at hlt
    | cons step rest =>
      cases step with
      | key name => exact .inl ⟨name, rest, hm⟩
      | element => exact .inr ⟨rest, hm⟩
  · intro h
    rcases h with ⟨name, rest, hm⟩ | ⟨rest, hm⟩
    · exact ⟨_, hm, List.nil_prefix, Nat.zero_lt_succ _⟩
    · exact ⟨_, hm, List.nil_prefix, Nat.zero_lt_succ _⟩

theorem valueAt?_cons (move : Move) (place : List Move) (value : Value) :
    valueAt? (move :: place) value = (valueAt? [move] value).bind (valueAt? place) :=
  valueAt?_append [move] place value

/-- Data is kept when its outermost value is, and everything one move further
    in. -/
theorem keeps_iff_inside (steps : List (List Step)) (before after : Value) :
    Keeps steps before after ↔
      Kept (ReadsBelow steps []) before after ∧
        ∀ move inner, valueAt? [move] before = some inner →
          ∃ inner', valueAt? [move] after = some inner' ∧
            Keeps (behindMove move steps) inner inner' := by
  constructor
  · intro h
    constructor
    · obtain ⟨value', hv, hk⟩ := h [] before rfl
      rw [Option.some.inj hv]
      exact hk
    · intro move inner hi
      obtain ⟨inner', hi', -⟩ := h [move] inner hi
      refine ⟨inner', hi', fun place value hv => ?_⟩
      have whole : valueAt? (move :: place) before = some value := by
        rw [valueAt?_cons, hi]
        exact hv
      obtain ⟨value', hv', hk⟩ := h (move :: place) value whole
      rw [valueAt?_cons, hi'] at hv'
      rw [propext (readsBelow_cons_iff steps move place)] at hk
      exact ⟨value', hv', hk⟩
  · intro ⟨hk, hin⟩ place value hv
    cases place with
    | nil =>
      rw [← Option.some.inj hv]
      exact ⟨after, rfl, hk⟩
    | cons move place =>
      rw [valueAt?_cons] at hv
      cases hi : valueAt? [move] before with
      | none =>
        rw [hi] at hv
        contradiction
      | some inner =>
        rw [hi] at hv
        obtain ⟨inner', hi', hkeep⟩ := hin move inner hi
        obtain ⟨value', hv', hk'⟩ := hkeep place value hv
        rw [← propext (readsBelow_cons_iff steps move place)] at hk'
        refine ⟨value', ?_, hk'⟩
        rw [valueAt?_cons, hi']
        exact hv'

/-! ## Clashes -/

/-- Is an element asked of an object, or a key of an array? -/
def Clash (steps : List (List Step)) : Value → Prop
  | .object _ => AsksElement steps
  | .array _ => AsksKey steps
  | _ => False

/-- The first value on a way into the data that something of the other kind is
    asked of. -/
inductive FirstClash : List (List Step) → Value → List Move → Value → Prop
  | here {steps : List (List Step)} {value : Value} :
      Clash steps value → FirstClash steps value [] value
  | inside {steps : List (List Step)} {value inner found : Value} {move : Move}
      {place : List Move} :
      ¬Clash steps value → valueAt? [move] value = some inner →
        FirstClash (behindMove move steps) inner place found →
          FirstClash steps value (move :: place) found

/-- Where the kinds clash, nothing is left of what stood there. -/
theorem insertAll_eq_of_clash {steps : List (List Step)} {value : Value}
    (h : Clash steps value) : insertAll value steps = insertAll (.string "") steps := by
  apply Option.some.inj
  rw [← fill_some, ← fill_some]
  cases value with
  | object members =>
    have he : AsksElement steps := h
    by_cases hk : AsksKey steps
    · exact fill_both hk he _ _
    · rw [fill_array hk he, fill_array hk he]
      rfl
  | array items =>
    have hk : AsksKey steps := h
    by_cases he : AsksElement steps
    · exact fill_both hk he _ _
    · rw [fill_object hk he, fill_object hk he]
      rfl
  | _ => exact absurd h id

theorem isContainer_insertAt (step : Step) (rest : List Step) (value? : Option Value) :
    IsContainer (insertAt (step :: rest) value?) := by
  cases step with
  | key name => trivial
  | element =>
    rw [insertAt_element]
    trivial

/-- An object or array never becomes a value that holds no others. -/
theorem isContainer_insertAll {value : Value} (h : IsContainer value)
    (steps : List (List Step)) : IsContainer (insertAll value steps) := by
  induction steps generalizing value with
  | nil => exact h
  | cons these rest ih =>
    rw [insertAll_cons]
    apply ih
    cases these with
    | nil => exact h
    | cons step others => exact isContainer_insertAt step others _

theorem isContainer_insertAll_of_asks {steps : List (List Step)}
    (h : AsksKey steps ∨ AsksElement steps) (value : Value) :
    IsContainer (insertAll value steps) := by
  induction steps generalizing value with
  | nil =>
    rcases h with ⟨name, rest, hm⟩ | ⟨rest, hm⟩
    · exact absurd hm List.not_mem_nil
    · exact absurd hm List.not_mem_nil
  | cons these rest ih =>
    rw [insertAll_cons]
    cases these with
    | nil =>
      rw [asksKey_cons_iff (by simp), asksElement_cons_iff (by simp)] at h
      exact ih h _
    | cons step others => exact isContainer_insertAll (isContainer_insertAt step others _) rest

/-- Without a clash the outermost value is kept. -/
theorem kept_insertAll {steps : List (List Step)} {value : Value} (h : ¬Clash steps value) :
    Kept (ReadsBelow steps []) value (insertAll value steps) := by
  have hf := fill_some steps value
  -- A value that holds no others stays, or becomes what is asked of it.
  have scalar : insertAll value steps = value ∨
      (ReadsBelow steps [] ∧ IsContainer (insertAll value steps)) := by
    by_cases ha : AsksKey steps ∨ AsksElement steps
    · exact .inr ⟨(readsBelow_nil_iff steps).2 ha, isContainer_insertAll_of_asks ha value⟩
    · rw [not_or] at ha
      rw [fill_idle ha.1 ha.2] at hf
      exact .inl (Option.some.inj hf).symm
  cases value with
  | object members =>
    have he : ¬AsksElement steps := h
    rw [fill_members he] at hf
    exact ⟨_, (Option.some.inj hf).symm⟩
  | array items =>
    have hk : ¬AsksKey steps := h
    rw [fill_elements hk] at hf
    exact ⟨_, (Option.some.inj hf).symm⟩
  | _ => exact scalar

/-- Without a clash, what lies one move further in is filled on its own. -/
theorem valueAt?_insertAll {steps : List (List Step)} {value inner : Value} {move : Move}
    (h : ¬Clash steps value) (hv : valueAt? [move] value = some inner) :
    valueAt? [move] (insertAll value steps) =
      some (insertAll inner (behindMove move steps)) := by
  have hf := fill_some steps value
  cases value with
  | object members =>
    cases move with
    | item index => contradiction
    | key name =>
      have he : ¬AsksElement steps := h
      rw [fill_members he] at hf
      rw [← Option.some.inj hf]
      have hget : Members.get? members name = some inner := by
        cases hg : Members.get? members name with
        | none => simp [valueAt?, hg] at hv
        | some other => simpa [valueAt?, hg] using hv
      -- A member is filled by what lies behind its key.
      show (Members.get? (fillMembers steps members) name).bind (valueAt? []) = _
      rw [get?_fillMembers, hget, fill_some]
      rfl
  | array items =>
    cases move with
    | key name => contradiction
    | item index =>
      have hk : ¬AsksKey steps := h
      rw [fill_elements hk] at hf
      rw [← Option.some.inj hf]
      have hget : items[index]? = some inner := by
        cases hg : items[index]? with
        | none => simp [valueAt?, hg] at hv
        | some other => simpa [valueAt?, hg] using hv
      -- Of the elements, only the first is filled.
      show (fillElements steps items)[index]?.bind (valueAt? []) = _
      cases index with
      | zero =>
        rw [← List.head?_eq_getElem?, head?_fillElements, List.head?_eq_getElem?, hget, fill_some]
        rfl
      | succ index =>
        rw [← List.getElem?_tail, tail_fillElements, List.getElem?_tail, hget]
        rfl
  | _ => cases move <;> contradiction

/-! ## The whole data -/

/-- A clash shows that something is asked for. -/
theorem FirstClash.asks {steps : List (List Step)} {value found : Value} {place : List Move}
    (h : FirstClash steps value place found) : AsksKey steps ∨ AsksElement steps := by
  induction h with
  | @here steps value hc =>
    cases value with
    | object members => exact .inr hc
    | array items => exact .inl hc
    | _ => exact absurd hc id
  | @inside steps value inner found move place _ _ _ ih =>
    have some_behind : ∃ rest, rest ∈ behindMove move steps := by
      rcases ih with ⟨name, rest, hm⟩ | ⟨rest, hm⟩
      · exact ⟨_, hm⟩
      · exact ⟨_, hm⟩
    obtain ⟨rest, hm⟩ := some_behind
    obtain ⟨step, -, hm⟩ := mem_behindMove.1 hm
    cases step with
    | key name => exact .inl ⟨name, rest, hm⟩
    | element => exact .inr ⟨rest, hm⟩

theorem length_behindMove_le {steps : List (List Step)} {bound : Nat}
    (h : ∀ these ∈ steps, these.length ≤ bound + 1) (move : Move) :
    ∀ these ∈ behindMove move steps, these.length ≤ bound := by
  intro these hm
  obtain ⟨step, -, hm⟩ := mem_behindMove.1 hm
  have := h _ hm
  rw [List.length_cons] at this
  omega

/-- What a run keeps, by induction on the length of the longest steps. -/
theorem keeps_insertAll_of_length_le (bound : Nat) {steps : List (List Step)}
    (h : ∀ these ∈ steps, these.length ≤ bound) (data : Value) :
    Keeps steps data (insertAll data steps) ↔
      ∀ place found, FirstClash steps data place found →
        Keeps (behindPlace place steps) found
          (insertAll (.string "") (behindPlace place steps)) := by
  induction bound generalizing steps data with
  | zero =>
    obtain ⟨hk, he⟩ := asks_nothing h
    -- Nothing is asked for, so nothing changes.
    have same : insertAll data steps = data := by
      have hf := fill_some steps data
      rw [fill_idle hk he] at hf
      exact (Option.some.inj hf).symm
    rw [same]
    constructor
    · intro _ place found hc
      rcases hc.asks with ha | ha
      · exact absurd ha hk
      · exact absurd ha he
    · intro _
      exact keeps_refl steps data
  | succ bound ih =>
    by_cases hc : Clash steps data
    · -- The first clash is here.
      rw [insertAll_eq_of_clash hc]
      constructor
      · intro hkeep place found hf
        cases hf with
        | here _ => exact hkeep
        | inside hn _ _ => exact absurd hc hn
      · intro hall
        exact hall [] data (.here hc)
    · -- No clash here: what is kept is told one move further in.
      rw [keeps_iff_inside]
      constructor
      · intro hkeep place found hf
        cases hf with
        | here hn => exact absurd hn hc
        | @inside _ _ inner _ move place _ hv hf =>
          obtain ⟨inner', hv', hk⟩ := hkeep.2 move inner hv
          rw [valueAt?_insertAll hc hv] at hv'
          rw [← Option.some.inj hv'] at hk
          exact (ih (length_behindMove_le h move) inner).1 hk place found hf
      · intro hall
        refine ⟨kept_insertAll hc, fun move inner hv => ?_⟩
        refine ⟨_, valueAt?_insertAll hc hv, ?_⟩
        apply (ih (length_behindMove_le h move) inner).2
        intro place found hf
        exact hall (move :: place) found (.inside hc hv hf)

/-- **What a run keeps**: everything, exactly when what it builds anew at each
    clash has what stood there. Without a clash that is so. -/
theorem keeps_insertAll_iff (steps : List (List Step)) (data : Value) :
    Keeps steps data (insertAll data steps) ↔
      ∀ place found, FirstClash steps data place found →
        Keeps (behindPlace place steps) found
          (insertAll (.string "") (behindPlace place steps)) := by
  obtain ⟨bound, hb⟩ := exists_length_le steps
  exact keeps_insertAll_of_length_le bound hb data

-- The element of the collection is lost for the key that is asked of it.
example :
    insertAll (.object [("items", .array [.object [("x", .integer 1)]])])
      [[.key "items", .element, .key "x"], [.key "items", .key "size"]] =
        .object [("items", .object [("size", .string "")])] :=
  rfl

/-- Reading below a place is the same for all variables as for their leaves. -/
theorem readsBelow_leaves_iff (steps : List (List Step)) (place : List Move) :
    ReadsBelow (leaves steps) place ↔ ReadsBelow steps place := by
  constructor
  · intro ⟨these, hm, h⟩
    exact ⟨these, (mem_leaves_iff.1 hm).1, h⟩
  · intro ⟨these, hm, hp, hlt⟩
    obtain ⟨leaf, hl, hp'⟩ := exists_leaf hm
    exact ⟨leaf, hl, hp.trans (hp'.map Step.move), Nat.lt_of_lt_of_le hlt hp'.length_le⟩

end TemplateAnalysis.Store
