import Mathlib.Data.List.Nodup
import TemplateAnalysis.Cache

/-! # What a cache holds

    A cache is seen through `stored?`: what stands there for a key, and since when.
    Every operation says what it does to that view, and `fresh?_eq_some_iff` says
    when what is stored still counts. No key is ever listed twice.
-/

namespace TemplateAnalysis.Cache

variable {τ κ υ : Type} [DecidableEq κ] {cache : Cache τ κ υ} {key other : κ} {now : τ}
  {value : υ}

@[simp] theorem stored?_empty (ttl : τ) (key : κ) :
    (empty ttl : Cache τ κ υ).stored? key = none := rfl

@[simp] theorem stored?_clear (cache : Cache τ κ υ) (key : κ) :
    cache.clear.stored? key = none := rfl

omit [DecidableEq κ] in
@[simp] theorem ttl_clear (cache : Cache τ κ υ) : cache.clear.ttl = cache.ttl := rfl

@[simp] theorem ttl_put (cache : Cache τ κ υ) (key : κ) (now : τ) (value : υ) :
    (cache.put key now value).ttl = cache.ttl := rfl

/-- What is forgotten is not stored, and everything else stays. -/
theorem stored?_invalidate (cache : Cache τ κ υ) (key other : κ) :
    (cache.invalidate key).stored? other =
      if other = key then none else cache.stored? other := by
  unfold invalidate stored?
  rw [List.find?_filter]
  by_cases h : other = key
  · rw [if_pos h, Option.map_eq_none_iff, List.find?_eq_none]
    intro entry _
    simp [h]
  · rw [if_neg h]
    congr 2
    funext entry
    by_cases he : entry.1 = other
    · simp [he, h]
    · simp [he]

/-- What is stored for a key takes the place of what was stored before, and
    changes nothing else. -/
theorem stored?_put (cache : Cache τ κ υ) (key other : κ) (now : τ) (value : υ) :
    (cache.put key now value).stored? other =
      if other = key then some ⟨now, value⟩ else cache.stored? other := by
  by_cases h : other = key
  · unfold put stored?
    rw [if_pos h, List.find?_cons_of_pos (by simp [h])]
    rfl
  · have kept := stored?_invalidate cache key other
    rw [if_neg h] at kept ⊢
    rw [← kept]
    unfold put stored?
    rw [List.find?_cons_of_neg (by simpa using Ne.symm h)]

/-- What is stored after that was put there, or was stored before. -/
theorem of_stored?_put {stored : Stored τ υ}
    (h : (cache.put key now value).stored? other = some stored) :
    (other = key ∧ stored = ⟨now, value⟩) ∨ cache.stored? other = some stored := by
  rw [stored?_put] at h
  by_cases heq : other = key
  · rw [if_pos heq] at h
    exact .inl ⟨heq, (Option.some.inj h).symm⟩
  · rw [if_neg heq] at h
    exact .inr h

/-! ## Keys -/

/-- The keys that something is stored for. -/
def keys (cache : Cache τ κ υ) : List κ :=
  cache.entries.map (·.1)

theorem mem_keys_iff : key ∈ cache.keys ↔ ∃ stored, cache.stored? key = some stored := by
  unfold keys stored?
  rw [← Option.isSome_iff_exists, Option.isSome_map, List.find?_isSome, List.mem_map]
  simp

/-- Forgetting a key leaves it out of the keys. -/
theorem keys_invalidate (cache : Cache τ κ υ) (key : κ) :
    (cache.invalidate key).keys = cache.keys.filter (· ≠ key) := by
  unfold keys invalidate
  rw [List.filter_map]
  rfl

theorem nodup_keys_invalidate (h : cache.keys.Nodup) (key : κ) :
    (cache.invalidate key).keys.Nodup := by
  rw [keys_invalidate]
  exact h.filter _

/-- A key that is stored again is counted once. -/
theorem nodup_keys_put (h : cache.keys.Nodup) (key : κ) (now : τ) (value : υ) :
    (cache.put key now value).keys.Nodup := by
  refine List.nodup_cons.2 ⟨fun hmem => ?_, nodup_keys_invalidate h key⟩
  have gone : key ∈ (cache.invalidate key).keys := hmem
  simp [keys_invalidate] at gone

/-! ## Questions -/

variable [Sub τ] [LT τ] [DecidableLT τ] {m : Type → Type} [Monad m]

/-- A value counts as long as its age, as the times have it, is less than the time to
    live. -/
theorem fresh?_eq_some_iff : cache.fresh? key now = some value ↔
    ∃ stored, cache.stored? key = some stored ∧ now - stored.time < cache.ttl ∧
      stored.value = value := by
  unfold fresh?
  cases hstored : cache.stored? key with
  | none => simp
  | some stored => simp

theorem get_of_fresh (h : cache.fresh? key now = some value) (compute : m υ) :
    cache.get key now compute = pure (value, cache) := by
  unfold Cache.get
  rw [h]

theorem get_of_stale (h : cache.fresh? key now = none) (compute : m υ) :
    cache.get key now compute =
      compute >>= fun value => pure (value, cache.put key now value) := by
  unfold Cache.get
  rw [h]

end TemplateAnalysis.Cache
