/-! # A cache with a time to live

    Values that are expensive to compute are kept for some time. The time is handed
    in with every question, so the cache has no clock of its own: it is a table of
    values with the times at which they were stored.

    Times are of any type that can be subtracted and compared. No law is asked of
    either: the age of a value may be rounded, or be no number at all.
-/

namespace TemplateAnalysis

/-- A value and the time at which it was stored. -/
structure Stored (τ υ : Type) where
  time : τ
  value : υ
  deriving DecidableEq

/-- A table that holds at most one value for each key. -/
structure Cache (τ κ υ : Type) where
  ttl : τ
  entries : List (κ × Stored τ υ)

namespace Cache

variable {τ κ υ : Type} [DecidableEq κ]

/-- The cache that holds nothing. -/
def empty (ttl : τ) : Cache τ κ υ :=
  ⟨ttl, []⟩

/-- What is stored for a key, however old. -/
def stored? (cache : Cache τ κ υ) (key : κ) : Option (Stored τ υ) :=
  (cache.entries.find? fun entry => entry.1 = key).map (·.2)

/-- Forget what is stored for a key. -/
def invalidate (cache : Cache τ κ υ) (key : κ) : Cache τ κ υ :=
  { cache with entries := cache.entries.filter fun entry => entry.1 ≠ key }

/-- Store a value for a key in place of what was stored before. -/
def put (cache : Cache τ κ υ) (key : κ) (now : τ) (value : υ) : Cache τ κ υ :=
  { cache with entries := (key, ⟨now, value⟩) :: (cache.invalidate key).entries }

/-- Forget everything. -/
def clear (cache : Cache τ κ υ) : Cache τ κ υ :=
  { cache with entries := [] }

/-- How many keys something is stored for. -/
def size (cache : Cache τ κ υ) : Nat :=
  cache.entries.length

variable [Sub τ] [LT τ] [DecidableLT τ]

/-- The value of a key that is still young enough. A time before that of the
    value counts as well. -/
def fresh? (cache : Cache τ κ υ) (key : κ) (now : τ) : Option υ :=
  match cache.stored? key with
  | some stored => if now - stored.time < cache.ttl then some stored.value else none
  | none => none

/-- The value of a key: the stored one while it is fresh, and otherwise a newly
    computed one, which is stored. A computation that fails leaves the cache as
    it was, because then there is no new cache. -/
def get {m : Type → Type} [Monad m] (cache : Cache τ κ υ) (key : κ) (now : τ)
    (compute : m υ) : m (υ × Cache τ κ υ) :=
  match cache.fresh? key now with
  | some value => pure (value, cache)
  | none => do
    let value ← compute
    pure (value, cache.put key now value)

end Cache

end TemplateAnalysis
