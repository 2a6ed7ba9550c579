import Mathlib.Data.List.Induction
import Mathlib.Data.Set.Card
import TemplateAnalysis.Proofs.Cache

/-! # A cache and its history

    What a cache answers is told by what was seen of it before. `run` makes calls of
    a cache with a clock, which can be set forwards and backwards, and keeps a record
    of each: the time, the call and the reply.

    * **`LastStored`**: the value that a computation gave for a key last, if the key
      was not forgotten since;
    * **`Follows`**, the invariant of a run: what is stored is what was stored last.
      It holds of an empty cache (`follows_new`), every call keeps it
      (`Follows.call`), and so it holds after all calls (**`follows_run`**).

    From it follows when a value is computed, and how many keys are counted
    (**`toldBy_run`**).
-/

namespace TemplateAnalysis.Cache

variable {τ κ υ ε : Type}

/-! ## Calls and what is known of them -/

/-- What can be asked of a cache. What a value is computed by gives the value or
    fails. -/
inductive Call (τ κ υ ε : Type)
  | setClock (now : τ)
  | get (key : κ) (outcome : Except ε υ)
  | invalidate (key : κ)
  | clear

/-- What is seen of a call. Of a question that is how often the value was computed,
    and the value or the failure. -/
inductive Reply (υ ε : Type)
  | done
  | answer (outcome : Except ε υ) (computations : Nat)

/-- What is known of a call: when it was made, and the reply. -/
structure Record (τ κ υ ε : Type) where
  now : τ
  call : Call τ κ υ ε
  reply : Reply υ ε

/-! ## What was stored last -/

/-- A value was computed for the key, and came to be stored. -/
def Record.Stores (record : Record τ κ υ ε) (key : κ) (stored : Stored τ υ) : Prop :=
  record.now = stored.time ∧ ∃ outcome computations, record.call = .get key outcome ∧
    record.reply = .answer (.ok stored.value) computations ∧ 0 < computations

/-- Nothing is stored but the answer to a question. -/
theorem Record.not_stores {record : Record τ κ υ ε} {key : κ}
    (h : ∀ outcome, record.call ≠ .get key outcome) (stored : Stored τ υ) :
    ¬ record.Stores key stored := by
  rintro ⟨-, outcome, computations, hcall, -⟩
  exact h outcome hcall

/-- A value that was computed is stored from then on. -/
theorem Record.stores_computed_iff {now : τ} {key other : κ} {value : υ} {stored : Stored τ υ} :
    (⟨now, .get key (.ok value), .answer (.ok value) 1⟩ : Record τ κ υ ε).Stores other stored ↔
      other = key ∧ stored = ⟨now, value⟩ := by
  constructor
  · rintro ⟨hnow, outcome, computations, hcall, hreply, -⟩
    have hvalue := Except.ok.inj (Reply.answer.inj hreply).1
    refine ⟨(Call.get.inj hcall).1.symm, ?_⟩
    cases stored
    rw [Stored.mk.injEq]
    exact ⟨hnow.symm, hvalue.symm⟩
  · rintro ⟨rfl, rfl⟩
    exact ⟨rfl, .ok value, 1, rfl, rfl, Nat.one_pos⟩

/-- A value that is found is not stored anew. -/
theorem Record.not_stores_found {now : τ} {call : Call τ κ υ ε} {outcome : Except ε υ}
    {key : κ} {stored : Stored τ υ} :
    ¬ (⟨now, call, .answer outcome 0⟩ : Record τ κ υ ε).Stores key stored := by
  rintro ⟨-, asked, computations, -, hreply, hpos⟩
  obtain ⟨-, rfl⟩ := Reply.answer.inj hreply
  exact absurd hpos (Nat.lt_irrefl 0)

/-- Nor is a failure. -/
theorem Record.not_stores_failed {now : τ} {call : Call τ κ υ ε} {failure : ε} {count : Nat}
    {key : κ} {stored : Stored τ υ} :
    ¬ (⟨now, call, .answer (.error failure) count⟩ : Record τ κ υ ε).Stores key stored := by
  rintro ⟨-, asked, computations, -, hreply, -⟩
  have houtcome := (Reply.answer.inj hreply).1
  contradiction

/-- The key was to be forgotten. -/
def Record.Forgets (record : Record τ κ υ ε) (key : κ) : Prop :=
  record.call = .invalidate key ∨ record.call = .clear

/-- The value that was stored for the key last, and not forgotten since. -/
def LastStored (records : List (Record τ κ υ ε)) (key : κ) (stored : Stored τ υ) : Prop :=
  ∃ before record after, records = before ++ record :: after ∧ record.Stores key stored ∧
    ∀ later ∈ after, ¬ later.Forgets key ∧ ∀ other, ¬ later.Stores key other

/-- One more record stores the value, or leaves the key alone. -/
theorem lastStored_append_singleton {records : List (Record τ κ υ ε)} {record : Record τ κ υ ε}
    {key : κ} {stored : Stored τ υ} :
    LastStored (records ++ [record]) key stored ↔ record.Stores key stored ∨
      (LastStored records key stored ∧ ¬ record.Forgets key ∧
        ∀ other, ¬ record.Stores key other) := by
  constructor
  · rintro ⟨before, found, after, heq, hstores, hafter⟩
    rcases List.eq_nil_or_concat after with rfl | ⟨between, last, rfl⟩
    · -- What stores the value is the last record itself.
      left
      obtain ⟨-, hlast⟩ := List.append_inj' heq rfl
      rw [List.cons.inj hlast |>.1]
      exact hstores
    · right
      rw [List.concat_eq_append] at heq hafter
      have hsplit : records ++ [record] = (before ++ found :: between) ++ [last] := by
        rw [heq, List.append_assoc, List.cons_append]
      obtain ⟨hrecords, hlast⟩ := List.append_inj' hsplit rfl
      obtain rfl := (List.cons.inj hlast).1
      refine ⟨⟨before, found, between, hrecords, hstores, fun later hlater => ?_⟩, ?_⟩
      · exact hafter later (List.mem_append_left _ hlater)
      · exact hafter record (List.mem_append_right _ List.mem_cons_self)
  · rintro (hstores | ⟨⟨before, found, after, rfl, hstores, hafter⟩, hkept⟩)
    · exact ⟨records, record, [], rfl, hstores, List.forall_mem_nil _⟩
    · refine ⟨before, found, after ++ [record], by simp, hstores, fun later hlater => ?_⟩
      rcases List.mem_append.1 hlater with hlater | hlast
      · exact hafter later hlater
      · rw [List.mem_singleton.1 hlast]
        exact hkept

/-! ## The invariant -/

variable [DecidableEq κ]

/-- A cache with its clock. -/
structure Clocked (τ κ υ : Type) where
  now : τ
  cache : Cache τ κ υ

/-- What is stored in a cache is what was stored last according to the records. -/
structure Follows (ttl : τ) (records : List (Record τ κ υ ε)) (clocked : Clocked τ κ υ) :
    Prop where
  ttl : clocked.cache.ttl = ttl
  stored : ∀ key stored,
    clocked.cache.stored? key = some stored ↔ LastStored records key stored
  nodup : clocked.cache.keys.Nodup

variable {ttl : τ} {records : List (Record τ κ υ ε)} {clocked : Clocked τ κ υ}

theorem follows_new (ttl now : τ) :
    Follows ttl ([] : List (Record τ κ υ ε)) (⟨now, empty ttl⟩ : Clocked τ κ υ) := by
  refine ⟨rfl, fun key stored => ?_, List.nodup_nil⟩
  rw [stored?_empty]
  constructor
  · intro h
    contradiction
  · rintro ⟨before, record, after, heq, -⟩
    simp at heq

/-- A record of a call that neither stores nor forgets anything changes nothing. -/
theorem Follows.quiet (h : Follows ttl records clocked) {record : Record τ κ υ ε}
    (hstores : ∀ key stored, ¬ record.Stores key stored) (hforgets : ∀ key, ¬ record.Forgets key) :
    Follows ttl (records ++ [record]) clocked := by
  refine ⟨h.ttl, fun key stored => ?_, h.nodup⟩
  rw [lastStored_append_singleton, h.stored]
  constructor
  · exact fun hlast => .inr ⟨hlast, hforgets key, hstores key⟩
  · rintro (hnow | ⟨hlast, -⟩)
    · exact absurd hnow (hstores key stored)
    · exact hlast

theorem Follows.setClock (h : Follows ttl records clocked) (now : τ) :
    Follows ttl (records ++ [⟨clocked.now, .setClock now, .done⟩]) { clocked with now := now } := by
  have kept : Follows ttl (records ++ [⟨clocked.now, .setClock now, .done⟩]) clocked :=
    h.quiet (fun _ => Record.not_stores fun _ => nofun) fun key => by
      rintro (heq | heq) <;> contradiction
  exact ⟨kept.ttl, kept.stored, kept.nodup⟩

/-- What is forgotten was not stored since. -/
theorem Follows.invalidate (h : Follows ttl records clocked) (key : κ) :
    Follows ttl (records ++ [⟨clocked.now, .invalidate key, .done⟩])
      { clocked with cache := clocked.cache.invalidate key } := by
  refine ⟨h.ttl, fun other stored => ?_, nodup_keys_invalidate h.nodup key⟩
  have noStore : ∀ stored', ¬ Record.Stores
      (⟨clocked.now, .invalidate key, .done⟩ : Record τ κ υ ε) other stored' :=
    Record.not_stores fun _ => nofun
  have forgets : Record.Forgets (⟨clocked.now, .invalidate key, .done⟩ : Record τ κ υ ε) other ↔
      other = key := by
    constructor
    · rintro (heq | heq)
      · exact (Call.invalidate.inj heq).symm
      · contradiction
    · rintro rfl
      exact .inl rfl
  rw [lastStored_append_singleton, stored?_invalidate, forgets, ← h.stored]
  by_cases hkey : other = key
  · subst hkey
    simp [noStore]
  · simp [hkey, noStore]

theorem Follows.clear (h : Follows ttl records clocked) :
    Follows ttl (records ++ [⟨clocked.now, .clear, .done⟩])
      { clocked with cache := clocked.cache.clear } := by
  refine ⟨h.ttl, fun key stored => ?_, List.nodup_nil⟩
  rw [lastStored_append_singleton, stored?_clear]
  constructor
  · intro hnone
    contradiction
  · rintro (hstores | ⟨-, hkept, -⟩)
    · exact (Record.not_stores (by simp) stored hstores).elim
    · exact absurd (.inr rfl) hkept

/-- A key is stored when a value was stored for it, and counts once. -/
theorem Follows.encard (h : Follows ttl records clocked) :
    {key | ∃ stored, LastStored records key stored}.encard = clocked.cache.size := by
  have listed : {key | ∃ stored, LastStored records key stored} =
      (clocked.cache.keys.toFinset : Set κ) := by
    ext key
    simp only [Set.mem_ofPred_eq, List.coe_toFinset, mem_keys_iff, h.stored]
  rw [listed, Set.encard_coe_eq_coe_finsetCard, List.toFinset_card_of_nodup h.nodup]
  unfold keys size
  rw [List.length_map]

/-! ## Making calls -/

variable [Sub τ] [LT τ] [DecidableLT τ] {key : κ} {value : υ}

/-- A computation that counts how often it is done. -/
def counted (outcome : Except ε υ) : ExceptT ε (StateM Nat) υ := do
  modify (· + 1)
  match outcome with
  | .ok value => pure value
  | .error failure => throw failure

/-- Ask for the value of a key. When the computation fails there is no other cache
    than before. -/
def Clocked.get (clocked : Clocked τ κ υ) (key : κ) (outcome : Except ε υ) :
    Reply υ ε × Clocked τ κ υ :=
  match (clocked.cache.get key clocked.now (counted outcome)).run.run 0 with
  | (.ok (value, cache), computations) =>
    (.answer (.ok value) computations, { clocked with cache := cache })
  | (.error failure, computations) => (.answer (.error failure) computations, clocked)

/-- Make a call. -/
def Clocked.call (clocked : Clocked τ κ υ) : Call τ κ υ ε → Reply υ ε × Clocked τ κ υ
  | .setClock now => (.done, { clocked with now := now })
  | .get key outcome => clocked.get key outcome
  | .invalidate key => (.done, { clocked with cache := clocked.cache.invalidate key })
  | .clear => (.done, { clocked with cache := clocked.cache.clear })

/-- A value that still counts is not computed. -/
theorem Clocked.get_of_fresh (h : clocked.cache.fresh? key clocked.now = some value)
    (outcome : Except ε υ) : clocked.get key outcome = (.answer (.ok value) 0, clocked) := by
  unfold Clocked.get
  rw [Cache.get_of_fresh h]
  rfl

/-- Otherwise it is computed once, and stored. -/
theorem Clocked.get_of_stale (h : clocked.cache.fresh? key clocked.now = none) (value : υ) :
    clocked.get key (.ok value : Except ε υ) = (.answer (.ok value) 1,
      { clocked with cache := clocked.cache.put key clocked.now value }) := by
  unfold Clocked.get
  rw [Cache.get_of_stale h]
  rfl

/-- When that fails, everything stays as it was. -/
theorem Clocked.get_of_failure (h : clocked.cache.fresh? key clocked.now = none) (failure : ε) :
    clocked.get key (.error failure) = (.answer (.error failure) 1, clocked) := by
  unfold Clocked.get
  rw [Cache.get_of_stale h]
  rfl

/-- A question stores what it computes, and nothing else. -/
theorem Follows.get (h : Follows ttl records clocked) (key : κ) (outcome : Except ε υ) :
    Follows ttl (records ++ [⟨clocked.now, .get key outcome, (clocked.get key outcome).1⟩])
      (clocked.get key outcome).2 := by
  have noForget : ∀ reply other, ¬ Record.Forgets
      (⟨clocked.now, .get key outcome, reply⟩ : Record τ κ υ ε) other := by
    rintro reply other (heq | heq) <;> contradiction
  cases hfresh : clocked.cache.fresh? key clocked.now with
  | some value =>
    rw [Clocked.get_of_fresh hfresh]
    exact h.quiet (fun _ _ => Record.not_stores_found) (noForget _)
  | none =>
    cases outcome with
    | error failure =>
      rw [Clocked.get_of_failure hfresh]
      exact h.quiet (fun _ _ => Record.not_stores_failed) (noForget _)
    | ok value =>
      rw [Clocked.get_of_stale hfresh]
      refine ⟨h.ttl, fun other stored => ?_, nodup_keys_put h.nodup key clocked.now value⟩
      simp only [lastStored_append_singleton, Record.stores_computed_iff, stored?_put, ← h.stored]
      by_cases hkey : other = key
      · simp [hkey, eq_comm]
      · simp [hkey, noForget]

theorem Follows.call (h : Follows ttl records clocked) (call : Call τ κ υ ε) :
    Follows ttl (records ++ [⟨clocked.now, call, (clocked.call call).1⟩])
      (clocked.call call).2 := by
  cases call with
  | setClock now => exact h.setClock now
  | get key outcome => exact h.get key outcome
  | invalidate key => exact h.invalidate key
  | clear => exact h.clear

/-! ## Runs -/

/-- The records of some calls, one after the other, and the cache after them. -/
def run (clocked : Clocked τ κ υ) (calls : List (Call τ κ υ ε)) :
    List (Record τ κ υ ε) × Clocked τ κ υ :=
  calls.foldl (fun (records, here) call =>
    let (reply, after) := here.call call
    (records ++ [⟨here.now, call, reply⟩], after)) ([], clocked)

theorem run_append_singleton (clocked : Clocked τ κ υ) (calls : List (Call τ κ υ ε))
    (call : Call τ κ υ ε) :
    run clocked (calls ++ [call]) =
      ((run clocked calls).1 ++
          [⟨(run clocked calls).2.now, call, ((run clocked calls).2.call call).1⟩],
        ((run clocked calls).2.call call).2) := by
  unfold run
  rw [List.foldl_append]
  rfl

/-- **What is stored after some calls was stored last.** -/
theorem follows_run (ttl now : τ) (calls : List (Call τ κ υ ε)) :
    Follows ttl (run ⟨now, empty ttl⟩ calls).1 (run ⟨now, empty ttl⟩ calls).2 := by
  induction calls using List.reverseRecOn with
  | nil => exact follows_new ttl now
  | append_singleton calls call ih =>
    rw [run_append_singleton]
    exact ih.call call

/-! ## What the records tell -/

/-- What a cache answers and counts is told by the records. -/
structure ToldBy (ttl : τ) (records : List (Record τ κ υ ε)) (here : Clocked τ κ υ) : Prop where
  /-- The value that was stored last is the answer as long as it is young enough. -/
  remembered : ∀ key stored, LastStored records key stored → here.now - stored.time < ttl →
    ∀ outcome, here.call (.get key outcome : Call τ κ υ ε) = (.answer (.ok stored.value) 0, here)
  /-- Without such a value, one is computed, once, and stored. -/
  computed : ∀ key, (¬ ∃ stored, LastStored records key stored ∧ here.now - stored.time < ttl) →
    ∀ value, here.call (.get key (.ok value) : Call τ κ υ ε) =
      (.answer (.ok value) 1, { here with cache := here.cache.put key here.now value })
  /-- When that fails, the cache is left as it was. -/
  failed : ∀ key, (¬ ∃ stored, LastStored records key stored ∧ here.now - stored.time < ttl) →
    ∀ failure : ε, here.call (.get key (.error failure)) = (.answer (.error failure) 1, here)
  /-- Every key that a value was stored for, and that was not forgotten since, counts
      once. -/
  size : {key | ∃ stored, LastStored records key stored}.encard = here.cache.size

theorem Follows.fresh? (h : Follows ttl records clocked) {key : κ} {value : υ} :
    clocked.cache.fresh? key clocked.now = some value ↔
      ∃ stored, LastStored records key stored ∧ clocked.now - stored.time < ttl ∧
        stored.value = value := by
  rw [fresh?_eq_some_iff, h.ttl]
  simp only [h.stored]

theorem Follows.fresh?_eq_none (h : Follows ttl records clocked) {key : κ}
    (hnone : ¬ ∃ stored, LastStored records key stored ∧ clocked.now - stored.time < ttl) :
    clocked.cache.fresh? key clocked.now = none := by
  cases hfresh : clocked.cache.fresh? key clocked.now with
  | none => rfl
  | some value =>
    obtain ⟨stored, hlast, hyoung, -⟩ := h.fresh?.1 hfresh
    exact absurd ⟨stored, hlast, hyoung⟩ hnone

/-- **After any calls, the records tell what a cache answers and counts.** -/
theorem toldBy_run (ttl now : τ) (calls : List (Call τ κ υ ε)) :
    ToldBy ttl (run ⟨now, empty ttl⟩ calls).1 (run ⟨now, empty ttl⟩ calls).2 := by
  have follows := follows_run (κ := κ) (υ := υ) (ε := ε) ttl now calls
  constructor
  · intro key stored hlast hyoung outcome
    exact Clocked.get_of_fresh (follows.fresh?.2 ⟨stored, hlast, hyoung, rfl⟩) outcome
  · intro key hnone value
    exact Clocked.get_of_stale (follows.fresh?_eq_none hnone) value
  · intro key hnone failure
    exact Clocked.get_of_failure (follows.fresh?_eq_none hnone) failure
  · exact follows.encard

end TemplateAnalysis.Cache
