import Mathlib.Data.List.Induction
import TemplateAnalysis.Proofs.Decimal.Difference
import TemplateAnalysis.Proofs.Resolver.Answers

/-! # Remembering changes no answer

    A resolver is asked things, and told to forget everything; in between, time
    passes, and files come, go and change. `run` says what becomes of it.

    A history is **`SettledBy`** some time if every change in it was long enough ago by
    then, or was followed by a `clear`. The invariant of a run is **`Sound`**: at all
    times by which the history is settled, the memory is right about what still counts.
    It holds at the beginning (`sound_empty`), every event keeps it (`Sound.ask`,
    `Sound.clear`, `Sound.change`, `Sound.tick`), and so it holds after every history
    (**`sound_run`**).

    With that, a resolver whose history is settled by now answers like a new one
    (**`ask_run_eq_ask_renewed`**). Ages are rounded, so of their arithmetic only this
    is used: what was stored later counts at least as long (**`noLater_of_lt`**).
-/

namespace TemplateAnalysis.Resolver

open Files Decimal

variable {project : Project} {scene : Scene}

/-! ## Questions -/

/-- What a resolver can be asked. -/
inductive Question
  | templates
  | statics
  /-- Where the reference at a position of a line leads. -/
  | destination (line : List Char) (position : Nat)
  | static (path : List Char)
  | fragment (template : List Char) (name? : Option (List Char))

/-- What it answers: a listing, or where something is. -/
inductive Answer
  | names (names : List (List Char))
  | location (location? : Option Location)
  deriving DecidableEq

/-- The query that answers a question. -/
def Question.ask (project : Project) : Question → Query Answer
  | .templates => do pure (.names (← templateFiles project))
  | .statics => do pure (.names (← staticFiles project))
  | .destination line position => do pure (.location (← resolve project line position))
  | .static path => do pure (.location (← findStatic project path))
  | .fragment template name? => do pure (.location (← findFragment project template name?))

/-- What the files say to a question. -/
def Question.answerIn (project : Project) (tree : FileTree) : Question → Except Failure Answer
  | .templates => .ok (.names (templatesIn project tree))
  | .statics => .ok (.names (staticsIn project tree))
  | .destination line position =>
    (destinationIn project line position tree).bind fun found => .ok (.location found)
  | .static path => .ok (.location (staticIn project path tree))
  | .fragment template name? =>
    (fragmentIn project template name? tree).bind fun found => .ok (.location found)

/-- Every question is answered by what the files say. -/
theorem answers_ask (question : Question) :
    Answers project (question.ask project) fun tree => question.answerIn project tree := by
  cases question with
  | templates =>
    exact answers_templateFiles.bind fun names => answers_pure (Answer.names names)
  | statics =>
    exact answers_staticFiles.bind fun names => answers_pure (Answer.names names)
  | destination line position =>
    exact (answers_resolve line position).bind fun found => answers_pure (Answer.location found)
  | static path =>
    exact (answers_findStatic path).bind fun found => answers_pure (Answer.location found)
  | fragment template name? =>
    exact (answers_findFragment template name?).bind fun found =>
      answers_pure (Answer.location found)

/-! ## Times -/

/-- What is stored at the second time counts at least as long as what is stored at the
    first. -/
def NoLater (first second : Seconds) : Prop :=
  ∀ now ttl : Seconds, now - first < ttl → now - second < ttl

theorem NoLater.refl (time : Seconds) : NoLater time time :=
  fun _ _ h => h

theorem NoLater.trans {first second third : Seconds} (h : NoLater first second)
    (h' : NoLater second third) : NoLater first third :=
  fun now ttl hyoung => h' now ttl (h now ttl hyoung)

/-- **What is stored later counts longer**, though ages are rounded. -/
theorem noLater_of_lt {first second : Seconds} (h : first < second) : NoLater first second :=
  fun _ _ => Binary64.sub_lt_of_lt h

/-- Some time has passed: that is so exactly, or as a cache reckons. -/
def Elapsed (ttl since now : Seconds) : Prop :=
  (∃ x y z, since.rational? = some x ∧ now.rational? = some y ∧ ttl.rational? = some z ∧
      x ≤ y - z) ∨
    ¬ now - since < ttl

/-- What has passed exactly has passed for a cache. -/
theorem Elapsed.not_lt {ttl since now : Seconds} (h : Elapsed ttl since now)
    (hc : ttl.Canonical) : ¬ now - since < ttl := by
  rcases h with ⟨x, y, z, hx, hy, hz, hle⟩ | hnot
  · exact Binary64.not_sub_lt_of_le hc hx hy hz hle
  · exact hnot

/-! ## Histories -/

/-- A resolver that was made just now. -/
def Scene.new (project : Project) (now : Seconds) (session : Session) : Scene :=
  ⟨{ Memory.empty project.ttl with now := now }, session⟩

/-- The same time and the same files, with a new resolver. -/
def Scene.renewed (project : Project) (scene : Scene) : Scene :=
  Scene.new project scene.memory.now scene.session

/-- Ask the resolver. -/
def Scene.ask (project : Project) (scene : Scene) (question : Question) :
    Except Failure Answer × Scene :=
  outcome (question.ask project scene)

/-- Tell the resolver to forget everything. -/
def Scene.clear (scene : Scene) : Scene :=
  (outcome (Resolver.clear scene)).2

/-- What can happen. -/
inductive Event
  | ask (question : Question)
  | clear
  /-- Files come, go and change: from now on there are these. -/
  | change (files : FileTree)
  /-- The clock is read. It never goes back. -/
  | tick (reading : Seconds)

/-- What becomes of a scene. -/
def Scene.step (project : Project) (scene : Scene) : Event → Scene
  | .ask question => (scene.ask project question).2
  | .clear => scene.clear
  | .change files => { scene with session := { scene.session with files := files } }
  | .tick reading =>
    if scene.memory.now < reading then
      { scene with memory := { scene.memory with now := reading } }
    else scene

/-- The scene after some events. -/
def run (project : Project) (scene : Scene) (events : List Event) : Scene :=
  events.foldl (Scene.step project) scene

@[simp] theorem run_append_singleton (scene : Scene) (events : List Event) (event : Event) :
    run project scene (events ++ [event]) = (run project scene events).step project event := by
  unfold run
  rw [List.foldl_append]
  rfl

/-- By some time, every change among the events was as long ago as things are kept, or
    everything was forgotten after it. -/
def SettledBy (project : Project) (scene : Scene) (events : List Event) (now : Seconds) : Prop :=
  ∀ before files after, events = before ++ .change files :: after →
    .clear ∈ after ∨ Elapsed project.ttl (run project scene before).memory.now now

/-- What is settled was settled before the last event, unless that was to forget
    everything. -/
theorem SettledBy.of_append {events : List Event} {event : Event} {now : Seconds}
    (h : SettledBy project scene (events ++ [event]) now) (hevent : event ≠ .clear) :
    SettledBy project scene events now := by
  intro before files after heq
  rcases h before files (after ++ [event]) (by rw [heq, List.append_assoc]; rfl) with
    hclear | helapsed
  · left
    rcases List.mem_append.1 hclear with hafter | hlast
    · exact hafter
    · exact absurd (List.mem_singleton.1 hlast).symm hevent
  · exact .inr helapsed

/-- A change that was just made is settled when enough time has passed. -/
theorem SettledBy.elapsed {events : List Event} {files : FileTree} {now : Seconds}
    (h : SettledBy project scene (events ++ [.change files]) now) :
    Elapsed project.ttl (run project scene events).memory.now now := by
  rcases h events files [] rfl with hclear | helapsed
  · exact absurd hclear List.not_mem_nil
  · exact helapsed

/-! ## The invariant -/

/-- Nothing in the memory comes from the future. -/
structure Past (memory : Memory) : Prop where
  listings : ∀ key stored, memory.listings.stored? key = some stored →
    NoLater stored.time memory.now
  places : ∀ key stored, memory.places.stored? key = some stored →
    NoLater stored.time memory.now

theorem Past.learns {tree : FileTree} {before after : Memory} (h : Past before)
    (hl : Learns project tree before after) : Past after := by
  constructor
  · intro key stored hstored
    rw [hl.now]
    rcases hl.listings key stored hstored with hbefore | hnew
    · exact h.listings key stored hbefore
    · exact hnew ▸ NoLater.refl _
  · intro key stored hstored
    rw [hl.now]
    rcases hl.places key stored hstored with hbefore | hnew
    · exact h.places key stored hbefore
    · exact hnew.1 ▸ NoLater.refl _

/-- A memory in which nothing counts any more is right in any case. -/
theorem Past.remembers {memory : Memory} (h : Past memory) {now : Seconds}
    (hnow : ¬ now - memory.now < project.ttl) (tree : FileTree) :
    Remembers project tree now memory := by
  constructor
  · intro key stored hstored hyoung
    exact absurd (h.listings key stored hstored now project.ttl hyoung) hnow
  · intro key stored hstored hyoung
    exact absurd (h.places key stored hstored now project.ttl hyoung) hnow

/-- At some times, the memory of a scene is right about what still counts. -/
structure Sound (project : Project) (right : Seconds → Prop) (scene : Scene) : Prop where
  keeps : KeepsFor project scene.memory
  past : Past scene.memory
  remembers : ∀ now, right now → Remembers project scene.session.files now scene.memory

variable {right right' : Seconds → Prop}

theorem sound_empty {now : Seconds} {session : Session} :
    Sound project right (Scene.new project now session) := by
  refine ⟨⟨rfl, rfl⟩, ⟨?_, ?_⟩, fun _ _ => ⟨?_, ?_⟩⟩ <;> intro _ _ hstored <;> cases hstored

theorem Sound.ask (h : Sound project right scene) (question : Question) :
    Sound project right (scene.ask project question).2 := by
  obtain ⟨hfiles, hlearns, -⟩ := answers_ask question scene h.keeps
  refine ⟨hlearns.keepsFor h.keeps, h.past.learns hlearns, fun now hnow => ?_⟩
  unfold Scene.ask
  rw [hfiles]
  exact hlearns.remembers (h.remembers now hnow)

theorem Sound.clear (h : Sound project right scene) : Sound project right' scene.clear := by
  refine ⟨⟨h.keeps.listings, h.keeps.places⟩, ⟨?_, ?_⟩, fun _ _ => ⟨?_, ?_⟩⟩ <;>
    intro _ _ hstored <;> cases hstored

theorem Sound.change (h : Sound project right scene) (files : FileTree)
    (hlater : ∀ now, right' now → ¬ now - scene.memory.now < project.ttl) :
    Sound project right' (scene.step project (.change files)) :=
  ⟨h.keeps, h.past, fun now hnow => h.past.remembers (hlater now hnow) files⟩

theorem Sound.tick (h : Sound project right scene) (reading : Seconds) :
    Sound project right (scene.step project (.tick reading)) := by
  unfold Scene.step
  dsimp only
  split
  · rename_i hlater
    have later := noLater_of_lt hlater
    refine ⟨⟨h.keeps.listings, h.keeps.places⟩, ⟨?_, ?_⟩, fun now hnow => ?_⟩
    · intro key stored hstored
      exact (h.past.listings key stored hstored).trans later
    · intro key stored hstored
      exact (h.past.places key stored hstored).trans later
    · exact ⟨(h.remembers now hnow).listings, (h.remembers now hnow).places⟩
  · exact h

/-- Fewer times to be right at. -/
theorem Sound.mono (h : Sound project right scene) (himp : ∀ now, right' now → right now) :
    Sound project right' scene :=
  ⟨h.keeps, h.past, fun now hnow => h.remembers now (himp now hnow)⟩

/-- **After every history, the memory is right about what still counts, at all times by
    which the history is settled.** -/
theorem sound_run (hc : project.ttl.Canonical) (start : Seconds) (session : Session)
    (events : List Event) :
    Sound project (SettledBy project (Scene.new project start session) events)
      (run project (Scene.new project start session) events) := by
  -- The last event comes on top of what held before it.
  induction events using List.reverseRecOn with
  | nil => exact sound_empty
  | append_singleton events event ih =>
    rw [run_append_singleton]
    cases event with
    | ask question => exact (ih.ask question).mono fun _ hs => hs.of_append nofun
    | clear => exact ih.clear
    | change files => exact ih.change files fun _ hs => hs.elapsed.not_lt hc
    | tick reading => exact (ih.tick reading).mono fun _ hs => hs.of_append nofun

/-! ## Transparency -/

/-- A resolver that is right about what still counts answers what the files say. -/
theorem Sound.answer (h : Sound project right scene) (question : Question)
    (hnow : right scene.memory.now) :
    (scene.ask project question).1 = question.answerIn project scene.session.files :=
  (answers_ask question scene h.keeps).right (h.remembers _ hnow)

/-- A new resolver answers what the files say. -/
theorem ask_new (project : Project) (now : Seconds) (session : Session) (question : Question) :
    ((Scene.new project now session).ask project question).1 =
      question.answerIn project session.files := by
  have hnew : Sound project (fun _ => True) (Scene.new project now session) := sound_empty
  exact hnew.answer question trivial

/-- **A resolver answers like a new one**, whatever it was asked before, if every
    change of the files is as old as the time that things are kept, or everything was
    forgotten after it. The time that things are kept is any number of double
    precision. -/
theorem ask_run_eq_ask_renewed (project : Project) (hc : project.ttl.Canonical)
    (start : Seconds) (session : Session) (events : List Event) (question : Question)
    (h : SettledBy project (Scene.new project start session) events
      (run project (Scene.new project start session) events).memory.now) :
    ((run project (Scene.new project start session) events).ask project question).1 =
      (((run project (Scene.new project start session) events).renewed project).ask project
        question).1 := by
  have hrun := (sound_run hc start session events).answer question h
  rw [hrun, Scene.renewed, ask_new]

/-- A project that keeps what it lists for five seconds. -/
def fiveSeconds : Project :=
  { workspace := ⟨"/", ["ws"]⟩ }

/-- A resolver that is made at 0.1, when there are no files. -/
def emptyScene : Scene :=
  Scene.new fiveSeconds (.ofDecimal false 1 (-1)) ⟨⟨[], []⟩, "", ""⟩

/-- A new template comes after a listing, and then it is 5.1. -/
def lateListing : List Event :=
  [.ask .templates,
    .change ⟨[], [(["ws"], .folder), (["ws", "templates"], .folder),
      (["ws", "templates", "a.html"], .file "".toUTF8)]⟩,
    .tick (.ofDecimal false 51 (-1))]

/-- The listing is less than five seconds old, but its age is rounded to five. -/
theorem ask_run_lateListing :
    ((run fiveSeconds emptyScene lateListing).ask fiveSeconds .templates).1 =
      (((run fiveSeconds emptyScene lateListing).renewed fiveSeconds).ask fiveSeconds
        .templates).1 := by
  refine ask_run_eq_ask_renewed fiveSeconds (canonical_ofDecimal false 5 0) _ _ lateListing
    .templates fun before files after heq => ?_
  right
  -- The only change is the second event.
  rcases before with _ | ⟨_, _ | ⟨_, _ | ⟨_, _ | ⟨_, rest⟩⟩⟩⟩
  · cases heq
  · cases heq
    right
    decide +kernel
  · cases heq
  · cases heq
  · cases heq

end TemplateAnalysis.Resolver
