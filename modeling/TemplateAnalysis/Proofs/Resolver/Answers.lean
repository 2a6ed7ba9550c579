import TemplateAnalysis.Proofs.Cache
import TemplateAnalysis.Proofs.Documents
import TemplateAnalysis.Resolver

/-! # Answers that the files give

    What a resolver finds out is told by the files alone: for every query there is
    a function of the file tree that remembers nothing.

    * **`Remembers`**: a memory holds what the files say, as far as it counts at some
      time;
    * **`Learns`**: all that a query does to the memory is to add what the files
      say now;
    * **`Answers`**: a query learns in this way, and as long as the memory is right
      about everything that still counts, it answers what the files say.

    Answers can be put one behind the other (**`Answers.bind`**). With that, there
    is one lemma for each query, up to **`answers_resolve`**.
-/

namespace TemplateAnalysis.Resolver

open Files Text

variable {α β : Type} {project : Project} {tree : FileTree}

/-! ## What the files say -/

/-- What a listing of a project holds. -/
def listingIn (project : Project) (tree : FileTree) : Listing → List (List Char)
  | .templates folder =>
    (filesWithExtension tree folder project.extension).map fun path =>
      (((path.relativeTo? folder).map Path.text).getD path.text).toList
  | .statics folder => (listFiles tree folder).map fun path => path.text.toList

/-- Where a file declares a fragment. -/
def placeIn (tree : FileTree) (key : FragmentKey) : Except Failure (Option Location) :=
  (textIn tree key.file).map fun text? => text?.bind fun text =>
    (Fragment.findDeclaration text.toList key.fragment).map fun place => ⟨key.file, place⟩

/-- The templates of a project. -/
def templatesIn (project : Project) (tree : FileTree) : List (List Char) :=
  match project.templateRoot? with
  | none => []
  | some folder => listingIn project tree (.templates folder)

/-- The static resources of a project. -/
def staticsIn (project : Project) (tree : FileTree) : List (List Char) :=
  match project.staticRoot? with
  | none => []
  | some folder => listingIn project tree (.statics folder)

/-- The static resource that a path means. -/
def staticIn (project : Project) (path : List Char) (tree : FileTree) : Option Location :=
  match project.staticRoot? with
  | none => none
  | some folder =>
    let resource := Reference.withoutRoot (Reference.withSlashes path)
    ((resource :: Reference.imagePaths resource).find? (staticsIn project tree).contains).map
      fun name => ⟨folder.child (String.ofList name), ⟨0, 0⟩⟩

/-- The first of some files that declares a fragment. -/
def firstDeclaringIn (folder : Path) (fragment : List Char) (tree : FileTree) :
    List (List Char) → Except Failure (Option Location)
  | [] => .ok none
  | name :: rest =>
    (placeIn tree ⟨folder.child (String.ofList name), fragment⟩).bind fun
      | some location => .ok (some location)
      | none => firstDeclaringIn folder fragment tree rest

/-- The line of a file that declares a fragment, or its first line. -/
def lineIn (file : Path) (fragment : Option (List Char)) (tree : FileTree) :
    Except Failure (Option Location) :=
  match fragment with
  | none => .ok (some ⟨file, ⟨0, 0⟩⟩)
  | some fragment => (placeIn tree ⟨file, fragment⟩).bind fun found =>
    .ok (some (found.getD ⟨file, ⟨0, 0⟩⟩))

/-- The template of a name, if it is listed. -/
def templateIn (project : Project) (folder : Path) (name : List Char)
    (fragment : Option (List Char)) (tree : FileTree) : Except Failure (Option Location) :=
  if (templatesIn project tree).contains name then
    lineIn (folder.child (String.ofList name)) fragment tree
  else .ok none

/-- The template that a reference means, or the first that declares the fragment. -/
def fragmentIn (project : Project) (template : List Char) (fragment : Option (List Char))
    (tree : FileTree) : Except Failure (Option Location) :=
  match project.templateRoot? with
  | none => .ok none
  | some folder =>
    let wanted := fragment.filter (!·.isEmpty)
    if template.isEmpty then
      match wanted with
      | none => .ok none
      | some name => firstDeclaringIn folder name tree (templatesIn project tree)
    else templateIn project folder (templateFileName project template) wanted tree

/-- Where a reference on a line leads. -/
def targetIn (project : Project) (line : List Char) (reference : Reference.ReferredPath)
    (tree : FileTree) : Except Failure (Option Location) :=
  if Reference.isLink line reference then .ok (staticIn project reference.path tree)
  else fragmentIn project reference.path (Reference.selectorAt? line reference.stop) tree

/-- Where the reference at a position of a line leads. -/
def destinationIn (project : Project) (line : List Char) (position : Nat) (tree : FileTree) :
    Except Failure (Option Location) :=
  match (Reference.references line).find? fun reference =>
      reference.start ≤ position && position ≤ reference.stop with
  | some reference => targetIn project line reference tree
  | none => .ok none

/-! ## Memories -/

/-- What a memory holds, and still counts at some time, is what the files say. -/
structure Remembers (project : Project) (tree : FileTree) (now : Seconds) (memory : Memory) :
    Prop where
  listings : ∀ key stored, memory.listings.stored? key = some stored →
    now - stored.time < project.ttl → stored.value = listingIn project tree key
  places : ∀ key stored, memory.places.stored? key = some stored →
    now - stored.time < project.ttl → placeIn tree key = .ok stored.value

/-- The memory after something was looked up holds what it held before, and what
    the files say now. -/
structure Learns (project : Project) (tree : FileTree) (before after : Memory) : Prop where
  now : after.now = before.now
  listings_ttl : after.listings.ttl = before.listings.ttl
  places_ttl : after.places.ttl = before.places.ttl
  listings : ∀ key stored, after.listings.stored? key = some stored →
    before.listings.stored? key = some stored ∨
      stored = ⟨before.now, listingIn project tree key⟩
  places : ∀ key stored, after.places.stored? key = some stored →
    before.places.stored? key = some stored ∨
      (stored.time = before.now ∧ placeIn tree key = .ok stored.value)

theorem Learns.refl (memory : Memory) : Learns project tree memory memory :=
  ⟨rfl, rfl, rfl, fun _ _ h => .inl h, fun _ _ h => .inl h⟩

theorem Learns.trans {first second third : Memory} (h : Learns project tree first second)
    (h' : Learns project tree second third) : Learns project tree first third := by
  refine ⟨h'.now.trans h.now, h'.listings_ttl.trans h.listings_ttl,
    h'.places_ttl.trans h.places_ttl, ?_, ?_⟩
  · intro key stored hstored
    rcases h'.listings key stored hstored with hbefore | hnew
    · exact h.listings key stored hbefore
    · exact .inr (h.now ▸ hnew)
  · intro key stored hstored
    rcases h'.places key stored hstored with hbefore | hnew
    · exact h.places key stored hbefore
    · exact .inr (h.now ▸ hnew)

/-- **Learning keeps a memory right**, at whatever time it is asked. -/
theorem Learns.remembers {before after : Memory} (h : Learns project tree before after)
    {now : Seconds} (hr : Remembers project tree now before) :
    Remembers project tree now after := by
  constructor
  · intro key stored hstored hyoung
    rcases h.listings key stored hstored with hbefore | hnew
    · exact hr.listings key stored hbefore hyoung
    · rw [hnew]
  · intro key stored hstored hyoung
    rcases h.places key stored hstored with hbefore | hnew
    · exact hr.places key stored hbefore hyoung
    · exact hnew.2

/-- The caches of the memory keep what they hold as long as the project says. -/
structure KeepsFor (project : Project) (memory : Memory) : Prop where
  listings : memory.listings.ttl = project.ttl
  places : memory.places.ttl = project.ttl

theorem Learns.keepsFor {before after : Memory} (h : Learns project tree before after)
    (hk : KeepsFor project before) : KeepsFor project after :=
  ⟨h.listings_ttl.trans hk.listings, h.places_ttl.trans hk.places⟩

/-! ## Queries -/

/-- What came of a query, and the scene that it has left. -/
def outcome : EStateM.Result Failure Scene α → Except Failure α × Scene
  | .ok a scene => (.ok a, scene)
  | .error failure scene => (.error failure, scene)

/-- What was found is what the files say, if the memory was right about what still
    counts. No file has changed, and the memory has learned from it, also from what
    came to fail. -/
structure Finds (project : Project) (scene : Scene) (answer : Except Failure α)
    (found : Except Failure α × Scene) : Prop where
  files : found.2.session.files = scene.session.files
  learns : Learns project scene.session.files scene.memory found.2.memory
  right : Remembers project scene.session.files scene.memory.now scene.memory → found.1 = answer

/-- **A query answers what the files say**, if the memory is right about what still
    counts. -/
def Answers (project : Project) (query : Query α) (answer : FileTree → Except Failure α) : Prop :=
  ∀ scene, KeepsFor project scene.memory →
    Finds project scene (answer scene.session.files) (outcome (query scene))

theorem answers_pure (a : α) : Answers project (pure a) fun _ => .ok a := by
  intro scene _
  exact ⟨rfl, Learns.refl scene.memory, fun _ => rfl⟩

/-- One query after another answers what the files say. -/
theorem Answers.bind {query : Query α} {answer : FileTree → Except Failure α}
    (h : Answers project query answer) {next : α → Query β}
    {answer' : α → FileTree → Except Failure β} (h' : ∀ a, Answers project (next a) (answer' a)) :
    Answers project (query >>= next) fun tree => (answer tree).bind fun a => answer' a tree := by
  intro scene hkeeps
  obtain ⟨hfiles, hlearns, hright⟩ := h scene hkeeps
  cases hrun : query scene with
  | error failure after =>
    rw [hrun] at hfiles hlearns hright
    rw [bind_of_error hrun]
    refine ⟨hfiles, hlearns, fun hr => ?_⟩
    show _ = (answer scene.session.files).bind fun a => answer' a scene.session.files
    rw [← hright hr]
    rfl
  | ok a after =>
    rw [hrun] at hfiles hlearns hright
    rw [bind_of_ok hrun]
    obtain ⟨hfiles', hlearns', hright'⟩ := h' a after (hlearns.keepsFor hkeeps)
    change after.session.files = scene.session.files at hfiles
    change Learns project scene.session.files scene.memory after.memory at hlearns
    rw [hfiles] at hfiles' hlearns' hright'
    refine ⟨hfiles', hlearns.trans hlearns', fun hr => ?_⟩
    show _ = (answer scene.session.files).bind fun a => answer' a scene.session.files
    rw [← hright hr]
    -- What was right before the first query is right before the second.
    apply hright'
    rw [hlearns.now]
    exact hlearns.remembers hr

theorem Answers.ite {query query' : Query α} {answer answer' : FileTree → Except Failure α}
    (h : Answers project query answer) (condition : Prop) [Decidable condition]
    (h' : Answers project query' answer') : Answers project (if condition then query else query')
      fun tree => if condition then answer tree else answer' tree := by
  by_cases hc : condition
  · simp only [if_pos hc]
    exact h
  · simp only [if_neg hc]
    exact h'

/-! ## What is remembered -/

/-- A cached value is one that still counts, or it comes from a look at the files
    and is stored. -/
theorem get_doJob {κ υ : Type} [DecidableEq κ] {compute : Job υ}
    {answer : FileTree → Except Failure υ} (h : Inspects compute answer)
    (cache : Cache Seconds κ υ) (key : κ) (now : Seconds) (scene : Scene) :
    (∃ stored, cache.stored? key = some stored ∧ now - stored.time < cache.ttl ∧
      cache.get key now (doJob compute) scene = .ok (stored.value, cache) scene) ∨
    ∃ after, after.files = scene.session.files ∧
      cache.get key now (doJob compute) scene = match answer scene.session.files with
        | .ok value => .ok (value, cache.put key now value) { scene with session := after }
        | .error failure => .error failure { scene with session := after } := by
  cases hfresh : cache.fresh? key now with
  | some value =>
    left
    obtain ⟨stored, hstored, hyoung, rfl⟩ := Cache.fresh?_eq_some_iff.1 hfresh
    refine ⟨stored, hstored, hyoung, ?_⟩
    rw [Cache.get_of_fresh hfresh]
    rfl
  | none =>
    right
    obtain ⟨after, hfiles, hrun⟩ := h scene.session
    refine ⟨after, hfiles, ?_⟩
    rw [Cache.get_of_stale hfresh]
    cases hanswer : answer scene.session.files with
    | error failure =>
      rw [hanswer] at hrun
      have hjob : doJob compute scene = .error failure { scene with session := after } := by
        unfold doJob
        rw [hrun]
      exact bind_of_error hjob _
    | ok value =>
      rw [hanswer] at hrun
      have hjob : doJob compute scene = .ok value { scene with session := after } := by
        unfold doJob
        rw [hrun]
      exact bind_of_ok hjob _

theorem remembered_eq (scene : Scene) : remembered scene = .ok scene.memory scene :=
  rfl

/-- A listing that is looked up is the one that the files have. -/
theorem answers_listing {key : Listing} {compute : Job (List (List Char))}
    (h : Inspects compute fun tree => .ok (listingIn project tree key)) :
    Answers project (listing key compute) fun tree => .ok (listingIn project tree key) := by
  intro scene hkeeps
  unfold listing
  rw [bind_of_ok (remembered_eq scene)]
  obtain ⟨stored, hstored, hyoung, hrun⟩ | ⟨after, hfiles, hrun⟩ :=
    get_doJob h scene.memory.listings key scene.memory.now scene
  · -- The memory is as it was, and right about what still counts.
    rw [bind_of_ok hrun]
    refine ⟨rfl, Learns.refl scene.memory, fun hr => ?_⟩
    rw [hkeeps.listings] at hyoung
    exact congrArg Except.ok (hr.listings key stored hstored hyoung)
  · dsimp only at hrun
    rw [bind_of_ok hrun]
    refine ⟨hfiles, ⟨rfl, rfl, rfl, ?_, fun _ _ h => .inl h⟩, fun _ => rfl⟩
    intro other stored hstored
    rcases Cache.of_stored?_put hstored with ⟨rfl, hnew⟩ | hbefore
    · exact .inr hnew
    · exact .inl hbefore

/-- A fragment is located in the text of its file. -/
theorem inspects_locate (file : Path) (fragment : List Char) :
    Inspects (locate file fragment) fun tree => placeIn tree ⟨file, fragment⟩ := by
  -- What is found in a text, if there is one.
  let answer : Option String → FileTree → Except Failure (Option Location) := fun text? _ =>
    .ok (text?.bind fun text =>
      (Fragment.findDeclaration text.toList fragment).map fun place => ⟨file, place⟩)
  unfold locate
  refine @Inspects.bind _ _ _ _ (inspects_readText file) _ answer fun text? => ?_
  cases text? with
  | none => exact inspects_pure none
  | some text => exact inspects_pure _

/-- The place of a fragment that is looked up is the one that its file has. -/
theorem answers_fragmentLocation (file : Path) (fragment : List Char) :
    Answers project (fragmentLocation file fragment) fun tree => placeIn tree ⟨file, fragment⟩ := by
  intro scene hkeeps
  unfold fragmentLocation
  rw [bind_of_ok (remembered_eq scene)]
  obtain ⟨stored, hstored, hyoung, hrun⟩ | ⟨after, hfiles, hrun⟩ :=
    get_doJob (inspects_locate file fragment) scene.memory.places ⟨file, fragment⟩
      scene.memory.now scene
  · rw [bind_of_ok hrun]
    refine ⟨rfl, Learns.refl scene.memory, fun hr => ?_⟩
    rw [hkeeps.places] at hyoung
    exact (hr.places _ stored hstored hyoung).symm
  · cases hplace : placeIn scene.session.files ⟨file, fragment⟩ with
    | error failure =>
      -- Then nothing is stored, and the old memory is kept.
      rw [hplace] at hrun
      rw [bind_of_error hrun]
      exact ⟨hfiles, Learns.refl scene.memory, fun _ => hplace.symm⟩
    | ok found =>
      rw [hplace] at hrun
      rw [bind_of_ok hrun]
      refine ⟨hfiles, ⟨rfl, rfl, rfl, fun _ _ h => .inl h, ?_⟩, fun _ => hplace.symm⟩
      intro other stored hstored
      rcases Cache.of_stored?_put hstored with ⟨rfl, rfl⟩ | hbefore
      · exact .inr ⟨rfl, hplace⟩
      · exact .inl hbefore

/-! ## Queries about the project -/

theorem answers_templateFiles :
    Answers project (templateFiles project) fun tree => .ok (templatesIn project tree) := by
  unfold templateFiles templatesIn
  cases project.templateRoot? with
  | none => exact answers_pure []
  | some folder => exact answers_listing (inspects_files.bind fun tree => inspects_pure _)

theorem answers_staticFiles :
    Answers project (staticFiles project) fun tree => .ok (staticsIn project tree) := by
  unfold staticFiles staticsIn
  cases project.staticRoot? with
  | none => exact answers_pure []
  | some folder => exact answers_listing (inspects_files.bind fun tree => inspects_pure _)

theorem answers_findStatic (path : List Char) :
    Answers project (findStatic project path) fun tree => .ok (staticIn project path tree) := by
  unfold findStatic staticIn
  cases project.staticRoot? with
  | none => exact answers_pure none
  | some folder => exact answers_staticFiles.bind fun names => answers_pure _

/-- The files are searched one after the other, up to the first that declares the
    fragment. -/
theorem answers_firstDeclaring (folder : Path) (fragment : List Char) (names : List (List Char)) :
    Answers project (firstDeclaring folder fragment names)
      fun tree => firstDeclaringIn folder fragment tree names := by
  induction names with
  | nil => exact answers_pure none
  | cons name rest ih =>
    apply (answers_fragmentLocation (folder.child (String.ofList name)) fragment).bind
    intro found
    cases found with
    | some location => exact answers_pure (some location)
    | none => exact ih

theorem answers_line (file : Path) (fragment : Option (List Char)) :
    Answers project (match fragment with
      | none => pure (some ⟨file, ⟨0, 0⟩⟩)
      | some fragment => do
        pure (some ((← fragmentLocation file fragment).getD ⟨file, ⟨0, 0⟩⟩)))
      (lineIn file fragment) := by
  cases fragment with
  | none => exact answers_pure _
  | some fragment =>
    exact (answers_fragmentLocation file fragment).bind fun found =>
      answers_pure (some (found.getD ⟨file, ⟨0, 0⟩⟩))

theorem answers_findFragment (template : List Char) (fragment : Option (List Char)) :
    Answers project (findFragment project template fragment)
      (fragmentIn project template fragment) := by
  unfold findFragment fragmentIn
  cases project.templateRoot? with
  | none => exact answers_pure none
  | some folder =>
    by_cases hempty : template.isEmpty = true
    · simp only [if_pos hempty]
      cases fragment.filter (!·.isEmpty) with
      | none => exact answers_pure none
      | some name => exact answers_templateFiles.bind (answers_firstDeclaring folder name)
    · simp only [if_neg hempty]
      -- The listing is looked up, and then the file if it is listed.
      have listed := fun names : List (List Char) =>
        (@answers_line project (folder.child (String.ofList (templateFileName project template)))
          (fragment.filter (!·.isEmpty))).ite
          (names.contains (templateFileName project template)) (answers_pure none)
      exact answers_templateFiles.bind listed

theorem answers_follow (line : List Char) (reference : Reference.ReferredPath) :
    Answers project (follow project line reference) (targetIn project line reference) := by
  unfold follow targetIn
  by_cases hlink : Reference.isLink line reference = true
  · simp only [if_pos hlink]
    exact answers_findStatic reference.path
  · simp only [if_neg hlink]
    exact answers_findFragment reference.path _

/-- **Where a reference leads is told by the files.** -/
theorem answers_resolve (line : List Char) (position : Nat) :
    Answers project (resolve project line position) (destinationIn project line position) := by
  unfold resolve destinationIn
  cases (Reference.references line).find? fun reference =>
      reference.start ≤ position && position ≤ reference.stop with
  | none => exact answers_pure none
  | some reference => exact answers_follow line reference

end TemplateAnalysis.Resolver
