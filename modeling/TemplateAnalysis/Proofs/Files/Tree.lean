import TemplateAnalysis.Files.Tree

/-! # What changes of a file tree leave as it is

    Making folders and writing files add to a tree, or put one file in the
    place of another. Every way that leads somewhere still leads there:

    * **`KeepsWays`** is what such a change keeps of a tree;
    * **`KeepsWays.locate`**: a path that led to a place leads there still;
    * **`makeFolders_makeFolders`**: making folders twice is making them once,
      also when it goes wrong;
    * **`write_write`**: so is writing a file.

    Looking at a file tree changes nothing, and there are two ways to look at the
    same thing: a path and the one without dots that it is resolved to lead to
    the same place (**`locate_resolve`**).
-/

/-- What is taken from a table changes nothing for other keys. -/
theorem List.lookup_filter_ne {α β : Type} [BEq α] [LawfulBEq α] [DecidableEq α] {key other : α}
    (h : other ≠ key) (table : List (α × β)) :
    (table.filter fun entry => entry.1 ≠ key).lookup other = table.lookup other := by
  induction table with
  | nil => rfl
  | cons entry rest ih =>
    by_cases hp : entry.1 = key
    · have hne : (other == entry.1) = false := beq_eq_false_iff_ne.2 (hp ▸ h)
      rw [List.filter_cons_of_neg (by simp [hp]), List.lookup_cons, hne]
      exact ih
    · rw [List.filter_cons_of_pos (by simp [hp]), List.lookup_cons, List.lookup_cons, ih]

namespace TemplateAnalysis.Files.FileTree

/-! ## Nodes -/

theorem nodeAt?_nil (tree : FileTree) : tree.nodeAt? [] = some .folder :=
  rfl

/-- A place that leads to no folder is not the root. -/
theorem ne_nil_of_nodeAt?_ne_folder {tree : FileTree} {place : List String}
    (h : tree.nodeAt? place ≠ some .folder) : place ≠ [] := by
  rintro rfl
  exact h tree.nodeAt?_nil

/-- Something else at a place changes that place alone. -/
theorem nodeAt?_setNode (tree : FileTree) {place : List String} (h : place ≠ []) (node : Node)
    (other : List String) :
    (tree.setNode place node).nodeAt? other =
      if other = place then some node else tree.nodeAt? other := by
  cases other with
  | nil =>
    rw [if_neg (Ne.symm h)]
    rfl
  | cons part parts =>
    show ((place, node) :: tree.nodes.filter fun entry => entry.1 ≠ place).lookup _ = _
    rw [List.lookup_cons]
    by_cases hp : part :: parts = place
    · rw [hp, beq_self_eq_true, if_pos rfl]
    · rw [beq_eq_false_iff_ne.2 hp, if_neg hp]
      exact List.lookup_filter_ne hp tree.nodes

/-- The same thing is put at a place once and for all. -/
theorem setNode_setNode (tree : FileTree) (place : List String) (node : Node) :
    (tree.setNode place node).setNode place node = tree.setNode place node := by
  unfold setNode
  congr 2
  rw [List.filter_cons_of_neg (by simp), List.filter_filter]
  simp

/-! ## Ways -/

/-- Folders stay folders, and where something is, something stays. -/
structure KeepsWays (before after : FileTree) : Prop where
  current : after.current = before.current
  folder : ∀ {place}, before.nodeAt? place = some .folder → after.nodeAt? place = some .folder
  node : ∀ {place}, (before.nodeAt? place).isSome → (after.nodeAt? place).isSome

/-- Whatever stands at a place that is no folder can be replaced. -/
theorem keepsWays_setNode {tree : FileTree} {place : List String}
    (h : tree.nodeAt? place ≠ some .folder) (node : Node) :
    KeepsWays tree (tree.setNode place node) := by
  have hne := ne_nil_of_nodeAt?_ne_folder h
  constructor
  · rfl
  · intro other hf
    rw [nodeAt?_setNode tree hne]
    by_cases hp : other = place
    · exact absurd (hp ▸ hf) h
    · rw [if_neg hp]
      exact hf
  · intro other hn
    rw [nodeAt?_setNode tree hne]
    by_cases hp : other = place
    · rw [if_pos hp]
      rfl
    · rw [if_neg hp]
      exact hn

theorem locateFrom_cons {tree : FileTree} {place : List String} {part : String}
    {rest : List String} {found : List String}
    (h : tree.locateFrom place (part :: rest) = .ok found) :
    tree.nodeAt? place = some .folder ∧
      ∃ next, next = (if part = ".." then place.dropLast else place ++ [part]) ∧
        (tree.nodeAt? next).isSome ∧ tree.locateFrom next rest = .ok found := by
  rw [locateFrom] at h
  split at h
  · rename_i hf
    refine ⟨hf, _, rfl, ?_⟩
    simp only at h
    split at h
    · rename_i hn
      exact ⟨by rw [hn]; rfl, h⟩
    · contradiction
  · contradiction

theorem locateFrom_cons_eq {tree : FileTree} {place : List String} {part : String}
    {rest : List String} (hf : tree.nodeAt? place = some .folder)
    (hn : (tree.nodeAt? (if part = ".." then place.dropLast else place ++ [part])).isSome) :
    tree.locateFrom place (part :: rest) =
      tree.locateFrom (if part = ".." then place.dropLast else place ++ [part]) rest := by
  obtain ⟨node, hnode⟩ := Option.isSome_iff_exists.1 hn
  rw [locateFrom, hf]
  simp only [hnode]

theorem KeepsWays.locateFrom {before after : FileTree} (h : KeepsWays before after)
    {place parts found : List String} (hl : before.locateFrom place parts = .ok found) :
    after.locateFrom place parts = .ok found := by
  induction parts generalizing place with
  | nil => exact hl
  | cons part rest ih =>
    obtain ⟨hf, next, rfl, hn, hrest⟩ := locateFrom_cons hl
    rw [locateFrom_cons_eq (h.folder hf) (h.node hn)]
    exact ih hrest

theorem KeepsWays.start {before after : FileTree} (h : KeepsWays before after) (path : Path) :
    after.start path = before.start path := by
  unfold FileTree.start
  rw [h.current]

/-- **A path that led to a place leads there still.** -/
theorem KeepsWays.locate {before after : FileTree} (h : KeepsWays before after) {path : Path}
    {place : List String} (hl : before.locate path = .ok place) :
    after.locate path = .ok place := by
  unfold FileTree.locate at hl ⊢
  rw [h.start]
  exact h.locateFrom hl

theorem isFolder_iff {tree : FileTree} {path : Path} :
    tree.isFolder path = true ↔
      ∃ place, tree.locate path = .ok place ∧ tree.nodeAt? place = some .folder := by
  unfold isFolder find?
  constructor
  · intro h
    cases hl : tree.locate path with
    | error problem => simp [hl] at h
    | ok place =>
      refine ⟨place, rfl, ?_⟩
      simp only [hl] at h
      split at h
      · assumption
      · contradiction
  · intro ⟨place, hl, hf⟩
    simp [hl, hf]

theorem KeepsWays.isFolder {before after : FileTree} (h : KeepsWays before after) {path : Path}
    (hf : before.isFolder path = true) : after.isFolder path = true := by
  obtain ⟨place, hl, hn⟩ := isFolder_iff.1 hf
  exact isFolder_iff.2 ⟨place, h.locate hl, h.folder hn⟩

/-- What a file holds is read as before, where that file has not changed. -/
theorem KeepsWays.read {before after : FileTree} (h : KeepsWays before after) {path : Path}
    {content : ByteArray} (hr : before.read path = .ok content)
    (hsame : ∀ place, before.locate path = .ok place →
      after.nodeAt? place = before.nodeAt? place) :
    after.read path = .ok content := by
  unfold FileTree.read at hr ⊢
  split at hr
  · contradiction
  · rename_i hnull
    rw [if_neg hnull]
    cases hl : before.locate path with
    | error problem => simp [hl] at hr
    | ok place =>
      simp only [hl] at hr
      simp only [h.locate hl, hsame place hl]
      exact hr

/-! ## New places -/

/-- The last step of a way starts at a folder. -/
theorem locateFrom_append {tree : FileTree} {place found parts : List String} {part : String} :
    tree.locateFrom place (parts ++ [part]) = .ok found ↔
      ∃ folder, tree.locateFrom place parts = .ok folder ∧
        tree.nodeAt? folder = some .folder ∧
        found = (if part = ".." then folder.dropLast else folder ++ [part]) ∧
        (tree.nodeAt? found).isSome := by
  induction parts generalizing place with
  | nil =>
    constructor
    · intro h
      obtain ⟨hf, next, rfl, hn, hrest⟩ := locateFrom_cons h
      obtain rfl := Except.ok.inj hrest
      exact ⟨place, rfl, hf, rfl, hn⟩
    · intro ⟨folder, hl, hf, hfound, hn⟩
      obtain rfl := Except.ok.inj hl
      rw [hfound] at hn ⊢
      rw [List.nil_append, locateFrom_cons_eq hf hn]
      rfl
  | cons first rest ih =>
    constructor
    · intro h
      obtain ⟨hf, next, rfl, hn, hrest⟩ := locateFrom_cons h
      obtain ⟨folder, hl, hlast⟩ := ih.1 hrest
      exact ⟨folder, by rw [locateFrom_cons_eq hf hn, hl], hlast⟩
    · intro ⟨folder, hl, hlast⟩
      obtain ⟨hf, next, rfl, hn, hrest⟩ := locateFrom_cons hl
      rw [List.cons_append, locateFrom_cons_eq hf hn]
      exact ih.2 ⟨folder, hrest, hlast⟩

/-- Where the last name of a path would stand. -/
theorem newPlace_eq_ok_iff {tree : FileTree} {path : Path} {place : List String} :
    tree.newPlace path = .ok place ↔
      path.parts = [] ∧ place = tree.start path ∨
      ∃ parts name folder, path.parts = parts ++ [name] ∧
        tree.locateFrom (tree.start path) parts = .ok folder ∧
        tree.nodeAt? folder = some .folder ∧
        place = (if name = ".." then folder.dropLast else folder ++ [name]) := by
  rcases List.eq_nil_or_concat path.parts with hp | ⟨parts, name, hp⟩
  · -- Without a name, the path leads to where it starts.
    have hnew : tree.newPlace path = .ok (tree.start path) := by
      unfold newPlace
      rw [hp]
      rfl
    rw [hnew, hp]
    constructor
    · intro h
      exact .inl ⟨rfl, (Except.ok.inj h).symm⟩
    · rintro (⟨-, rfl⟩ | ⟨_, _, _, h, -⟩)
      · rfl
      · simp at h
  · have hlast : path.parts.getLast? = some name := by rw [hp, List.concat_eq_append]; simp
    have hinit : path.parts.dropLast = parts := by rw [hp, List.concat_eq_append]; simp
    unfold newPlace
    rw [hlast, hinit, hp, List.concat_eq_append]
    constructor
    · intro h
      simp only at h
      cases hl : tree.locateFrom (tree.start path) parts with
      | error problem => simp [hl] at h
      | ok folder =>
        simp only [hl] at h
        split at h
        · rename_i hf
          exact .inr ⟨parts, name, folder, rfl, hl, hf, (Except.ok.inj h).symm⟩
        · contradiction
    · rintro (⟨h, -⟩ | ⟨others, other, folder, h, hl, hf, rfl⟩)
      · simp at h
      · obtain ⟨rfl, hname⟩ := List.append_inj' h rfl
        obtain rfl := (List.cons.inj hname).1
        simp only [hl, hf]

theorem KeepsWays.newPlace {before after : FileTree} (h : KeepsWays before after) {path : Path}
    {place : List String} (hn : before.newPlace path = .ok place) :
    after.newPlace path = .ok place := by
  rw [newPlace_eq_ok_iff] at hn ⊢
  rw [h.start]
  rcases hn with hn | ⟨parts, name, folder, hp, hl, hf, hplace⟩
  · exact .inl hn
  · exact .inr ⟨parts, name, folder, hp, h.locateFrom hl, h.folder hf, hplace⟩

/-- A path leads to the place where its last name would stand, when something
    stands there. -/
theorem locate_of_newPlace {tree : FileTree} {path : Path} {place : List String}
    (h : tree.newPlace path = .ok place) (hn : (tree.nodeAt? place).isSome) :
    tree.locate path = .ok place := by
  unfold locate
  rcases newPlace_eq_ok_iff.1 h with ⟨hp, rfl⟩ | ⟨parts, name, folder, hp, hl, hf, hplace⟩
  · rw [hp]
    rfl
  · rw [hp]
    exact locateFrom_append.2 ⟨folder, hl, hf, hplace, hn⟩

theorem newPlace_of_locate {tree : FileTree} {path : Path} {place : List String}
    (h : tree.locate path = .ok place) : tree.newPlace path = .ok place := by
  unfold locate at h
  rw [newPlace_eq_ok_iff]
  rcases List.eq_nil_or_concat path.parts with hp | ⟨parts, name, hp⟩
  · rw [hp] at h
    exact .inl ⟨hp, (Except.ok.inj h).symm⟩
  · rw [List.concat_eq_append] at hp
    rw [hp] at h
    obtain ⟨folder, hl, hf, hplace, -⟩ := locateFrom_append.1 h
    exact .inr ⟨parts, name, folder, hp, hl, hf, hplace⟩

/-- A new place stands in a folder. -/
theorem isFolder_parent {tree : FileTree} {path : Path} (hp : path.parts ≠ [])
    {place : List String} (h : tree.newPlace path = .ok place) :
    tree.isFolder path.parent = true := by
  rcases newPlace_eq_ok_iff.1 h with ⟨hnone, -⟩ | ⟨parts, name, folder, hparts, hl, hf, -⟩
  · exact absurd hnone hp
  · refine isFolder_iff.2 ⟨folder, ?_, hf⟩
    have hparent : path.parent.parts = parts := by simp [Path.parent, hparts]
    unfold locate
    rw [hparent]
    exact hl

/-! ## Making folders -/

theorem makeFolder_eq_ok {tree made : FileTree} {path : Path}
    (h : tree.makeFolder path = .ok made) :
    ∃ place, tree.newPlace path = .ok place ∧ tree.nodeAt? place = none ∧
      made = tree.setNode place .folder := by
  unfold makeFolder at h
  split at h
  · contradiction
  · split at h
    · contradiction
    · rename_i place hnew
      split at h
      · contradiction
      · rename_i hnone
        exact ⟨place, hnew, hnone, (Except.ok.inj h).symm⟩

theorem isFolder_makeFolder {tree made : FileTree} {path : Path}
    (h : tree.makeFolder path = .ok made) : made.isFolder path = true := by
  obtain ⟨place, hnew, hnone, rfl⟩ := makeFolder_eq_ok h
  have hplace : tree.nodeAt? place ≠ some .folder := by rw [hnone]; simp
  have hnode : (tree.setNode place .folder).nodeAt? place = some .folder := by
    rw [nodeAt?_setNode tree (ne_nil_of_nodeAt?_ne_folder hplace), if_pos rfl]
  have hways := keepsWays_setNode hplace .folder
  exact isFolder_iff.2
    ⟨place, locate_of_newPlace (hways.newPlace hnew) (by rw [hnode]; rfl), hnode⟩

/-- A folder that is there is not made again. -/
theorem makeFolders_of_isFolder {tree : FileTree} {path : Path} (h : tree.isFolder path = true) :
    tree.makeFolders path = (tree, none) := by
  obtain ⟨place, hl, hf⟩ := isFolder_iff.1 h
  have hproblem : ∃ problem, tree.makeFolder path = .error problem ∧ problem ≠ .missing := by
    unfold makeFolder
    split
    · exact ⟨_, rfl, by decide⟩
    · simp only [newPlace_of_locate hl, hf]
      exact ⟨_, rfl, by decide⟩
  obtain ⟨problem, hmake, hne⟩ := hproblem
  rw [makeFolders, hmake]
  cases problem with
  | missing => contradiction
  | _ => simp [h]

/-- What is there stays as it is. -/
structure Adds (before after : FileTree) : Prop where
  current : after.current = before.current
  node : ∀ {place node}, before.nodeAt? place = some node → after.nodeAt? place = some node

theorem Adds.refl (tree : FileTree) : Adds tree tree :=
  ⟨rfl, id⟩

theorem Adds.trans {first second third : FileTree} (h : Adds first second)
    (h' : Adds second third) : Adds first third :=
  ⟨h'.current.trans h.current, fun hn => h'.node (h.node hn)⟩

theorem Adds.keepsWays {before after : FileTree} (h : Adds before after) :
    KeepsWays before after := by
  refine ⟨h.current, h.node, ?_⟩
  intro place hn
  obtain ⟨node, hnode⟩ := Option.isSome_iff_exists.1 hn
  rw [h.node hnode]
  rfl

theorem Adds.read {before after : FileTree} (h : Adds before after) {path : Path}
    {content : ByteArray} (hr : before.read path = .ok content) :
    after.read path = .ok content := by
  refine h.keepsWays.read hr ?_
  intro place hl
  cases hn : before.nodeAt? place with
  | some node => exact h.node hn
  | none =>
    unfold FileTree.read at hr
    simp only [hl, hn] at hr
    split at hr <;> contradiction

theorem adds_makeFolder {tree made : FileTree} {path : Path}
    (h : tree.makeFolder path = .ok made) : Adds tree made := by
  obtain ⟨place, -, hnone, rfl⟩ := makeFolder_eq_ok h
  have hplace : tree.nodeAt? place ≠ some .folder := by rw [hnone]; simp
  refine ⟨rfl, ?_⟩
  intro other node hn
  rw [nodeAt?_setNode tree (ne_nil_of_nodeAt?_ne_folder hplace)]
  by_cases hp : other = place
  · rw [hp, hnone] at hn
    contradiction
  · rw [if_neg hp]
    exact hn

theorem adds_makeFolders (tree : FileTree) (path : Path) :
    Adds tree (tree.makeFolders path).1 := by
  fun_induction makeFolders tree path with
  | case1 path made hmake => exact adds_makeFolder hmake
  | case2 path hmake hp => exact .refl tree
  | case3 path hmake hp above error habove ih => exact ih
  | case4 path hmake hp above made hagain habove ih => exact ih.trans (adds_makeFolder hagain)
  | case5 path hmake hp above problem hagain habove hc ih => exact ih
  | case6 path hmake hp above problem hagain habove hc ih => exact ih
  | case7 path problem hne hmake => exact .refl tree

/-- Folders that could be made are there. -/
theorem isFolder_makeFolders {tree : FileTree} {path : Path}
    (h : (tree.makeFolders path).2 = none) : (tree.makeFolders path).1.isFolder path = true := by
  revert h
  fun_cases makeFolders tree path with
  | case1 made hmake => exact fun _ => isFolder_makeFolder hmake
  | case2 hmake hp => exact fun h => absurd h (by simp)
  | case3 hmake hp above error habove => exact fun h => absurd h (by simp)
  | case4 hmake hp above made hagain habove => exact fun _ => isFolder_makeFolder hagain
  | case5 hmake hp above problem hagain habove hc =>
    rw [Bool.and_eq_true] at hc
    exact fun _ => hc.2
  | case6 hmake hp above problem hagain habove hc => exact fun h => absurd h (by simp)
  | case7 problem hne hmake =>
    intro h
    by_cases hf : tree.isFolder path = true
    · exact hf
    · simp [hf] at h

/-- Without the folder above it, no folder is made, and none is there. -/
theorem makeFolder_of_not_isFolder_parent {tree : FileTree} {path : Path} (hp : path.parts ≠ [])
    (h : tree.isFolder path.parent ≠ true) :
    tree.isFolder path ≠ true ∧ ∃ problem, tree.makeFolder path = .error problem := by
  constructor
  · intro hf
    obtain ⟨place, hl, -⟩ := isFolder_iff.1 hf
    exact h (isFolder_parent hp (newPlace_of_locate hl))
  · cases hmake : tree.makeFolder path with
    | error problem => exact ⟨problem, rfl⟩
    | ok made =>
      obtain ⟨place, hnew, -⟩ := makeFolder_eq_ok hmake
      exact absurd (isFolder_parent hp hnew) h

theorem makeFolders_of_error {tree : FileTree} {path : Path} {problem : FileProblem}
    (h : tree.makeFolder path = .error problem) (hne : problem ≠ .missing) :
    tree.makeFolders path =
      (tree, if tree.isFolder path then none else some ⟨problem, path⟩) := by
  rw [makeFolders, h]
  cases problem with
  | missing => contradiction
  | _ => rfl

/-- When the folder above is missing, it is made first. -/
theorem makeFolders_of_missing {tree above : FileTree} {problem? : Option FileError}
    {path : Path} (h : tree.makeFolder path = .error .missing) (hp : path.parts ≠ [])
    (habove : tree.makeFolders path.parent = (above, problem?)) {problem : FileProblem}
    (hagain : above.makeFolder path = .error problem)
    (hstuck : problem? ≠ none ∨ problem = .missing) : ∃ error,
    tree.makeFolders path = (above, some error) := by
  rw [makeFolders, h]
  simp only [hp, if_false, habove, hagain]
  cases problem? with
  | some error => exact ⟨error, rfl⟩
  | none =>
    rcases hstuck with hstuck | rfl
    · contradiction
    · exact ⟨⟨.missing, path⟩, rfl⟩

/-- **Making folders twice is making them once**, and it goes wrong the second
    time when it has gone wrong the first time. -/
theorem makeFolders_makeFolders (tree : FileTree) (path : Path) :
    ∃ problem?, (tree.makeFolders path).1.makeFolders path =
        ((tree.makeFolders path).1, problem?) ∧
      (problem? = none ↔ (tree.makeFolders path).2 = none) := by
  by_cases hnone : (tree.makeFolders path).2 = none
  · -- The folder is there now.
    exact ⟨none, makeFolders_of_isFolder (isFolder_makeFolders hnone), by simp [hnone]⟩
  revert hnone
  fun_induction makeFolders tree path with
  | case1 path made hmake => exact fun h => absurd rfl h
  | case2 path hmake hp =>
    intro _
    rw [makeFolders, hmake]
    simp [hp]
  | case3 path hmake hp above error habove ih =>
    intro _
    -- The folder above could not be made, and cannot be made now either.
    obtain ⟨problem?, hparent, hiff⟩ := ih (by simp [above, habove])
    have hproblem : problem? ≠ none := by simp [hiff, above, habove]
    have hnot : above.1.isFolder path.parent ≠ true := by
      intro hf
      rw [makeFolders_of_isFolder hf] at hparent
      exact hproblem (Prod.mk.inj hparent).2.symm
    obtain ⟨hfolder, problem, hmake'⟩ := makeFolder_of_not_isFolder_parent hp hnot
    by_cases hmissing : problem = .missing
    · rw [hmissing] at hmake'
      obtain ⟨error', hagain⟩ := makeFolders_of_missing hmake' hp hparent hmake' (.inl hproblem)
      exact ⟨some error', hagain, by simp⟩
    · refine ⟨_, makeFolders_of_error hmake' hmissing, ?_⟩
      simp [hfolder]
  | case4 path hmake hp above made hagain habove ih => exact fun h => absurd rfl h
  | case5 path hmake hp above problem hagain habove hc ih => exact fun h => absurd rfl h
  | case6 path hmake hp above problem hagain habove hc ih =>
    intro _
    -- The folder above is there, but the one below it still cannot be made.
    have hparent := makeFolders_of_isFolder (isFolder_makeFolders habove)
    by_cases hmissing : problem = .missing
    · rw [hmissing] at hagain
      obtain ⟨error', hagain⟩ := makeFolders_of_missing hagain hp hparent hagain (.inr rfl)
      exact ⟨some error', hagain, by simp⟩
    · have hfolder : ¬above.1.isFolder path = true := fun hf => hc (by simp [hmissing, hf])
      refine ⟨_, makeFolders_of_error hagain hmissing, ?_⟩
      simp [hfolder]
  | case7 path problem hne hmake =>
    intro _
    exact ⟨_, makeFolders_of_error hmake hne, Iff.rfl⟩

/-! ## Writing files -/

theorem write_eq_ok {tree written : FileTree} {path : Path} {content : ByteArray}
    (h : tree.write path content = .ok written) :
    path.hasNull = false ∧ ∃ place, tree.newPlace path = .ok place ∧
      tree.nodeAt? place ≠ some .folder ∧ written = tree.setNode place (.file content) := by
  unfold write at h
  split at h
  · contradiction
  · rename_i hnull
    refine ⟨by simpa using hnull, ?_⟩
    split at h
    · contradiction
    · rename_i place hnew
      refine ⟨place, hnew, ?_⟩
      split at h
      · contradiction
      · rename_i hn
        exact ⟨hn, (Except.ok.inj h).symm⟩

/-- Whether a file can be written does not depend on what is written. -/
theorem write_eq_error {tree : FileTree} {path : Path} {content : ByteArray} {error : FileError}
    (h : tree.write path content = .error error) (other : ByteArray) :
    tree.write path other = .error error := by
  unfold write at h ⊢
  split at h
  · rename_i hnull
    rw [if_pos hnull]
    exact h
  · rename_i hnull
    rw [if_neg hnull]
    split at h
    · exact h
    · split at h
      · exact h
      · contradiction

/-- A file that can be read can be written. -/
theorem exists_write_of_node {tree : FileTree} {path : Path} {place : List String}
    (hnull : path.hasNull = false) (hl : tree.locate path = .ok place)
    (hn : tree.nodeAt? place ≠ some .folder) (content : ByteArray) : ∃ written,
    tree.write path content = .ok written := by
  refine ⟨tree.setNode place (.file content), ?_⟩
  unfold write
  simp only [hnull, Bool.false_eq_true, if_false, newPlace_of_locate hl]

/-- What has been written can be read, and **writing it again changes nothing**. -/
theorem write_write {tree written : FileTree} {path : Path} {content : ByteArray}
    (h : tree.write path content = .ok written) :
    written.read path = .ok content ∧ written.write path content = .ok written := by
  obtain ⟨hnull, place, hnew, hn, rfl⟩ := write_eq_ok h
  have hnode : (tree.setNode place (.file content)).nodeAt? place = some (.file content) := by
    rw [nodeAt?_setNode tree (ne_nil_of_nodeAt?_ne_folder hn), if_pos rfl]
  have hplace := (keepsWays_setNode hn (.file content)).newPlace hnew
  have hlocate := locate_of_newPlace hplace (by rw [hnode]; rfl)
  constructor
  · unfold read
    simp [hnull, hlocate, hnode]
  · unfold write
    simp [hnull, hplace, hnode, setNode_setNode]

/-! ## Paths without dots -/

/-- The place can be reached from the root by its own names. -/
structure Standing (tree : FileTree) (place : List String) : Prop where
  noDots : ".." ∉ place
  located : tree.locateFrom [] place = .ok place

theorem standing_nil (tree : FileTree) : tree.Standing [] :=
  ⟨List.not_mem_nil, rfl⟩

theorem Standing.dropLast {tree : FileTree} {place : List String} (h : tree.Standing place) :
    tree.Standing place.dropLast := by
  rcases List.eq_nil_or_concat place with rfl | ⟨parts, name, rfl⟩
  · exact h
  · obtain ⟨hdots, hlocated⟩ := h
    rw [List.concat_eq_append] at hdots hlocated ⊢
    rw [List.mem_append, List.mem_singleton, not_or] at hdots
    obtain ⟨folder, hfolder, -, hplace, -⟩ := locateFrom_append.1 hlocated
    rw [if_neg (Ne.symm hdots.2)] at hplace
    obtain ⟨rfl, -⟩ := List.append_inj' hplace rfl
    rw [List.dropLast_concat]
    exact ⟨hdots.1, hfolder⟩

theorem Standing.append {tree : FileTree} {place : List String} (h : tree.Standing place)
    {part : String} (hpart : part ≠ "..") (hfolder : tree.nodeAt? place = some .folder)
    (hnode : (tree.nodeAt? (place ++ [part])).isSome) : tree.Standing (place ++ [part]) := by
  constructor
  · rw [List.mem_append, List.mem_singleton, not_or]
    exact ⟨h.noDots, Ne.symm hpart⟩
  · exact locateFrom_append.2 ⟨place, h.located, hfolder, (if_neg hpart).symm, hnode⟩

/-- Each step of a way that starts at such a place leads to another one, which is
    told by the names alone. -/
theorem Standing.locateFrom {tree : FileTree} {place found parts : List String}
    (h : tree.Standing place) (hl : tree.locateFrom place parts = .ok found) :
    tree.Standing found ∧ found = Path.collapse place parts := by
  induction parts generalizing place with
  | nil =>
    obtain rfl := Except.ok.inj hl
    exact ⟨h, rfl⟩
  | cons part rest ih =>
    obtain ⟨hf, next, rfl, hn, hrest⟩ := locateFrom_cons hl
    rw [Path.collapse]
    by_cases hpart : part = ".."
    · rw [if_pos hpart] at hrest ⊢
      exact ih h.dropLast hrest
    · rw [if_neg hpart] at hn hrest ⊢
      exact ih (h.append hpart hf hn) hrest

/-- **A path and what it is resolved to lead to the same place.** -/
theorem locate_resolve {tree : FileTree} {path : Path} {place : List String}
    (hstart : tree.Standing (tree.start path)) (h : tree.locate path = .ok place) :
    tree.locate (Path.resolve tree.current path) = .ok place := by
  obtain ⟨hstanding, rfl⟩ := hstart.locateFrom h
  exact hstanding.located

theorem find?_resolve {tree : FileTree} {path : Path} {node : Node}
    (hstart : tree.Standing (tree.start path)) (h : tree.find? path = some node) :
    tree.find? (Path.resolve tree.current path) = some node := by
  unfold find? at h ⊢
  cases hl : tree.locate path with
  | error problem => simp [hl] at h
  | ok place =>
    rw [hl] at h
    rw [locate_resolve hstart hl]
    exact h

theorem isFolder_resolve {tree : FileTree} {path : Path}
    (hstart : tree.Standing (tree.start path)) (h : tree.isFolder path = true) :
    tree.isFolder (Path.resolve tree.current path) = true := by
  obtain ⟨place, hl, hf⟩ := isFolder_iff.1 h
  exact isFolder_iff.2 ⟨place, locate_resolve hstart hl, hf⟩

theorem isFile_resolve {tree : FileTree} {path : Path}
    (hstart : tree.Standing (tree.start path)) (h : tree.isFile path = true) :
    tree.isFile (Path.resolve tree.current path) = true := by
  unfold isFile at h ⊢
  cases hfound : tree.find? path with
  | none => simp [hfound] at h
  | some node =>
    rw [hfound] at h
    rw [find?_resolve hstart hfound]
    exact h

end TemplateAnalysis.Files.FileTree
