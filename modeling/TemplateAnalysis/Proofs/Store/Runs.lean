import TemplateAnalysis.Proofs.Documents
import TemplateAnalysis.Proofs.Store.Filling

/-! # Runs that generate data

    A run reads the template and its data file, inserts what the template asks
    for, and writes the data file anew. There are six ways for it to end, and
    each is told by what is in the files:

    * **`generate_of_unreadable`**: the template has no text;
    * **`generate_of_noFile`**: there is no name for its data file;
    * **`generate_of_noFolder`**: the folder of the data file cannot be made;
    * **`generate_of_unwritten`**: the data file cannot be written;
    * **`generate_of_broken`**: writing is broken off, since the data is not paired;
    * **`generate_of_written`**: the data file is written, and its path returned.

    The last one is the only one that returns a path (**`generate_eq_ok`**), and
    what it leaves in the data file is what was inserted
    (**`dataIn_of_written`**). A file in which writing was broken off cannot be read
    (**`dataIn_of_broken`**).
-/

namespace TemplateAnalysis.Store

open Files Json Text Variable

/-! ## Steps of variables -/

section

variable {items statuses : Collections} {first : List Char} {rest : List (List Char)}

/-- An item stands for the first element of its collection. -/
theorem resolveSteps_item {collection name : List Char} {names : List (List Char)}
    (hitem : items.get? first = some collection)
    (hpath : leadingPath? collection = some (name :: names)) :
    resolveSteps items statuses first rest =
      (resolveSteps (without first items) statuses name names).map fun base =>
        base ++ .element :: rest.map fun name => .key (CodePoints.ofList name) := by
  rw [resolveSteps.eq_def]
  simp only
  split
  · rename_i other hother
    obtain rfl := Option.some.inj (hitem.symm.trans hother)
    rw [hpath]
  · rename_i hnone
    rw [hitem] at hnone
    contradiction

/-- An item of a collection that is no property path has no place. -/
theorem resolveSteps_computed {collection : List Char}
    (hitem : items.get? first = some collection)
    (hpath : ∀ name names, leadingPath? collection ≠ some (name :: names)) :
    resolveSteps items statuses first rest = none := by
  rw [resolveSteps.eq_def]
  simp only
  split
  · rename_i other hother
    obtain rfl := Option.some.inj (hitem.symm.trans hother)
    split
    · rename_i name names hsome
      exact absurd hsome (hpath name names)
    · rfl
  · rename_i hnone
    rw [hitem] at hnone
    contradiction

/-- Any other name is a key, unless it is that of a status variable. -/
theorem resolveSteps_name (hitem : items.get? first = none) :
    resolveSteps items statuses first rest =
      if (statuses.get? first).isSome then none
      else
        some (.key (CodePoints.ofList first) ::
          rest.map fun name => .key (CodePoints.ofList name)) := by
  rw [resolveSteps.eq_def]
  simp only
  split
  · rename_i other hother
    rw [hitem] at hother
    contradiction
  · rfl

end

/-- A variable starts at the root of the data, with a key. -/
theorem resolveSteps_eq_some {items statuses : Collections} {first : List Char}
    {rest : List (List Char)} {steps : List Step}
    (h : resolveSteps items statuses first rest = some steps) :
    ∃ name others, steps = .key name :: others := by
  -- By induction on the collections: that of an item has its own key in front.
  induction items, first, rest using resolveSteps.induct statuses generalizing steps with
  | case1 items first rest collection hitem name names hpath ih =>
    rw [resolveSteps_item hitem hpath] at h
    obtain ⟨base, hbase, rfl⟩ := Option.map_eq_some_iff.1 h
    obtain ⟨key, others, rfl⟩ := ih hbase
    exact ⟨key, _, rfl⟩
  | case2 items first rest collection hitem hpath =>
    rw [resolveSteps_computed hitem hpath] at h
    contradiction
  | case3 items first rest hitem hstatus =>
    rw [resolveSteps_name hitem, if_pos hstatus] at h
    contradiction
  | case4 items first rest hitem hstatus =>
    rw [resolveSteps_name hitem, if_neg hstatus] at h
    exact ⟨_, _, (Option.some.inj h).symm⟩

theorem exists_key_of_mem_templateSteps {text : List Char} {these : List Step}
    (h : these ∈ templateSteps text) : ∃ name others, these = .key name :: others := by
  unfold templateSteps at h
  rw [List.mem_eraseDups, List.mem_filterMap] at h
  obtain ⟨found, -, h⟩ := h
  split at h
  · contradiction
  · unfold stepsOf at h
    split at h
    · contradiction
    · exact resolveSteps_eq_some h

/-- All keys of the steps are strings of characters. -/
def KeysPaired (steps : List Step) : Prop :=
  ∀ name, .key name ∈ steps → name.Paired

theorem keysPaired_append {steps others : List Step} (h : KeysPaired steps)
    (h' : KeysPaired others) : KeysPaired (steps ++ others) := fun name hname =>
  (List.mem_append.1 hname).elim (h name) (h' name)

theorem keysPaired_keys (names : List (List Char)) :
    KeysPaired (names.map fun name => .key (CodePoints.ofList name)) := by
  intro name hname
  obtain ⟨cs, -, hcs⟩ := List.mem_map.1 hname
  rw [← Step.key.inj hcs]
  exact CodePoints.paired_ofList cs

theorem keysPaired_of_resolveSteps {items statuses : Collections} {first : List Char}
    {rest : List (List Char)} {steps : List Step}
    (h : resolveSteps items statuses first rest = some steps) : KeysPaired steps := by
  -- By induction on the collections, as for the first step.
  induction items, first, rest using resolveSteps.induct statuses generalizing steps with
  | case1 items first rest collection hitem name names hpath ih =>
    rw [resolveSteps_item hitem hpath] at h
    obtain ⟨base, hbase, rfl⟩ := Option.map_eq_some_iff.1 h
    refine keysPaired_append (ih hbase) ?_
    intro name hname
    rcases List.mem_cons.1 hname with hname | hname
    · contradiction
    · exact keysPaired_keys rest name hname
  | case2 items first rest collection hitem hpath =>
    rw [resolveSteps_computed hitem hpath] at h
    contradiction
  | case3 items first rest hitem hstatus =>
    rw [resolveSteps_name hitem, if_pos hstatus] at h
    contradiction
  | case4 items first rest hitem hstatus =>
    rw [resolveSteps_name hitem, if_neg hstatus] at h
    rw [← Option.some.inj h]
    exact keysPaired_keys (first :: rest)

/-- The names that a template uses can be written. -/
theorem keysPaired_of_mem_templateSteps {text : List Char} {these : List Step}
    (h : these ∈ templateSteps text) : KeysPaired these := by
  unfold templateSteps at h
  rw [List.mem_eraseDups, List.mem_filterMap] at h
  obtain ⟨found, -, h⟩ := h
  split at h
  · contradiction
  · unfold stepsOf at h
    split at h
    · contradiction
    · exact keysPaired_of_resolveSteps h

/-- Inserting at keys leaves an object. -/
theorem exists_insertAll_eq_object {steps : List (List Step)}
    (h : ∀ these ∈ steps, ∃ name others, these = .key name :: others) (members : Members) :
    ∃ members', insertAll (.object members) steps = .object members' := by
  induction steps generalizing members with
  | nil => exact ⟨members, rfl⟩
  | cons these rest ih =>
    obtain ⟨name, others, rfl⟩ := h these List.mem_cons_self
    exact ih (fun these hm => h these (List.mem_cons_of_mem _ hm)) _

/-! ## Runs -/

/-- The session that a job leaves, whether or not it has failed. -/
def sessionAfter {α : Type} (job : Job α) (session : Session) : Session :=
  match job session with
  | .ok _ after => after
  | .error _ after => after

/-- The members that a run finds in a data file: none when it cannot be read. -/
def heldIn (tree : FileTree) (file : Path) : Members :=
  match dataIn tree file with
  | .ok members => members
  | .error _ => []

/-- What a run makes of the data in a file, for a template with this text. -/
def generatedValue (tree : FileTree) (file : Path) (text : String) : Value :=
  insertAll (.object (heldIn tree file)) (leaves (templateSteps text.toList))

/-- The bytes that it writes into the file. -/
def generatedBytes (tree : FileTree) (file : Path) (text : String) : ByteArray :=
  (dataText (generatedValue tree file text)).toUTF8

theorem loadData_eq (path : Path) (session : Session) :
    ∃ after, loadData path session = .ok (heldIn session.files path) after ∧
      after.files = session.files := by
  unfold loadData heldIn
  rw [bind_of_ok (files_eq session)]
  cases dataIn session.files path with
  | ok members => exact ⟨session, rfl, rfl⟩
  | error message => exact ⟨_, rfl, files_print _ _ _⟩

theorem makeFolders_of_some {path : Path} {session : Session} {made : FileTree}
    {error : FileError} (h : session.files.makeFolders path = (made, some error)) :
    makeFolders path session = .error (.file error) { session with files := made } := by
  unfold TemplateAnalysis.makeFolders
  rw [bind_of_ok (get_eq session)]
  simp only [h]
  rfl

theorem makeFolders_of_none {path : Path} {session : Session} {made : FileTree}
    (h : session.files.makeFolders path = (made, none)) :
    makeFolders path session = .ok () { session with files := made } := by
  unfold TemplateAnalysis.makeFolders
  rw [bind_of_ok (get_eq session)]
  simp only [h]
  rfl

theorem writeData_of_noFolder {file : Path} {value : Value} {session : Session}
    {made : FileTree} {error : FileError}
    (hmade : session.files.makeFolders file.parent = (made, some error)) :
    writeData file value session = .error (.file error) { session with files := made } := by
  unfold writeData
  rw [bind_of_error (makeFolders_of_some hmade)]

theorem writeData_of_ok {file : Path} {value : Value} {session : Session}
    {made written : FileTree} (hmade : session.files.makeFolders file.parent = (made, none))
    (hwrite : made.write file (dataText value).toUTF8 = .ok written) (hpaired : value.Paired) :
    writeData file value session = .ok () { session with files := written } := by
  unfold writeData
  rw [bind_of_ok (makeFolders_of_none hmade), bind_of_ok (get_eq _), hwrite,
    encodingError?_dataPieces.2 hpaired]
  rfl

theorem writeData_of_broken {file : Path} {value : Value} {session : Session}
    {made written : FileTree} (hmade : session.files.makeFolders file.parent = (made, none))
    (hwrite : made.write file (dataText value).toUTF8 = .ok written) (hbroken : ¬ value.Paired) :
    ∃ error, writeData file value session = .error (.encoding error)
      { session with files := written } := by
  obtain ⟨error, herror⟩ := Option.ne_none_iff_exists'.1 (mt encodingError?_dataPieces.1 hbroken)
  refine ⟨error, ?_⟩
  unfold writeData
  rw [bind_of_ok (makeFolders_of_none hmade), bind_of_ok (get_eq _), hwrite, herror]
  rfl

theorem writeData_of_error {file : Path} {value : Value} {session : Session}
    {made : FileTree} {error : FileError}
    (hmade : session.files.makeFolders file.parent = (made, none))
    (hwrite : made.write file (dataText value).toUTF8 = .error error) :
    writeData file value session = .error (.file error) { session with files := made } := by
  unfold writeData
  rw [bind_of_ok (makeFolders_of_none hmade), bind_of_ok (get_eq _), hwrite]
  rfl

theorem generate_of_unreadable {project : Project} {template : Path} {session : Session}
    {error : ReadError} (h : textOf session.files template = .error error) :
    (∃ error, generate project template session = .error (.file error) session) ∨
      ∃ after, generate project template session = .ok none after ∧
        after.files = session.files := by
  unfold generate
  rcases readText_of_error h with ⟨error', hread⟩ | ⟨after, hread, hfiles⟩
  · exact .inl ⟨error', bind_of_error hread _⟩
  · exact .inr ⟨after, bind_of_ok hread _, hfiles⟩

section

variable {project : Project} {template file : Path} {session : Session} {text : String}

theorem generate_of_noFile (htext : textOf session.files template = .ok text) {failure : Failure}
    (hfile : fileForText project template text.toList = .error failure) :
    generate project template session = .error failure session := by
  unfold generate
  rw [bind_of_ok (readText_of_ok htext)]
  simp only [hfile]
  rfl

/-- Behind the reading, a run is writing and reporting. -/
theorem generate_of_file (htext : textOf session.files template = .ok text)
    (hfile : fileForText project template text.toList = .ok file) : ∃ loaded,
    loaded.files = session.files ∧
    generate project template session =
      (do
        writeData file (generatedValue session.files file text)
        say .success ("Generated " ++ toString (leaves (templateSteps text.toList)).length ++
          " variables in: " ++ file.text)
        pure (some file) : Job (Option Path)) loaded := by
  obtain ⟨loaded, hload, hfiles⟩ := loadData_eq file session
  refine ⟨loaded, hfiles, ?_⟩
  unfold generate
  rw [bind_of_ok (readText_of_ok htext)]
  simp only [hfile]
  rw [bind_of_ok hload]
  rfl

theorem generate_of_noFolder (htext : textOf session.files template = .ok text)
    (hfile : fileForText project template text.toList = .ok file) {made : FileTree}
    {error : FileError} (hmade : session.files.makeFolders file.parent = (made, some error)) :
    ∃ after, generate project template session = .error (.file error) after ∧
      after.files = made := by
  obtain ⟨loaded, hfiles, hrun⟩ := generate_of_file htext hfile
  rw [← hfiles] at hmade
  refine ⟨{ loaded with files := made }, ?_, rfl⟩
  rw [hrun]
  exact bind_of_error (writeData_of_noFolder hmade) _

theorem generate_of_unwritten (htext : textOf session.files template = .ok text)
    (hfile : fileForText project template text.toList = .ok file) {made : FileTree}
    (hmade : session.files.makeFolders file.parent = (made, none)) {error : FileError}
    (hwrite : made.write file (generatedBytes session.files file text) = .error error) :
    ∃ after, generate project template session = .error (.file error) after ∧
      after.files = made := by
  obtain ⟨loaded, hfiles, hrun⟩ := generate_of_file htext hfile
  rw [← hfiles] at hmade
  refine ⟨{ loaded with files := made }, ?_, rfl⟩
  rw [hrun]
  exact bind_of_error (writeData_of_error hmade hwrite) _

theorem generate_of_broken (htext : textOf session.files template = .ok text)
    (hfile : fileForText project template text.toList = .ok file) {made written : FileTree}
    (hmade : session.files.makeFolders file.parent = (made, none))
    (hwrite : made.write file (generatedBytes session.files file text) = .ok written)
    (hbroken : ¬ (generatedValue session.files file text).Paired) :
    ∃ error after, generate project template session = .error (.encoding error) after ∧
      after.files = written := by
  obtain ⟨loaded, hfiles, hrun⟩ := generate_of_file htext hfile
  rw [← hfiles] at hmade
  obtain ⟨error, hwritten⟩ := writeData_of_broken hmade hwrite hbroken
  refine ⟨error, { loaded with files := written }, ?_, rfl⟩
  rw [hrun]
  exact bind_of_error hwritten _

theorem generate_of_written (htext : textOf session.files template = .ok text)
    (hfile : fileForText project template text.toList = .ok file) {made written : FileTree}
    (hmade : session.files.makeFolders file.parent = (made, none))
    (hwrite : made.write file (generatedBytes session.files file text) = .ok written)
    (hpaired : (generatedValue session.files file text).Paired) :
    ∃ after, generate project template session = .ok (some file) after ∧
      after.files = written := by
  obtain ⟨loaded, hfiles, hrun⟩ := generate_of_file htext hfile
  rw [← hfiles] at hmade
  refine ⟨({ loaded with files := written } : Session).print .success ("Generated " ++
    toString (leaves (templateSteps text.toList)).length ++ " variables in: " ++ file.text),
    ?_, files_print _ _ _⟩
  rw [hrun, bind_of_ok (writeData_of_ok hmade hwrite hpaired)]
  rfl

end

/-- What a run that returns a path has read and written. -/
theorem generate_eq_ok {project : Project} {template file : Path} {session after : Session}
    (hrun : generate project template session = .ok (some file) after) :
    ∃ text made, textOf session.files template = .ok text ∧
      fileForText project template text.toList = .ok file ∧
      session.files.makeFolders file.parent = (made, none) ∧
      made.write file (generatedBytes session.files file text) = .ok after.files ∧
      (generatedValue session.files file text).Paired := by
  -- Every other way for the run to end contradicts that it returned a path.
  cases htext : textOf session.files template with
  | error error =>
    rcases @generate_of_unreadable project template session error htext with
      ⟨failure, h⟩ | ⟨after', h, -⟩
    · rw [h] at hrun
      contradiction
    · rw [h] at hrun
      injection hrun with hnone _
      contradiction
  | ok text =>
    cases hfile : fileForText project template text.toList with
    | error failure =>
      rw [generate_of_noFile htext hfile] at hrun
      contradiction
    | ok other =>
      cases hmade : session.files.makeFolders other.parent with
      | mk made tried =>
        cases tried with
        | some error =>
          obtain ⟨after', h, -⟩ := generate_of_noFolder htext hfile hmade
          rw [h] at hrun
          contradiction
        | none =>
          cases hwrite : made.write other (generatedBytes session.files other text) with
          | error error =>
            obtain ⟨after', h, -⟩ := generate_of_unwritten htext hfile hmade hwrite
            rw [h] at hrun
            contradiction
          | ok written =>
            by_cases hpaired : (generatedValue session.files other text).Paired
            · obtain ⟨after', h, hfiles⟩ := generate_of_written htext hfile hmade hwrite hpaired
              rw [h] at hrun
              injection hrun with hother hafter
              obtain rfl := Option.some.inj hother
              obtain rfl := hafter
              exact ⟨text, made, rfl, hfile, hmade, by rw [hwrite, hfiles], hpaired⟩
            · obtain ⟨error, after', h, -⟩ := generate_of_broken htext hfile hmade hwrite hpaired
              rw [h] at hrun
              contradiction

/-- There is no data file only when there is no name for it. -/
theorem exists_noName_of_fileForText {project : Project} {template : Path} {text : List Char}
    {failure : Failure} (h : fileForText project template text = .error failure) :
    ∃ path, failure = .noName path := by
  unfold fileForText at h
  split at h
  · contradiction
  · unfold ownFile at h
    simp only at h
    split at h
    · contradiction
    · exact ⟨_, (Except.error.inj h).symm⟩

theorem parts_ne_nil_of_fileForText {project : Project} {template file : Path}
    {text : List Char} (h : fileForText project template text = .ok file) : file.parts ≠ [] := by
  have hjoin : ∀ path other : Path, other.parts ≠ [] → (path.join other).parts ≠ [] := by
    intro path other hp
    unfold Path.join
    split
    · exact hp
    · simp [hp]
  unfold fileForText at h
  split at h
  · rw [← Except.ok.inj h]
    exact hjoin _ _ (by decide +kernel)
  · unfold ownFile at h
    simp only at h
    split at h
    · rename_i own hown
      rw [← Except.ok.inj h]
      refine hjoin _ _ ?_
      unfold Path.withSuffix? at hown
      split at hown
      · contradiction
      · rw [← Option.some.inj hown]
        simp
    · contradiction

/-- A data file that can be read can be written, and its folder is there. -/
theorem exists_write_of_read {project : Project} {template file : Path} {tree : FileTree}
    {text : List Char} {content : ByteArray} (hfile : fileForText project template text = .ok file)
    (hread : tree.read file = .ok content) (bytes : ByteArray) :
    tree.makeFolders file.parent = (tree, none) ∧
      ∃ written, tree.write file bytes = .ok written := by
  obtain ⟨hnull, place, hlocate, hn⟩ := exists_locate_of_read hread
  have hfolder := FileTree.isFolder_parent (parts_ne_nil_of_fileForText hfile)
    (FileTree.newPlace_of_locate hlocate)
  exact ⟨FileTree.makeFolders_of_isFolder hfolder,
    FileTree.exists_write_of_node hnull hlocate (by rw [hn]; simp) bytes⟩

section

variable {project : Project} {template file : Path} {session : Session} {text : String}
  {content : ByteArray}

/-- A run returns a path when the data file can be read, and what it makes of the data
    can be written. -/
theorem generate_of_read (htext : textOf session.files template = .ok text)
    (hfile : fileForText project template text.toList = .ok file)
    (hread : session.files.read file = .ok content)
    (hpaired : (generatedValue session.files file text).Paired) : ∃ after,
    generate project template session = .ok (some file) after := by
  obtain ⟨hmade, written, hwrite⟩ :=
    exists_write_of_read hfile hread (generatedBytes session.files file text)
  obtain ⟨after, hrun, -⟩ := generate_of_written htext hfile hmade hwrite hpaired
  exact ⟨after, hrun⟩

/-- Otherwise it is broken off. -/
theorem generate_of_read_of_not (htext : textOf session.files template = .ok text)
    (hfile : fileForText project template text.toList = .ok file)
    (hread : session.files.read file = .ok content)
    (hbroken : ¬ (generatedValue session.files file text).Paired) : ∃ error after written,
    generate project template session = .error (.encoding error) after ∧
      session.files.write file (generatedBytes session.files file text) = .ok written ∧
      after.files = written := by
  obtain ⟨hmade, written, hwrite⟩ :=
    exists_write_of_read hfile hread (generatedBytes session.files file text)
  obtain ⟨error, after, hrun, hfiles⟩ := generate_of_broken htext hfile hmade hwrite hbroken
  exact ⟨error, after, written, hrun, hwrite, hfiles⟩

end

/-! ## Data files -/

theorem wellFormed_heldIn (tree : FileTree) (file : Path) :
    Value.WellFormed (.object (heldIn tree file)) := by
  unfold heldIn
  cases hdata : dataIn tree file with
  | ok members => exact wellFormed_of_dataIn hdata
  | error message => exact wellFormed_empty

theorem heldIn_of_dataIn {tree : FileTree} {file : Path} {members : Members}
    (h : dataIn tree file = .ok members) : heldIn tree file = members := by
  unfold heldIn
  rw [h]

/-- Inserting at characters leaves a paired value paired. -/
theorem paired_insertAt {these : List Step} (hk : KeysPaired these) {value? : Option Value}
    (h : ∀ value, value? = some value → value.Paired) : (insertAt these value?).Paired := by
  induction these generalizing value? with
  | nil =>
    cases value? with
    | none => exact paired_string_iff.2 CodePoints.paired_nil
    | some value => exact h value rfl
  | cons step rest ih =>
    have hrest : KeysPaired rest := fun name hname => hk name (List.mem_cons_of_mem _ hname)
    cases step with
    | key name =>
      have hmembers : ∀ entry ∈ membersOf value?, entry.1.Paired ∧ entry.2.Paired := by
        unfold membersOf
        split
        · exact paired_object_iff.1 (h _ rfl)
        · exact List.forall_mem_nil _
      refine paired_object_iff.2 fun entry hentry => ?_
      rcases Members.mem_put hentry with rfl | hbefore
      · refine ⟨hk name List.mem_cons_self, ih hrest fun value hvalue => ?_⟩
        exact (hmembers _ (Members.mem_of_get?_eq_some hvalue)).2
      · exact hmembers entry hbefore
    | element =>
      have hitems : ∀ item ∈ elementsOf value?, item.Paired := by
        unfold elementsOf
        split
        · exact paired_array_iff.1 (h _ rfl)
        · exact List.forall_mem_nil _
      rw [insertAt_element]
      refine paired_array_iff.2 (List.forall_mem_cons.2 ⟨ih hrest fun value hvalue => ?_, ?_⟩)
      · exact hitems value (List.mem_of_mem_head? hvalue)
      · exact fun item hitem => hitems item (List.mem_of_mem_tail hitem)

theorem paired_insertAll {steps : List (List Step)} (hk : ∀ these ∈ steps, KeysPaired these)
    {value : Value} (h : value.Paired) : (insertAll value steps).Paired := by
  induction steps generalizing value with
  | nil => exact h
  | cons these rest ih =>
    obtain ⟨hthese, hrest⟩ := List.forall_mem_cons.1 hk
    refine ih hrest (paired_insertAt hthese fun other hother => ?_)
    rwa [← Option.some.inj hother]

/-- Data that can be written still can be when it is filled. -/
theorem paired_generatedValue {tree : FileTree} {file : Path}
    (h : Value.Paired (.object (heldIn tree file))) (text : String) :
    (generatedValue tree file text).Paired := by
  refine paired_insertAll (fun these hm => ?_) h
  exact keysPaired_of_mem_templateSteps (List.mem_of_mem_filter hm)

/-- A file in which nothing is found can be filled. -/
theorem paired_generatedValue_of_nil {tree : FileTree} {file : Path} (h : heldIn tree file = [])
    (text : String) : (generatedValue tree file text).Paired :=
  paired_generatedValue (h ▸ paired_object_iff.2 (List.forall_mem_nil _)) text

/-- What a run writes is an object. -/
theorem exists_generatedValue_eq (tree : FileTree) (file : Path) (text : String) :
    ∃ members, generatedValue tree file text = .object members := by
  have hsteps : ∀ these ∈ leaves (templateSteps text.toList),
      ∃ name others, these = .key name :: others := fun these hm =>
    exists_key_of_mem_templateSteps (List.mem_of_mem_filter hm)
  exact exists_insertAll_eq_object hsteps (heldIn tree file)

theorem wellFormed_generatedValue (tree : FileTree) (file : Path) (text : String) :
    (generatedValue tree file text).WellFormed :=
  wellFormed_insertAll (wellFormed_heldIn tree file) (leaves (templateSteps text.toList))

section

variable {tree made written : FileTree} {file : Path} {text : String}

/-- **A data file that has been written holds what was inserted.** -/
theorem dataIn_of_written (hwrite : made.write file (generatedBytes tree file text) = .ok written)
    (hpaired : (generatedValue tree file text).Paired) :
    ∃ members, dataIn written file = .ok members ∧
      generatedValue tree file text = .object members := by
  obtain ⟨members, hinsert⟩ := exists_generatedValue_eq tree file text
  have hw := wellFormed_generatedValue tree file text
  have hread := (FileTree.write_write hwrite).1
  unfold generatedBytes at hread
  rw [hinsert] at hw hpaired hread
  exact ⟨members, dataIn_of_read hw hpaired hread, hinsert⟩

/-- **A data file in which writing was broken off cannot be read.** -/
theorem dataIn_of_broken (hwrite : made.write file (generatedBytes tree file text) = .ok written)
    (hbroken : ¬ (generatedValue tree file text).Paired) :
    ∃ message, dataIn written file = .error message :=
  dataIn_of_read_of_not (wellFormed_generatedValue tree file text) hbroken
    (FileTree.write_write hwrite).1

/-- What is written a second time is what was written the first time. -/
theorem generatedValue_of_written
    (hwrite : made.write file (generatedBytes tree file text) = .ok written)
    (hpaired : (generatedValue tree file text).Paired) :
    generatedValue written file text = generatedValue tree file text := by
  obtain ⟨members, hdata, hinsert⟩ := dataIn_of_written hwrite hpaired
  have hagain := insertAll_insertAll (wellFormed_heldIn tree file)
    (leaves (templateSteps text.toList))
  unfold generatedValue at hinsert ⊢
  rw [heldIn_of_dataIn hdata, ← hinsert, hagain]

end

end TemplateAnalysis.Store
