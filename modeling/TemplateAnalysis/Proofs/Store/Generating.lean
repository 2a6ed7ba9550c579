import TemplateAnalysis.Proofs.Store.Coverage
import TemplateAnalysis.Proofs.Store.Keeping
import TemplateAnalysis.Proofs.Store.Runs

/-! # What generating data comes to

    * **`generate_generate`**: a second run changes nothing, whether or not the
      first one has failed, unless the first was broken off while it wrote: then it
      changes the data file;
    * **`reaches_generate_iff`**: everything that the template reads can be
      reached in the data afterwards, exactly when no two variables ask one
      value for a key and for an element;
    * **`keeps_generate_iff`**: all data is kept, exactly when it can be written, and
      nothing is lost where an element is asked of an object of the data, or a key of
      an array.
-/

namespace TemplateAnalysis.Store

open Files Json

/-! ## A project to run in -/

/-- A project in a folder of its own. -/
def sampleProject : Project := { workspace := ⟨"/", ["ws"]⟩ }

/-- The path of a template of the project. -/
def sampleTemplate : Path := ⟨"/", ["ws", "templates", "a.html"]⟩

/-- The path of its data file. -/
def sampleFile : Path := ⟨"/", ["ws", "data", "a.json"]⟩

/-- The template reads a member of the first item, and one of the collection. -/
def sampleText : String :=
  "<li th:each=\"i : ${items}\" th:text=\"${i.x}\"></li>${items.size}"

/-- The data has a collection with one item. -/
def sampleMembers : Members :=
  [("items", .array [.object [("x", .integer 1)]])]

/-- The files of the project, with nothing printed so far. -/
def sampleSession : Session :=
  { files :=
      { current := ["ws"]
        nodes :=
          [(["ws"], .folder), (["ws", "templates"], .folder), (["ws", "data"], .folder),
            (["ws", "templates", "a.html"], .file sampleText.toUTF8),
            (["ws", "data", "a.json"], .file (dataText (.object sampleMembers)).toUTF8)] }
    out := ""
    err := "" }

theorem textOf_sample : textOf sampleSession.files sampleTemplate = .ok sampleText :=
  textOf_of_read rfl (by decide)

/-- The steps of the variables of the sample template. -/
def sampleSteps : List (List Step) :=
  [[.key "items"], [.key "items", .element], [.key "items", .element, .key "x"],
    [.key "items", .key "size"]]

theorem templateSteps_sample : templateSteps sampleText.toList = sampleSteps := by
  decide +kernel

theorem leaves_sample :
    leaves sampleSteps = [[.key "items", .element, .key "x"], [.key "items", .key "size"]] := by
  decide

theorem fileForText_sample :
    fileForText sampleProject sampleTemplate sampleText.toList = .ok sampleFile :=
  rfl

theorem read_sample :
    sampleSession.files.read sampleFile = .ok (dataText (.object sampleMembers)).toUTF8 :=
  rfl

theorem dataIn_sample : dataIn sampleSession.files sampleFile = .ok sampleMembers := by
  refine dataIn_of_read (.object (by decide) fun entry hm => ?_) (by decide) read_sample
  rw [List.mem_singleton.1 hm]
  refine .array fun item hm => ?_
  rw [List.mem_singleton.1 hm]
  refine .object (by decide) fun entry hm => ?_
  rw [List.mem_singleton.1 hm]
  exact .integer 1

theorem paired_sample :
    (generatedValue sampleSession.files sampleFile sampleText).Paired := by
  apply paired_generatedValue
  rw [heldIn_of_dataIn dataIn_sample]
  decide

/-! ## A second run -/

/-- Is the data file of a template, where a run puts it, another file than the
    template? -/
def DataFileApart (project : Project) (template : Path) (tree : FileTree) : Prop :=
  ∀ text file, textOf tree template = .ok text →
    fileForText project template text.toList = .ok file →
    (tree.makeFolders file.parent).1.newPlace file ≠ tree.locate template

theorem sessionAfter_of_ok {α : Type} {job : Job α} {session after : Session} {a : α}
    (h : job session = .ok a after) : sessionAfter job session = after := by
  unfold sessionAfter
  rw [h]

theorem sessionAfter_of_error {α : Type} {job : Job α} {session after : Session}
    {failure : Failure} (h : job session = .error failure after) :
    sessionAfter job session = after := by
  unfold sessionAfter
  rw [h]

/-- Does a run leave a file tree as it is? -/
def Settled (project : Project) (template : Path) (tree : FileTree) : Prop :=
  ∀ session : Session, session.files = tree →
    (sessionAfter (generate project template) session).files = tree

theorem settled_of_unreadable (project : Project) {template : Path} {tree : FileTree}
    {error : ReadError} (h : textOf tree template = .error error) :
    Settled project template tree := by
  rintro session rfl
  rcases @generate_of_unreadable project template session error h with
    ⟨failure, hrun⟩ | ⟨after, hrun, hfiles⟩
  · rw [sessionAfter_of_error hrun]
  · rw [sessionAfter_of_ok hrun, hfiles]

section

variable {project : Project} {template file : Path} {tree : FileTree} {text : String}

theorem settled_of_noFile (htext : textOf tree template = .ok text) {failure : Failure}
    (hfile : fileForText project template text.toList = .error failure) :
    Settled project template tree := by
  rintro session rfl
  rw [sessionAfter_of_error (generate_of_noFile htext hfile)]

theorem settled_of_noFolder (htext : textOf tree template = .ok text)
    (hfile : fileForText project template text.toList = .ok file) {error : FileError}
    (hmade : tree.makeFolders file.parent = (tree, some error)) :
    Settled project template tree := by
  rintro session rfl
  obtain ⟨after, hrun, hfiles⟩ := generate_of_noFolder htext hfile hmade
  rw [sessionAfter_of_error hrun, hfiles]

theorem settled_of_unwritten (htext : textOf tree template = .ok text)
    (hfile : fileForText project template text.toList = .ok file)
    (hmade : tree.makeFolders file.parent = (tree, none)) {content : ByteArray}
    {error : FileError} (hwrite : tree.write file content = .error error) :
    Settled project template tree := by
  rintro session rfl
  obtain ⟨after, hrun, hfiles⟩ :=
    generate_of_unwritten htext hfile hmade (FileTree.write_eq_error hwrite _)
  rw [sessionAfter_of_error hrun, hfiles]

theorem settled_of_written (htext : textOf tree template = .ok text)
    (hfile : fileForText project template text.toList = .ok file)
    (hmade : tree.makeFolders file.parent = (tree, none))
    (hwrite : tree.write file (generatedBytes tree file text) = .ok tree)
    (hpaired : (generatedValue tree file text).Paired) : Settled project template tree := by
  rintro session rfl
  obtain ⟨after, hrun, hfiles⟩ := generate_of_written htext hfile hmade hwrite hpaired
  rw [sessionAfter_of_ok hrun, hfiles]

end

/-- Another file keeps its text when a data file is written. -/
theorem textOf_of_written {made written : FileTree} {file template : Path} {text : String}
    {content : ByteArray} (hwrite : made.write file content = .ok written)
    (htext : textOf made template = .ok text) (hapart : made.newPlace file ≠ made.locate template) :
    textOf written template = .ok text := by
  obtain ⟨-, place, hnew, hn, rfl⟩ := FileTree.write_eq_ok hwrite
  refine textOf_of_read_of_ok htext fun held hread => ?_
  refine (FileTree.keepsWays_setNode hn (.file content)).read hread fun other hl => ?_
  have hne : other ≠ place := by
    rintro rfl
    exact hapart (hnew.trans hl.symm)
  rw [FileTree.nodeAt?_setNode made (FileTree.ne_nil_of_nodeAt?_ne_folder hn), if_neg hne]

section

variable {project : Project} {template file : Path} {tree made written : FileTree} {text : String}

/-- The folder of a data file is still there when the file is written. -/
theorem makeFolders_of_written {content : ByteArray} (hfolder : made.isFolder file.parent = true)
    (hwrite : made.write file content = .ok written) :
    written.makeFolders file.parent = (written, none) := by
  obtain ⟨-, place, -, hn, hwritten⟩ := FileTree.write_eq_ok hwrite
  have hways := FileTree.keepsWays_setNode hn (.file content)
  rw [← hwritten] at hways
  exact FileTree.makeFolders_of_isFolder (hways.isFolder hfolder)

/-- Once a data file is written, a run leaves the tree as it is. -/
theorem settled_of_write (htext : textOf made template = .ok text)
    (hfile : fileForText project template text.toList = .ok file)
    (hfolder : made.isFolder file.parent = true)
    (hapart : made.newPlace file ≠ made.locate template)
    (hwrite : made.write file (generatedBytes tree file text) = .ok written)
    (hpaired : (generatedValue tree file text).Paired) : Settled project template written := by
  have hmade := makeFolders_of_written hfolder hwrite
  -- The same text is written, since the same template and the written data are read.
  have hagain := (FileTree.write_write hwrite).2
  have hvalue := generatedValue_of_written hwrite hpaired
  unfold generatedBytes at hagain
  rw [← hvalue] at hagain hpaired
  exact settled_of_written (textOf_of_written hwrite htext hapart) hfile hmade hagain hpaired

/-- Once writing was broken off, a run writes what an empty file is filled with, and
    that is something else. -/
theorem read_ne_of_broken (htext : textOf made template = .ok text)
    (hfile : fileForText project template text.toList = .ok file)
    (hfolder : made.isFolder file.parent = true)
    (hapart : made.newPlace file ≠ made.locate template)
    (hwrite : made.write file (generatedBytes tree file text) = .ok written)
    (hbroken : ¬ (generatedValue tree file text).Paired) {session : Session}
    (hfiles : session.files = written) :
    (sessionAfter (generate project template) session).files.read file ≠ written.read file := by
  obtain ⟨message, hdata⟩ := dataIn_of_broken hwrite hbroken
  have hheld : heldIn written file = [] := by
    unfold heldIn
    rw [hdata]
  have hpaired := paired_generatedValue_of_nil hheld text
  obtain ⟨hread, -⟩ := FileTree.write_write hwrite
  obtain ⟨-, last, hlast⟩ := exists_write_of_read hfile hread (generatedBytes written file text)
  have htext' := textOf_of_written hwrite htext hapart
  have hmade := makeFolders_of_written hfolder hwrite
  subst hfiles
  obtain ⟨after, hrun, hafter⟩ := generate_of_written htext' hfile hmade hlast hpaired
  obtain ⟨members, hdata', -⟩ := dataIn_of_written hlast hpaired
  rw [sessionAfter_of_ok hrun, hafter]
  -- What is there now can be read as data, what was there before cannot.
  intro hsame
  rw [dataIn_congr (hsame.trans hread) hread, hdata] at hdata'
  contradiction

end

/-- Was the run broken off while it wrote the data, since a string cannot be written? -/
def IsBrokenOff (project : Project) (template : Path) (session : Session) : Prop :=
  ∃ error after, generate project template session = .error (.encoding error) after

theorem not_isBrokenOff_of_ok {project : Project} {template : Path} {session after : Session}
    {result : Option Path} (h : generate project template session = .ok result after) :
    ¬ IsBrokenOff project template session := by
  rintro ⟨error, other, hbroken⟩
  rw [h] at hbroken
  contradiction

theorem not_isBrokenOff_of_error {project : Project} {template : Path} {session after : Session}
    {failure : Failure} (h : generate project template session = .error failure after)
    (hne : ∀ error, failure ≠ .encoding error) : ¬ IsBrokenOff project template session := by
  rintro ⟨error, other, hbroken⟩
  rw [h] at hbroken
  injection hbroken with hfailure _
  exact hne error hfailure

/-- Does the next run change the data file of a template? -/
def ChangesDataFile (project : Project) (template : Path) (session : Session) : Prop :=
  ∃ text file, textOf session.files template = .ok text ∧
    fileForText project template text.toList = .ok file ∧
    (sessionAfter (generate project template) session).files.read file ≠ session.files.read file

/-- Does a run end, in whatever way, with a tree that the next one leaves as it is? -/
def Settles (project : Project) (template : Path) (session : Session) : Prop :=
  ¬ IsBrokenOff project template session ∧
    Settled project template (sessionAfter (generate project template) session).files

section

variable {project : Project} {template file : Path} {session : Session} {text : String}
  {made written : FileTree}

theorem settles_of_unreadable {error : ReadError}
    (htext : textOf session.files template = .error error) : Settles project template session := by
  unfold Settles
  rw [settled_of_unreadable project htext session rfl]
  refine ⟨?_, settled_of_unreadable project htext⟩
  rcases @generate_of_unreadable project template session error htext with
    ⟨failure, hrun⟩ | ⟨after, hrun, -⟩
  · exact not_isBrokenOff_of_error hrun fun _ => nofun
  · exact not_isBrokenOff_of_ok hrun

theorem settles_of_noFile (htext : textOf session.files template = .ok text) {failure : Failure}
    (hfile : fileForText project template text.toList = .error failure) :
    Settles project template session := by
  unfold Settles
  rw [settled_of_noFile htext hfile session rfl]
  obtain ⟨path, rfl⟩ := exists_noName_of_fileForText hfile
  exact ⟨not_isBrokenOff_of_error (generate_of_noFile htext hfile) fun _ => nofun,
    settled_of_noFile htext hfile⟩

/-- The template is read again when folders have been made. -/
theorem textOf_of_made {tree : FileTree} {path : Path} {tried : Option FileError}
    (hmade : tree.makeFolders path = (made, tried)) (htext : textOf tree template = .ok text) :
    textOf made template = .ok text := by
  have hadds := FileTree.adds_makeFolders tree path
  rw [hmade] at hadds
  exact textOf_of_read_of_ok htext fun _ hread => hadds.read hread

/-- A folder that could not be made cannot be made now either. -/
theorem settles_of_noFolder (htext : textOf session.files template = .ok text)
    (hfile : fileForText project template text.toList = .ok file) {error : FileError}
    (hmade : session.files.makeFolders file.parent = (made, some error)) :
    Settles project template session := by
  obtain ⟨after, hrun, hfiles⟩ := generate_of_noFolder htext hfile hmade
  obtain ⟨problem?, hagain, hiff⟩ := FileTree.makeFolders_makeFolders session.files file.parent
  rw [hmade] at hagain hiff
  unfold Settles
  rw [sessionAfter_of_error hrun, hfiles]
  refine ⟨not_isBrokenOff_of_error hrun fun _ => nofun, ?_⟩
  cases problem? with
  | some error' => exact settled_of_noFolder (textOf_of_made hmade htext) hfile hagain
  | none => exact absurd (hiff.1 rfl) (by simp)

/-- Where the data cannot be written nothing can, whatever it would be. -/
theorem settles_of_unwritten (htext : textOf session.files template = .ok text)
    (hfile : fileForText project template text.toList = .ok file)
    (hmade : session.files.makeFolders file.parent = (made, none)) {error : FileError}
    (hwrite : made.write file (generatedBytes session.files file text) = .error error) :
    Settles project template session := by
  obtain ⟨after, hrun, hfiles⟩ := generate_of_unwritten htext hfile hmade hwrite
  obtain ⟨problem?, hagain, hiff⟩ := FileTree.makeFolders_makeFolders session.files file.parent
  rw [hmade] at hagain hiff
  obtain rfl := hiff.2 rfl
  unfold Settles
  rw [sessionAfter_of_error hrun, hfiles]
  exact ⟨not_isBrokenOff_of_error hrun fun _ => nofun,
    settled_of_unwritten (textOf_of_made hmade htext) hfile hagain hwrite⟩

theorem isFolder_of_made {tree : FileTree} {path : Path}
    (hmade : tree.makeFolders path = (made, none)) : made.isFolder path = true := by
  have hfolder := @FileTree.isFolder_makeFolders tree path (by rw [hmade])
  rwa [hmade] at hfolder

/-- A template that is not the data file is not it in the folders that were made. -/
theorem newPlace_ne_of_made (hapart : DataFileApart project template session.files)
    (htext : textOf session.files template = .ok text)
    (hfile : fileForText project template text.toList = .ok file) {tried : Option FileError}
    (hmade : session.files.makeFolders file.parent = (made, tried)) :
    made.newPlace file ≠ made.locate template := by
  have hplace := hapart text file htext hfile
  have hadds := FileTree.adds_makeFolders session.files file.parent
  obtain ⟨content, hread⟩ := exists_read_of_textOf htext
  obtain ⟨-, place, hlocate, -⟩ := exists_locate_of_read hread
  rw [hmade] at hplace hadds
  rwa [hlocate, ← hadds.keepsWays.locate hlocate] at hplace

theorem settles_of_written (hapart : DataFileApart project template session.files)
    (htext : textOf session.files template = .ok text)
    (hfile : fileForText project template text.toList = .ok file)
    (hmade : session.files.makeFolders file.parent = (made, none))
    (hwrite : made.write file (generatedBytes session.files file text) = .ok written)
    (hpaired : (generatedValue session.files file text).Paired) :
    Settles project template session := by
  obtain ⟨after, hrun, hfiles⟩ := generate_of_written htext hfile hmade hwrite hpaired
  have hplace := newPlace_ne_of_made hapart htext hfile hmade
  unfold Settles
  rw [sessionAfter_of_ok hrun, hfiles]
  exact ⟨not_isBrokenOff_of_ok hrun, settled_of_write (textOf_of_made hmade htext) hfile
    (isFolder_of_made hmade) hplace hwrite hpaired⟩

/-- What cannot be written to its end is changed by the next run. -/
theorem changesDataFile_of_broken (hapart : DataFileApart project template session.files)
    (htext : textOf session.files template = .ok text)
    (hfile : fileForText project template text.toList = .ok file)
    (hmade : session.files.makeFolders file.parent = (made, none))
    (hwrite : made.write file (generatedBytes session.files file text) = .ok written)
    (hbroken : ¬ (generatedValue session.files file text).Paired) :
    IsBrokenOff project template session ∧
      ChangesDataFile project template (sessionAfter (generate project template) session) := by
  obtain ⟨error, after, hrun, hfiles⟩ := generate_of_broken htext hfile hmade hwrite hbroken
  have htext' := textOf_of_made hmade htext
  have hplace := newPlace_ne_of_made hapart htext hfile hmade
  rw [sessionAfter_of_error hrun]
  refine ⟨⟨error, after, hrun⟩, text, file, ?_, hfile, ?_⟩
  · rw [hfiles]
    exact textOf_of_written hwrite htext' hplace
  · have hne := read_ne_of_broken htext' hfile (isFolder_of_made hmade) hplace hwrite hbroken
      hfiles
    rwa [← hfiles] at hne

end

/-- A run settles the tree, or is broken off and leaves a data file that the next one
    changes. -/
theorem settles_or_brokenOff (project : Project) (template : Path) (session : Session)
    (hapart : DataFileApart project template session.files) :
    Settles project template session ∨
      (IsBrokenOff project template session ∧
        ChangesDataFile project template (sessionAfter (generate project template) session)) := by
  cases htext : textOf session.files template with
  | error error => exact .inl (settles_of_unreadable htext)
  | ok text =>
    cases hfile : fileForText project template text.toList with
    | error failure => exact .inl (settles_of_noFile htext hfile)
    | ok file =>
      rcases hmade : session.files.makeFolders file.parent with ⟨made, _ | error⟩
      · cases hwrite : made.write file (generatedBytes session.files file text) with
        | error error => exact .inl (settles_of_unwritten htext hfile hmade hwrite)
        | ok written =>
          by_cases hpaired : (generatedValue session.files file text).Paired
          · exact .inl (settles_of_written hapart htext hfile hmade hwrite hpaired)
          · exact .inr (changesDataFile_of_broken hapart htext hfile hmade hwrite hpaired)
      · exact .inl (settles_of_noFolder htext hfile hmade)

/-- **A second run changes nothing**, whatever the data file held before, and whether or
    not the first run has failed, unless the first was broken off while it wrote. Then
    the second changes the data file. -/
theorem generate_generate (project : Project) (template : Path) (session : Session)
    (hapart : DataFileApart project template session.files) :
    (¬ IsBrokenOff project template session →
      (sessionAfter (generate project template)
        (sessionAfter (generate project template) session)).files =
      (sessionAfter (generate project template) session).files) ∧
    (IsBrokenOff project template session →
      ChangesDataFile project template (sessionAfter (generate project template) session)) := by
  rcases settles_or_brokenOff project template session hapart with
    ⟨hnot, hsettled⟩ | ⟨hbroken, hchanges⟩
  · exact ⟨fun _ => hsettled _ rfl, fun hbroken => absurd hbroken hnot⟩
  · exact ⟨fun hnot => absurd hbroken hnot, fun _ => hchanges⟩

/-- Data with half of a surrogate pair, which can be escaped in a file. -/
def halfPairText : String :=
  "\x7b\"a\": \"\\ud800\"\x7d"

/-- The sample project, with a name to fill in and this data. -/
def halfPairSession : Session :=
  { files :=
      { current := ["ws"]
        nodes :=
          [(["ws"], .folder), (["ws", "templates"], .folder), (["ws", "data"], .folder),
            (["ws", "templates", "a.html"], .file "${name}".toUTF8),
            (["ws", "data", "a.json"], .file halfPairText.toUTF8)] }
    out := ""
    err := "" }

theorem textOf_halfPair : textOf halfPairSession.files sampleTemplate = .ok "${name}" :=
  textOf_of_read rfl (by decide)

theorem fileForText_name :
    fileForText sampleProject sampleTemplate "${name}".toList = .ok sampleFile :=
  rfl

theorem dataFileApart_halfPair :
    DataFileApart sampleProject sampleTemplate halfPairSession.files := by
  intro text file htext hfile
  obtain rfl := Except.ok.inj (textOf_halfPair.symm.trans htext)
  obtain rfl := Except.ok.inj (fileForText_name.symm.trans hfile)
  have hfolder : halfPairSession.files.isFolder sampleFile.parent = true := rfl
  rw [FileTree.makeFolders_of_isFolder hfolder]
  decide

theorem leaves_name : leaves (templateSteps "${name}".toList) = [[.key "name"]] := by
  decide +kernel

/-- The half is read, and stays where it is. -/
theorem exists_dataIn_halfPair : ∃ members,
    dataIn halfPairSession.files sampleFile = .ok members ∧
      ¬ (insertAll (.object members) [[.key "name"]]).Paired := by
  have held : ((Json.parse halfPairText.toList).toOption.any fun value =>
      !decide (insertAll (.object (membersOf (some value))) [[.key "name"]]).Paired) = true := by
    decide +kernel
  have hnone : (insertAll (.object []) [[.key "name"]]).Paired := by decide
  have htext : textOf halfPairSession.files sampleFile = .ok halfPairText :=
    textOf_of_read rfl (by decide)
  have hpath : halfPairSession.files.hasPath sampleFile = true := rfl
  unfold dataIn
  rw [if_pos hpath, htext]
  dsimp only
  cases hparse : Json.parse halfPairText.toList with
  | error error =>
    rw [hparse] at held
    contradiction
  | ok value =>
    rw [hparse] at held
    cases value with
    | object members =>
      simp only [Except.toOption, Option.any_some, membersOf, Bool.not_eq_true'] at held
      exact ⟨members, rfl, of_decide_eq_false held⟩
    | _ => simp [membersOf, Except.toOption, hnone] at held

theorem isBrokenOff_halfPair : IsBrokenOff sampleProject sampleTemplate halfPairSession := by
  obtain ⟨members, hdata, hbroken⟩ := exists_dataIn_halfPair
  have hvalue : ¬ (generatedValue halfPairSession.files sampleFile "${name}").Paired := by
    unfold generatedValue
    rwa [heldIn_of_dataIn hdata, leaves_name]
  obtain ⟨error, after, -, hrun, -⟩ :=
    generate_of_read_of_not textOf_halfPair fileForText_name rfl hvalue
  exact ⟨error, after, hrun⟩

/-- The half cannot be written, so the file is left with what stands in front of it, and
    the next run puts something else there. -/
theorem generate_generate_halfPair :
    DataFileApart sampleProject sampleTemplate halfPairSession.files ∧
    IsBrokenOff sampleProject sampleTemplate halfPairSession ∧
    ChangesDataFile sampleProject sampleTemplate
      (sessionAfter (generate sampleProject sampleTemplate) halfPairSession) :=
  ⟨dataFileApart_halfPair, isBrokenOff_halfPair,
    (generate_generate sampleProject sampleTemplate halfPairSession dataFileApart_halfPair).2
      isBrokenOff_halfPair⟩

/-! ## What the data file holds after a run -/

/-- **Which variables are covered**: after a run that returns a path, all steps of
    the template lead to a value of the data, exactly when no two variables are
    in conflict. -/
theorem reaches_generate_iff {project : Project} {template file : Path}
    {session after : Session}
    (hrun : generate project template session = .ok (some file) after) :
    ∃ text members, textOf session.files template = .ok text ∧
      dataIn after.files file = .ok members ∧
      ((∀ these ∈ templateSteps text.toList, Reaches these (.object members)) ↔
        ∀ these ∈ templateSteps text.toList, ∀ others ∈ templateSteps text.toList,
          ¬Conflict these others) := by
  obtain ⟨text, made, htext, -, -, hwrite, hpaired⟩ := generate_eq_ok hrun
  obtain ⟨members, hdata, hinsert⟩ := dataIn_of_written hwrite hpaired
  refine ⟨text, members, htext, hdata, ?_⟩
  unfold generatedValue at hinsert
  rw [← hinsert]
  exact reaches_insertAll_leaves_iff (templateSteps text.toList) _

/-- The sample template asks the collection for a key and for an element, so its
    run does not cover all of its variables. -/
theorem reaches_generate_iff_sample : ∃ after text members,
    generate sampleProject sampleTemplate sampleSession = .ok (some sampleFile) after ∧
      textOf sampleSession.files sampleTemplate = .ok text ∧
      dataIn after.files sampleFile = .ok members ∧
      ¬∀ these ∈ templateSteps text.toList, Reaches these (.object members) := by
  obtain ⟨after, hrun⟩ :=
    generate_of_read textOf_sample fileForText_sample read_sample paired_sample
  obtain ⟨text, members, htext, hdata, hiff⟩ := reaches_generate_iff hrun
  refine ⟨after, text, members, hrun, htext, hdata, fun hall => ?_⟩
  obtain rfl := Except.ok.inj (textOf_sample.symm.trans htext)
  rw [templateSteps_sample] at hiff hall
  refine hiff.1 hall [.key "items", .key "size"] (by decide)
    [.key "items", .element, .key "x"] (by decide) ?_
  exact ⟨[.key "items"], "size", [], [.key "x"], rfl, rfl⟩

/-- **What a run keeps of the data**. It returns a path exactly when what it makes of the
    data can be written. Everything in the data file is kept exactly when, in addition
    to that, what the run builds anew at each clash of an object with an array has what
    stood there. -/
theorem keeps_generate_iff {project : Project} {template file : Path} {session : Session}
    {text : String} {content : ByteArray} {members : Members}
    (htext : textOf session.files template = .ok text)
    (hfile : fileForText project template text.toList = .ok file)
    (hread : session.files.read file = .ok content)
    (hdata : dataIn session.files file = .ok members) :
    ((∃ after, generate project template session = .ok (some file) after) ↔
      (insertAll (.object members) (leaves (templateSteps text.toList))).Paired) ∧
    ((∃ members',
        dataIn (sessionAfter (generate project template) session).files file = .ok members' ∧
        Keeps (templateSteps text.toList) (.object members) (.object members')) ↔
      (insertAll (.object members) (leaves (templateSteps text.toList))).Paired ∧
        ∀ place found,
          FirstClash (leaves (templateSteps text.toList)) (.object members) place found →
          Keeps (behindPlace place (leaves (templateSteps text.toList))) found
            (insertAll (.string "")
              (behindPlace place (leaves (templateSteps text.toList))))) := by
  have hvalue : generatedValue session.files file text =
      insertAll (.object members) (leaves (templateSteps text.toList)) := by
    unfold generatedValue
    rw [heldIn_of_dataIn hdata]
  rw [← hvalue]
  by_cases hpaired : (generatedValue session.files file text).Paired
  · obtain ⟨after, hrun⟩ := generate_of_read htext hfile hread hpaired
    obtain ⟨text', made, htext', -, -, hwrite, -⟩ := generate_eq_ok hrun
    obtain rfl : text = text' := Except.ok.inj (htext.symm.trans htext')
    obtain ⟨members', hdata', hinsert⟩ := dataIn_of_written hwrite hpaired
    refine ⟨iff_of_true ⟨after, hrun⟩ hpaired, ?_⟩
    rw [sessionAfter_of_ok hrun, ← keeps_insertAll_iff, ← hvalue, hinsert]
    constructor
    · rintro ⟨found, hfound, hkeeps⟩
      obtain rfl := Except.ok.inj (hdata'.symm.trans hfound)
      exact ⟨hinsert ▸ hpaired, hkeeps.congr fun place => (readsBelow_leaves_iff _ place).symm⟩
    · rintro ⟨-, hkeeps⟩
      exact ⟨members', hdata', hkeeps.congr fun place => readsBelow_leaves_iff _ place⟩
  · -- The run is broken off, and nothing can be read of what it leaves.
    obtain ⟨error, after, written, hrun, hwrite, hfiles⟩ :=
      generate_of_read_of_not htext hfile hread hpaired
    obtain ⟨message, hbroken⟩ := dataIn_of_broken hwrite hpaired
    refine ⟨iff_of_false ?_ hpaired, iff_of_false ?_ fun h => hpaired h.1⟩
    · rintro ⟨other, hother⟩
      rw [hrun] at hother
      contradiction
    · rintro ⟨members', hmembers, -⟩
      rw [sessionAfter_of_error hrun, hfiles, hbroken] at hmembers
      contradiction

/-- The sample template asks the collection, which is an array of the data, for a
    key as well, so its run does not keep the data. -/
theorem keeps_generate_iff_sample :
    (∃ after, generate sampleProject sampleTemplate sampleSession = .ok (some sampleFile) after) ∧
      ¬ ∃ members, dataIn (sessionAfter (generate sampleProject sampleTemplate)
          sampleSession).files sampleFile = .ok members ∧
        Keeps (templateSteps sampleText.toList) (.object sampleMembers) (.object members) := by
  obtain ⟨hreturns, hiff⟩ :=
    keeps_generate_iff textOf_sample fileForText_sample read_sample dataIn_sample
  have hpaired := paired_sample
  unfold generatedValue at hpaired
  rw [heldIn_of_dataIn dataIn_sample] at hpaired
  refine ⟨hreturns.2 hpaired, fun hkeeps => ?_⟩
  have hclash : FirstClash (leaves sampleSteps) (.object sampleMembers) [.key "items"]
      (.array [.object [("x", .integer 1)]]) := by
    refine .inside ?_ rfl (.here ⟨"size", [], ?_⟩)
    · rintro ⟨rest, hm⟩
      simp [leaves_sample] at hm
    · rw [leaves_sample]
      decide
  rw [templateSteps_sample] at hiff hkeeps
  -- The collection is built anew as an object.
  have hlost := (hiff.1 hkeeps).2 _ _ hclash [] _ rfl
  obtain ⟨value, hvalue, items, rfl⟩ := hlost
  rw [leaves_sample] at hvalue
  injection hvalue with hvalue
  contradiction

end TemplateAnalysis.Store
