import TemplateAnalysis.Proofs.Store.Generating

/-! # Data files that hold no data

    A data file counts as empty when its bytes are no text, when the text is not
    that of a value, or when the value is no object. For looking at data that does
    no harm. A run that generates data writes the file anew, though:

    * **`heldIn_of_read`**: what a run finds in a file is told by its bytes;
    * **`generate_overwrites`**: so the file of which it finds nothing is replaced
      by what an empty one would be filled with, and no other file changes.
-/

namespace TemplateAnalysis.Store

open Files Json

/-! ## What the bytes of a file stand for -/

/-- The members that bytes stand for, if they are the text of an object. -/
def membersIn? (content : ByteArray) : Option Members :=
  match Text.decodeUtf8 content with
  | .error _ => none
  | .ok text =>
    match Json.parse (Text.unifyNewlines text.toList) with
    | .ok (.object members) => some members
    | _ => none

/-- What is written into a data file stands for what was written. -/
theorem membersIn?_dataText {members : Members} (hw : Value.WellFormed (.object members))
    (hp : Value.Paired (.object members)) :
    membersIn? (dataText (.object members)).toUTF8 = some members := by
  unfold membersIn?
  rw [decodeUtf8_toUTF8]
  simp only [unifyNewlines_of_notMem (cr_notMem_dataText hw), parse_dataText hw hp]

section

variable {tree : FileTree} {file : Path} {content : ByteArray}

/-- **What a run finds in a file is told by its bytes**, and it finds nothing
    where these stand for no object. -/
theorem heldIn_of_read (h : tree.read file = .ok content) :
    heldIn tree file = (membersIn? content).getD [] := by
  unfold heldIn dataIn membersIn?
  rw [if_pos (hasPath_of_read h)]
  cases hdecode : Text.decodeUtf8 content with
  | error error =>
    have htext : textOf tree file = .error (.encoding error) := by
      simp only [textOf, h, hdecode]
    rw [htext]
    rfl
  | ok text =>
    have htext : textOf tree file = .ok (String.ofList (Text.unifyNewlines text.toList)) := by
      simp only [textOf, h, hdecode]
    simp only [htext, String.toList_ofList]
    -- Only an object is taken for data, by both.
    cases Json.parse (Text.unifyNewlines text.toList) with
    | error error => rfl
    | ok value => cases value <;> rfl

/-- Writing one file leaves every other file as it is. -/
theorem read_of_write {written : FileTree} {other : Path} {held : ByteArray}
    (hwrite : tree.write file content = .ok written) (hread : tree.read other = .ok held)
    (hother : tree.locate other ≠ tree.locate file) : written.read other = .ok held := by
  obtain ⟨-, place, hnew, hnode, rfl⟩ := FileTree.write_eq_ok hwrite
  apply (FileTree.keepsWays_setNode hnode (.file content)).read hread
  intro found hfound
  rw [FileTree.nodeAt?_setNode tree (FileTree.ne_nil_of_nodeAt?_ne_folder hnode), if_neg]
  -- Something stands there, so it would be where the written file was before.
  rintro rfl
  obtain ⟨-, held', hlocate, hheld⟩ := exists_locate_of_read hread
  obtain rfl : held' = found := Except.ok.inj (hlocate.symm.trans hfound)
  have hfile := FileTree.locate_of_newPlace hnew (by rw [hheld]; rfl)
  exact hother (hfound.trans hfile.symm)

end

/-! ## Runs -/

/-- **A data file that cannot be loaded is replaced**: for every template with a
    text, and whatever bytes that stand for no object its data file holds, a run
    returns the path of that file, which then holds what an empty one would have
    been filled with. These are never the bytes that it held. No other file
    changes. -/
theorem generate_overwrites {project : Project} {template file : Path} {session : Session}
    {text : String} {content : ByteArray}
    (htext : textOf session.files template = .ok text)
    (hfile : fileForText project template text.toList = .ok file)
    (hread : session.files.read file = .ok content) (hnone : membersIn? content = none) :
    ∃ after members, generate project template session = .ok (some file) after ∧
      insertAll (.object []) (leaves (templateSteps text.toList)) = .object members ∧
      after.files.read file = .ok (dataText (.object members)).toUTF8 ∧
      (dataText (.object members)).toUTF8 ≠ content ∧
      ∀ other held, session.files.read other = .ok held →
        session.files.locate other ≠ session.files.locate file →
        after.files.read other = .ok held := by
  -- A run finds nothing in the file, as it would in an empty one, so it can be filled.
  have hheld : heldIn session.files file = [] := by
    rw [heldIn_of_read hread, hnone]
    rfl
  have hpaired := paired_generatedValue_of_nil hheld text
  obtain ⟨after, hrun⟩ := generate_of_read htext hfile hread hpaired
  obtain ⟨text', made, htext', -, hmade, hwrite, -⟩ := generate_eq_ok hrun
  obtain rfl : text = text' := Except.ok.inj (htext.symm.trans htext')
  -- The folder of the file is there, so nothing but the file is written.
  obtain ⟨hfolder, -⟩ := exists_write_of_read hfile hread content
  rw [hfolder] at hmade
  obtain rfl : session.files = made := (Prod.mk.inj hmade).1
  obtain ⟨members, -, hinsert⟩ := dataIn_of_written hwrite hpaired
  have hwf := wellFormed_generatedValue session.files file text
  have hbytes : generatedBytes session.files file text = (dataText (.object members)).toUTF8 := by
    unfold generatedBytes
    rw [hinsert]
  rw [hinsert] at hwf hpaired
  unfold generatedValue at hinsert
  rw [hheld] at hinsert
  refine ⟨after, members, hrun, hinsert, ?_, ?_, ?_⟩
  · rw [← hbytes]
    exact (FileTree.write_write hwrite).1
  · -- The new bytes stand for an object, the old ones do not.
    intro hsame
    have hsome := membersIn?_dataText hwf hpaired
    rw [hsame, hnone] at hsome
    contradiction
  · intro other held hother hapart
    exact read_of_write hwrite hother hapart

/-- An object, but for the comma behind its only member. -/
def strayComma : ByteArray :=
  "\x7b\n  \"user\": \"Ann\",\n\x7d\n".toUTF8

/-- The sample project, with a name to fill in and this in the data file. -/
def strayCommaSession : Session :=
  { files :=
      { current := ["ws"]
        nodes :=
          [(["ws"], .folder), (["ws", "templates"], .folder), (["ws", "data"], .folder),
            (["ws", "templates", "a.html"], .file "${name}".toUTF8),
            (["ws", "data", "a.json"], .file strayComma)] }
    out := ""
    err := "" }

theorem membersIn?_strayComma : membersIn? strayComma = none := by
  apply Option.isNone_iff_eq_none.1
  unfold membersIn? strayComma
  rw [decodeUtf8_toUTF8]
  decide +kernel

/-- A comma too many costs all that the file held. -/
theorem generate_overwrites_strayComma : ∃ after,
    textOf strayCommaSession.files sampleTemplate = .ok "${name}" ∧
      fileForText sampleProject sampleTemplate "${name}".toList = .ok sampleFile ∧
      strayCommaSession.files.read sampleFile = .ok strayComma ∧
      membersIn? strayComma = none ∧
      generate sampleProject sampleTemplate strayCommaSession = .ok (some sampleFile) after ∧
      after.files.read sampleFile = .ok "\x7b\n  \"name\": \"\"\n\x7d\n".toUTF8 ∧
      after.files.read sampleFile ≠ .ok strayComma := by
  have htext : textOf strayCommaSession.files sampleTemplate = .ok "${name}" :=
    textOf_of_read rfl (by decide +kernel)
  have hfile : fileForText sampleProject sampleTemplate "${name}".toList = .ok sampleFile := by
    decide +kernel
  obtain ⟨after, members, hrun, hinsert, hread, hne, -⟩ :=
    generate_overwrites htext hfile rfl membersIn?_strayComma
  have hname : insertAll (.object []) (leaves (templateSteps "${name}".toList)) =
      .object [("name", .string "")] := by
    have hleaves : leaves (templateSteps "${name}".toList) = [[.key "name"]] := by decide +kernel
    rw [hleaves]
    rfl
  obtain rfl := Value.object.inj (hinsert.symm.trans hname)
  refine ⟨after, htext, hfile, rfl, membersIn?_strayComma, hrun, hread, ?_⟩
  rw [hread]
  exact fun hsame => hne (Except.ok.inj hsame)

end TemplateAnalysis.Store
