import TemplateAnalysis.Documents
import TemplateAnalysis.Proofs.Files.Tree
import TemplateAnalysis.Proofs.Json.BrokenOff
import TemplateAnalysis.Proofs.Json.Reading

/-! # What files are found to hold

    * **`Inspects`**: a job that only looks changes no file, and its answer is a
      function of the files; one look after another is a look again
      (**`Inspects.bind`**), and so is reading a text (**`inspects_readText`**);
    * **`dataIn_of_read`**: a file with the text of an object holds that object, and
      one in which it was broken off cannot be read (**`dataIn_of_read_of_not`**);
    * **`wellFormed_of_dataIn`**: the members that any file holds are those of a
      well-formed object.
-/

namespace TemplateAnalysis

open Files Json

/-! ## Texts -/

/-- The bytes of a text stand for it. -/
theorem decodeUtf8_toUTF8 (text : String) : Text.decodeUtf8 text.toUTF8 = .ok text := by
  have h : String.fromUTF8? text.toUTF8 = some text := dif_pos text.isValidUTF8
  unfold Text.decodeUtf8
  rw [h]

/-- A text without carriage returns is read as it is. -/
theorem unifyNewlines_of_notMem {cs : List Char} (h : '\r' ∉ cs) : Text.unifyNewlines cs = cs := by
  induction cs with
  | nil => rfl
  | cons c cs ih =>
    have hc : c ≠ '\r' := fun heq => h (heq ▸ List.mem_cons_self)
    have hrest := ih fun hm => h (List.mem_cons_of_mem c hm)
    rw [Text.unifyNewlines]
    · rw [hrest]
    · exact fun rest heq _ => hc heq
    · exact hc

theorem textOf_of_read {tree : FileTree} {path : Path} {text : String}
    (hr : tree.read path = .ok text.toUTF8) (hcr : '\r' ∉ text.toList) :
    textOf tree path = .ok text := by
  unfold textOf
  simp only [hr, decodeUtf8_toUTF8, unifyNewlines_of_notMem hcr, String.ofList_toList]

theorem exists_read_of_textOf {tree : FileTree} {path : Path} {text : String}
    (h : textOf tree path = .ok text) : ∃ content, tree.read path = .ok content := by
  unfold textOf at h
  cases hr : tree.read path with
  | ok content => exact ⟨content, rfl⟩
  | error error => simp [hr] at h

/-- A file that still holds what it held has the same text. -/
theorem textOf_of_read_of_ok {before after : FileTree} {path : Path} {text : String}
    (h : textOf before path = .ok text)
    (hr : ∀ content, before.read path = .ok content → after.read path = .ok content) :
    textOf after path = .ok text := by
  obtain ⟨content, hread⟩ := exists_read_of_textOf h
  unfold textOf at h ⊢
  rw [hr content hread]
  rwa [hread] at h

theorem exists_locate_of_read {tree : FileTree} {path : Path} {content : ByteArray}
    (h : tree.read path = .ok content) : path.hasNull = false ∧ ∃ place,
      tree.locate path = .ok place ∧ tree.nodeAt? place = some (.file content) := by
  unfold FileTree.read at h
  split at h
  · contradiction
  · rename_i hnull
    refine ⟨by simpa using hnull, ?_⟩
    cases hl : tree.locate path with
    | error problem => simp [hl] at h
    | ok place =>
      refine ⟨place, rfl, ?_⟩
      simp only [hl] at h
      split at h
      · rename_i hn
        rw [hn, Except.ok.inj h]
      · contradiction
      · contradiction

/-! ## Jobs -/

theorem files_print (session : Session) (weight : Weight) (message : String) :
    (session.print weight message).files = session.files := by
  cases weight <;> rfl

section

variable {ε σ α β : Type} {job : EStateM ε σ α} {before after : σ}

/-- What comes next goes on from where the job has ended. -/
theorem bind_of_ok {a : α} (h : job before = .ok a after) (next : α → EStateM ε σ β) :
    (job >>= next) before = next a after := by
  show EStateM.bind job next before = _
  unfold EStateM.bind
  rw [h]

/-- A failure leaves out what comes next. -/
theorem bind_of_error {failure : ε} (h : job before = .error failure after)
    (next : α → EStateM ε σ β) : (job >>= next) before = .error failure after := by
  show EStateM.bind job next before = _
  unfold EStateM.bind
  rw [h]

end

theorem files_eq (session : Session) : files session = .ok session.files session :=
  rfl

theorem get_eq (session : Session) : (get : Job Session) session = .ok session session :=
  rfl

/-- A template is read, or there is none, and no file has changed. -/
theorem readText_of_ok {path : Path} {session : Session} {text : String}
    (h : textOf session.files path = .ok text) :
    readText path session = .ok (some text) session := by
  obtain ⟨content, hread⟩ := exists_read_of_textOf h
  obtain ⟨hnull, -⟩ := exists_locate_of_read hread
  unfold readText
  rw [hnull]
  show (files >>= _) session = _
  rw [bind_of_ok (files_eq session), h]
  rfl

theorem readText_of_error {path : Path} {session : Session} {error : ReadError}
    (h : textOf session.files path = .error error) :
    (∃ error, readText path session = .error (.file error) session) ∨
      ∃ after, readText path session = .ok none after ∧ after.files = session.files := by
  unfold readText
  by_cases hnull : path.hasNull = true
  · left
    rw [hnull]
    exact ⟨_, rfl⟩
  · right
    rw [Bool.not_eq_true] at hnull
    rw [hnull]
    refine ⟨session.print .warning ("Could not read " ++ path.text ++ ": " ++ error.message),
      ?_, files_print _ _ _⟩
    show (files >>= _) session = _
    rw [bind_of_ok (files_eq session), h]
    rfl

/-- The job changes no file, and what it answers is told by the files. -/
def Inspects {α : Type} (job : Job α) (answer : FileTree → Except Failure α) : Prop :=
  ∀ session, ∃ after : Session, after.files = session.files ∧
    job session = match answer session.files with
      | .ok a => .ok a after
      | .error failure => .error failure after

section Inspecting

variable {α β : Type} {job : Job α} {answer : FileTree → Except Failure α}

theorem inspects_pure (a : α) : Inspects (pure a) fun _ => .ok a := by
  intro session
  exact ⟨session, rfl, rfl⟩

theorem inspects_throw (failure : Failure) :
    Inspects (throw failure : Job α) fun _ => .error failure := by
  intro session
  exact ⟨session, rfl, rfl⟩

theorem inspects_files : Inspects files fun tree => .ok tree := by
  intro session
  exact ⟨session, rfl, rfl⟩

/-- One look after another. -/
theorem Inspects.bind (h : Inspects job answer) {next : α → Job β}
    {answer' : α → FileTree → Except Failure β} (h' : ∀ a, Inspects (next a) (answer' a)) :
    Inspects (job >>= next) fun tree => (answer tree).bind fun a => answer' a tree := by
  intro session
  obtain ⟨after, hfiles, hjob⟩ := h session
  dsimp only
  cases hanswer : answer session.files with
  | error failure =>
    rw [hanswer] at hjob
    exact ⟨after, hfiles, bind_of_error hjob next⟩
  | ok a =>
    rw [hanswer] at hjob
    obtain ⟨last, hlast, hnext⟩ := h' a after
    rw [hfiles] at hlast hnext
    exact ⟨last, hlast, (bind_of_ok hjob next).trans hnext⟩

end Inspecting

/-- The text of a file, as it is read from a tree: none when there is no such
    text. -/
def textIn (tree : FileTree) (path : Path) : Except Failure (Option String) :=
  if path.hasNull then .error (.file ⟨.nullInFile, path⟩) else .ok (textOf tree path).toOption

theorem inspects_readText (path : Path) :
    Inspects (readText path) fun tree => textIn tree path := by
  intro session
  unfold textIn
  by_cases hnull : path.hasNull = true
  · refine ⟨session, rfl, ?_⟩
    unfold readText
    rw [if_pos hnull, hnull]
    rfl
  · dsimp only
    rw [if_neg hnull]
    rw [Bool.not_eq_true] at hnull
    cases htext : textOf session.files path with
    | ok text => exact ⟨session, rfl, readText_of_ok htext⟩
    | error error =>
      refine ⟨session.print .warning ("Could not read " ++ path.text ++ ": " ++ error.message),
        files_print _ _ _, ?_⟩
      unfold readText
      rw [hnull]
      show (files >>= _) session = _
      rw [bind_of_ok (files_eq session), htext]
      rfl

/-! ## Data -/

/-- The text of a paired value ends with a line feed. -/
theorem toList_dataText {value : Value} (hp : value.Paired) :
    (dataText value).toList = render (.indented 0) value ++ ['\n'] := by
  unfold dataText dataPieces
  rw [String.toList_ofList, written_pieces hp]
  rfl

/-- The text of any other value does not come to its end. -/
theorem toList_dataText_of_not {value : Value} (hp : ¬ value.Paired) :
    (dataText value).toList = Text.CodePoints.written (pieces (.indented 0) value) := by
  unfold dataText dataPieces
  rw [String.toList_ofList, written_pieces_of_not hp]

/-- The text of a data file stands for what was written into it. -/
theorem parse_dataText {value : Value} (hw : value.WellFormed) (hp : value.Paired) :
    parse (dataText value).toList = .ok value := by
  rw [toList_dataText hp]
  exact parse_render hw hp (.indented 0) (List.all_eq_true.1 (by decide))

theorem cr_notMem_dataText {value : Value} (hw : value.WellFormed) :
    '\r' ∉ (dataText value).toList := by
  intro hcr
  unfold dataText at hcr
  rw [String.toList_ofList] at hcr
  have hmem := Text.CodePoints.mem_of_mem_written hcr
  unfold dataPieces at hmem
  rw [List.flatMap_append, flatMap_pieces, List.mem_append] at hmem
  rcases hmem with hvalue | hend
  · exact cr_notMem_render hw (.indented 0) hvalue
  · exact absurd hend (by decide)

/-- There is no error exactly when all of the value is written. -/
theorem encodingError?_dataPieces {value : Value} :
    Text.CodePoints.encodingError? (dataPieces value) = none ↔ value.Paired := by
  unfold dataPieces
  rw [Text.CodePoints.encodingError?_eq_none_iff, List.forall_mem_append, forall_mem_pieces_iff]
  simp

section

variable {tree : FileTree} {path : Path} {value : Value}

theorem hasPath_of_read {content : ByteArray} (hr : tree.read path = .ok content) :
    tree.hasPath path = true := by
  obtain ⟨-, place, hl, hn⟩ := exists_locate_of_read hr
  simp [FileTree.hasPath, FileTree.find?, hl, hn]

/-- What a file that is there holds is told by its bytes. -/
theorem dataIn_congr {other : FileTree} {content : ByteArray} (h : tree.read path = .ok content)
    (h' : other.read path = .ok content) : dataIn tree path = dataIn other path := by
  unfold dataIn textOf
  rw [if_pos (hasPath_of_read h), if_pos (hasPath_of_read h'), h, h']

/-- **A file with the text of an object holds that object.** -/
theorem dataIn_of_read {members : Members} (hw : Value.WellFormed (.object members))
    (hp : Value.Paired (.object members))
    (hr : tree.read path = .ok (dataText (.object members)).toUTF8) :
    dataIn tree path = .ok members := by
  unfold dataIn
  rw [if_pos (hasPath_of_read hr), textOf_of_read hr (cr_notMem_dataText hw)]
  simp only [parse_dataText hw hp]

/-- **A file with the text of a value that was broken off cannot be read.** -/
theorem dataIn_of_read_of_not (hw : value.WellFormed) (hp : ¬ value.Paired)
    (hr : tree.read path = .ok (dataText value).toUTF8) :
    ∃ message, dataIn tree path = .error message := by
  obtain ⟨error, hparse⟩ := parse_written_of_not_paired hw hp 0
  rw [← toList_dataText_of_not hp] at hparse
  refine ⟨error.message, ?_⟩
  unfold dataIn
  rw [if_pos (hasPath_of_read hr), textOf_of_read hr (cr_notMem_dataText hw)]
  simp only [hparse]

end

/-- **The members that a file holds are those of a well-formed object.** -/
theorem wellFormed_of_dataIn {tree : FileTree} {path : Path} {members : Members}
    (h : dataIn tree path = .ok members) : Value.WellFormed (.object members) := by
  unfold dataIn at h
  split at h
  · split at h
    · contradiction
    · split at h
      · contradiction
      · rename_i hparse
        rw [← Except.ok.inj h]
        exact wellFormed_of_parse hparse
      · rw [← Except.ok.inj h]
        exact wellFormed_empty
  · rw [← Except.ok.inj h]
    exact wellFormed_empty

end TemplateAnalysis
