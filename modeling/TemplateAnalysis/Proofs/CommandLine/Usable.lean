import TemplateAnalysis.CommandLine.Dialogue
import TemplateAnalysis.Proofs.Files.Tree
import TemplateAnalysis.Proofs.Json.Reading

/-! # Which requests can be carried out

    Work on a workspace needs three things to be there: the folder of the
    workspace, that of its templates, and the template, if the action works on
    one. Arguments and answers are both checked for them, but not in one way:

    * **Arguments** are checked as they are used, so every request that they make
      is usable.
    * **Answers** are checked without the blanks around them, and the folder of
      the templates the other way round. What an answer was accepted for is
      therefore what it is used for when no blanks are around it.

    Both are in **`usable_of_asked`**. A dialogue is followed by a condition on
    what it ends with (**`Dialogue.Ensures`**), which every script of answers
    meets (**`Dialogue.Ensures.of_play`**).
-/

namespace TemplateAnalysis.CommandLine

open Files

/-- Everything is there that the action needs. -/
structure Usable (tree : FileTree) (project : Project) (action : Action)
    (target : Option Path) : Prop where
  workspace : tree.isFolder project.workspace = true
  templates : ∃ root, project.templateRoot? = some root ∧ tree.isFolder root = true
  target : action.needsTemplate = true →
    ∃ template, target = some template ∧ tree.isFile template = true

/-! ## Arguments -/

section

variable {tree : FileTree}

theorem start_child_resolve (tree : FileTree) (folder : Path) (text : String) :
    tree.start ((Path.resolve tree.current folder).child text) = [] := by
  unfold FileTree.start Path.child Path.join
  by_cases habsolute : (Path.ofString text).isAbsolute = true
  · rw [if_pos habsolute, if_pos habsolute]
  · rw [if_neg habsolute]
    rfl

theorem targetOf_eq_ok {folder : Path} {argument : Option String} {template : Path}
    (h : targetOf tree (Path.resolve tree.current folder) argument = .ok template) :
    tree.isFile template = true := by
  unfold targetOf at h
  split at h
  · cases h
  · rename_i text _
    simp only at h
    split at h
    · rename_i hfile
      rw [← Except.ok.inj h]
      refine FileTree.isFile_resolve ?_ hfile
      rw [start_child_resolve]
      exact FileTree.standing_nil tree
    · cases h

theorem templateRoot?_of_ne {project : Project} (h : project.templates ≠ "") :
    project.templateRoot? = some (project.workspace.child project.templates) := by
  unfold Project.templateRoot? Project.folder?
  rw [if_neg (by simpa using h)]

theorem given?_some {text : String} (h : text ≠ "") : given? (some text) = some text := by
  unfold given?
  rw [Option.filter_some, if_pos (by simpa using h)]

theorem given?_getD_ne {argument : Option String} {other : String} (h : other ≠ "") :
    (given? argument).getD other ≠ "" := by
  unfold given?
  cases hgiven : argument.filter (· ≠ "") with
  | none => exact h
  | some text => simpa using (Option.filter_eq_some_iff.1 hgiven).2

theorem usable_of_workRequest {action : Action} {folder : Path} {arguments : Arguments}
    {request : Request}
    (h : workRequest tree action (Path.resolve tree.current folder) arguments = .ok request) :
    Usable tree request.project request.action request.target := by
  unfold workRequest at h
  simp only at h
  split at h
  · cases h
  · rename_i hworkspace
    split at h
    · cases h
    · rename_i htemplates
      rw [Bool.not_eq_true, Bool.not_eq_false'] at hworkspace htemplates
      have hne : (given? arguments.templates).getD "templates" ≠ "" := given?_getD_ne (by decide)
      split at h
      · obtain ⟨target, htarget, h⟩ := Json.bind_eq_ok h
        obtain ⟨seconds, -, h⟩ := Json.bind_eq_ok h
        obtain ⟨template, htemplate, rfl⟩ := Json.map_eq_ok htarget
        rw [← Except.ok.inj h]
        exact ⟨hworkspace, ⟨_, templateRoot?_of_ne hne, htemplates⟩,
          fun _ => ⟨template, rfl, targetOf_eq_ok htemplate⟩⟩
      · rename_i hneeds
        obtain ⟨target, -, h⟩ := Json.bind_eq_ok h
        obtain ⟨seconds, -, h⟩ := Json.bind_eq_ok h
        rw [← Except.ok.inj h]
        exact ⟨hworkspace, ⟨_, templateRoot?_of_ne hne, htemplates⟩,
          fun hneeded => absurd hneeded hneeds⟩

/-- **Every request that arguments make is usable**, unless it is for a new
    workspace. -/
theorem usable_of_arguments {arguments : Arguments} {request : Request}
    (h : Request.ofArguments tree arguments = .ok request) (hwork : request.action ≠ .workspace) :
    Usable tree request.project request.action request.target := by
  unfold Request.ofArguments at h
  obtain ⟨action, -, h⟩ := Json.bind_eq_ok h
  simp only at h
  split at h
  · cases h
  · split at h
    · -- A request for a new workspace is one whatever it holds.
      unfold newWorkspaceRequest at h
      simp only at h
      split at h
      · cases h
      · rw [← Except.ok.inj h] at hwork
        exact absurd rfl hwork
    · exact usable_of_workRequest h

end

/-! ## Dialogues -/

/-- Whatever is answered of what meets a condition and is accepted, the dialogue
    ends with a result that has a property. -/
def Dialogue.Ensures {α : Type} (tree : FileTree) (meets : String → Prop) (result : α → Prop) :
    Dialogue α → Prop
  | .done found => result found
  | .ask prompt next => ∀ answer, meets answer → prompt.check.problem? tree answer = none →
      (next answer).Ensures tree meets result

section

variable {tree : FileTree} {meets : String → Prop}

theorem Dialogue.ensures_prompt {α : Type} {result : α → Prop} {kind : PromptKind}
    {message : String} {initial : Option String} {check : Check} {next : String → Dialogue α} :
    (prompt kind message initial check >>= next).Ensures tree meets result ↔
      ∀ answer, meets answer → check.problem? tree answer = none →
        (next answer).Ensures tree meets result :=
  Iff.rfl

theorem Dialogue.ensures_pure {α : Type} {result : α → Prop} {found : α} :
    (pure found : Dialogue α).Ensures tree meets result ↔ result found :=
  Iff.rfl

/-- **So does every script of such answers**, if it does not cancel a prompt. -/
theorem Dialogue.Ensures.of_play {α : Type} {result : α → Prop} {dialogue : Dialogue α}
    (h : dialogue.Ensures tree meets result) {script : List (Option String)}
    (hscript : ∀ answer, some answer ∈ script → meets answer) {found : α}
    (hplay : (dialogue.play tree script).2 = some found) : result found := by
  -- By induction on the script: a rejected answer leaves the dialogue as it is.
  induction script generalizing dialogue with
  | nil =>
    cases dialogue with
    | done last =>
      obtain rfl := Option.some.inj hplay
      exact h
    | ask prompt next => contradiction
  | cons first rest ih =>
    cases dialogue with
    | done last =>
      rw [Dialogue.play] at hplay
      obtain rfl := Option.some.inj hplay
      exact h
    | ask prompt next =>
      have hrest : ∀ answer, some answer ∈ rest → meets answer :=
        fun answer hm => hscript answer (List.mem_cons_of_mem _ hm)
      cases first with
      | none => contradiction
      | some answer =>
        rw [Dialogue.play] at hplay
        cases hproblem : prompt.check.problem? tree answer with
        | none =>
          simp only [hproblem] at hplay
          exact ih (h answer (hscript answer List.mem_cons_self) hproblem) hrest hplay
        | some problem =>
          simp only [hproblem] at hplay
          exact ih h hrest hplay

end

/-! ## Answers -/

/-- There are no blanks around the answer. -/
def Tidy (answer : String) : Prop :=
  trimString answer = answer

instance (answer : String) : Decidable (Tidy answer) :=
  inferInstanceAs (Decidable (_ = _))

/-- The project that was chosen. -/
def chosenProject (workspace : Path) (templates statics data : String) : Project :=
  { workspace := workspace, templates := templates, statics := statics, data := data }

/-- What was chosen is usable, if the folder of the templates has a name. -/
def UsableChoice (tree : FileTree) : Ending → Prop
  | .chosen (.work label workspace templates statics data target) =>
    ∀ action, Action.ofLabel? label = some action → templates ≠ "" →
      Usable tree (chosenProject workspace templates statics data) action target
  | _ => True

section

variable {tree : FileTree}

theorem isFolder_of_accepted {answer : String} (h : Check.folder.problem? tree answer = none)
    (htidy : Tidy answer) : tree.isFolder (Path.ofString answer) = true := by
  rw [Check.problem?] at h
  unfold folderProblem? at h
  rw [htidy] at h
  simp only at h
  split at h
  · cases h
  · split at h
    · cases h
    · rename_i hfolder
      rw [Bool.not_eq_true, Bool.not_eq_false'] at hfolder
      exact hfolder

theorem isFile_of_accepted {answer : String} (h : Check.template.problem? tree answer = none)
    (htidy : Tidy answer) : tree.isFile (Path.ofString answer) = true := by
  rw [Check.problem?] at h
  unfold templateProblem? at h
  rw [htidy] at h
  simp only at h
  split at h
  · cases h
  · rename_i hfile
    rw [Bool.not_eq_true, Bool.not_eq_false'] at hfile
    exact hfile

/-- The current folder is a folder, and can be reached from the root. -/
structure HasCurrent (tree : FileTree) : Prop where
  standing : tree.Standing tree.current
  folder : tree.nodeAt? tree.current = some .folder

theorem HasCurrent.start (h : HasCurrent tree) (path : Path) :
    tree.Standing (tree.start path) := by
  unfold FileTree.start
  by_cases habsolute : path.isAbsolute = true
  · rw [if_pos habsolute]
    exact FileTree.standing_nil tree
  · rw [if_neg habsolute]
    exact h.standing

/-- The empty path leads to the current folder, which is no template. -/
theorem HasCurrent.ne_empty (h : HasCurrent tree) {answer : String}
    (hfile : tree.isFile (Path.ofString answer) = true) : answer ≠ "" := by
  rintro rfl
  have hfind : tree.find? (Path.ofString "") = some .folder := h.folder
  unfold FileTree.isFile at hfile
  rw [hfind] at hfile
  contradiction

theorem usableChoice_work {label : String} {workspace : Path} {templates statics data : String}
    {target : Option Path} (hworkspace : tree.isFolder workspace = true)
    (hroot : tree.isFolder (workspace.child templates) = true)
    (htarget : ∀ action, Action.ofLabel? label = some action → action.needsTemplate = true →
      ∃ template, target = some template ∧ tree.isFile template = true) :
    UsableChoice tree (.chosen (.work label workspace templates statics data target)) := by
  intro action haction hne
  refine ⟨hworkspace, ⟨workspace.child templates, ?_, hroot⟩, htarget action haction⟩
  exact @templateRoot?_of_ne (chosenProject workspace templates statics data) hne

theorem ensures_askWork (hcurrent : HasCurrent tree) (label : String) :
    (askWork tree label).Ensures tree Tidy (UsableChoice tree) := by
  unfold askWork askFolder askName
  rw [Dialogue.ensures_prompt]
  intro folder hfolder hfolderOk
  have hworkspace := FileTree.isFolder_resolve (hcurrent.start _)
    (isFolder_of_accepted hfolderOk hfolder)
  rw [Dialogue.ensures_prompt]
  intro templates htemplates _
  extract_lets workspace root
  by_cases hroot : tree.isFolder root = true
  · rw [hroot, Bool.not_true, if_neg Bool.false_ne_true, Dialogue.ensures_prompt]
    intro statics _ _
    rw [Dialogue.ensures_prompt]
    intro data _ _
    rw [htemplates]
    by_cases hneeds : (Action.ofLabel? label).any Action.needsTemplate = true
    · rw [if_pos hneeds, Dialogue.ensures_prompt]
      intro target htarget htargetOk
      have hfile := isFile_of_accepted htargetOk htarget
      rw [given?_some (hcurrent.ne_empty hfile), Dialogue.ensures_pure]
      refine usableChoice_work hworkspace hroot fun action _ _ => ?_
      exact ⟨_, rfl, FileTree.isFile_resolve (hcurrent.start _) hfile⟩
    · rw [if_neg hneeds, Dialogue.ensures_pure]
      refine usableChoice_work hworkspace hroot fun action haction hneeded => ?_
      rw [haction] at hneeds
      exact absurd hneeded hneeds
  · rw [Bool.not_eq_true] at hroot
    rw [hroot, Bool.not_false, if_pos rfl, Dialogue.ensures_pure]
    exact True.intro

theorem ensures_askRequest (hcurrent : HasCurrent tree) :
    (askRequest tree).Ensures tree Tidy (UsableChoice tree) := by
  unfold askRequest
  rw [Dialogue.ensures_prompt]
  intro label _ _
  by_cases hnew : label = Action.workspace.label
  · rw [if_pos hnew]
    unfold askNewWorkspace askFolder
    rw [Dialogue.ensures_prompt]
    intro name _ _
    rw [Dialogue.ensures_prompt]
    intro folder _ _
    exact True.intro
  · rw [if_neg hnew]
    exact ensures_askWork hcurrent label

end

/-! ## Requests of either kind -/

/-- **What reaches an action is usable**, unless the action is to make a new
    workspace: always when it was asked for with arguments, and when it was asked
    for in a dialogue, if no answer has blanks around it and the folder of the
    templates has a name. -/
theorem usable_of_asked (tree : FileTree) (hcurrent : HasCurrent tree) :
    (∀ arguments request, Request.ofArguments tree arguments = .ok request →
      request.action ≠ .workspace →
      Usable tree request.project request.action request.target) ∧
    ∀ script label workspace templates statics data target action,
      ((askRequest tree).play tree script).2 =
        some (.chosen (.work label workspace templates statics data target)) →
      Action.ofLabel? label = some action →
      (∀ answer, some answer ∈ script → Tidy answer) → templates ≠ "" →
      Usable tree (chosenProject workspace templates statics data) action target := by
  constructor
  · intro arguments request hrequest hwork
    exact usable_of_arguments hrequest hwork
  · intro script label workspace templates statics data target action hplay haction htidy hne
    exact (ensures_askRequest hcurrent).of_play htidy hplay action haction hne

/-- A workspace with one template. -/
def sampleTree : FileTree :=
  { current := ["ws"]
    nodes :=
      [(["ws"], .folder), (["ws", "templates"], .folder),
        (["ws", "templates", "a.html"], .file .empty)] }

theorem hasCurrent_sampleTree : HasCurrent sampleTree :=
  ⟨⟨by decide, rfl⟩, rfl⟩

/-- The answers that ask for the variables of a template. -/
def sampleAnswers (template : String) : List (Option String) :=
  [some "Scan variables", some "/ws", some "templates", some "static", some "data", some template]

/-- What these answers come to. -/
def sampleChoice (template : String) : Ending :=
  .chosen (.work "Scan variables" ⟨"/", ["ws"]⟩ "templates" "static" "data"
    (some ⟨"/", ["ws", "templates", template]⟩))

theorem usable_of_asked_sample :
    ((askRequest sampleTree).play sampleTree (sampleAnswers "templates/a.html")).2 =
      some (sampleChoice "a.html") ∧
    Usable sampleTree (chosenProject ⟨"/", ["ws"]⟩ "templates" "static" "data") .variables
      (some ⟨"/", ["ws", "templates", "a.html"]⟩) := by
  have hplay : ((askRequest sampleTree).play sampleTree (sampleAnswers "templates/a.html")).2 =
      some (sampleChoice "a.html") := by
    decide +kernel
  have htidy : ∀ entry ∈ sampleAnswers "templates/a.html", ∀ answer ∈ entry, Tidy answer := by
    decide +kernel
  exact ⟨hplay, (usable_of_asked sampleTree hasCurrent_sampleTree).2 _ _ _ _ _ _ _ _ hplay rfl
    (fun answer hm => htidy _ hm answer rfl) (by decide)⟩

/-- A blank behind the template is accepted, and then looked for in the name of
    the file. -/
theorem not_usable_padded :
    ((askRequest sampleTree).play sampleTree (sampleAnswers "templates/a.html ")).2 =
      some (sampleChoice "a.html ") ∧
    ¬Usable sampleTree (chosenProject ⟨"/", ["ws"]⟩ "templates" "static" "data") .variables
      (some ⟨"/", ["ws", "templates", "a.html "]⟩) := by
  constructor
  · decide +kernel
  · intro husable
    obtain ⟨template, htemplate, hfile⟩ := husable.target rfl
    obtain rfl := Option.some.inj htemplate
    cases hfile

end TemplateAnalysis.CommandLine
