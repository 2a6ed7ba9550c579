import TemplateAnalysis.Proofs.Fragment.Catalog
import TemplateAnalysis.Proofs.Resolver.Caching
import TemplateAnalysis.Proofs.Resolver.Templates

/-! # The names of a catalog

    A catalog calls a template by its path without the suffix, however the suffix is
    spelled. To find the template, the resolver brings the name into normal form and
    adds the suffix as the project has it. Both agree on the names that
    **`LeadsBack`** describes (**`fragmentIn_name_iff`**). So of the files with one
    name but for the spelling of the suffix, the catalog lists one, and the resolver
    finds the one that is spelled like the project (**`buildCatalog_agrees`**).
-/

namespace TemplateAnalysis.Resolver

open Files Text Fragment

variable {project : Project} {folder file : Path} {tree : FileTree} {name : String}

/-! ## Names that lead back -/

/-- The name of a template leads back to its file: with the suffix it is the path of
    the file, it is in normal form, and it does not end in the suffix itself. -/
structure LeadsBack (folder : Path) (name : String) (file : Path) : Prop where
  path : (file.relativeTo? folder).map Path.text = some (name ++ ".html")
  normal : normalPath (Reference.withSlashes name.toList) = name.toList
  once : ¬ ".html".toList <:+ lower name.toList

theorem leadsBack_iff {parts : List String} {name suffix : List Char}
    (h : Called folder file parts name suffix) :
    LeadsBack folder (String.ofList name) file ↔
      suffix = ".html".toList ∧ normalPath (Reference.withSlashes name) = name ∧
        ¬ ".html".toList <:+ lower name := by
  have hpath : (file.relativeTo? folder).map Path.text = some (String.ofList (name ++ suffix)) := by
    rw [h.below, relativeTo?_append, Option.map_some, ← h.spelled, ← text_nameOf h.ne_nil h.names,
      String.ofList_toList]
  constructor
  · rintro ⟨hback, hnormal, honce⟩
    rw [@String.toList_ofList name] at hnormal honce
    have hsame := congrArg String.toList (Option.some.inj (hpath.symm.trans hback))
    rw [String.toList_ofList, String.toList_append, String.toList_ofList] at hsame
    exact ⟨List.append_cancel_left hsame, hnormal, honce⟩
  · rintro ⟨rfl, hnormal, honce⟩
    refine ⟨?_, ?_, ?_⟩
    · rw [hpath, String.ofList_append, String.ofList_toList]
    · rw [@String.toList_ofList name, hnormal]
    · rw [@String.toList_ofList name]
      exact honce

/-- **A template is found by its name** if and only if the name leads back to it. -/
theorem fragmentIn_name_iff (hroot : project.templateRoot? = some folder)
    (hext : project.extension = ".html") (htree : tree.WellFormed)
    (hlisted : file ∈ filesWithExtension tree folder ".html")
    (hname : templateName file folder ".html" = .ok name) :
    (∃ place, fragmentIn project name.toList none tree = .ok (some ⟨file, place⟩)) ↔
      LeadsBack folder name file := by
  obtain ⟨parts, stem, suffix, hcalled⟩ := exists_called htree hlisted
  obtain rfl : name = String.ofList stem := Except.ok.inj (hname.symm.trans hcalled.template)
  have relative : (stem ++ suffix).head? ≠ some '/' := hcalled.spelled ▸ head?_nameOf hcalled.names
  have back : templateFileName project stem = stem ++ suffix ↔
      LeadsBack folder (String.ofList stem) file := by
    rw [leadsBack_iff hcalled, templateFileName_eq_iff relative, hext]
    · rw [hext]
      exact hcalled.length
    · rw [hcalled.length]
      decide
  rw [String.toList_ofList, fragmentIn_of_ne_nil hroot hcalled.name_ne_nil, ← back]
  constructor
  · rintro ⟨place, hfound⟩
    by_cases hmem : templateFileName project stem ∈ templatesIn project tree
    · obtain ⟨others, hne, hothers, hspelled, -⟩ := exists_of_mem_templatesIn hroot htree hmem
      rw [templateIn_of_listed hmem, ← hspelled, child_nameOf folder hne hothers,
        hcalled.below] at hfound
      -- The names that were found are those of the file.
      have hsame : folder.parts ++ others = folder.parts ++ parts :=
        congrArg (fun location => location.file.parts) (Option.some.inj (Except.ok.inj hfound))
      rw [← hspelled, List.append_cancel_left hsame, hcalled.spelled]
    · rw [templateIn_of_not_listed hmem] at hfound
      exact absurd (Except.ok.inj hfound).symm (Option.some_ne_none _)
  · -- Then the file is listed under the name that is looked for.
    intro hspelled
    have hchild : folder.child (String.ofList (nameOf parts)) = file := by
      rw [child_nameOf folder hcalled.ne_nil hcalled.names, hcalled.below]
    have hmem : nameOf parts ∈ templatesIn project tree := by
      rw [mem_templatesIn_iff hroot htree hcalled.ne_nil hcalled.names, hchild, hext]
      exact hlisted
    rw [hspelled, ← hcalled.spelled, templateIn_of_listed hmem, hchild]
    exact ⟨⟨0, 0⟩, rfl⟩

/-! ## The catalog of the templates -/

/-- **The catalog and the resolver agree** as far as names lead back. If the texts of
    all templates can be read, the catalog covers them, with an entry for each one
    that declares something if and only if no two of them have one name; and the
    resolver finds the file of an entry by its name if and only if the name leads
    back to the file. -/
theorem buildCatalog_agrees (hroot : project.templateRoot? = some folder)
    (hext : project.extension = ".html") {session : Session} (hfiles : session.files.WellFormed)
    (now : Seconds) :
    match buildCatalog folder ".html" session with
    | .error _ _ =>
      ∃ file ∈ filesWithExtension session.files folder ".html", ¬ Readable session.files file
    | .ok catalog after =>
      Covers session.files folder ".html" (filesWithExtension session.files folder ".html")
        catalog ∧
      ((∀ found, found.file ∈ filesWithExtension session.files folder ".html" →
          Declared session.files found → HasOne catalog found) ↔
        NamesDiffer session.files folder ".html"
          (filesWithExtension session.files folder ".html")) ∧
      ∀ entry ∈ catalog,
        (∃ place, ((Scene.new project now after).ask project (.fragment entry.1.toList none)).1 =
          .ok (.location (some ⟨entry.2.file, place⟩))) ↔
        LeadsBack folder entry.1 entry.2.file := by
  -- Nothing but the markup of a listed file can stop the catalog.
  have htexts : ∀ file ∈ filesWithExtension session.files folder ".html",
      textIn session.files file = .ok (textOf session.files file).toOption := by
    intro file hfile
    exact textIn_of_listed hfiles hfile
  have hnames : ∀ file ∈ filesWithExtension session.files folder ".html",
      ∃ name, templateName file folder ".html" = .ok name := by
    intro file hfile
    obtain ⟨parts, name, suffix, hcalled⟩ := exists_called hfiles hfile
    exact ⟨String.ofList name, hcalled.template⟩
  have hcatalog := fills_catalogIn htexts hnames covers_nil
  obtain ⟨after, hafter, hbuild⟩ := inspects_buildCatalog folder ".html" session
  rw [hbuild]
  dsimp only
  cases hresult : catalogIn session.files folder ".html" []
      (filesWithExtension session.files folder ".html") with
  | error failure =>
    rw [hresult] at hcatalog
    exact hcatalog
  | ok catalog =>
    rw [hresult] at hcatalog
    have hcovers : Covers session.files folder ".html"
        (filesWithExtension session.files folder ".html") catalog := hcatalog
    refine ⟨hcovers, hcovers.hasOne_iff, ?_⟩
    intro entry hentry
    obtain ⟨hlisted, -, hname⟩ := hcovers.sound entry hentry
    rw [← fragmentIn_name_iff hroot hext hfiles hlisted hname]
    apply exists_congr
    intro place
    rw [ask_new, hafter, Question.answerIn]
    cases fragmentIn project entry.1.toList none session.files with
    | error failure => simp [Except.bind]
    | ok found => simp [Except.bind]

/-- A template with its suffix in capital letters. -/
def indexTree : FileTree :=
  ⟨[], [(["ws"], .folder), (["ws", "templates"], .folder),
    (["ws", "templates", "INDEX.HTML"], .file "<div th:fragment=\"card\"></div>\n".toUTF8)]⟩

theorem wellFormed_indexTree : indexTree.WellFormed := by
  decide

/-- It is in the catalog, but its name there does not find it. -/
theorem buildCatalog_agrees_index : ∃ catalog after,
    buildCatalog ⟨"/", ["ws", "templates"]⟩ ".html" ⟨indexTree, "", ""⟩ = .ok catalog after ∧
      catalog.map Prod.fst = ["INDEX"] ∧
      ∀ entry ∈ catalog,
        ¬ ∃ place, ((Scene.new fiveSeconds 0 after).ask fiveSeconds
          (.fragment entry.1.toList none)).1 =
            .ok (.location (some ⟨entry.2.file, place⟩)) := by
  have root : fiveSeconds.templateRoot? = some ⟨"/", ["ws", "templates"]⟩ := by decide
  have listed : filesWithExtension indexTree ⟨"/", ["ws", "templates"]⟩ ".html" =
      [⟨"/", ["ws", "templates", "INDEX.HTML"]⟩] := by
    decide +kernel
  have names : (match buildCatalog ⟨"/", ["ws", "templates"]⟩ ".html" ⟨indexTree, "", ""⟩ with
      | .ok catalog _ => catalog.map Prod.fst
      | .error _ _ => []) = ["INDEX"] := by
    decide +kernel
  have agrees := buildCatalog_agrees root rfl
    (show (⟨indexTree, "", ""⟩ : Session).files.WellFormed from wellFormed_indexTree) 0
  cases hbuild : buildCatalog ⟨"/", ["ws", "templates"]⟩ ".html" ⟨indexTree, "", ""⟩ with
  | error failure after =>
    rw [hbuild] at names
    contradiction
  | ok catalog after =>
    rw [hbuild] at agrees names
    have keys : catalog.map Prod.fst = ["INDEX"] := names
    obtain ⟨hcovers, -, hback⟩ := agrees
    refine ⟨catalog, after, rfl, keys, ?_⟩
    intro entry hentry hfound
    have hpath := ((hback entry hentry).1 hfound).path
    have hlisted : entry.2.file ∈
        filesWithExtension indexTree ⟨"/", ["ws", "templates"]⟩ ".html" :=
      (hcovers.sound entry hentry).1
    have hkey : entry.1 ∈ catalog.map Prod.fst := List.mem_map_of_mem hentry
    rw [listed, List.mem_singleton] at hlisted
    rw [keys, List.mem_singleton] at hkey
    -- The path would have to be `INDEX.html`.
    rw [hlisted, hkey] at hpath
    revert hpath
    decide

end TemplateAnalysis.Resolver
