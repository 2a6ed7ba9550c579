import TemplateAnalysis.Proofs.Files.Listing
import TemplateAnalysis.Proofs.Files.NormalPath
import TemplateAnalysis.Proofs.Resolver.Answers

/-! # Templates by name

    A template is named by its path from the folder of the templates, most often
    without the suffix. The name is brought into normal form, the suffix is added,
    and what comes out has to be listed:

    * **`mem_templatesIn_iff`**: what is listed are the names of the files with the
      suffix;
    * **`templateFileName_eq_iff`**: when a name without its suffix leads back to
      the name.
-/

namespace TemplateAnalysis.Resolver

open Files Text

variable {project : Project} {folder : Path} {tree : FileTree}

/-! ## Listed names -/

theorem templatesIn_of_root (hroot : project.templateRoot? = some folder) :
    templatesIn project tree = listingIn project tree (.templates folder) := by
  unfold templatesIn
  rw [hroot]

/-- What is listed is the name of a file. -/
theorem exists_of_mem_templatesIn (hroot : project.templateRoot? = some folder)
    (htree : tree.WellFormed) {name : List Char} (h : name ∈ templatesIn project tree) :
    ∃ parts : List String, parts ≠ [] ∧ (∀ part ∈ parts, FileName part) ∧ nameOf parts = name ∧
      (⟨folder.root, folder.parts ++ parts⟩ : Path) ∈
        filesWithExtension tree folder project.extension := by
  rw [templatesIn_of_root hroot, listingIn] at h
  obtain ⟨path, hpath, rfl⟩ := List.mem_map.1 h
  obtain ⟨parts, hparts, rfl⟩ := exists_of_mem_filesWithExtension hpath
  obtain ⟨hne, hnames⟩ := htree.names_of_mem_filesBelow hparts
  refine ⟨parts, hne, hnames, ?_, hpath⟩
  rw [relativeTo?_append, Option.map_some, Option.getD_some, text_nameOf hne hnames]

/-- **A template is listed under its name.** -/
theorem mem_templatesIn_iff (hroot : project.templateRoot? = some folder)
    (htree : tree.WellFormed) {parts : List String} (hne : parts ≠ [])
    (hnames : ∀ part ∈ parts, FileName part) :
    nameOf parts ∈ templatesIn project tree ↔
      folder.child (String.ofList (nameOf parts)) ∈
        filesWithExtension tree folder project.extension := by
  rw [child_nameOf folder hne hnames]
  constructor
  · intro h
    obtain ⟨others, hothersNe, hothers, hname, hlisted⟩ := exists_of_mem_templatesIn hroot htree h
    -- Two lists of names with the same text are the same.
    have hsame : others = parts := by
      rw [← partsOf_nameOf hothersNe hothers, hname, partsOf_nameOf hne hnames]
    exact hsame ▸ hlisted
  · intro hpath
    rw [templatesIn_of_root hroot, listingIn]
    refine List.mem_map.2 ⟨_, hpath, ?_⟩
    rw [relativeTo?_append, Option.map_some, Option.getD_some, text_nameOf hne hnames]

/-! ## Names of files -/

theorem templateFileName_of_normal {template : List Char}
    (hnormal : normalPath (Reference.withSlashes template) = template)
    (hplain : ¬ project.extension.toList <:+ lower template) :
    templateFileName project template = template ++ project.extension.toList := by
  unfold templateFileName
  dsimp only
  rw [hnormal, if_neg (mt List.isSuffixOf_iff_suffix.1 hplain)]

/-- **A name leads back to its file** if and only if it has the very suffix, is in
    normal form without it, and does not have it twice. -/
theorem templateFileName_eq_iff {name suffix : List Char}
    (hrelative : (name ++ suffix).head? ≠ some '/')
    (hlength : suffix.length = project.extension.toList.length) (hlong : 1 < suffix.length) :
    templateFileName project name = name ++ suffix ↔
      suffix = project.extension.toList ∧ normalPath (Reference.withSlashes name) = name ∧
        ¬ project.extension.toList <:+ lower name := by
  constructor
  · intro h
    unfold templateFileName at h
    dsimp only at h
    by_cases hsuffix : project.extension.toList.isSuffixOf
        (lower (normalPath (Reference.withSlashes name))) = true
    · -- A name in normal form has not become longer by the suffix.
      rw [if_pos hsuffix] at h
      have relative : (Reference.withSlashes name).head? ≠ some '/' := by
        intro hhead
        apply hrelative
        rw [← h]
        exact head?_normalPath hhead
      have := length_normalPath_le relative
      rw [h, List.length_append, Reference.withSlashes, List.length_map] at this
      omega
    · rw [if_neg hsuffix] at h
      obtain ⟨hname, hsame⟩ := List.append_inj' h hlength.symm
      exact ⟨hsame.symm, hname, hname ▸ mt List.isSuffixOf_iff_suffix.2 hsuffix⟩
  · rintro ⟨rfl, hnormal, hplain⟩
    exact templateFileName_of_normal hnormal hplain

/-! ## Finding a template -/

/-- A template with a name is looked for under its file name. -/
theorem fragmentIn_of_ne_nil (hroot : project.templateRoot? = some folder) {template : List Char}
    (hne : template ≠ []) (fragment : Option (List Char)) :
    fragmentIn project template fragment tree =
      templateIn project folder (templateFileName project template)
        (fragment.filter (!·.isEmpty)) tree := by
  unfold fragmentIn
  rw [hroot]
  dsimp only
  rw [if_neg (by simpa using hne)]

theorem templateIn_of_listed {name : List Char} (h : name ∈ templatesIn project tree)
    (fragment : Option (List Char)) :
    templateIn project folder name fragment tree =
      lineIn (folder.child (String.ofList name)) fragment tree := by
  unfold templateIn
  rw [if_pos (List.contains_iff_mem.2 h)]

theorem templateIn_of_not_listed {name : List Char} (h : name ∉ templatesIn project tree)
    (fragment : Option (List Char)) :
    templateIn project folder name fragment tree = .ok none := by
  unfold templateIn
  rw [if_neg (mt List.contains_iff_mem.1 h)]

/-- The text of a listed file is read without failing. -/
theorem textIn_of_listed (htree : tree.WellFormed) {file : Path} {extension : String}
    (h : file ∈ filesWithExtension tree folder extension) :
    textIn tree file = .ok (textOf tree file).toOption := by
  obtain ⟨parts, hparts, rfl⟩ := exists_of_mem_filesWithExtension h
  unfold textIn
  rw [hasNull_of_mem_filesBelow htree hparts, if_neg Bool.false_ne_true]

end TemplateAnalysis.Resolver
