import Mathlib.Data.List.Nodup
import TemplateAnalysis.Fragment.Catalog
import TemplateAnalysis.Proofs.Documents

/-! # What a catalog lists

    A catalog is filled file by file. What holds of it then is **`Covers`**: every
    entry is what one of the files declares, under the name of the file, and every
    name of a file that declares something is there, once. One more file keeps this
    (**`Covers.skip`**, **`Covers.put`**), and so it holds for the whole folder
    (**`fills_catalogIn`**), unless some text cannot be read as markup. A catalog
    that covers the files has an entry for each if they have names of their own
    (**`Covers.hasOne_iff`**).

    Building a catalog is a look at the files (**`inspects_buildCatalog`**).
-/

namespace TemplateAnalysis.Fragment

open Files

variable {tree : FileTree} {folder file : Path} {extension name : String} {catalog : Catalog}
  {found other : FileDeclarations}

/-! ## What files declare -/

/-- The text of the file declares these fragments, and there are some. -/
structure Declared (tree : FileTree) (found : FileDeclarations) : Prop where
  read : ∃ text, textOf tree found.file = .ok text ∧
    declarations text.toList = .ok found.declarations
  ne_nil : found.declarations ≠ []

/-- The text of the file can be read as markup, if it has one. -/
def Readable (tree : FileTree) (file : Path) : Prop :=
  ∀ text, textOf tree file = .ok text → ∃ found, declarations text.toList = .ok found

/-- What is declared is told by the text. -/
theorem Declared.declarations_eq (h : Declared tree found) {text : String}
    (htext : textOf tree found.file = .ok text) :
    declarations text.toList = .ok found.declarations := by
  obtain ⟨text', htext', hfound⟩ := h.read
  obtain rfl := Except.ok.inj (htext.symm.trans htext')
  exact hfound

/-- A file declares its fragments alone. -/
theorem Declared.eq_of_file (h : Declared tree found) (h' : Declared tree other)
    (hfile : found.file = other.file) : found = other := by
  obtain ⟨text, htext, hother⟩ := h'.read
  have hfound := h.declarations_eq (hfile ▸ htext)
  cases found
  cases other
  obtain rfl : _ = _ := hfile
  obtain rfl := Except.ok.inj (hfound.symm.trans hother)
  rfl

theorem not_declared_of_error {error : ReadError} (h : textOf tree found.file = .error error) :
    ¬ Declared tree found := by
  intro hdeclared
  obtain ⟨text, htext, -⟩ := hdeclared.read
  rw [h] at htext
  contradiction

theorem readable_of_error {error : ReadError} (h : textOf tree file = .error error) :
    Readable tree file := by
  intro text htext
  rw [h] at htext
  contradiction

theorem readable_of_read {text : String} {result : List Declaration}
    (h : textOf tree file = .ok text) (hresult : declarations text.toList = .ok result) :
    Readable tree file := by
  intro text' htext'
  obtain rfl := Except.ok.inj (htext'.symm.trans h)
  exact ⟨result, hresult⟩

/-! ## Entries -/

theorem mem_put {entry : String × FileDeclarations} (h : entry ∈ catalog.put name found) :
    entry = (name, found) ∨ entry ∈ catalog := by
  induction catalog with
  | nil => exact .inl (List.mem_singleton.1 h)
  | cons first rest ih =>
    unfold Catalog.put at h
    by_cases hname : first.1 = name
    · rw [if_pos hname] at h
      rcases List.mem_cons.1 h with heq | hrest
      · exact .inl heq
      · exact .inr (List.mem_cons_of_mem first hrest)
    · rw [if_neg hname] at h
      rcases List.mem_cons.1 h with rfl | hrest
      · exact .inr List.mem_cons_self
      · rcases ih hrest with heq | hmem
        · exact .inl heq
        · exact .inr (List.mem_cons_of_mem first hmem)

theorem mem_names_put {key : String} : key ∈ (catalog.put name found).map Prod.fst ↔
    key = name ∨ key ∈ catalog.map Prod.fst := by
  induction catalog with
  | nil => simp [Catalog.put]
  | cons first rest ih =>
    unfold Catalog.put
    by_cases hname : first.1 = name
    · rw [if_pos hname]
      simp [hname]
    · rw [if_neg hname, List.map_cons, List.mem_cons, ih, List.map_cons, List.mem_cons]
      exact or_left_comm

theorem nodup_names_put (h : (catalog.map Prod.fst).Nodup) :
    ((catalog.put name found).map Prod.fst).Nodup := by
  induction catalog with
  | nil => simp [Catalog.put]
  | cons first rest ih =>
    rw [List.map_cons, List.nodup_cons] at h
    unfold Catalog.put
    by_cases hname : first.1 = name
    · rw [if_pos hname, List.map_cons, List.nodup_cons]
      exact hname ▸ h
    · rw [if_neg hname, List.map_cons, List.nodup_cons, mem_names_put, not_or]
      exact ⟨⟨hname, h.1⟩, ih h.2⟩

/-! ## Filling a catalog -/

/-- The catalog lists what the files declare, under their names. -/
structure Covers (tree : FileTree) (folder : Path) (extension : String) (files : List Path)
    (catalog : Catalog) : Prop where
  nodup : (catalog.map Prod.fst).Nodup
  sound : ∀ entry ∈ catalog, entry.2.file ∈ files ∧ Declared tree entry.2 ∧
    templateName entry.2.file folder extension = .ok entry.1
  complete : ∀ found, found.file ∈ files → Declared tree found →
    ∃ name, templateName found.file folder extension = .ok name ∧ name ∈ catalog.map Prod.fst
  readable : ∀ file ∈ files, Readable tree file

variable {files : List Path}

theorem covers_nil : Covers tree folder extension [] [] := by
  refine ⟨List.nodup_nil, ?_, ?_, ?_⟩
  · exact List.forall_mem_nil _
  · intro found hfile
    contradiction
  · exact List.forall_mem_nil _

/-- A file that declares nothing changes nothing. -/
theorem Covers.skip (h : Covers tree folder extension files catalog) (hread : Readable tree file)
    (hnone : ∀ found, found.file = file → ¬ Declared tree found) :
    Covers tree folder extension (files ++ [file]) catalog := by
  refine ⟨h.nodup, ?_, ?_, ?_⟩
  · intro entry hentry
    obtain ⟨hfile, hrest⟩ := h.sound entry hentry
    exact ⟨List.mem_append_left _ hfile, hrest⟩
  · intro found hfile hdeclared
    rcases List.mem_append.1 hfile with hbefore | hlast
    · exact h.complete found hbefore hdeclared
    · exact absurd hdeclared (hnone found (List.mem_singleton.1 hlast))
  · intro other hother
    rcases List.mem_append.1 hother with hbefore | hlast
    · exact h.readable other hbefore
    · exact List.mem_singleton.1 hlast ▸ hread

/-- What a file declares comes in under its name. -/
theorem Covers.put (h : Covers tree folder extension files catalog) (hfound : Declared tree found)
    (hname : templateName found.file folder extension = .ok name) :
    Covers tree folder extension (files ++ [found.file]) (catalog.put name found) := by
  refine ⟨nodup_names_put h.nodup, ?_, ?_, ?_⟩
  · intro entry hentry
    rcases mem_put hentry with rfl | hbefore
    · exact ⟨List.mem_append_right _ List.mem_cons_self, hfound, hname⟩
    · obtain ⟨hfile, hrest⟩ := h.sound entry hbefore
      exact ⟨List.mem_append_left _ hfile, hrest⟩
  · -- What stood under the name may go, but the name stays.
    intro other hother hdeclared
    rcases List.mem_append.1 hother with hbefore | hlast
    · obtain ⟨key, hkey, hmem⟩ := h.complete other hbefore hdeclared
      exact ⟨key, hkey, mem_names_put.2 (.inr hmem)⟩
    · rw [List.mem_singleton.1 hlast]
      exact ⟨name, hname, mem_names_put.2 (.inl rfl)⟩
  · intro other hother
    rcases List.mem_append.1 hother with hbefore | hlast
    · exact h.readable other hbefore
    · obtain ⟨text, htext, hread⟩ := hfound.read
      exact List.mem_singleton.1 hlast ▸ readable_of_read htext hread

/-- The catalog with the fragments of more files. -/
def catalogIn (tree : FileTree) (folder : Path) (extension : String) (catalog : Catalog) :
    List Path → Except Failure Catalog
  | [] => .ok catalog
  | file :: rest => (textIn tree file).bind fun
    | none => catalogIn tree folder extension catalog rest
    | some text =>
      match declarations text.toList with
      | .error error => .error (.markup error)
      | .ok [] => catalogIn tree folder extension catalog rest
      | .ok found =>
        match templateName file folder extension with
        | .error failure => .error failure
        | .ok name => catalogIn tree folder extension (catalog.put name ⟨file, found⟩) rest

/-- The catalog with the fragments of one more file. -/
def addIn (tree : FileTree) (folder : Path) (extension : String) (catalog : Catalog)
    (file : Path) : Except Failure Catalog :=
  (textIn tree file).bind fun
    | none => .ok catalog
    | some text =>
      match declarations text.toList with
      | .error error => .error (.markup error)
      | .ok [] => .ok catalog
      | .ok found =>
        (templateName file folder extension).map fun name => catalog.put name ⟨file, found⟩

theorem catalogIn_cons (catalog : Catalog) (file : Path) (rest : List Path) :
    catalogIn tree folder extension catalog (file :: rest) =
      (addIn tree folder extension catalog file).bind
        (catalogIn tree folder extension · rest) := by
  unfold addIn
  rw [catalogIn]
  cases textIn tree file with
  | error failure => rfl
  | ok text? =>
    cases text? with
    | none => rfl
    | some text =>
      dsimp only [Except.bind]
      cases declarations text.toList with
      | error error => rfl
      | ok found =>
        cases found with
        | nil => rfl
        | cons first more => cases templateName file folder extension <;> rfl

/-- Filling ends in a catalog that covers the files, or at a text that is no
    markup. -/
def Fills (tree : FileTree) (folder : Path) (extension : String) (files : List Path) :
    Except Failure Catalog → Prop
  | .ok catalog => Covers tree folder extension files catalog
  | .error _ => ∃ file ∈ files, ¬ Readable tree file

/-- One more file is listed, unless its text is no markup. -/
theorem fills_addIn (htext : textIn tree file = .ok (textOf tree file).toOption)
    (hname : templateName file folder extension = .ok name)
    (h : Covers tree folder extension files catalog) :
    Fills tree folder extension (files ++ [file]) (addIn tree folder extension catalog file) := by
  unfold addIn
  rw [htext]
  cases hread : textOf tree file with
  | error error =>
    apply h.skip (readable_of_error hread)
    rintro found rfl
    exact not_declared_of_error hread
  | ok text =>
    dsimp only [Except.toOption, Except.bind]
    cases hresult : declarations text.toList with
    | error error =>
      refine ⟨file, List.mem_append_right _ List.mem_cons_self, ?_⟩
      intro hreadable
      obtain ⟨found, hfound⟩ := hreadable text hread
      rw [hresult] at hfound
      contradiction
    | ok result =>
      cases result with
      | nil =>
        apply h.skip (readable_of_read hread hresult)
        rintro found rfl hdeclared
        have hnil := hresult.symm.trans (hdeclared.declarations_eq hread)
        exact hdeclared.ne_nil (Except.ok.inj hnil).symm
      | cons first more =>
        dsimp only
        rw [hname]
        have declared : Declared tree ⟨file, first :: more⟩ :=
          ⟨⟨text, hread, hresult⟩, List.cons_ne_nil _ _⟩
        exact h.put declared hname

/-- **A catalog lists all that the files declare**, unless the text of some file is
    no markup. -/
theorem fills_catalogIn {rest : List Path}
    (htexts : ∀ file ∈ rest, textIn tree file = .ok (textOf tree file).toOption)
    (hnames : ∀ file ∈ rest, ∃ name, templateName file folder extension = .ok name)
    (h : Covers tree folder extension files catalog) :
    Fills tree folder extension (files ++ rest) (catalogIn tree folder extension catalog rest) := by
  induction rest generalizing files catalog with
  | nil =>
    rw [catalogIn, List.append_nil]
    exact h
  | cons file rest ih =>
    obtain ⟨htext, htexts⟩ := List.forall_mem_cons.1 htexts
    obtain ⟨⟨name, hname⟩, hnames⟩ := List.forall_mem_cons.1 hnames
    have hadd := fills_addIn htext hname h
    rw [catalogIn_cons, List.append_cons]
    cases hone : addIn tree folder extension catalog file with
    | error failure =>
      -- The text that stops the filling stands among all the files.
      rw [hone] at hadd
      obtain ⟨stop, hstop, hnot⟩ := hadd
      exact ⟨stop, List.mem_append_left rest hstop, hnot⟩
    | ok next =>
      rw [hone] at hadd
      exact ih htexts hnames hadd

/-! ## One entry for each file -/

/-- The catalog has one entry for a file, with what the file declares. -/
def HasOne (catalog : Catalog) (found : FileDeclarations) : Prop :=
  ∃ name, (name, found) ∈ catalog ∧
    ∀ entry ∈ catalog, entry.2.file = found.file → entry = (name, found)

/-- No two of the files that declare something have one name. -/
def NamesDiffer (tree : FileTree) (folder : Path) (extension : String) (files : List Path) : Prop :=
  ∀ found other, found.file ∈ files → other.file ∈ files → Declared tree found →
    Declared tree other →
      templateName found.file folder extension = templateName other.file folder extension →
        found.file = other.file

/-- **Every file has its own entry** if and only if no two have one name. -/
theorem Covers.hasOne_iff (h : Covers tree folder extension files catalog) :
    (∀ found, found.file ∈ files → Declared tree found → HasOne catalog found) ↔
      NamesDiffer tree folder extension files := by
  constructor
  · intro hone found other hfile hfile' hfound hother hsame
    obtain ⟨name, hentry, -⟩ := hone found hfile hfound
    obtain ⟨name', hentry', -⟩ := hone other hfile' hother
    obtain ⟨-, -, hname⟩ := h.sound _ hentry
    obtain ⟨-, -, hname'⟩ := h.sound _ hentry'
    have hkey : name = name' := Except.ok.inj (hname.symm.trans (hsame.trans hname'))
    have hentries := List.inj_on_of_nodup_map h.nodup hentry hentry' hkey
    exact congrArg (fun entry => entry.2.file) hentries
  · intro hdiffer found hfile hfound
    obtain ⟨name, hname, hkey⟩ := h.complete found hfile hfound
    obtain ⟨⟨key, other⟩, hentry, rfl⟩ := List.mem_map.1 hkey
    obtain ⟨hfile', hother, hname'⟩ := h.sound _ hentry
    -- What stands under the name comes from the very file.
    have hsame := hdiffer found other hfile hfile' hfound hother (hname.trans hname'.symm)
    obtain rfl := hfound.eq_of_file hother hsame
    refine ⟨key, hentry, ?_⟩
    intro entry hmem hfrom
    obtain ⟨-, hdeclared, hname''⟩ := h.sound entry hmem
    have hdeclarations := hdeclared.eq_of_file hfound hfrom
    rw [hfrom] at hname''
    exact Prod.ext (Except.ok.inj (hname''.symm.trans hname)) hdeclarations

/-! ## Looking at the files -/

theorem inspects_addFiles (folder : Path) (extension : String) (catalog : Catalog)
    (files : List Path) : Inspects (addFiles folder extension catalog files)
      fun tree => catalogIn tree folder extension catalog files := by
  induction files generalizing catalog with
  | nil => exact inspects_pure catalog
  | cons file rest ih =>
    apply (inspects_readText file).bind
    intro text?
    cases text? with
    | none => exact ih catalog
    | some text =>
      dsimp only
      cases declarations text.toList with
      | error error => exact inspects_throw (.markup error)
      | ok found =>
        cases found with
        | nil => exact ih catalog
        | cons first more =>
          dsimp only
          cases templateName file folder extension with
          | error failure => exact inspects_throw failure
          | ok name => exact ih (catalog.put name ⟨file, first :: more⟩)

/-- **Building a catalog is a look at the files.** -/
theorem inspects_buildCatalog (folder : Path) (extension : String) :
    Inspects (buildCatalog folder extension) fun tree =>
      catalogIn tree folder extension [] (filesWithExtension tree folder extension) := by
  intro session
  have hbuild := inspects_addFiles folder extension []
    (filesWithExtension session.files folder extension) session
  exact hbuild

end TemplateAnalysis.Fragment
