import Mathlib.Data.List.Nodup
import TemplateAnalysis.Documents
import TemplateAnalysis.Proofs.Files.Tree
import TemplateAnalysis.Proofs.Text.LowerCase
import TemplateAnalysis.Proofs.Text.Search

/-! # Names of listed files

    The files below a folder are listed by the names that lead to them, and asked
    for by one text. In a tree whose names are names of files (**`WellFormed`**),
    the two say the same: a listed file is found again under its name
    (**`child_nameOf`**), and no path to one holds the NUL character
    (**`hasNull_of_mem_filesBelow`**).
-/

namespace TemplateAnalysis.Files

open Text

/-! ## Names -/

/-- What a file or folder can be called. -/
structure FileName (name : String) : Prop where
  ne_empty : name ≠ ""
  no_slash : '/' ∉ name.toList
  no_null : '\x00' ∉ name.toList
  ne_dot : name ≠ "."
  ne_dots : name ≠ ".."

instance (name : String) : Decidable (FileName name) :=
  decidable_of_iff (name ≠ "" ∧ '/' ∉ name.toList ∧ '\x00' ∉ name.toList ∧ name ≠ "." ∧ name ≠ "..")
    ⟨fun ⟨h, h', h'', hdot, hdots⟩ => ⟨h, h', h'', hdot, hdots⟩,
      fun ⟨h, h', h'', hdot, hdots⟩ => ⟨h, h', h'', hdot, hdots⟩⟩

/-- Names with slashes between them. -/
def nameOf (parts : List String) : List Char :=
  joinWith ['/'] (parts.map String.toList)

section Names

variable {parts : List String}

theorem partsOf_nameOf (hne : parts ≠ []) (h : ∀ part ∈ parts, FileName part) :
    Path.partsOf (nameOf parts) = parts := by
  have hslash : ∀ part ∈ parts.map String.toList, '/' ∉ part := by
    intro part hpart
    obtain ⟨name, hname, rfl⟩ := List.mem_map.1 hpart
    exact (h name hname).no_slash
  unfold Path.partsOf nameOf
  rw [splitOn_joinWith (by simpa using hne) hslash, List.filter_eq_self.2]
  · rw [List.map_map]
    exact (List.map_congr_left fun name _ => String.ofList_toList).trans (List.map_id _)
  · intro part hpart
    obtain ⟨name, hname, rfl⟩ := List.mem_map.1 hpart
    have hempty : name.toList ≠ [] := fun heq =>
      (h name hname).ne_empty (String.toList_inj.1 (heq.trans String.toList_empty.symm))
    have hdot : name.toList ≠ ['.'] := fun heq => (h name hname).ne_dot (String.toList_inj.1 heq)
    simp [hempty, hdot]

theorem nameOf_ne_nil (hne : parts ≠ []) (h : ∀ part ∈ parts, FileName part) :
    nameOf parts ≠ [] := by
  intro heq
  have hparts := partsOf_nameOf hne h
  rw [heq] at hparts
  exact hne hparts.symm

/-- A name of a file is no path from the root. -/
theorem head?_nameOf (h : ∀ part ∈ parts, FileName part) : (nameOf parts).head? ≠ some '/' := by
  cases parts with
  | nil => simp [nameOf, joinWith]
  | cons first rest =>
    have hfirst := h first List.mem_cons_self
    obtain ⟨c, cs, hc⟩ : ∃ c cs, first.toList = c :: cs := List.exists_cons_of_ne_nil fun heq =>
      hfirst.ne_empty (String.toList_inj.1 (heq.trans String.toList_empty.symm))
    have hslash : c ≠ '/' := fun heq => hfirst.no_slash (by rw [hc, heq]; exact List.mem_cons_self)
    unfold nameOf
    rw [List.map_cons, hc, joinWith_cons_head]
    simpa using hslash

/-- **A file is found again under its name.** -/
theorem ofString_nameOf (hne : parts ≠ []) (h : ∀ part ∈ parts, FileName part) :
    Path.ofString (String.ofList (nameOf parts)) = ⟨"", parts⟩ := by
  have noSlash : (nameOf parts).takeWhile (· == '/') = [] := by
    cases hcs : nameOf parts with
    | nil => rfl
    | cons c cs =>
      have hc : c ≠ '/' := by
        have := head?_nameOf h
        simpa [hcs] using this
      exact List.takeWhile_cons_of_neg (by simpa using hc)
  unfold Path.ofString
  simp only [String.toList_ofList, noSlash, partsOf_nameOf hne h]
  rfl

theorem child_nameOf (folder : Path) (hne : parts ≠ []) (h : ∀ part ∈ parts, FileName part) :
    folder.child (String.ofList (nameOf parts)) = ⟨folder.root, folder.parts ++ parts⟩ := by
  unfold Path.child
  rw [ofString_nameOf hne h]
  rfl

theorem text_nameOf (hne : parts ≠ []) (h : ∀ part ∈ parts, FileName part) :
    (Path.text ⟨"", parts⟩).toList = nameOf parts := by
  have hbare : (Path.bare ⟨"", parts⟩).toList = nameOf parts := by
    unfold Path.bare nameOf joinWith
    rw [String.empty_append, String.toList_intercalate]
    rfl
  have hfull : (Path.bare ⟨"", parts⟩).isEmpty = false := by
    rw [Bool.eq_false_iff]
    intro hempty
    rw [String.isEmpty_iff] at hempty
    rw [hempty] at hbare
    exact nameOf_ne_nil hne h hbare.symm
  unfold Path.text
  rw [hfull]
  exact hbare

theorem relativeTo?_append (folder : Path) (parts : List String) :
    Path.relativeTo? ⟨folder.root, folder.parts ++ parts⟩ folder = some ⟨"", parts⟩ := by
  unfold Path.relativeTo?
  rw [if_pos (by simp), List.drop_left]

end Names

/-! ## Trees of named files -/

namespace FileTree

/-- What is in the tree has names, and stands below the root in one place. -/
structure WellFormed (tree : FileTree) : Prop where
  names : ∀ entry ∈ tree.nodes, ∀ name ∈ entry.1, FileName name
  below_root : ∀ entry ∈ tree.nodes, entry.1 ≠ []
  nodup : (tree.nodes.map Prod.fst).Nodup

instance (tree : FileTree) : Decidable tree.WellFormed :=
  decidable_of_iff ((∀ entry ∈ tree.nodes, ∀ name ∈ entry.1, FileName name) ∧
      (∀ entry ∈ tree.nodes, entry.1 ≠ []) ∧ (tree.nodes.map Prod.fst).Nodup)
    ⟨fun ⟨names, below_root, nodup⟩ => ⟨names, below_root, nodup⟩,
      fun ⟨names, below_root, nodup⟩ => ⟨names, below_root, nodup⟩⟩

variable {tree : FileTree}

theorem mem_of_nodeAt? {place : List String} {node : Node} (hne : place ≠ [])
    (h : tree.nodeAt? place = some node) : (place, node) ∈ tree.nodes := by
  unfold nodeAt? at h
  split at h
  · contradiction
  · obtain ⟨before, after, hnodes, -⟩ := List.lookup_eq_some_iff.1 h
    rw [hnodes]
    exact List.mem_append_right _ List.mem_cons_self

/-- The way to something that is there has no NUL character on it. -/
theorem WellFormed.no_null_of_locateFrom (htree : tree.WellFormed) {place parts found : List String}
    (h : tree.locateFrom place parts = .ok found) : ∀ part ∈ parts, '\x00' ∉ part.toList := by
  induction parts generalizing place with
  | nil => exact List.forall_mem_nil _
  | cons part rest ih =>
    obtain ⟨-, next, hnext, hsome, hrest⟩ := locateFrom_cons h
    refine List.forall_mem_cons.2 ⟨?_, ih hrest⟩
    by_cases hdots : part = ".."
    · rw [hdots]
      decide
    · rw [if_neg hdots] at hnext
      obtain ⟨node, hnode⟩ := Option.isSome_iff_exists.1 hsome
      have hmem := mem_of_nodeAt? (by simp [hnext]) hnode
      exact (htree.names _ hmem part (by simp [hnext])).no_null

theorem exists_of_mem_filesBelow {folder : Path} {parts : List String}
    (h : parts ∈ tree.filesBelow folder) :
    ∃ place content, tree.locate folder = .ok place ∧ tree.nodeAt? place = some .folder ∧
      (place ++ parts, Node.file content) ∈ tree.nodes := by
  unfold filesBelow at h
  split at h
  · rename_i place hfind hlocate
    have hfolder : tree.nodeAt? place = some .folder := by
      unfold find? at hfind
      rwa [hlocate] at hfind
    rw [List.mem_mergeSort, List.mem_filterMap] at h
    obtain ⟨⟨found, node⟩, hentry, hparts⟩ := h
    cases node with
    | folder => contradiction
    | file content =>
      simp only [Option.ite_none_right_eq_some, List.isPrefixOf_iff_prefix] at hparts
      obtain ⟨⟨below, rfl⟩, hbelow⟩ := hparts
      rw [List.drop_left] at hbelow
      obtain rfl := Option.some.inj hbelow
      exact ⟨place, content, hlocate, hfolder, hentry⟩
  · contradiction

/-- What is listed below a folder is a file with a name. -/
theorem WellFormed.names_of_mem_filesBelow (htree : tree.WellFormed) {folder : Path}
    {parts : List String} (h : parts ∈ tree.filesBelow folder) :
    parts ≠ [] ∧ ∀ part ∈ parts, FileName part := by
  obtain ⟨place, content, -, hfolder, hentry⟩ := exists_of_mem_filesBelow h
  refine ⟨?_, fun part hpart => htree.names _ hentry part (List.mem_append_right _ hpart)⟩
  -- Otherwise the folder would be a file.
  rintro rfl
  rw [List.append_nil] at hentry
  have hplace := mem_of_nodeAt? (htree.below_root _ hentry) hfolder
  have := List.inj_on_of_nodup_map htree.nodup hplace hentry rfl
  simp at this

end FileTree

/-! ## Listed files -/

section Listed

variable {tree : FileTree} {folder path : Path} {extension : String}

theorem exists_of_mem_filesWithExtension (h : path ∈ filesWithExtension tree folder extension) :
    ∃ parts ∈ tree.filesBelow folder, path = ⟨folder.root, folder.parts ++ parts⟩ := by
  unfold filesWithExtension at h
  obtain ⟨parts, hparts, rfl⟩ := List.mem_map.1 (List.mem_filter.1 h).1
  exact ⟨parts, hparts, rfl⟩

theorem suffix_of_mem_filesWithExtension (hdot : extension.toList.head? = some '.')
    (h : path ∈ filesWithExtension tree folder extension) :
    lower path.suffix = lower extension.toList := by
  unfold filesWithExtension at h
  simp only [if_pos hdot, List.mem_filter, beq_iff_eq] at h
  exact h.2

/-- No path to a listed file holds the NUL character. -/
theorem hasNull_of_mem_filesBelow (htree : tree.WellFormed) {parts : List String}
    (h : parts ∈ tree.filesBelow folder) :
    Path.hasNull ⟨folder.root, folder.parts ++ parts⟩ = false := by
  obtain ⟨place, content, hlocate, -, hentry⟩ := FileTree.exists_of_mem_filesBelow h
  unfold Path.hasNull
  rw [List.any_eq_false]
  intro part hpart
  rw [List.contains_iff_mem]
  rcases List.mem_append.1 hpart with habove | hbelow
  · exact htree.no_null_of_locateFrom hlocate part habove
  · exact (htree.names _ hentry part (List.mem_append_right _ hbelow)).no_null

end Listed

/-! ## Template names -/

section TemplateNames

/-- The suffix of a name stands behind something. -/
theorem exists_append_suffixOf {name : List Char} (h : Path.suffixOf name ≠ []) :
    ∃ stem, stem ≠ [] ∧ name = stem ++ Path.suffixOf name := by
  unfold Path.suffixOf at h ⊢
  split at h
  · rename_i i hlast
    by_cases hi : (0 < i && i + 1 < name.length) = true
    · rw [if_pos hi]
      rw [Bool.and_eq_true, decide_eq_true_eq, decide_eq_true_eq] at hi
      refine ⟨name.take i, ?_, (List.take_append_drop i name).symm⟩
      apply List.ne_nil_of_length_pos
      rw [List.length_take]
      omega
    · exact absurd (if_neg hi) h
  · contradiction

/-- A listed file is called by a name with some spelling of the suffix behind it,
    and that name is the name of the template. -/
structure Called (folder path : Path) (parts : List String) (name suffix : List Char) : Prop where
  ne_nil : parts ≠ []
  names : ∀ part ∈ parts, FileName part
  below : path = ⟨folder.root, folder.parts ++ parts⟩
  spelled : nameOf parts = name ++ suffix
  name_ne_nil : name ≠ []
  length : suffix.length = 5
  template : templateName path folder ".html" = .ok (String.ofList name)

theorem exists_called {tree : FileTree} {folder path : Path} (htree : tree.WellFormed)
    (h : path ∈ filesWithExtension tree folder ".html") :
    ∃ parts name suffix, Called folder path parts name suffix := by
  have hlower : lower ".html".toList = ".html".toList := by decide +kernel
  have hsuffix := suffix_of_mem_filesWithExtension rfl h
  rw [hlower] at hsuffix
  obtain ⟨parts, hparts, rfl⟩ := exists_of_mem_filesWithExtension h
  obtain ⟨hne, hnames⟩ := htree.names_of_mem_filesBelow hparts
  obtain hnil | ⟨before, last, hlast⟩ := List.eq_nil_or_concat parts
  · exact absurd hnil hne
  rw [List.concat_eq_append] at hlast
  -- The suffix is that of the last name on the way.
  have hname : Path.suffix ⟨folder.root, folder.parts ++ parts⟩ = Path.suffixOf last.toList := by
    unfold Path.suffix Path.name
    rw [hlast, ← List.append_assoc, List.getLast?_concat]
    rfl
  rw [hname] at hsuffix
  have hfull : Path.suffixOf last.toList ≠ [] := by
    intro heq
    rw [heq] at hsuffix
    revert hsuffix
    decide
  obtain ⟨stem, hstem, hsplit⟩ := exists_append_suffixOf hfull
  have spelled : nameOf parts =
      joinWith ['/'] (before.map String.toList ++ [stem]) ++ Path.suffixOf last.toList := by
    rw [← joinWith_concat_append, ← hsplit, nameOf, hlast, List.map_append]
    rfl
  obtain ⟨hend, hlength⟩ := lower_append_of_lower hsuffix (by decide)
    (joinWith ['/'] (before.map String.toList ++ [stem]))
  refine ⟨parts, _, _, hne, hnames, rfl, spelled, ?_, hlength, ?_⟩
  · -- The text ends in the stem.
    rw [← List.nil_append stem, joinWith_concat_append]
    exact List.append_ne_nil_of_right_ne_nil _ hstem
  · unfold templateName
    rw [relativeTo?_append]
    dsimp only
    rw [text_nameOf hne hnames, spelled, hlower, if_pos (List.isSuffixOf_iff_suffix.2 hend),
      if_neg (by decide), List.length_append, hlength, String.length_toList,
      Nat.add_sub_cancel, List.take_left]

end TemplateNames

end TemplateAnalysis.Files
