import TemplateAnalysis.Proofs.Fragment.Declaring
import TemplateAnalysis.Proofs.Reference.Line
import TemplateAnalysis.Proofs.Resolver.Caching
import TemplateAnalysis.Proofs.Resolver.Templates
import TemplateAnalysis.Proofs.Text.LowerCase

/-! # Where a written reference leads

    A reference to a template leads to the file with its path and the suffix, and to
    nothing when there is no such template. In the file it leads to the first
    declaration of the fragment, or else to the first line (**`OpensAt`**).

    The name of a declared fragment ends with the value of the attribute, but the
    search takes a quote of the other kind for the end as well. So what is found
    declares the very fragment where no name goes on behind such a quote
    (**`resolve_referenceLine`**).
-/

namespace TemplateAnalysis.Resolver

open Files Text Markup Fragment Reference

variable {project : Project} {folder : Path} {tree : FileTree}

/-! ## The file of a path -/

theorem fileName_ofList {cs : List Char} (hne : cs ≠ []) (hslash : '/' ∉ cs) (hnull : '\x00' ∉ cs)
    (hdot : cs ≠ ['.']) (hdots : cs ≠ ['.', '.']) : FileName (String.ofList cs) := by
  have toList : ∀ name : String, String.ofList cs = name → cs = name.toList := by
    rintro name rfl
    exact String.toList_ofList.symm
  refine ⟨fun h => hne (toList _ h), ?_, ?_, fun h => hdot (toList _ h),
    fun h => hdots (toList _ h)⟩
  · rwa [String.toList_ofList]
  · rwa [String.toList_ofList]

theorem kept_segment {path : PagePath} {segment : List Char} (h : segment ∈ path.segments) :
    Kept segment ∧ '/' ∉ segment := by
  obtain ⟨hne, hchars⟩ := path.named segment h
  have miss : ∀ c, isNameChar c = false → c ∉ segment := by
    intro c hc hmem
    rw [hchars c hmem] at hc
    contradiction
  have dot := miss '.' (by decide)
  refine ⟨⟨hne, ?_, ?_⟩, miss '/' (by decide)⟩
  · rintro rfl
    exact dot List.mem_cons_self
  · rintro rfl
    exact dot List.mem_cons_self

theorem null_notMem_segment {path : PagePath} {segment : List Char} (h : segment ∈ path.segments) :
    '\x00' ∉ segment :=
  not_mem_of_class (path.named segment h).2 (by decide)

/-- A name on a path is that of a folder. -/
theorem fileName_segment {path : PagePath} {segment : List Char} (h : segment ∈ path.segments) :
    FileName (String.ofList segment) := by
  obtain ⟨⟨hne, hdot, hdots⟩, hslash⟩ := kept_segment h
  exact fileName_ofList hne hslash (null_notMem_segment h) hdot hdots

/-- With the suffix it is that of a file. -/
theorem fileName_page {path : PagePath} {segment : List Char} (h : segment ∈ path.segments) :
    FileName (String.ofList (segment ++ ".html".toList)) := by
  -- It is longer than the names that lead nowhere.
  have long : ∀ cs : List Char, cs.length < 5 → segment ++ ".html".toList ≠ cs := by
    rintro cs hshort rfl
    rw [List.length_append] at hshort
    exact Nat.not_lt.2 (Nat.le_add_left 5 segment.length) hshort
  refine fileName_ofList (long _ (by decide)) ?_ ?_ (long _ (by decide)) (long _ (by decide))
  · rw [List.mem_append, not_or]
    exact ⟨(kept_segment h).2, by decide⟩
  · rw [List.mem_append, not_or]
    exact ⟨null_notMem_segment h, by decide⟩

/-- The names on the way to the file of a path. -/
theorem exists_parts (path : PagePath) : ∃ parts : List String, parts ≠ [] ∧
    (∀ part ∈ parts, FileName part) ∧ nameOf parts = path.text ++ ".html".toList := by
  obtain hnil | ⟨before, last, hsegments⟩ := List.eq_nil_or_concat path.segments
  · exact absurd hnil path.ne_nil
  rw [List.concat_eq_append] at hsegments
  -- The suffix stands behind the last segment.
  refine ⟨(before ++ [last ++ ".html".toList]).map String.ofList, by simp, ?_, ?_⟩
  · intro part hpart
    obtain ⟨cs, hcs, rfl⟩ := List.mem_map.1 hpart
    rcases List.mem_append.1 hcs with hbefore | hend
    · have hsegment : cs ∈ path.segments := hsegments ▸ List.mem_append_left _ hbefore
      exact fileName_segment hsegment
    · have hlast : last ∈ path.segments := hsegments ▸ List.mem_append_right _ List.mem_cons_self
      rw [List.mem_singleton.1 hend]
      exact fileName_page hlast
  · rw [nameOf, List.map_map, PagePath.text, hsegments, ← joinWith_concat_append]
    congr 1
    exact (List.map_congr_left fun cs _ => String.toList_ofList).trans (List.map_id _)

theorem templateFileName_path (hext : project.extension = ".html") (path : PagePath) :
    templateFileName project path.text = path.text ++ ".html".toList := by
  have slashes : withSlashes path.text = path.text := withSlashes_path path.templatePath
  have normal : normalPath path.text = path.text :=
    normalPath_eq_self path.ne_nil fun _ => kept_segment
  have dot : '.' ∉ path.text := path.notMem_text (by decide) (by decide)
  rw [← hext]
  refine templateFileName_of_normal (by rw [slashes, normal]) ?_
  rw [hext]
  intro hsuffix
  exact dot_notMem_lower dot (hsuffix.subset (by decide))

/-- The file of a path in the folder of the templates. -/
def pageFile (folder : Path) (path : PagePath) : Path :=
  folder.child (String.ofList (path.text ++ ".html".toList))

theorem mem_templatesIn_path (hroot : project.templateRoot? = some folder)
    (hext : project.extension = ".html") (htree : tree.WellFormed) (path : PagePath) :
    path.text ++ ".html".toList ∈ templatesIn project tree ↔
      pageFile folder path ∈ filesWithExtension tree folder ".html" := by
  obtain ⟨parts, hne, hnames, hname⟩ := exists_parts path
  have listed := mem_templatesIn_iff hroot htree hne hnames
  rw [hname, hext] at listed
  exact listed

/-! ## The place in the file -/

/-- The place that a reference opens in a file with a text: the first declaration of
    the fragment, or the first line, when there is none or none is asked for. -/
def OpensAt (ends : Char → Char → Prop) (text? : Option String) (fragment : Option FragmentName)
    (place : Place) : Prop :=
  match fragment, text? with
  | some name, some text =>
    FirstPlace (Declares ends name.text) (lines text.toList) place ∨
      (place = ⟨0, 0⟩ ∧
        ∀ line ∈ lines text.toList, ∀ column, ¬ Declares ends name.text (line.drop column))
  | _, _ => place = ⟨0, 0⟩

/-- Where the fragment is named at the front of a value, no quote of the other kind
    ends the name. -/
def NoStrayQuote (text? : Option String) (fragment : Option FragmentName) : Prop :=
  ∀ name ∈ fragment, ∀ text ∈ text?, ∀ line ∈ lines text.toList, ∀ column,
    Declares EndsAtQuote name.text (line.drop column) →
      Declares EndsExactly name.text (line.drop column)

/-- Without such quotes it is the very fragment that is declared. -/
theorem OpensAt.exactly {text? : Option String} {fragment : Option FragmentName} {place : Place}
    (h : OpensAt EndsAtQuote text? fragment place) (hquotes : NoStrayQuote text? fragment) :
    OpensAt EndsExactly text? fragment place := by
  cases fragment with
  | none => exact h
  | some name =>
    cases text? with
    | none => exact h
    | some text =>
      have exact_of := hquotes name rfl text rfl
      rcases h with hfirst | ⟨hplace, hnone⟩
      · exact .inl (hfirst.exactly exact_of)
      · right
        exact ⟨hplace, fun line hline column hd => hnone line hline column hd.atQuote⟩

/-- A file is opened at the place of its text that the reference asks for. -/
theorem lineIn_eq_ok {file : Path} {text? : Option String} (htext : textIn tree file = .ok text?)
    (fragment : Option FragmentName) :
    ∃ place, lineIn file (fragment.map FragmentName.text) tree = .ok (some ⟨file, place⟩) ∧
      OpensAt EndsAtQuote text? fragment place := by
  cases fragment with
  | none => exact ⟨⟨0, 0⟩, rfl, rfl⟩
  | some name =>
    have places : placeIn tree ⟨file, name.text⟩ = .ok (text?.bind fun text =>
        (findDeclaration text.toList name.text).map fun place => ⟨file, place⟩) := by
      unfold placeIn
      rw [htext]
      rfl
    unfold lineIn
    rw [Option.map_some]
    dsimp only
    rw [places]
    cases text? with
    | none => exact ⟨⟨0, 0⟩, rfl, rfl⟩
    | some text =>
      cases hfound : findDeclaration text.toList name.text with
      | none =>
        exact ⟨⟨0, 0⟩, by simp [hfound, Except.bind], .inr ⟨rfl, findDeclaration_eq_none hfound⟩⟩
      | some place =>
        exact ⟨place, by simp [hfound, Except.bind], .inl (findDeclaration_eq_some hfound)⟩

/-! ## The reference -/

/-- What the files say to a position in a path. -/
theorem destinationIn_referenceLine (hext : project.extension = ".html")
    (hroot : project.templateRoot? = some folder) {wrapping : Wrapping} {path : PagePath}
    {fragment : Option FragmentName} {position : Nat}
    (hfront : (referenceFront wrapping).length ≤ position)
    (hback : position ≤ (referenceFront wrapping).length + path.text.length) :
    destinationIn project (referenceLine wrapping path fragment) position tree =
      templateIn project folder (path.text ++ ".html".toList) (fragment.map FragmentName.text)
        tree := by
  -- The position is on the only path of the line.
  have found : [(⟨path.text, (referenceFront wrapping).length⟩ : ReferredPath)].find?
      (fun reference => reference.start ≤ position && position ≤ reference.stop) =
        some ⟨path.text, (referenceFront wrapping).length⟩ := by
    apply List.find?_cons_of_pos
    rw [decide_eq_true hfront, Bool.true_and, decide_eq_true_eq]
    exact hback
  have filled : path.text ≠ [] := path.templatePath.ne_nil
  have wanted : (fragment.map FragmentName.text).filter (!·.isEmpty) =
      fragment.map FragmentName.text := by
    cases fragment with
    | none => rfl
    | some name => simp [Option.filter, name.ne_nil]
  unfold destinationIn
  rw [references_referenceLine, found]
  dsimp only
  unfold targetIn
  rw [isLink_referenceLine, if_neg Bool.false_ne_true, ReferredPath.stop,
    selectorAt?_referenceLine, fragmentIn_of_ne_nil hroot filled, wanted,
    templateFileName_path hext]

/-- **A written reference leads to the file of its path**, and in it to the first
    place at which the fragment seems to be declared; and where no quote is in the
    way, to the first declaration of that very fragment. -/
theorem resolve_referenceLine (hroot : project.templateRoot? = some folder)
    (hext : project.extension = ".html") {session : Session} (hfiles : session.files.WellFormed)
    (now : Seconds) (wrapping : Wrapping) (path : PagePath) (fragment : Option FragmentName)
    {position : Nat} (hfront : (referenceFront wrapping).length ≤ position)
    (hback : position ≤ (referenceFront wrapping).length + path.text.length) :
    ∃ found : Option Location,
      ((Scene.new project now session).ask project
        (.destination (referenceLine wrapping path fragment) position)).1 = .ok (.location found) ∧
      (pageFile folder path ∉ filesWithExtension session.files folder ".html" → found = none) ∧
      (pageFile folder path ∈ filesWithExtension session.files folder ".html" →
        ∃ place, found = some ⟨pageFile folder path, place⟩ ∧
          OpensAt EndsAtQuote (textOf session.files (pageFile folder path)).toOption fragment
            place ∧
          (NoStrayQuote (textOf session.files (pageFile folder path)).toOption fragment →
            OpensAt EndsExactly (textOf session.files (pageFile folder path)).toOption fragment
              place)) := by
  have listed := mem_templatesIn_path hroot hext hfiles path
  rw [ask_new, Question.answerIn, destinationIn_referenceLine hext hroot hfront hback]
  by_cases hfile : pageFile folder path ∈ filesWithExtension session.files folder ".html"
  · obtain ⟨place, hline, hopens⟩ := lineIn_eq_ok (textIn_of_listed hfiles hfile) fragment
    rw [templateIn_of_listed (listed.2 hfile)]
    refine ⟨some ⟨pageFile folder path, place⟩, ?_, fun hnot => absurd hfile hnot, fun _ => ?_⟩
    · exact congrArg (Except.bind · _) hline
    · exact ⟨place, rfl, hopens, hopens.exactly⟩
  · rw [templateIn_of_not_listed (mt listed.1 hfile)]
    exact ⟨none, rfl, fun _ => rfl, fun h => absurd h hfile⟩

/-- A template that declares two fragments, the name of the first of which goes on
    behind a quote. -/
def cardTree : FileTree :=
  ⟨[], [(["ws"], .folder), (["ws", "templates"], .folder),
    (["ws", "templates", "p.html"],
      .file "<p th:fragment=\"card's\"></p>\n<div th:fragment=\"card\"></div>\n".toUTF8)]⟩

theorem wellFormed_cardTree : cardTree.WellFormed := by
  decide

/-- The path of the template. -/
def cardPath : PagePath :=
  ⟨[['p']], by decide, List.forall_mem_singleton.2 ⟨by decide, List.all_eq_true.1 (by decide)⟩,
    by decide⟩

/-- The name of its second fragment. -/
def cardName : FragmentName :=
  ⟨"card".toList, by decide, List.all_eq_true.1 (by decide)⟩

theorem resolve_referenceLine_card : ∃ place,
    ((Scene.new fiveSeconds 0 ⟨cardTree, "", ""⟩).ask fiveSeconds
      (.destination (referenceLine .none cardPath (some cardName)) 17)).1 =
        .ok (.location (some ⟨pageFile ⟨"/", ["ws", "templates"]⟩ cardPath, place⟩)) ∧
      OpensAt EndsAtQuote
        (textOf cardTree (pageFile ⟨"/", ["ws", "templates"]⟩ cardPath)).toOption (some cardName)
        place := by
  have root : fiveSeconds.templateRoot? = some ⟨"/", ["ws", "templates"]⟩ := by decide
  have listed : pageFile ⟨"/", ["ws", "templates"]⟩ cardPath ∈
      filesWithExtension cardTree ⟨"/", ["ws", "templates"]⟩ ".html" := by
    decide +kernel
  obtain ⟨found, hanswer, -, hlisted⟩ := resolve_referenceLine root rfl
    (show (⟨cardTree, "", ""⟩ : Session).files.WellFormed from wellFormed_cardTree) 0 .none cardPath
    (some cardName) (show _ ≤ 17 by decide) (by decide)
  obtain ⟨place, rfl, hopens, -⟩ := hlisted listed
  exact ⟨place, hanswer, hopens⟩

end TemplateAnalysis.Resolver
