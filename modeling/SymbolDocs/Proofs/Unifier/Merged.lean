import SymbolDocs.Proofs.FileTree.Copied
import SymbolDocs.Proofs.Scratch.Regions

/-! # What a unified directory holds

Where there are no links, a unification that succeeds leaves a directory with a copy of the target's
graphs and a copy of the snippet graph, and with nothing else (`merge_ok`). -/

namespace SymbolDocs

open FileTree SymbolDocs.Path

namespace Unifier

/-- A directory with a copy of some graphs and one more entry. -/
def unifiedContents (graphs : List String → Option Entry) (name : String) (e : Entry) :
    List String → Option Entry
  | [] => some .directory
  | first :: rest =>
    if first = Scratch.targetCopyName then graphs rest
    else if first = name ∧ rest = [] then some e
    else none

variable {host : Host} {w w' : World} {scratch : Scratch} {target : Target} {d : Place}

/-- The way to the copy of a target's graphs. -/
def copyNames (target : Target) : List String :=
  unifiedNames target ++ [Scratch.targetCopyName]

theorem graphsCopy_eq (scratch : Scratch) (target : Target) :
    graphsCopy scratch target = scratch.dir.below (copyNames target) :=
  unified_entry scratch target Scratch.targetCopyName

/-! ### The three steps -/

section Steps

variable {t u : FileTree} {base : Place}

/-- The unified directory is empty once it has been reset. -/
theorem reset_ok (h : Clean base scratch.dir d t) (htarget : target.Slashless) {a : Unit}
    (hr : (Edit.resetDir base (scratch.unified target)).apply t = (.ok a, u)) :
    (scratch.unified target).hasNul = false ∧ Clean base scratch.dir d u ∧
      Filled (d ++ unifiedNames target) t u ∧
      u.contents (d ++ unifiedNames target) = emptyDirectory := by
  obtain ⟨hnul, hfree, hemptied⟩ := Edit.resetDir_ok
    (h.ready (Scratch.areNames_unifiedNames htarget) (by simp [unifiedNames])).straight hr
  have hfilled := hemptied.filled hfree
  refine ⟨hnul, h.of_filled hfilled (List.prefix_append d _) (by simp [unifiedNames])
    fun a target hlink => ?_, hfilled, hemptied.contents⟩
  rw [hemptied.contents, emptyDirectory] at hlink
  split_ifs at hlink
  cases hlink

theorem aside_graphs_copy (target : Target) :
    Aside (Scratch.graphsNames target) (copyNames target) :=
  ((Scratch.aside_graphs_unified target target).symm.beneath (List.prefix_append _ _)).symm

/-- Into a directory that is empty, the graphs are copied as they are; it is sure if they are there
and if their names can be used. -/
theorem reaches_copyGraphs (h : Clean base scratch.dir d t) (htarget : target.Slashless)
    (hgraphs : (scratch.targetGraphs target).hasNul = false)
    (hunified : (scratch.unified target).hasNul = false)
    (hempty : t.contents (d ++ unifiedNames target) = emptyDirectory) :
    (Edit.copyTree base (scratch.targetGraphs target) (graphsCopy scratch target)).Reaches t
      (t.get? (d ++ Scratch.graphsNames target) = some .directory ∧
        ∀ c e, t.contents (d ++ Scratch.graphsNames target) c = some e → Nulless c)
      fun _ u => Copied (d ++ Scratch.graphsNames target) (d ++ copyNames target) t u := by
  have hname : isName Scratch.targetCopyName = true := by decide
  have hnames := (Scratch.areNames_unifiedNames htarget).append (areNames_singleton hname)
  have happ : d ++ copyNames target = d ++ unifiedNames target ++ [Scratch.targetCopyName] :=
    (List.append_assoc ..).symm
  have hnul : (graphsCopy scratch target).hasNul = false := by
    rw [graphsCopy, hasNul_entry hname, hunified]
    decide
  have hthere : t.get? (d ++ unifiedNames target) = some .directory := by
    rw [← contents_nil, hempty]
    rfl
  rw [Scratch.targetGraphs_eq, graphsCopy_eq] at *
  refine Edit.reaches_copyTree h (Scratch.areNames_graphsNames htarget) hnames
    (by simp [Scratch.graphsNames]) (by simp [copyNames]) hgraphs hnul (aside_graphs_copy target) ?_
    ?_
  · rw [happ, List.dropLast_concat, hthere]
  · rw [happ]
    exact congrFun hempty [Scratch.targetCopyName]

/-- The unified directory with a copy of the graphs. -/
theorem contents_copyGraphs
    (hempty : t.contents (d ++ unifiedNames target) = emptyDirectory)
    (hu : Copied (d ++ Scratch.graphsNames target) (d ++ copyNames target) t u) :
    Filled (d ++ unifiedNames target) t u ∧ ∀ a, u.contents (d ++ unifiedNames target) a =
      match a with
      | [] => some .directory
      | first :: rest =>
        if first = Scratch.targetCopyName then t.contents (d ++ Scratch.graphsNames target) rest
        else none := by
  have hbelow : d ++ unifiedNames target <+: d ++ copyNames target :=
    ⟨[Scratch.targetCopyName], by simp [copyNames]⟩
  refine ⟨filled_of_eq_outside fun q hq => hu.outside q fun hpre => hq (hbelow.trans hpre), ?_⟩
  rintro (_ | ⟨first, rest⟩)
  · rw [contents_nil, hu.outside]
    · rw [← contents_nil, hempty]
      rfl
    · exact fun hpre => absurd hpre.length_le (by simp [copyNames])
  · simp only
    split_ifs with hfirst
    · rw [← hu.contents, contents_cons, hfirst, copyNames, List.append_assoc]
    · have houtside := hu.outside (d ++ unifiedNames target ++ first :: rest) fun hpre => by
        rw [copyNames, ← List.append_assoc, List.prefix_append_right_inj] at hpre
        exact hfirst (List.cons_prefix_cons.mp hpre).1.symm
      exact houtside.trans (congrFun hempty (first :: rest))

/-- The copy of a snippet graph in a unified directory. -/
def snippetCopy (scratch : Scratch) (target : Target) (packageName : String) : Path :=
  (scratch.unified target).entry (Scratch.snippetName packageName)

/-- The way to that copy. -/
def snippetCopyNames (target : Target) (packageName : String) : List String :=
  unifiedNames target ++ [Scratch.snippetName packageName]

theorem snippetCopy_eq (scratch : Scratch) (target : Target) (packageName : String) :
    snippetCopy scratch target packageName =
      scratch.dir.below (snippetCopyNames target packageName) :=
  unified_entry scratch target _

/-- A snippet graph that is there is copied into the unified directory. -/
theorem apply_copySnippet (h : Clean base scratch.dir d t) (htarget : target.Slashless)
    {packageName : String} (hpackage : '/' ∉ packageName.toList)
    (hunified : (scratch.unified target).hasNul = false)
    (hthere : t.get? (d ++ unifiedNames target) = some .directory)
    (hfresh : t.get? (d ++ snippetCopyNames target packageName) ≠ some .directory)
    (hnul : (scratch.snippetGraph packageName).hasNul = false) {content : ByteArray}
    {executable : Bool} (hfile : t.get? (d ++ (Scratch.snippetsNames ++
      [Scratch.snippetName packageName])) = some (.file content executable)) :
    ∃ u, (Edit.copyFile base (scratch.snippetGraph packageName)
        (snippetCopy scratch target packageName)).apply t = (.ok ⟨⟩, u) ∧
      Put (d ++ snippetCopyNames target packageName) (.file content executable) t u := by
  have hname := Scratch.isName_snippetName hpackage
  have hnames : AreNames (snippetCopyNames target packageName) :=
    (Scratch.areNames_unifiedNames htarget).append (areNames_singleton hname)
  have hsource : AreNames (Scratch.snippetsNames ++ [Scratch.snippetName packageName]) :=
    Scratch.areNames_snippetsNames.append (areNames_singleton hname)
  have hne : snippetCopyNames target packageName ≠ [] := by simp [snippetCopyNames]
  have hsplit : (scratch.snippetGraphs.entry (Scratch.snippetName packageName)).hasNul = false :=
    hnul
  rw [hasNul_entry hname, Bool.or_eq_false_iff] at hsplit
  have hcopynul : (snippetCopy scratch target packageName).hasNul = false := by
    rw [snippetCopy, hasNul_entry hname, hunified, hsplit.2]
    rfl
  have haside : Aside (Scratch.snippetsNames ++ [Scratch.snippetName packageName])
      (snippetCopyNames target packageName) :=
    ((Scratch.aside_unified_snippets target).beneath (List.prefix_append _ _)).symm.beneath
      (List.prefix_append _ _)
  rw [snippetCopy_eq] at hcopynul ⊢
  rw [Scratch.snippetGraph_eq] at hnul ⊢
  obtain ⟨u, hu, hput⟩ := copyFile_put (h.ready hnames hne).found hcopynul
    (by rw [snippetCopyNames, dropLast_append_concat, hthere]) hfresh (h.plain _)
    (stat_of_exists (h.ready hsource (by simp)).found hnul hfile (fun _ he => by cases he))
    (fun v hv => by
      have hclean : Clean base scratch.dir d v := by
        refine h.of_filled hv.filled (List.prefix_append d _) (by simpa using hne)
          fun a target hlink => ?_
        rw [FileTree.contents, hv] at hlink
        split_ifs at hlink
        · cases hlink
        · exact h.plain _ target (by rwa [List.append_assoc] at hlink)
      refine stat_of_exists (hclean.ready hsource (by simp)).found hnul ?_ (fun _ he => by cases he)
      rw [hv, if_neg, hfile]
      intro heq
      exact haside.1 (List.append_cancel_left heq ▸ List.prefix_refl _))
  exact ⟨u, Edit.apply_copyFile_of_ok hu, hput⟩

/-- If a snippet graph has been copied, it is a file. -/
theorem copySnippet_ok (h : Clean base scratch.dir d t) {packageName : String}
    (hpackage : '/' ∉ packageName.toList) {destination : Path} {a : Unit}
    (hr : (Edit.copyFile base (scratch.snippetGraph packageName) destination).apply t =
      (.ok a, u)) :
    (scratch.snippetGraph packageName).hasNul = false ∧ ∃ content executable,
      t.get? (d ++ (Scratch.snippetsNames ++ [Scratch.snippetName packageName])) =
        some (.file content executable) := by
  have hsource : AreNames (Scratch.snippetsNames ++ [Scratch.snippetName packageName]) :=
    Scratch.areNames_snippetsNames.append (areNames_singleton (Scratch.isName_snippetName hpackage))
  have hends := endsInName_below h.ends hsource
  rw [Scratch.snippetGraph_eq] at hr ⊢
  by_cases hnul : (scratch.dir.below (Scratch.snippetsNames ++
    [Scratch.snippetName packageName])).hasNul = true
  · rw [Edit.apply_copyFile_of_error (Edit.stat_of_hasNul hnul hends.text_ne)] at hr
    cases hr
  refine ⟨by simpa using hnul, ?_⟩
  rcases hs : t.stat base (scratch.dir.below (Scratch.snippetsNames ++
    [Scratch.snippetName packageName])) with cause | e
  · rw [Edit.apply_copyFile_of_error hs] at hr
    cases hr
  rw [stat_ok (h.ready hsource (by simp)) (h.plain _) hs]
  rcases e with _ | ⟨content, executable⟩ | link
  · rw [Edit.apply_copyFile_of_not_file hs (fun _ _ he => by cases he)] at hr
    cases hr
  · exact ⟨content, executable, rfl⟩
  · rw [Edit.apply_copyFile_of_not_file hs (fun _ _ he => by cases he)] at hr
    cases hr

/-- The unified directory once it holds both. -/
theorem contents_copySnippet {packageName : String} {e : Entry}
    {graphs : List String → Option Entry}
    (hcontents : ∀ a, t.contents (d ++ unifiedNames target) a =
      match a with
      | [] => some .directory
      | first :: rest => if first = Scratch.targetCopyName then graphs rest else none)
    (hu : Put (d ++ snippetCopyNames target packageName) e t u) :
    u.contents (d ++ unifiedNames target) =
      unifiedContents graphs (Scratch.snippetName packageName) e := by
  have happ : d ++ snippetCopyNames target packageName =
      d ++ unifiedNames target ++ [Scratch.snippetName packageName] := (List.append_assoc ..).symm
  funext a
  by_cases ha : a = [Scratch.snippetName packageName]
  · have hself := hu (d ++ snippetCopyNames target packageName)
    rw [if_pos rfl, happ] at hself
    rw [ha, FileTree.contents, hself]
    simp [unifiedContents, Scratch.snippetName_ne packageName]
  · have hold : u.contents (d ++ unifiedNames target) a =
        t.contents (d ++ unifiedNames target) a := by
      refine (hu _).trans (if_neg fun heq => ha ?_)
      rw [happ] at heq
      exact List.append_cancel_left heq
    rw [hold, hcontents a]
    rcases a with _ | ⟨first, rest⟩
    · rfl
    · have hrest : ¬ (first = Scratch.snippetName packageName ∧ rest = []) := by
        rintro ⟨rfl, rfl⟩
        exact ha rfl
      simp [unifiedContents, hrest]

end Steps

/-! ### All of it -/

theorem perform_copySnippet (scratch : Scratch) (target : Target) {packageName : String}
    (hpackage : '/' ∉ packageName.toList) :
    (copySnippet scratch target (scratch.snippetGraph packageName)).perform host w =
      (do
        Act.edit fun base => Edit.copyFile base (scratch.snippetGraph packageName)
          (snippetCopy scratch target packageName)
        return snippetCopy scratch target packageName : Act Path).perform host w := by
  unfold copySnippet
  rw [Scratch.fileName_snippetGraph scratch hpackage]
  rfl

/-- **What a unification makes**: a directory with a copy of the target's graphs and a copy of the
snippet graph, and nothing else; only the unified directory has changed. -/
theorem merge_ok (h : Clean host.directory scratch.dir d w.files) (htarget : target.Slashless)
    {packageName : String} (hpackage : '/' ∉ packageName.toList)
    (hgraphs : (scratch.targetGraphs target).hasNul = false) {result : GraphResult}
    (hm : (merge scratch target (scratch.targetGraphs target)
      (scratch.snippetGraph packageName)).perform host w = (.ok result, w')) :
    result = .unified (scratch.unified target) (graphsCopy scratch target)
      (some (snippetCopy scratch target packageName)) ∧
    Clean host.directory scratch.dir d w'.files ∧
    Filled (d ++ unifiedNames target) w.files w'.files ∧
    ∃ content executable,
      w.files.get? (d ++ (Scratch.snippetsNames ++ [Scratch.snippetName packageName])) =
        some (.file content executable) ∧
      w'.files.contents (d ++ unifiedNames target) =
        unifiedContents (w.files.contents (d ++ Scratch.graphsNames target))
          (Scratch.snippetName packageName) (.file content executable) := by
  unfold merge at hm
  obtain ⟨_, w1, h1, hm⟩ := Work.perform_bind_ok hm
  cases h1
  obtain ⟨_, w2, h2, hm⟩ := Work.perform_bind_ok hm
  obtain ⟨t1, hreset, rfl⟩ := Act.perform_edit_ok h2
  obtain ⟨_, w3, h3, hm⟩ := Work.perform_bind_ok hm
  obtain ⟨t2, hcopy, rfl⟩ := Act.perform_edit_ok h3
  obtain ⟨copy, w4, h4, hm⟩ := Work.perform_bind_ok hm
  rw [perform_copySnippet scratch target hpackage] at h4
  obtain ⟨_, w5, h5, h4⟩ := Work.perform_bind_ok h4
  obtain ⟨t3, hsnippet, rfl⟩ := Act.perform_edit_ok h5
  cases h4
  cases hm
  -- the directory is empty
  obtain ⟨hunified, hclean1, hfilled1, hempty⟩ := reset_ok h htarget hreset
  -- the graphs are copied into it
  have hcopied := (reaches_copyGraphs hclean1 htarget hgraphs hunified hempty).ends _ _ hcopy
  have hclean2 := hclean1.of_copied hcopied (List.prefix_append d _) (List.prefix_append d _)
    (by simp [copyNames])
  obtain ⟨hfilled2, hcontents2⟩ := contents_copyGraphs hempty hcopied
  have hkept : t1.contents (d ++ Scratch.graphsNames target) =
      w.files.contents (d ++ Scratch.graphsNames target) :=
    (hfilled1.agree (aside_append.mpr (Scratch.aside_graphs_unified target target))).contents.symm
  rw [hkept] at hcontents2
  -- so is the snippet graph
  obtain ⟨hnul, content, executable, hfile⟩ := copySnippet_ok hclean2 hpackage hsnippet
  have hthere : t2.get? (d ++ unifiedNames target) = some .directory := by
    rw [← contents_nil, hcontents2]
  have hfresh : t2.get? (d ++ snippetCopyNames target packageName) = none := by
    have := hcontents2 [Scratch.snippetName packageName]
    rw [FileTree.contents, List.append_assoc] at this
    rw [snippetCopyNames, this]
    exact if_neg (Scratch.snippetName_ne packageName)
  obtain ⟨u, hu, hput⟩ := apply_copySnippet hclean2 htarget hpackage hunified hthere
    (by simp [hfresh]) hnul hfile
  rw [hu] at hsnippet
  cases hsnippet
  have haside : Aside (d ++ (Scratch.snippetsNames ++ [Scratch.snippetName packageName]))
      (d ++ unifiedNames target) :=
    aside_append.mpr ((Scratch.aside_unified_snippets target).symm.beneath (List.prefix_append _ _))
  have hfilled12 : Filled (d ++ unifiedNames target) w.files t2 :=
    hfilled1.trans hfilled2 fun _ => by simp [hthere]
  have hfilled3 : Filled (d ++ unifiedNames target) t2 t3 :=
    filled_of_eq_outside fun q hq => by
      rw [hput q, if_neg]
      rintro rfl
      exact hq ⟨[Scratch.snippetName packageName], by simp [snippetCopyNames]⟩
  have hcontents3 := contents_copySnippet hcontents2 hput
  refine ⟨rfl, ?_, hfilled12.trans hfilled3 fun _ => ?_, content, executable, ?_, hcontents3⟩
  · refine hclean2.of_filled hput.filled (List.prefix_append d _) (by simp [snippetCopyNames])
      fun a target hlink => ?_
    rw [FileTree.contents, hput] at hlink
    split_ifs at hlink
    · cases hlink
    · exact hclean2.plain _ target (by rwa [List.append_assoc] at hlink)
  · rw [← contents_nil, hcontents3]
    simp [unifiedContents]
  · rw [← hfile]
    exact (hfilled12.agree haside).get? (List.prefix_refl _)

/-! ### Where there may be links -/

/-- A snippet graph that has been copied lies in a directory. -/
theorem copySnippet_directory
    (h : Cleared host.directory scratch.dir d (unifiedNames target) w.files) {graph copy : Path}
    (hc : (copySnippet scratch target graph).perform host w = (.ok copy, w')) :
    w'.files.get? (d ++ unifiedNames target) = some .directory := by
  unfold copySnippet at hc
  rcases hname : graph.fileName with _ | name <;> rw [hname] at hc
  · cases hc
  obtain ⟨_, w1, h1, hc⟩ := Work.perform_bind_ok hc
  obtain ⟨u, hcopy, rfl⟩ := Act.perform_edit_ok h1
  cases hc
  rw [unified_entry] at hcopy
  obtain ⟨r, content, executable, ho, rfl⟩ := Edit.copyFile_ok (Edit.apply_copyFile_ok hcopy)
  obtain ⟨rfl, hreach⟩ := Edit.openForWriting_below h
    (areNames_singleton (isName_of_fileName hname)) ho
  have happ : d ++ (unifiedNames target ++ [name]) = d ++ unifiedNames target ++ [name] :=
    (List.append_assoc ..).symm
  have hthere : w.files.get? (d ++ unifiedNames target) = some .directory := by
    rcases hreach.placed with hd | ⟨dir, last, heq, -, hd⟩
    · exact get?_above hd (happ ▸ List.prefix_append _ _) (by simp)
    · rw [happ] at heq
      rwa [(List.append_inj' heq rfl).1]
  have hne : d ++ unifiedNames target ≠ d ++ (unifiedNames target ++ [name]) := by simp
  exact (get?_putAt_of_ne _ hne).trans ((get?_putAt_of_ne _ hne).trans hthere)

/-- **What a unification answers** is a directory, whatever has been copied into it. -/
theorem merge_directory (h : Ready host.directory scratch.dir d (unifiedNames target) w.files)
    {graphs graph : Path} {result : GraphResult}
    (hm : (merge scratch target graphs graph).perform host w = (.ok result, w')) :
    (∃ copy, result =
      .unified (scratch.unified target) (graphsCopy scratch target) (some copy)) ∧
    (scratch.unified target).hasNul = false ∧
    w'.files.get? (d ++ unifiedNames target) = some .directory := by
  unfold merge at hm
  obtain ⟨_, w1, h1, hm⟩ := Work.perform_bind_ok hm
  cases h1
  obtain ⟨_, w2, h2, hm⟩ := Work.perform_bind_ok hm
  obtain ⟨t1, hreset, rfl⟩ := Act.perform_edit_ok h2
  obtain ⟨_, w3, h3, hm⟩ := Work.perform_bind_ok hm
  obtain ⟨t2, hcopy, rfl⟩ := Act.perform_edit_ok h3
  obtain ⟨copy, w4, h4, hm⟩ := Work.perform_bind_ok hm
  cases hm
  rw [unified_eq] at hreset ⊢
  obtain ⟨-, hcleared⟩ := Edit.within_resetDir h
  rw [show (Edit.resetDir host.directory (scratch.dir.below (unifiedNames target))).apply w.files =
    (.ok ⟨⟩, t1) from hreset] at hcleared
  have hcopied := Edit.keeps_copyTree h.ends h.areNames
    (areNames_singleton (show isName Scratch.targetCopyName = true by decide)) graphs t1
    (hcleared rfl)
  rw [← unified_entry, show (Edit.copyTree host.directory graphs ((scratch.unified target).entry
    Scratch.targetCopyName)).apply t1 = (.ok ⟨⟩, t2) from hcopy] at hcopied
  exact ⟨⟨copy, rfl⟩, (Edit.resetDir_ok h.straight hreset).1,
    copySnippet_directory (Cleared.within (hcleared rfl) hcopied) h4⟩

end Unifier

end SymbolDocs
