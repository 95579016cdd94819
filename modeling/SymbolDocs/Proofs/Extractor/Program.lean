import SymbolDocs.Proofs.Command.Launched
import SymbolDocs.Proofs.Scratch.Regions

/-! # What the extractor's program leaves

The extractor makes room for the snippet graph, and then its program runs, if there are snippets at
all (`files_extract`). Whatever comes of it, nothing has changed but the snippet graphs
(`inside_extract`), if the program only writes to the path that it is told. -/

namespace SymbolDocs

open FileTree SymbolDocs.Path

variable {base d p : Place} {path : Path} {names : List String} {t u : FileTree}

namespace Edit

/-! ### Removing a file -/

theorem apply_removeFile (X : Path) :
    (removeFile base X).apply t =
      match t.unlink base X with
      | .ok u => (.ok ⟨⟩, u)
      | .error .notFound => (.ok ⟨⟩, t)
      | .error cause => (.error ⟨.removeFile X, cause⟩, t) := by
  unfold removeFile
  rw [apply_bind, apply_get]
  simp only
  rcases t.unlink base X with cause | u
  · cases cause <;> rfl
  · rfl

theorem unlink_ok (h : Ready base path p names t)
    (hu : t.unlink base (path.below names) = .ok u) : u = t.prune (p ++ names) := by
  unfold unlink at hu
  rcases hl : t.locateEntry base (path.below names) with e | q <;> rw [hl] at hu
  · cases hu
  have hq := follow_below h.leads.resolve h.there h.areNames h.ne h.way
    (fun hf => by cases hf) hl
  subst hq
  simp only [bind, Except.bind, (endsInName_below h.ends h.areNames).endsInSlash] at hu
  rcases hg : t.get? (p ++ names) with _ | (_ | ⟨content, executable⟩ | target) <;> rw [hg] at hu <;>
    cases hu <;> rfl

theorem within_removeFile (h : Ready base path p names t) :
    Within (p ++ names) t ((removeFile base (path.below names)).apply t).2 := by
  rw [apply_removeFile]
  rcases hu : t.unlink base (path.below names) with cause | u
  · cases cause <;> exact .refl _ t
  · rw [unlink_ok h hu]
    exact within_prune (List.prefix_refl _)

/-- What has been removed is not there, if it is known in which directory it was. -/
theorem removeFile_ok (h : Ready base path p names t)
    (hparent : t.get? (p ++ names).dropLast = some .directory) {a : Unit}
    (hr : (removeFile base (path.below names)).apply t = (.ok a, u)) :
    (path.below names).hasNul = false ∧ u.get? (p ++ names) = none := by
  rw [apply_removeFile] at hr
  by_cases hnul : (path.below names).hasNul = true
  · obtain ⟨n, hn⟩ := follow_eq_walk_below h.leads.resolve h.there h.areNames h.ne
    unfold unlink locateEntry at hr
    rw [hn, if_pos hnul] at hr
    cases hr
  rw [Bool.not_eq_true] at hnul
  refine ⟨hnul, ?_⟩
  rcases hu : t.unlink base (path.below names) with cause | v
  · by_cases hcause : cause = .notFound
    · subst hcause
      rw [hu] at hr
      cases hr
      unfold unlink locateEntry at hu
      rw [follow_of_directory h.found (fun hf => by cases hf) hnul hparent] at hu
      simp only [bind, Except.bind, (endsInName_below h.ends h.areNames).endsInSlash] at hu
      rcases hg : t.get? (p ++ names) with _ | (_ | ⟨content, executable⟩ | target) <;>
        rw [hg] at hu <;> first | rfl | cases hu
    · rw [hu] at hr
      cases cause <;> first | exact absurd rfl hcause | cases hr
  · rw [hu] at hr
    cases hr
    rw [unlink_ok h hu, removed_prune (by simp [h.ne]), if_pos (List.prefix_refl _)]

end Edit

namespace Extractor

variable {host : Host} {w w' : World} {program : Path} {directory : String} {scratch : Scratch}
  {package : Package}

/-- Room is made for the snippet graph of a package. -/
def makeRoom (scratch : Scratch) (packageName : String) (base : Place) : Edit Unit := do
  Edit.ensureDir base scratch.snippetGraphs
  Edit.removeFile base (scratch.snippetGraph packageName)

/-- The snippets that are listed in a tree. -/
def listed (directory : String) (package : Package) (base : Place) (t : FileTree) : List Path :=
  t.listFiles base (package.root.entry directory)

/-- The call of the program for the snippets that are listed in a tree. -/
def listedCommand (program : Path) (directory : String) (scratch : Scratch) (package : Package)
    (base : Place) (t : FileTree) : Command :=
  command program package (scratch.snippetGraph package.name) (listed directory package base t)

/-- Looks for the snippet graph that a program should have made. -/
def found (package : Package) (output : Path) : Act (Option Path) := do
  if (← Act.files).isFile (← Act.here) output then return some output
  Act.log .debug ("snippet extractor produced no output for `" ++ package.name ++ "`")
  return none

theorem perform_found (host : Host) (w : World) (package : Package) (output : Path) :
    ((found package output).perform host w).1 =
      .ok (if w.files.isFile host.directory output then some output else none) ∧
    ((found package output).perform host w).2.files = w.files := by
  unfold found
  rw [Work.perform_bind, Act.perform_files]
  simp only
  rw [Work.perform_bind, Act.perform_here]
  simp only
  split_ifs <;> exact ⟨rfl, rfl⟩

/-- Runs a command for a package, and looks for the snippet graph that it should have made. -/
def runFor (package : Package) (output : Path) (number : Nat) (c : Command) :
    Act (Option Path) := do
  Act.log .info
    ("Extracting " ++ toString number ++ " snippet(s) for `" ++ package.name ++ "`")
  let _ ← Work.inside ("failed to extract snippets for `" ++ package.name ++ "`") c.check
  found package output

/-- The world in which the command is run for a package. -/
def announced (package : Package) (number : Nat) (w : World) : World :=
  { w with
    emissions := w.emissions ++ [.event .info
      ("Extracting " ++ toString number ++ " snippet(s) for `" ++ package.name ++ "`")] }

theorem perform_runFor (package : Package) (output : Path) (number : Nat) (c : Command) (w : World) :
    (runFor package output number c).perform host w =
      match c.check.perform host (announced package number w) with
      | (.ok _, w1) => (found package output).perform host w1
      | (.error halt, w1) => (Work.outcomeInside
          ("failed to extract snippets for `" ++ package.name ++ "`") (.error halt), w1) := by
  unfold runFor
  rw [Work.perform_bind, Act.perform_log]
  simp only
  rw [Work.perform_bind, Work.perform_inside, announced]
  rcases c.check.perform host _ with ⟨(failure | message) | output, w2⟩ <;> rfl

theorem files_runFor (package : Package) (output : Path) (number : Nat) (c : Command) (w : World) :
    ((runFor package output number c).perform host w).2.files = c.leaves host w.files := by
  rw [perform_runFor]
  have hcheck := Command.check_files c host (announced package number w)
  rcases hc : c.check.perform host (announced package number w) with ⟨halt | out, w1⟩ <;>
    rw [hc] at hcheck
  · exact hcheck
  · exact (perform_found host w1 package output).2.trans hcheck

theorem runFor_ok {output graph : Path} {number : Nat} {c : Command}
    (h : (runFor package output number c).perform host w = (.ok (some graph), w')) :
    ∃ done, c.launch host w.files = .ok done ∧ done.status.succeeded = true ∧
      w'.files = done.files ∧ graph = output ∧ done.files.isFile host.directory graph = true := by
  rw [perform_runFor] at h
  rcases hc : c.check.perform host (announced package number w) with ⟨(f | m) | out, w1⟩ <;>
    rw [hc] at h
  · cases h
  · cases h
  obtain ⟨done, hl, hstatus, hdone⟩ := Command.check_ok hc
  obtain ⟨hanswer, hleft⟩ := perform_found host w1 package output
  simp only at h
  rw [h] at hanswer hleft
  refine ⟨done, hl, hstatus, hleft.trans hdone, ?_⟩
  rw [hdone] at hanswer
  split_ifs at hanswer with hfile
  · cases hanswer
    exact ⟨rfl, hfile⟩
  · cases hanswer

/-- An extraction, in terms of its parts. -/
theorem perform_extract (program : Path) (directory : String) (scratch : Scratch)
    (package : Package) (host : Host) (w : World) :
    (extract program directory scratch package).perform host w =
      if (listed directory package host.directory w.files).isEmpty then
        (do Act.log .debug ("no snippets found for `" ++ package.name ++ "`"); return none :
          Act (Option Path)).perform host w
      else
        (do
          Act.edit (makeRoom scratch package.name)
          runFor package (scratch.snippetGraph package.name)
            (listed directory package host.directory w.files).length
            (listedCommand program directory scratch package host.directory w.files) :
          Act (Option Path)).perform host w := by
  unfold extract
  rw [Work.perform_bind, perform_sources]
  simp only
  rw [← apply_ite (fun act : Act (Option Path) => act.perform host w)]
  rfl

/-- **What an extraction does to the files**: nothing if there are no snippets; otherwise room is
made, and the program runs if that was possible. -/
theorem files_extract (program : Path) (directory : String) (scratch : Scratch) (package : Package)
    (host : Host) (w : World) :
    ((extract program directory scratch package).perform host w).2.files =
      if (listed directory package host.directory w.files).isEmpty then w.files
      else
        match (makeRoom scratch package.name host.directory).apply w.files with
        | (.ok _, t) =>
          (listedCommand program directory scratch package host.directory w.files).leaves host t
        | (.error _, t) => t := by
  rw [perform_extract]
  split_ifs
  · rfl
  rw [Work.perform_bind, Act.perform_edit]
  rcases (makeRoom scratch package.name host.directory).apply w.files with ⟨e | a, t⟩
  · rfl
  · exact files_runFor _ _ _ _ _

/-- If the extractor answers with a graph, its program has run on a tree in which room was made for
the graph, and it has left a file there. -/
theorem extract_launched {graph : Path}
    (h : (extract program directory scratch package).perform host w = (.ok (some graph), w')) :
    ∃ t done, (makeRoom scratch package.name host.directory).apply w.files = (.ok ⟨⟩, t) ∧
      (listedCommand program directory scratch package host.directory w.files).launch host t =
        .ok done ∧
      done.status.succeeded = true ∧ w'.files = done.files ∧
      graph = scratch.snippetGraph package.name ∧ done.files.isFile host.directory graph = true := by
  rw [perform_extract] at h
  split_ifs at h
  · cases h
  obtain ⟨_, w1, h1, h⟩ := Work.perform_bind_ok h
  obtain ⟨t, hroom, rfl⟩ := Act.perform_edit_ok h1
  obtain ⟨done, hl, hstatus, hfiles, hgraph, hfile⟩ := runFor_ok h
  exact ⟨t, done, hroom, hl, hstatus, hfiles, hgraph, hfile⟩

/-! ### In the scratch directory -/

section Room

variable {packageName : String}

/-- The way to the snippet graphs is clear of links, and so is the place where they are. -/
structure Roomy (base : Place) (scratch : Scratch) (d : Place) (t : FileTree) : Prop extends
    Ready base scratch.dir d Scratch.snippetsNames t where
  plain : t.Plain (d ++ Scratch.snippetsNames)

theorem Roomy.within (h : Roomy base scratch d t) (hw : Within (d ++ Scratch.snippetsNames) t u) :
    Roomy base scratch d u :=
  ⟨h.toReady.within hw, hw.plain h.plain⟩

/-- So is the way to a file among them. -/
theorem Roomy.file (h : Roomy base scratch d t) (hname : '/' ∉ packageName.toList) :
    Ready base scratch.dir d (Scratch.snippetsNames ++ [Scratch.snippetName packageName]) t where
  ends := h.ends
  areNames := h.areNames.append (areNames_singleton (Scratch.isName_snippetName hname))
  ne := by simp
  leads := h.leads
  there := h.there
  way := by
    intro a b hab ha hb
    rcases List.eq_nil_or_concat b with rfl | ⟨b', name, rfl⟩
    · exact absurd rfl hb
    rw [List.concat_eq_append, ← List.append_assoc] at hab
    have hinit : Scratch.snippetsNames = a ++ b' := (List.append_inj' hab rfl).1
    by_cases hb' : b' = []
    · rw [hb', List.append_nil] at hinit
      exact hinit ▸ h.plain
    · exact h.way a b' hinit ha hb'

theorem within_ensureSnippets (h : Roomy base scratch d t) :
    Within (d ++ Scratch.snippetsNames) t ((Edit.ensureDir base scratch.snippetGraphs).apply t).2 :=
  Edit.keeps_ensureDir (fun _ _ ht hw => Ready.within ht hw) (fun _ ht => ht) h.ends h.areNames
    (fun _ hd => Edit.towards_above hd) t h.toReady

/-- Making room changes the snippet graphs only. -/
theorem within_makeRoom (h : Roomy base scratch d t) (hname : '/' ∉ packageName.toList) :
    Within (d ++ Scratch.snippetsNames) t ((makeRoom scratch packageName base).apply t).2 := by
  have hensure := within_ensureSnippets h
  unfold makeRoom
  rw [Edit.apply_bind]
  rcases he : (Edit.ensureDir base scratch.snippetGraphs).apply t with ⟨e | a, u⟩ <;>
    rw [he] at hensure
  · exact hensure
  · refine hensure.trans fun q => ?_
    rcases Edit.within_removeFile ((h.within hensure).file hname) q with hq | ⟨hq, hplain⟩ |
      ⟨hq, hnone, hdir⟩
    · exact .inl hq
    · rw [← List.append_assoc] at hq
      exact .inr (.inl ⟨(List.prefix_append _ _).trans hq, hplain⟩)
    · rw [← List.append_assoc] at hq
      rcases List.prefix_concat_iff.mp hq with rfl | hq
      · exact .inr (.inl ⟨List.prefix_append _ _, plain_of_directory hdir⟩)
      · exact .inr (.inr ⟨hq, hnone, hdir⟩)

/-- Once room has been made, there is a directory for the snippet graph and nothing in its place. -/
theorem makeRoom_ok (h : Roomy base scratch d t) (hname : '/' ∉ packageName.toList) {a : Unit}
    (hr : (makeRoom scratch packageName base).apply t = (.ok a, u)) :
    (scratch.snippetGraph packageName).hasNul = false ∧
      u.get? (d ++ Scratch.snippetsNames) = some .directory ∧
      u.get? (d ++ (Scratch.snippetsNames ++ [Scratch.snippetName packageName])) = none := by
  unfold makeRoom at hr
  have hensure := within_ensureSnippets h
  obtain ⟨_, v, hv, hr⟩ := Edit.apply_bind_ok hr
  rw [hv] at hensure
  have hthere : v.get? (d ++ Scratch.snippetsNames) = some .directory := by
    rw [(Edit.ensureDir_ok h.toReady.straight h.plain hv).2.2, if_pos (List.prefix_refl _)]
  have hfile := (h.within hensure).file hname
  have hdrop := dropLast_append_concat d Scratch.snippetsNames (Scratch.snippetName packageName)
  obtain ⟨hnul, hnone⟩ := Edit.removeFile_ok hfile (by rw [hdrop, hthere]) hr
  refine ⟨hnul, ?_, hnone⟩
  have hremove := Edit.within_removeFile hfile
  rw [show (Edit.removeFile base (scratch.dir.below (Scratch.snippetsNames ++
    [Scratch.snippetName packageName]))).apply v = (.ok a, u) from hr] at hremove
  refine hremove.directory_of_ne hthere fun hpre => ?_
  exact absurd hpre.length_le (by simp)

end Room

section Obeys

variable {ws : Workspace} {Q : Place → FileTree → FileTree → Prop}

/-- The extractor's program does what it does to the snippet graph of the package. -/
theorem obeys_listedCommand (hobeys : Tool.Obeys host program "--output" Q)
    (hnear : ws.root.isAbsolute = true ∨ ws.root.inner = [])
    (hready : Ready host.directory ws.scratch.dir d
      (Scratch.snippetsNames ++ [Scratch.snippetName ws.package.name]) t)
    (hnul : (ws.scratch.snippetGraph ws.package.name).hasNul = false)
    (hthere : t.get? (d ++ Scratch.snippetsNames) = some .directory)
    (hnone : t.get? (d ++ (Scratch.snippetsNames ++ [Scratch.snippetName ws.package.name])) = none)
    {files : FileTree} {done : Completion}
    (hl : (listedCommand program directory ws.scratch ws.package host.directory files).launch host
      t = .ok done) :
    Q (d ++ (Scratch.snippetsNames ++ [Scratch.snippetName ws.package.name])) t done.files := by
  have hflag : flagValue? "--output" (listedCommand program directory ws.scratch ws.package
      host.directory files).arguments = some (ws.scratch.snippetGraph ws.package.name).text :=
    flagValue?_self _ _ _
  refine hobeys.here rfl rfl hflag (fun habs => ?_) hnear ?_ hl
  · rw [isAbsolute_snippetGraph]
    exact Bool.or_eq_true_iff.mpr (.inr habs)
  · refine resolve_of_directory hready.found (plain_of_none hnone) hnul ?_
    rw [dropLast_append_concat, hthere]

/-- **The extractor changes the snippet graphs only**, if its program writes to the path that it is
told, or beneath it. -/
theorem inside_extract (directory : String) (hobeys : Tool.Obeys host program "--output" Inside)
    (hnear : ws.root.isAbsolute = true ∨ ws.root.inner = [])
    (hname : '/' ∉ ws.package.name.toList)
    (hroomy : Roomy host.directory ws.scratch d w.files) :
    ∃ t, Within (d ++ Scratch.snippetsNames) w.files t ∧
      (t = ((extract program directory ws.scratch ws.package).perform host w).2.files ∨
        Inside (d ++ (Scratch.snippetsNames ++ [Scratch.snippetName ws.package.name])) t
          ((extract program directory ws.scratch ws.package).perform host w).2.files) := by
  rw [files_extract]
  split_ifs
  · exact ⟨w.files, .refl _ _, .inl rfl⟩
  have hwithin := within_makeRoom hroomy hname
  rcases hroom : (makeRoom ws.scratch ws.package.name host.directory).apply w.files with
    ⟨e | a, t⟩ <;> rw [hroom] at hwithin
  · exact ⟨t, hwithin, .inl rfl⟩
  refine ⟨t, hwithin, ?_⟩
  simp only
  rcases Command.leaves_cases (listedCommand program directory ws.scratch ws.package host.directory
    w.files) host t with hsame | ⟨done, hl, hdone⟩
  · exact .inl hsame.symm
  · right
    rw [hdone]
    obtain ⟨hnul, hthere, hnone⟩ := makeRoom_ok hroomy hname hroom
    exact obeys_listedCommand hobeys hnear ((hroomy.within hwithin).file hname) hnul hthere hnone hl

end Obeys

end Extractor

end SymbolDocs
