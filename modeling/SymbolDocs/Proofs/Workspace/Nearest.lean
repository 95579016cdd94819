import SymbolDocs.Workspace
import SymbolDocs.Proofs.Path.Ancestors
import SymbolDocs.Proofs.Performance

/-! # The nearest manifest

The search for a manifest looks into the directory that it starts in, and then into those on the way
up from it, which is a list that ends. The first one that holds a manifest is taken
(`firstManifest_eq_some_iff`), and the search fails if none does (`firstManifest_eq_none_iff`). -/

namespace SymbolDocs.Workspace

open SymbolDocs.Path

variable {files : FileTree} {base : Place} {directories : List Path}

/-- In a directory there is a regular file of the name of manifests, or a link to a regular file. -/
def HoldsManifest (files : FileTree) (base : Place) (dir : Path) : Prop :=
  ∃ content executable, files.stat base (dir.entry manifestName) = .ok (.file content executable)

theorem isFile_iff {path : Path} : files.isFile base path = true ↔
    ∃ content executable, files.stat base path = .ok (.file content executable) := by
  unfold FileTree.isFile
  rcases files.stat base path with e | (_ | ⟨content, executable⟩ | target) <;> simp

theorem holdsManifest_iff {dir : Path} :
    HoldsManifest files base dir ↔ files.isFile base (dir.entry manifestName) = true :=
  isFile_iff.symm

/-- The manifest that is found is that of the first directory that holds one. -/
theorem firstManifest_eq_some_iff {path : Path} :
    firstManifest files base directories = some path ↔
      ∃ below dir above, directories = below ++ dir :: above ∧ path = dir.entry manifestName ∧
        HoldsManifest files base dir ∧ ∀ d ∈ below, ¬ HoldsManifest files base d := by
  simp only [firstManifest, List.find?_map, Option.map_eq_some_iff, List.find?_eq_some_iff_append,
    holdsManifest_iff]
  constructor
  · rintro ⟨dir, ⟨hdir, below, above, hsplit, hbelow⟩, rfl⟩
    exact ⟨below, dir, above, hsplit, rfl, hdir, fun d hd => by simpa using hbelow d hd⟩
  · rintro ⟨below, dir, above, hsplit, rfl, hdir, hbelow⟩
    exact ⟨dir, ⟨hdir, below, above, hsplit, fun d hd => by simpa using hbelow d hd⟩, rfl⟩

theorem firstManifest_eq_none_iff :
    firstManifest files base directories = none ↔
      ∀ dir ∈ directories, ¬ HoldsManifest files base dir := by
  simp [firstManifest, holdsManifest_iff]

theorem perform_findManifest (start : Path) (host : Host) (w : World) :
    (findManifest start).perform host w =
      match firstManifest w.files host.directory start.ancestors with
      | some path => (.ok path, w)
      | none => (.error (.failed { cause := .noManifest start }), w) := by
  unfold findManifest
  rw [Work.perform_bind, Act.perform_files]
  simp only
  rw [Work.perform_bind, Act.perform_here]
  simp only
  rcases firstManifest w.files host.directory start.ancestors with _ | path <;> rfl

/-- **The nearest manifest is found.** Each step up from a path leaves one component of it and keeps
where it starts, so that the way up from any path ends, at the root or at the empty path. The search
answers the manifest of the first directory on the way that holds one, passing over those where
something else than a file has its name; it fails, and names the path that it started from, just if no
directory on the way holds one. The files are as they were. -/
theorem findManifest_nearest (start : Path) (host : Host) (w : World) :
    (∀ p q : Path, p.parent = some q →
      q.isAbsolute = p.isAbsolute ∧ ∃ c, p.components = q.components ++ [c]) ∧
    ∃ chain, LeadsUp start chain ∧
      chain.length = start.components.length + (if start.isAbsolute then 0 else 1) ∧
      (∀ path w', (findManifest start).perform host w = (.ok path, w') ↔
        w' = w ∧ ∃ below dir above, chain = below ++ dir :: above ∧
          path = dir.entry manifestName ∧ HoldsManifest w.files host.directory dir ∧
          ∀ d ∈ below, ¬ HoldsManifest w.files host.directory d) ∧
      (∀ halt w', (findManifest start).perform host w = (.error halt, w') ↔
        w' = w ∧ halt = .failed { cause := .noManifest start } ∧
          ∀ dir ∈ chain, ¬ HoldsManifest w.files host.directory dir) := by
  refine ⟨fun p q h => ⟨isAbsolute_parent h, components_parent h⟩, start.ancestors,
    leadsUp_ancestors start, (leadsUp_ancestors start).length_eq, fun path w' => ?_,
    fun halt w' => ?_⟩
  · rw [← firstManifest_eq_some_iff, perform_findManifest]
    rcases firstManifest w.files host.directory start.ancestors with _ | found
    · simp
    · simp [and_comm, eq_comm]
  · rw [← firstManifest_eq_none_iff, perform_findManifest]
    rcases firstManifest w.files host.directory start.ancestors with _ | found
    · simp [and_comm, eq_comm]
    · simp

/-- A directory that has the name of a manifest is passed over. -/
example :
    let files := ((FileTree.empty.put [] manifestName (.file .empty false)).put [] "a"
      .directory).put ["a"] manifestName .directory
    firstManifest files [] (⟨"a/b"⟩ : Path).ancestors = some ⟨"Graphdoc.toml"⟩ := by
  decide +kernel

end SymbolDocs.Workspace
