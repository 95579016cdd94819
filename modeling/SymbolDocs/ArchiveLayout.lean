import SymbolDocs.Package
import SymbolDocs.Scratch

/-!
# Where archives go

Archives lie side by side in one directory and carry the names of their targets. If the user asks
for a path and there is one target only, its archive is that path itself. Combined documentation has
one more archive, with the name of the package.
-/

namespace SymbolDocs

/-- Where the archives of a run go. -/
structure ArchiveLayout where
  root : Path
  single : Option Path := none
  combined : Option Path := none
deriving DecidableEq, Repr, Inhabited

namespace ArchiveLayout

/-- The file name of an archive. -/
def archiveName (name : String) : String :=
  name ++ ".doccarchive"

/-- The layout for `count` requested targets. -/
def plan (scratch : Scratch) (package : Package) (count : Nat) (outputPath : Option Path)
    (combined : Bool) : ArchiveLayout :=
  let root := outputPath.getD scratch.docs
  { root
    single := if count = 1 ∧ combined = false then outputPath else none
    combined := if combined then some (root.entry (archiveName package.name)) else none }

/-- The archive of a target. -/
def archive (layout : ArchiveLayout) (target : Target) : Path :=
  layout.single.getD (layout.root.entry (archiveName target.name))

end ArchiveLayout

end SymbolDocs
