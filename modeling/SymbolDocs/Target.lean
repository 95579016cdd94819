import SymbolDocs.GraphSettings

/-!
# Targets and products

A target is a unit that can be compiled; a product groups targets by their names. Documentation is
made of the source modules, except for those that hold tests.
-/

namespace SymbolDocs

/-- What a source module is for. -/
inductive ModuleKind
  | library
  | executable
  | test
deriving DecidableEq, Repr, Inhabited

/-- What a target is. -/
inductive TargetKind
  | sourceModule (kind : ModuleKind)
  | systemLibrary
  | binary
  | other
deriving DecidableEq, Repr

instance : Inhabited TargetKind := ⟨.other⟩

namespace TargetKind

/-- The kinds of targets. -/
def all : List TargetKind :=
  [.sourceModule .library, .sourceModule .executable, .sourceModule .test, .systemLibrary, .binary,
   .other]

/-- Targets that are compiled from sources. -/
def isSourceModule : TargetKind → Bool
  | .sourceModule _ => true
  | _ => false

/-- Modules of tests. -/
def isTest : TargetKind → Bool
  | .sourceModule .test => true
  | _ => false

/-- Targets that documentation is made of. -/
def isDocumentable : TargetKind → Bool
  | .sourceModule .library => true
  | .sourceModule .executable => true
  | _ => false

/-- The name of a kind. -/
def name : TargetKind → String
  | .sourceModule .library => "library"
  | .sourceModule .executable => "executable"
  | .sourceModule .test => "test"
  | .systemLibrary => "system-library"
  | .binary => "binary"
  | .other => "other"

instance : ToString TargetKind := ⟨name⟩

/-- The words that name a kind, its short forms among them. -/
def words : List (String × TargetKind) :=
  [("lib", .sourceModule .library), ("library", .sourceModule .library),
   ("bin", .sourceModule .executable), ("exe", .sourceModule .executable),
   ("executable", .sourceModule .executable), ("test", .sourceModule .test),
   ("system-library", .systemLibrary), ("binary", .binary), ("other", .other)]

/-- The kind that a word names. -/
def ofName? (word : String) : Option TargetKind :=
  words.lookup word

/-- The least visibility of the symbols in the graphs of such a target, if nothing else is said: the
symbols of a program are not used from outside. -/
def defaultAccessLevel : TargetKind → AccessLevel
  | .sourceModule .executable => .internalLevel
  | _ => .publicLevel

theorem isDocumentable_iff {k : TargetKind} :
    k.isDocumentable = true ↔ k.isSourceModule = true ∧ k.isTest = false := by
  rcases k with (_ | _ | _) | _ | _ | _ <;> simp [isDocumentable, isSourceModule, isTest]

theorem ofName?_name (k : TargetKind) : ofName? k.name = some k := by
  rcases k with (_ | _ | _) | _ | _ | _ <;> decide

end TargetKind

/-- A target of a package. -/
structure Target where
  name : String
  id : String
  kind : TargetKind
  settings : GraphSettings := {}
deriving DecidableEq, Repr, Inhabited

namespace Target

instance : ToString Target := ⟨Target.name⟩

/-- Documentation is made of this target. -/
def isDocumentable (t : Target) : Bool :=
  t.kind.isDocumentable

/-- The name of the directories that belong to a target. -/
def dirName (t : Target) : String :=
  t.name ++ "-" ++ t.id

end Target

/-- A product: a name for some targets. -/
structure Product where
  name : String
  members : List String
deriving DecidableEq, Repr, Inhabited

end SymbolDocs
