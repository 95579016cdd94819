import SymbolDocs.Package

/-!
# Options for symbol graphs

The options for a target are settled in layers: what the user asks for in this run, what the target
says, what the package says, and what holds if nobody says anything. Each option is settled on its
own. A generator that has no notion of extension blocks is not told about them, and the user's wish
about them is left aside.
-/

namespace SymbolDocs

/-- The options under which the symbol graphs of a target are generated. -/
structure GraphOptions where
  minimumAccessLevel : AccessLevel
  includeSynthesized : Bool
  includeExtensionBlocks : Bool
deriving DecidableEq, Repr, Inhabited

/-- What the user asks for in a run. -/
structure Overrides where
  minimumAccessLevel : Option AccessLevel := none
  skipSynthesized : Bool := false
  extensionBlocks : Option Bool := none
deriving DecidableEq, Repr, Inhabited

/-- What the generator is able to do. -/
structure Capabilities where
  extensionBlocks : Bool := true
deriving DecidableEq, Repr

instance : Inhabited Capabilities := ⟨{}⟩

namespace Overrides

/-- The flag that asks for a treatment of extension blocks. -/
def extensionFlag (included : Bool) : String :=
  if included then "--include-extended-types" else "--exclude-extended-types"

/-- The wish that a generator cannot fulfil. -/
def refused (o : Overrides) (c : Capabilities) : Option Bool :=
  if c.extensionBlocks then none else o.extensionBlocks

end Overrides

namespace GraphOptions

/-- The options for a target if the user asks for nothing. -/
def standard (target : Target) (package : Package) : GraphOptions :=
  let settings := target.settings.orElse package.settings
  { minimumAccessLevel := settings.minimumAccessLevel.getD target.kind.defaultAccessLevel
    includeSynthesized := settings.includeSynthesized.getD true
    includeExtensionBlocks := settings.includeExtensionBlocks.getD false }

/-- The options for a target in a run. -/
def settle (target : Target) (package : Package) (overrides : Overrides)
    (capabilities : Capabilities) : GraphOptions :=
  let options := standard target package
  { minimumAccessLevel := overrides.minimumAccessLevel.getD options.minimumAccessLevel
    includeSynthesized := !overrides.skipSynthesized && options.includeSynthesized
    includeExtensionBlocks :=
      if capabilities.extensionBlocks then
        overrides.extensionBlocks.getD options.includeExtensionBlocks
      else options.includeExtensionBlocks }

/-- The warning about a wish that is left aside. -/
def refusal (target : Target) (included : Bool) : String :=
  "`" ++ Overrides.extensionFlag included ++
    "` is not supported by the installed symbol graph generator; ignoring it for `" ++
    target.name ++ "`"

/-- One line about the options of a target. -/
def summary (options : GraphOptions) (target : Target) : String :=
  "symbol graph options for `" ++ target.name ++ "`: access=" ++ options.minimumAccessLevel.name ++
    ", synthesized=" ++ toString options.includeSynthesized ++
    ", extension-blocks=" ++ toString options.includeExtensionBlocks

/-- The arguments that tell the generator its options. -/
def arguments (options : GraphOptions) (capabilities : Capabilities) : List String :=
  ["--minimum-access-level", options.minimumAccessLevel.name] ++
    (if options.includeSynthesized then [] else ["--skip-synthesized-members"]) ++
    (if capabilities.extensionBlocks then
      [if options.includeExtensionBlocks then "--emit-extension-block-symbols"
       else "--omit-extension-block-symbols"]
    else [])

end GraphOptions

end SymbolDocs
