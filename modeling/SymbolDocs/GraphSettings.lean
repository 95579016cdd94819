import SymbolDocs.AccessLevel

/-!
# Settings for symbol graphs

What a package or a target may say about its symbol graphs. Each setting may be left open, and an
open one is filled from a fallback, independently of the others.
-/

namespace SymbolDocs

/-- Settings of which each may be left open. -/
structure GraphSettings where
  minimumAccessLevel : Option AccessLevel := none
  includeSynthesized : Option Bool := none
  includeExtensionBlocks : Option Bool := none
deriving DecidableEq, Repr, Inhabited

namespace GraphSettings

/-- The settings with the open ones taken from `fallback`. -/
def orElse (s fallback : GraphSettings) : GraphSettings where
  minimumAccessLevel := s.minimumAccessLevel <|> fallback.minimumAccessLevel
  includeSynthesized := s.includeSynthesized <|> fallback.includeSynthesized
  includeExtensionBlocks := s.includeExtensionBlocks <|> fallback.includeExtensionBlocks

/-- All settings left open. -/
def unset : GraphSettings := {}

@[simp] theorem orElse_unset (s : GraphSettings) : s.orElse unset = s := by
  rcases s with ⟨a, b, c⟩
  cases a <;> cases b <;> cases c <;> rfl

@[simp] theorem unset_orElse (s : GraphSettings) : unset.orElse s = s := rfl

theorem orElse_assoc (a b c : GraphSettings) : (a.orElse b).orElse c = a.orElse (b.orElse c) := by
  rcases a with ⟨a1, a2, a3⟩
  cases a1 <;> cases a2 <;> cases a3 <;> rfl

end GraphSettings

end SymbolDocs
