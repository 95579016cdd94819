import SymbolDocs.GraphOptions
import SymbolDocs.Path

/-!
# Configuration

Six settings, each of which may be left open. A user has settings for all projects and a project has
its own; the project's setting wins wherever it is there.
-/

namespace SymbolDocs

/-- Settings for runs. -/
structure Config where
  /-- The symbol graph generator. -/
  generator : Option Path := none
  /-- Whether the generator knows extension blocks. -/
  extensionBlocks : Option Bool := none
  /-- The snippet extractor. -/
  extractor : Option Path := none
  /-- Whether snippets are extracted. -/
  snippets : Option Bool := none
  /-- Where the snippets of a package are. -/
  snippetDirectory : Option String := none
  /-- How many targets are worked on at the same time. -/
  jobs : Option Nat := none
deriving DecidableEq, Repr, Inhabited

namespace Config

/-- The settings of `c` under those of `other`, which win. -/
def merge (c other : Config) : Config where
  generator := other.generator <|> c.generator
  extensionBlocks := other.extensionBlocks <|> c.extensionBlocks
  extractor := other.extractor <|> c.extractor
  snippets := other.snippets <|> c.snippets
  snippetDirectory := other.snippetDirectory <|> c.snippetDirectory
  jobs := other.jobs <|> c.jobs

/-- What the generator is able to do. -/
def capabilities (c : Config) : Capabilities :=
  { extensionBlocks := c.extensionBlocks.getD true }

/-- Whether snippets are extracted. -/
def snippetsEnabled (c : Config) : Bool :=
  c.snippets.getD true

/-- The name of the directories that hold settings: the user's in the home, the project's in the
package. -/
def directoryName : String := ".graphdoc"

/-- The name of the files that hold settings. -/
def fileName : String := "config.toml"

/-- The directory with the user's settings. -/
def userDirectory (home : Path) : Path :=
  home.entry directoryName

/-- The user's settings. -/
def userFile (home : Path) : Path :=
  (userDirectory home).entry fileName

/-- Where the snippets of a package are, if nothing else is said. -/
def defaultSnippetDirectory : String := "Snippets"

/-- Where the snippets of a package are. -/
def snippetsIn (c : Config) : String :=
  c.snippetDirectory.getD defaultSnippetDirectory

end Config

end SymbolDocs
