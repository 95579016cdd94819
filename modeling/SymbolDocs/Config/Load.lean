import SymbolDocs.Act
import SymbolDocs.Config.Reader

/-!
# Configuration files

The settings of the user and those of the project are read from two files. A file that is not there
sets nothing, and neither does one that cannot be read, about which the user is warned.
-/

namespace SymbolDocs.Config

/-- Reads a configuration file. -/
def load (path : Path) : Act Config := do
  let text ← Act.readText (.readConfig path) path
  Work.inside ("failed to parse config: " ++ path.text) <| Work.ofExcept .toml (parse text)

/-- Reads a configuration file if there is one that can be read. -/
def loadOrDefault (path : Path) : Act Config := do
  if (← Act.files).pathExists (← Act.here) path then
    tryCatch (load path) fun
      | .failed failure => do
        Act.log .warn ("Failed to load config from " ++ path.text ++ ": " ++ failure.message)
        return {}
      | .crashed message => throw (.crashed message)
  else return {}

/-- The settings of the user with those of the project over them. -/
def loadLayers (user : Option Path) (project : Path) : Act Config := do
  let config ← match user with
    | some path => loadOrDefault path
    | none => pure {}
  return config.merge (← loadOrDefault project)

end SymbolDocs.Config
