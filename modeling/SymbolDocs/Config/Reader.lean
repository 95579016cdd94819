import SymbolDocs.Config
import SymbolDocs.Toml.Report

/-!
# Configuration as text

How the settings are written in TOML, in three tables.
-/

namespace SymbolDocs.Config

open Toml (Shape RecordField field record)

/-- The settings for the generator. -/
def generatorFields : List (RecordField Config) :=
  [field "program" Toml.path (fun c v => { c with generator := some v }) false,
   field "extension-block-symbols" Toml.boolean
    (fun c v => { c with extensionBlocks := some v }) false]

/-- The settings for snippets. -/
def snippetFields : List (RecordField Config) :=
  [field "extractor" Toml.path (fun c v => { c with extractor := some v }) false,
   field "enabled" Toml.boolean (fun c v => { c with snippets := some v }) false,
   field "directory" Toml.string (fun c v => { c with snippetDirectory := some v }) false]

/-- The settings for the work. -/
def buildFields : List (RecordField Config) :=
  [field "jobs" Toml.natural (fun c v => { c with jobs := some v }) false]

/-- A table of settings, read into the settings there are so far. -/
def settings (name label : String) (fields : List (RecordField Config)) : RecordField Config where
  name
  read c value := record label fields c value

/-- All settings. -/
def shape : Shape Config :=
  record "Config"
    [settings "generator" "GeneratorConfig" generatorFields,
     settings "snippets" "SnippetConfig" snippetFields,
     settings "build" "BuildConfig" buildFields]
    {}

/-- The settings that a text spells. -/
def parse (text : String) : Except Toml.Fault Config :=
  Toml.read shape text

end SymbolDocs.Config
