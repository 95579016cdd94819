import SymbolDocs.Act

/-!
# What the user gets to see

The emissions of an act as texts on the two outputs. Events go to the second one, each on a line of
its own that begins with the level; those about details appear only if they are asked for. The other
emissions are texts for one of the outputs as they are.
-/

namespace SymbolDocs.CommandLine

/-- What a run leaves on the terminal, and the number it ends with. -/
structure Transcript where
  exitCode : Nat
  stdout : String := ""
  stderr : String := ""
deriving DecidableEq, Repr

/-- How output is to look. -/
structure Display where
  verbose : Bool := false
  colour : Bool := true
deriving DecidableEq, Repr

/-- The number of a level's colour in a terminal sequence. -/
def levelColour : Level → String
  | .error => "31"
  | .warn => "33"
  | .info => "32"
  | .debug => "34"

/-- The word for a level, as long as the longest one. -/
def levelLabel (level : Level) : String :=
  let word := level.word.toList
  String.ofList (List.replicate (5 - word.length) ' ' ++ word)

/-- A character of an event. Those that terminals take for commands are spelled out. -/
def visible (c : Char) : String :=
  match c with
  | '\x1b' => "\\x1b"
  | '\x07' => "\\x07"
  | '\x08' => "\\x08"
  | '\x0c' => "\\x0c"
  | '\x7f' => "\\x7f"
  | _ =>
    if 0x80 ≤ c.toNat ∧ c.toNat < 0xa0 then
      "\\u\x7b" ++ String.ofList [Text.hexDigit (c.toNat / 16), Text.hexDigit (c.toNat % 16)] ++
        "\x7d"
    else c.toString

namespace Display

/-- The beginning of an event's line. -/
def label (d : Display) (level : Level) : String :=
  if d.colour then "\x1b[" ++ levelColour level ++ "m" ++ levelLabel level ++ "\x1b[0m"
  else levelLabel level

/-- An event appears. -/
def shows (d : Display) (level : Level) : Bool :=
  level ≠ .debug || d.verbose

/-- The first output. -/
def stdout (emissions : List Emission) : String :=
  String.join (emissions.map fun
    | .out text => text
    | _ => "")

/-- The line of an event. -/
def eventLine (d : Display) (level : Level) (text : String) : String :=
  if d.shows level then d.label level ++ " " ++ String.join (text.toList.map visible) ++ "\n"
  else ""

/-- What an emission is on the second output. -/
def onStderr (d : Display) (e : Emission) : String :=
  match e.logged?, e with
  | some (level, text), _ => d.eventLine level text
  | none, .err text => text
  | none, _ => ""

/-- The second output. -/
def stderr (d : Display) (emissions : List Emission) : String :=
  String.join (emissions.map d.onStderr)

end Display

end SymbolDocs.CommandLine
