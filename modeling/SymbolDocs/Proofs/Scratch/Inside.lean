import SymbolDocs.Proofs.Path.Lexical
import SymbolDocs.Proofs.Scratch.Regions

/-! # Paths in the scratch directory

The graphs of a target and of snippets are meant to lie among all symbol graphs of the scratch
directory. They do if no slash is in the texts that their names are made of. In general it depends
on what such a text says as a path: it may start at the root, or lead up out of the symbol graphs
(`strictlyInside_iff`). -/

namespace SymbolDocs.Scratch

open SymbolDocs.Path

variable {s : Scratch} {name above packageName : String} {target : Target}

/-- An entry with this text, in a directory among the symbol graphs, is among them too: the text
does not lead up, or it leads up once and then further down, or else it leads into them from
elsewhere. -/
def Retains (s : Scratch) (name : String) : Prop :=
  let r := (⟨name⟩ : Path).lexical
  if r.absolute then r.StrictlyInside s.symbolGraphs.lexical
  else
    match r.ups with
    | 0 => True
    | 1 => r.names ≠ []
    | ups + 2 => (s.dir.lexical.join { r with ups }).StrictlyInside s.symbolGraphs.lexical

theorem lexical_symbolGraphs (s : Scratch) :
    s.symbolGraphs.lexical = s.dir.lexical.down ["symbol-graphs"] :=
  lexical_entry_of_isName _ (by decide)

/-- **An entry of a directory among the symbol graphs** lies strictly inside of them just if its
text retains it there. -/
theorem strictlyInside_iff (s : Scratch) (habove : isName above = true) (name : String) :
    ((s.symbolGraphs.entry above).entry name).lexical.StrictlyInside s.symbolGraphs.lexical ↔
      s.Retains name := by
  rw [lexical_entry, lexical_entry_of_isName _ habove]
  unfold Retains Lexical.join
  simp only
  split_ifs with habsolute
  · rfl
  rcases (⟨name⟩ : Path).lexical.ups with _ | _ | ups
  · simp only [Function.iterate_zero, id_eq, iff_true]
    rw [Lexical.down_down]
    exact Lexical.strictlyInside_down (by simp)
  · simp only [Nat.zero_add, Function.iterate_one, Lexical.up_down_singleton]
    exact Lexical.strictlyInside_down_iff
  · simp only [Function.iterate_succ_apply, Lexical.up_down_singleton]
    rw [lexical_symbolGraphs, Lexical.up_down_singleton]

/-- A name with no slash leads nowhere else. -/
theorem retains_of_isName (s : Scratch) (h : isName name = true) : s.Retains name := by
  unfold Retains
  rw [lexical_of_isName h]
  trivial

/-- The directories of a target and the graph of snippets lie strictly inside the symbol graphs just
if their names retain them there. -/
theorem strictlyInside_paths (s : Scratch) (target : Target) (packageName : String) :
    ((s.targetGraphs target).lexical.StrictlyInside s.symbolGraphs.lexical ↔
      s.Retains target.dirName) ∧
    ((s.unified target).lexical.StrictlyInside s.symbolGraphs.lexical ↔
      s.Retains target.dirName) ∧
    ((s.snippetGraph packageName).lexical.StrictlyInside s.symbolGraphs.lexical ↔
      s.Retains (snippetName packageName)) :=
  ⟨s.strictlyInside_iff (by decide) _, s.strictlyInside_iff (by decide) _,
    s.strictlyInside_iff (by decide) _⟩

end SymbolDocs.Scratch
