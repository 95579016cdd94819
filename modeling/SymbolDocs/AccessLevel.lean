/-!
# Access levels

How visible a symbol must be to enter a symbol graph. The levels are ordered from the most hidden to
the most visible one, and have one name each. A name is recognised in any case; the Kelvin sign
counts as a capital `K`.
-/

namespace SymbolDocs

/-- The least visibility of the symbols in a graph. -/
inductive AccessLevel
  | privateLevel
  | internalLevel
  | packageLevel
  | publicLevel
deriving DecidableEq, Repr, Inhabited

namespace AccessLevel

/-- The levels, from the most hidden to the most visible one. -/
def all : List AccessLevel :=
  [.privateLevel, .internalLevel, .packageLevel, .publicLevel]

/-- The place of a level in the order. -/
def rank : AccessLevel → Nat
  | .privateLevel => 0
  | .internalLevel => 1
  | .packageLevel => 2
  | .publicLevel => 3

instance : LE AccessLevel := ⟨fun a b => a.rank ≤ b.rank⟩
instance : LT AccessLevel := ⟨fun a b => a.rank < b.rank⟩
instance (a b : AccessLevel) : Decidable (a ≤ b) := inferInstanceAs (Decidable (a.rank ≤ b.rank))
instance (a b : AccessLevel) : Decidable (a < b) := inferInstanceAs (Decidable (a.rank < b.rank))
instance : Ord AccessLevel := ⟨fun a b => compare a.rank b.rank⟩
instance : Max AccessLevel := ⟨fun a b => if a ≤ b then b else a⟩

theorem rank_injective {a b : AccessLevel} (h : a.rank = b.rank) : a = b := by
  cases a <;> cases b <;> simp_all [rank]

/-- The name of a level. -/
def name : AccessLevel → String
  | .privateLevel => "private"
  | .internalLevel => "internal"
  | .packageLevel => "package"
  | .publicLevel => "public"

instance : ToString AccessLevel := ⟨name⟩

/-- The lower case of a character, as far as it can be a letter of a level's name. -/
def lower (c : Char) : Char :=
  if c = '\u212a' then 'k' else c.toLower

/-- The level with a name, in whatever case it is written. -/
def ofName? (text : String) : Option AccessLevel :=
  all.find? fun level => level.name.toList = text.toList.map lower

/-- What is said about a text that names no level. -/
def unknownMessage (text : String) : String :=
  "invalid access level '" ++ text ++ "'; expected one of: " ++ ", ".intercalate (all.map name)

/-- The level with a name, or what to say if there is none. -/
def parse (text : String) : Except String AccessLevel :=
  match ofName? text with
  | some level => .ok level
  | none => .error (unknownMessage text)

theorem mem_all (a : AccessLevel) : a ∈ all := by
  cases a <;> decide

end AccessLevel

end SymbolDocs
