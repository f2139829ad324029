import PoseLang.Operators
import PoseLang.Layout

/-!
# Dialects

A dialect of the language: what the grammar leaves open. It says which characters are binary
operators and which calls build records.
-/

namespace PoseLang

/-- The operators and the records that a source text may use. -/
structure Dialect where
  operators : Operators
  records : Registry

/-- The usual operators and the records that every program has. -/
def Dialect.standard : Dialect :=
  ⟨.standard, .builtin⟩

end PoseLang
