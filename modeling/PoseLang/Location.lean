/-!
# Places in a source

A location is a file with a line and a column, both counted from one, the column in characters. A
span runs from one location to another.
-/

namespace PoseLang

/-- A place in a source text: its file, its line and its column. -/
structure Location where
  file : String
  line : Nat
  column : Nat
deriving Repr, DecidableEq, Inhabited

/-- A location is written `file:line:column`. -/
def Location.text (l : Location) : String :=
  l.file ++ ":" ++ toString l.line ++ ":" ++ toString l.column

/-- The stretch of source between two locations. -/
structure Span where
  start : Location
  stop : Location
deriving Repr, DecidableEq, Inhabited

/-- The span of a single location. -/
def Span.point (l : Location) : Span :=
  ⟨l, l⟩

/-- A span is written by its two ends, or by its one location when they agree. -/
def Span.text (s : Span) : String :=
  if s.start = s.stop then s.start.text else s.start.text ++ " - " ++ s.stop.text

end PoseLang
