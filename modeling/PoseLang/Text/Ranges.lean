/-!
# Ranges of characters

Sets of characters, given by ranges of their numbers.
-/

namespace PoseLang.Text

/-- Ranges of numbers, both ends included. -/
abbrev Ranges :=
  List (Nat × Nat)

/-- Whether the number of a character lies in one of the ranges. -/
def Ranges.holds (rs : Ranges) (c : Char) : Bool :=
  rs.any fun r => r.1 ≤ c.toNat && c.toNat ≤ r.2

end PoseLang.Text
