import PoseLang.Json.Basic
import PoseLang.Decimal.Format

/-!
# Writing JSON

A document is written on one line or with two blanks of indentation for each level. Only what the
format demands is escaped: the quote, the backslash and the control characters.
-/

namespace PoseLang.Json

/-- Doubles in a document keep a point, and take an exponent with its sign from `10 ^ 16` up and
below `10 ^ -5`. -/
def floatStyle : Decimal.Style where
  positional := fun e => -5 ≤ e && e ≤ 15
  wholeSuffix := ".0"
  exponentPlus := "+"
  tie := .toEven
  nan := "null"
  infinity := "null"
  negativeInfinity := "null"

/-- The document of a double: a number, or `null` for what is none. -/
def ofFloat (x : Float) : Json :=
  if x.isFinite then .number (floatStyle.text x) else .null

/-- A digit of an escape. -/
def hexChar (n : Nat) : Char :=
  if n < 10 then Char.ofNat ('0'.toNat + n) else Char.ofNat ('a'.toNat + (n - 10))

/-- A character inside a string literal. -/
def escape (c : Char) : String :=
  match c with
  | '"' => "\\\""
  | '\\' => "\\\\"
  | '\n' => "\\n"
  | '\r' => "\\r"
  | '\t' => "\\t"
  | c =>
    let n := c.toNat
    if n = 8 then "\\b"
    else if n = 12 then "\\f"
    else if n < 0x20 then "\\u00" ++ String.ofList [hexChar (n / 16), hexChar (n % 16)]
    else c.toString

/-- A string literal. -/
def quote (s : String) : String :=
  "\"" ++ String.join (s.toList.map escape) ++ "\""

mutual

/-- A document on one line, without blanks. -/
def compact : Json → String
  | .null => "null"
  | .bool b => if b then "true" else "false"
  | .number n => n
  | .string s => quote (s.getD "")
  | .array xs => "[" ++ ",".intercalate (compactItems xs) ++ "]"
  | .object es => "\x7b" ++ ",".intercalate (compactEntries es) ++ "\x7d"

/-- The items of an array, each on one line. -/
def compactItems : List Json → List String
  | [] => []
  | x :: xs => compact x :: compactItems xs

/-- The entries of an object, each on one line. -/
def compactEntries : List (Option String × Json) → List String
  | [] => []
  | (name, x) :: es => (quote (name.getD "") ++ ":" ++ compact x) :: compactEntries es

end

/-- A line break and the indentation of a level. -/
def lineBreak (level : Nat) : String :=
  "\n" ++ String.ofList (List.replicate (2 * level) ' ')

/-- Parts between brackets, each on a line of its own one level further in. -/
def indentedBlock (level : Nat) (opening closing : String) (parts : List String) : String :=
  if parts.isEmpty then opening ++ closing
  else
    let brk := lineBreak (level + 1)
    opening ++ brk ++ ("," ++ brk).intercalate parts ++ lineBreak level ++ closing

mutual

/-- A document over several lines, standing at a level of indentation. -/
def prettyAt (level : Nat) : Json → String
  | .null => "null"
  | .bool b => if b then "true" else "false"
  | .number n => n
  | .string s => quote (s.getD "")
  | .array xs => indentedBlock level "[" "]" (prettyItems (level + 1) xs)
  | .object es => indentedBlock level "\x7b" "\x7d" (prettyEntries (level + 1) es)

/-- The items of an array, each standing at a level. -/
def prettyItems (level : Nat) : List Json → List String
  | [] => []
  | x :: xs => prettyAt level x :: prettyItems level xs

/-- The entries of an object, each standing at a level. -/
def prettyEntries (level : Nat) : List (Option String × Json) → List String
  | [] => []
  | (name, x) :: es =>
    (quote (name.getD "") ++ ": " ++ prettyAt level x) :: prettyEntries level es

end

/-- A document over several lines. -/
def pretty (j : Json) : String :=
  prettyAt 0 j

end PoseLang.Json
