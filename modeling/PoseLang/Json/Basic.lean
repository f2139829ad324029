/-!
# JSON documents

Numbers keep the numeral they are written with, so that a whole number stays apart from the same
number written with a point or an exponent; objects keep the order and the repetitions of their
entries.
-/

namespace PoseLang

/-- A JSON document. A string, or the name of an entry, is `none` when its escapes leave a surrogate
unpaired: such a literal is well formed and spells no text. -/
inductive Json where
  | null
  | bool (b : Bool)
  | number (numeral : String)
  | string (text : Option String)
  | array (items : List Json)
  | object (entries : List (Option String × Json))
deriving Inhabited

namespace Json

/-- The document of a text. -/
def ofString (s : String) : Json :=
  .string (some s)

/-- The document of a whole number. -/
def ofInt (n : Int) : Json :=
  .number (toString n)

/-- The document of a count. -/
def ofNat (n : Nat) : Json :=
  .number (toString n)

/-- The document of a list, given how its items are written. -/
def ofList {α : Type} (f : α → Json) (xs : List α) : Json :=
  .array (xs.map f)

/-- The document of an optional value: `null` for a missing one. -/
def ofOption {α : Type} (f : α → Json) : Option α → Json
  | some a => f a
  | none => .null

/-- The object with the given entries. -/
def ofEntries (entries : List (String × Json)) : Json :=
  .object (entries.map fun e => (some e.1, e.2))

/-- The text of a string. -/
def text? : Json → Option String
  | .string s => s
  | _ => none

/-- The value of `true` or `false`. -/
def bool? : Json → Option Bool
  | .bool b => some b
  | _ => none

/-- The items of an array. -/
def items? : Json → Option (List Json)
  | .array xs => some xs
  | _ => none

/-- The number that a numeral of digits only spells, with a minus unless it is zero: `-0`, a point
or an exponent make a numeral no whole number. -/
def wholeNumber? (numeral : String) : Option Int :=
  match numeral.toList with
  | '-' :: digits => do
    let n ← (String.ofList digits).toNat?
    if n = 0 then none else some (-n)
  | _ => numeral.toNat?.map Int.ofNat

/-- The value of a whole number. -/
def int? : Json → Option Int
  | .number numeral => wholeNumber? numeral
  | _ => none

/-- The value of a whole number that is not negative. -/
def nat? (j : Json) : Option Nat :=
  j.int?.bind Int.toNat?

/-- The last entry of an object with the given name. -/
def get? (j : Json) (name : String) : Option Json :=
  match j with
  | .object entries => (entries.reverse.find? fun e => e.1 == some name).map Prod.snd
  | _ => none

end Json

end PoseLang
