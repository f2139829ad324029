import PoseLang.Json.Basic

/-!
# Reading JSON

The reader is strict: one document, blanks around it, and nothing else. Nested documents are read
with a bound on the number of calls that the length of the text gives, since every call but the
first follows a character that was consumed.
-/

namespace PoseLang.Json

/-- The four characters that may stand between the parts of a document. -/
def isSpace (c : Char) : Bool :=
  c == ' ' || c == '\n' || c == '\t' || c == '\r'

/-- The text after the blanks in front of it. -/
def skipSpace (cs : List Char) : List Char :=
  cs.dropWhile isSpace

/-- The value of a hexadecimal digit. -/
def hexDigit? (c : Char) : Option Nat :=
  if '0' ≤ c ∧ c ≤ '9' then some (c.toNat - '0'.toNat)
  else if 'a' ≤ c ∧ c ≤ 'f' then some (c.toNat - 'a'.toNat + 10)
  else if 'A' ≤ c ∧ c ≤ 'F' then some (c.toNat - 'A'.toNat + 10)
  else none

/-- The value of four hexadecimal digits. -/
def hex4? (a b c d : Char) : Option Nat := do
  return ((← hexDigit? a) * 16 + (← hexDigit? b)) * 256 + ((← hexDigit? c) * 16 + (← hexDigit? d))

/-- The character behind a backslash, the numbered ones apart. -/
def escaped? : Char → Option Nat
  | '"' => some '"'.toNat
  | '\\' => some '\\'.toNat
  | '/' => some '/'.toNat
  | 'b' => some 8
  | 'f' => some 12
  | 'n' => some 10
  | 'r' => some 13
  | 't' => some 9
  | _ => none

/-- The code points of a string literal behind its opening quote, surrogates as they are written,
and the text after the closing quote. A control character has to be escaped. -/
def codePoints? : List Char → Option (List Nat × List Char)
  | [] => none
  | '"' :: cs => some ([], cs)
  | '\\' :: 'u' :: a :: b :: c :: d :: cs => do
    let n ← hex4? a b c d
    let (ns, rest) ← codePoints? cs
    return (n :: ns, rest)
  | '\\' :: e :: cs => do
    let n ← escaped? e
    let (ns, rest) ← codePoints? cs
    return (n :: ns, rest)
  | c :: cs =>
    if c.toNat < 0x20 || c == '\\' then none
    else do
      let (ns, rest) ← codePoints? cs
      return (c.toNat :: ns, rest)

/-- A surrogate that opens a pair. -/
def isHigh (n : Nat) : Bool :=
  0xD800 ≤ n && n ≤ 0xDBFF

/-- A surrogate that closes a pair. -/
def isLow (n : Nat) : Bool :=
  0xDC00 ≤ n && n ≤ 0xDFFF

/-- The characters that code points spell, a pair of surrogates being one; none if a surrogate
stands alone. -/
def spell? : List Nat → Option (List Char)
  | [] => some []
  | [n] => if isHigh n || isLow n then none else some [Char.ofNat n]
  | n :: m :: ns =>
    if isHigh n && isLow m then
      (spell? ns).map (Char.ofNat (0x10000 + (n - 0xD800) * 0x400 + (m - 0xDC00)) :: ·)
    else if isHigh n || isLow n then none
    else (spell? (m :: ns)).map (Char.ofNat n :: ·)

/-- A string literal behind its opening quote. -/
def stringBody? (cs : List Char) : Option (Option String × List Char) :=
  (codePoints? cs).map fun (ns, rest) => ((spell? ns).map String.ofList, rest)

/-- At least one digit, and the text after the run of them. -/
def digits? (cs : List Char) : Option (List Char × List Char) :=
  match cs.takeWhile Char.isDigit with
  | [] => none
  | ds => some (ds, cs.dropWhile Char.isDigit)

/-- The whole part of a numeral: a zero alone, or digits that do not start with one. -/
def wholePart? : List Char → Option (List Char × List Char)
  | '0' :: cs => some (['0'], cs)
  | cs => digits? cs

/-- The fraction of a numeral, which may be missing. -/
def fractionPart? : List Char → Option (List Char × List Char)
  | '.' :: cs => (digits? cs).map fun (ds, rest) => ('.' :: ds, rest)
  | cs => some ([], cs)

/-- The exponent of a numeral, which may be missing. -/
def exponentPart? : List Char → Option (List Char × List Char)
  | c :: cs =>
    if c == 'e' || c == 'E' then
      match cs with
      | '+' :: cs => (digits? cs).map fun (ds, rest) => (c :: '+' :: ds, rest)
      | '-' :: cs => (digits? cs).map fun (ds, rest) => (c :: '-' :: ds, rest)
      | cs => (digits? cs).map fun (ds, rest) => (c :: ds, rest)
    else some ([], c :: cs)
  | [] => some ([], [])

/-- A numeral and the text after it. -/
def numeral? (cs : List Char) : Option (String × List Char) := do
  let (sign, cs) := match cs with
    | '-' :: cs => (['-'], cs)
    | cs => ([], cs)
  let (whole, cs) ← wholePart? cs
  let (fraction, cs) ← fractionPart? cs
  let (exponent, cs) ← exponentPart? cs
  return (String.ofList (sign ++ whole ++ fraction ++ exponent), cs)

mutual

/-- The document at the front of a text, and the text after it. -/
def value? : Nat → List Char → Option (Json × List Char)
  | 0, _ => none
  | calls + 1, cs =>
    match skipSpace cs with
    | 'n' :: 'u' :: 'l' :: 'l' :: cs => some (.null, cs)
    | 't' :: 'r' :: 'u' :: 'e' :: cs => some (.bool true, cs)
    | 'f' :: 'a' :: 'l' :: 's' :: 'e' :: cs => some (.bool false, cs)
    | '"' :: cs => (stringBody? cs).map fun (s, rest) => (.string s, rest)
    | '[' :: cs =>
      match skipSpace cs with
      | ']' :: cs => some (.array [], cs)
      | cs => (arrayItems? calls cs).map fun (xs, rest) => (.array xs, rest)
    | '\x7b' :: cs =>
      match skipSpace cs with
      | '\x7d' :: cs => some (.object [], cs)
      | cs => (objectEntries? calls cs).map fun (es, rest) => (.object es, rest)
    | cs => (numeral? cs).map fun (n, rest) => (.number n, rest)

/-- The items of an array that has some, up to its closing bracket. -/
def arrayItems? : Nat → List Char → Option (List Json × List Char)
  | 0, _ => none
  | calls + 1, cs =>
    match value? calls cs with
    | none => none
    | some (x, cs) =>
      match skipSpace cs with
      | ',' :: cs => (arrayItems? calls cs).map fun (xs, rest) => (x :: xs, rest)
      | ']' :: cs => some ([x], cs)
      | _ => none

/-- The entries of an object that has some, up to its closing brace. -/
def objectEntries? : Nat → List Char → Option (List (Option String × Json) × List Char)
  | 0, _ => none
  | calls + 1, cs =>
    match skipSpace cs with
    | '"' :: cs =>
      match stringBody? cs with
      | none => none
      | some (name, cs) =>
        match skipSpace cs with
        | ':' :: cs =>
          match value? calls cs with
          | none => none
          | some (x, cs) =>
            match skipSpace cs with
            | ',' :: cs => (objectEntries? calls cs).map fun (es, rest) => ((name, x) :: es, rest)
            | '\x7d' :: cs => some ([(name, x)], cs)
            | _ => none
        | _ => none
    | _ => none

end

/-- The one document that a text holds. -/
def parse? (s : String) : Option Json :=
  let cs := s.toList
  match value? (2 * cs.length + 2) cs with
  | some (j, rest) => if (skipSpace rest).isEmpty then some j else none
  | none => none

end PoseLang.Json
