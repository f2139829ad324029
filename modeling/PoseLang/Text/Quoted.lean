import PoseLang.Text.Shown

/-!
# Quoted texts

Texts stand in double quotes. The quote, the backslash and the usual control characters are written
with a backslash; any other character that cannot be shown by itself is written by its number.
-/

namespace PoseLang.Text

/-- The hexadecimal digits of a number. -/
def hexadecimal (n : Nat) : String :=
  String.ofList (Nat.toDigits 16 n)

/-- A character by its number. -/
def numbered (c : Char) : String :=
  "\\u\x7b" ++ hexadecimal c.toNat ++ "\x7d"

/-- A character inside double quotes. -/
def quotedChar (c : Char) : String :=
  match c with
  | '\\' => "\\\\"
  | '"' => "\\\""
  | '\n' => "\\n"
  | '\r' => "\\r"
  | '\t' => "\\t"
  | c => if c.toNat = 0 then "\\0" else if isShown c then c.toString else numbered c

/-- A text in double quotes. -/
def quoted (s : String) : String :=
  "\"" ++ String.join (s.toList.map quotedChar) ++ "\""

end PoseLang.Text
