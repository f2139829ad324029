import PoseLang.Token.Basic
import PoseLang.Decimal.Reader
import PoseLang.Text.Blank

/-!
# From source text to tokens

A word is a letter followed by letters, digits and underscores; a numeral is a run of digits and
points; `#` opens a comment that runs to the end of its line; any other character that is not blank
is a token by itself. Nothing is ever refused: a numeral that spells no number becomes an invalid
token, for the grammar to report.

The text is read one character at a time. What has been read is a `Scanner`, so reading a text in
two pieces is reading the second from where the first ends.
-/

namespace PoseLang

/-- The location after a character that stands at `l`. -/
def Location.after (l : Location) (c : Char) : Location :=
  if c = '\n' then { l with line := l.line + 1, column := 1 }
  else { l with column := l.column + 1 }

namespace Token

/-- A character that may follow the first letter of a word. -/
def isWordChar (c : Char) : Bool :=
  c.isAlphanum || c == '_'

/-- A character of a numeral. -/
def isNumeralChar (c : Char) : Bool :=
  c.isDigit || c == '.'

/-- The token of a word: a reserved word, or an identifier. -/
def ofWord (word : String) : Token :=
  match Kind.ofKeyword? word with
  | some kind => { kind }
  | none => { kind := .identifier, text := some word }

/-- The token of a numeral: its number, or the text if it spells none. -/
def ofNumeral (numeral : String) : Token :=
  match Decimal.read? numeral with
  | some x => { kind := .number, value := some x }
  | none => { kind := .invalid, text := some numeral }

/-- The token of a character that stands for itself. -/
def ofChar : Char → Token
  | '(' => { kind := .leftParen }
  | ')' => { kind := .rightParen }
  | ',' => { kind := .comma }
  | '=' => { kind := .equal }
  | c => { kind := .operator, text := some c.toString }

/-- The token with a place. -/
def placed (t : Token) (l : Location) : Token :=
  { t with location := some l }

/-- What the last characters read have begun: nothing, a comment, or a word or a numeral with its
start and its characters so far, the latest first. -/
inductive Scanner.Mode where
  | between
  | comment
  | word (start : Location) (chars : List Char)
  | numeral (start : Location) (chars : List Char)

/-- A text read so far: what it has begun, where the next character stands, and the tokens, the
latest first. -/
structure Scanner where
  mode : Scanner.Mode
  here : Location
  tokens : List Token

namespace Scanner

/-- Nothing read yet, at the start of a file. -/
def start (file : String) : Scanner :=
  ⟨.between, ⟨file, 1, 1⟩, []⟩

/-- The word or numeral that has been begun becomes a token. -/
def close (s : Scanner) : Scanner :=
  match s.mode with
  | .between | .comment => { s with mode := .between }
  | .word l cs =>
    let t := ofWord (String.ofList cs.reverse)
    { s with mode := .between, tokens := t.placed l :: s.tokens }
  | .numeral l cs =>
    let t := ofNumeral (String.ofList cs.reverse)
    { s with mode := .between, tokens := t.placed l :: s.tokens }

/-- Reads a character that continues nothing; the scanner stays at it. -/
def openAt (s : Scanner) (c : Char) : Scanner :=
  if Text.isBlank c then s
  else if c = '#' then { s with mode := .comment }
  else if c.isAlpha then { s with mode := .word s.here [c] }
  else if isNumeralChar c then { s with mode := .numeral s.here [c] }
  else { s with tokens := (ofChar c).placed s.here :: s.tokens }

/-- Reads a character without moving on. -/
def take (s : Scanner) (c : Char) : Scanner :=
  match s.mode with
  | .between => s.openAt c
  | .comment => if c = '\n' then s.close else s
  | .word l cs =>
    if isWordChar c then { s with mode := .word l (c :: cs) } else s.close.openAt c
  | .numeral l cs =>
    if isNumeralChar c then { s with mode := .numeral l (c :: cs) } else s.close.openAt c

/-- Reads a character. -/
def read (s : Scanner) (c : Char) : Scanner :=
  { s.take c with here := s.here.after c }

/-- The tokens of the text read, closed by the end of input. -/
def finish (s : Scanner) : List Token :=
  (endOfInput.placed s.here :: s.close.tokens).reverse

end Scanner

/-- The tokens of a source text, the end of input last. -/
def tokenize (file source : String) : List Token :=
  (source.toList.foldl Scanner.read (Scanner.start file)).finish

end Token

end PoseLang
