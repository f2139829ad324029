import PoseLang.Location
import PoseLang.Decimal.Format

/-!
# Tokens

Tokens: the units of source that the grammar works on. Any front end may make them, so no field is
tied to the kind: a number may lack its value and an operator may carry a text of any length.
-/

namespace PoseLang

/-- The kind of a token. -/
inductive Token.Kind where
  | identifier
  | number
  | leftParen
  | rightParen
  | comma
  | equal
  /-- Any other single character. -/
  | operator
  | kwIf
  | kwThen
  | kwElse
  | kwFor
  | kwIn
  | kwDef
  | kwExtern
  /-- Text that spells no token. -/
  | invalid
  | endOfInput
deriving Repr, DecidableEq, Inhabited

namespace Token.Kind

/-- The kind of a reserved word. -/
def ofKeyword? : String → Option Token.Kind
  | "if" => some .kwIf
  | "then" => some .kwThen
  | "else" => some .kwElse
  | "for" => some .kwFor
  | "in" => some .kwIn
  | "def" => some .kwDef
  | "extern" => some .kwExtern
  | _ => none

/-- A kind as messages name it. -/
def text : Token.Kind → String
  | .identifier => "identifier"
  | .number => "number"
  | .leftParen => "'('"
  | .rightParen => "')'"
  | .comma => "','"
  | .equal => "'='"
  | .operator => "operator"
  | .kwIf => "'if'"
  | .kwThen => "'then'"
  | .kwElse => "'else'"
  | .kwFor => "'for'"
  | .kwIn => "'in'"
  | .kwDef => "'def'"
  | .kwExtern => "'extern'"
  | .invalid => "invalid token"
  | .endOfInput => "end of input"

end Token.Kind

/-- A unit of source: its kind, the number and the text it carries, and where it starts. -/
structure Token where
  kind : Token.Kind
  value : Option Float := none
  text : Option String := none
  location : Option Location := none
deriving Inhabited

namespace Token

/-- What stands behind the last token. -/
def endOfInput : Token :=
  { kind := .endOfInput }

/-- The name that an identifier spells. -/
def name (t : Token) : String :=
  t.text.getD ""

/-- The character of an operator that is a single character. -/
def symbol? (t : Token) : Option Char :=
  match t.kind, t.text.map String.toList with
  | .operator, some [c] => some c
  | _, _ => none

/-- Whether the token is the operator of a character. -/
def isOperator (t : Token) (c : Char) : Bool :=
  t.symbol? == some c

/-- A token as messages show it. -/
def shown (t : Token) : String :=
  match t.kind with
  | .identifier => "identifier '" ++ t.name ++ "'"
  | .number =>
    match t.value with
    | some x => "number " ++ Decimal.plain.text x
    | none => "number"
  | .operator => "'" ++ t.text.getD "?" ++ "'"
  | .invalid => "invalid token '" ++ t.name ++ "'"
  | kind => kind.text

end Token

end PoseLang
