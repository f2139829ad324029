import PoseLang.Expr.Parser
import PoseLang.Item.Basic

/-!
# The grammar of items, and its parser

The rules are these:

    prototype   := identifier '(' identifier* ')'
    definition  := 'def' prototype expression
    declaration := 'extern' prototype
    item        := definition | declaration | expression

Parameters are separated by blanks alone. The name that expressions are compiled under cannot be
declared. Every rule reads from the front of the tokens and leaves the rest, after a failure too.
-/

namespace PoseLang

namespace Expectation

/-- Where a function's name has to stand. -/
def functionName : Expectation where
  message := "expected function name in prototype"
  accepted := ["identifier"]
  issuer := "posec.ast.stmt.parse_prototype"

/-- Behind the name of a prototype. -/
def parametersOpen : Expectation where
  message := "expected '(' in prototype"
  accepted := ["'('"]
  issuer := "posec.ast.stmt.parse_prototype"

/-- Behind a parameter. -/
def parametersClose : Expectation where
  message := "expected ')' in prototype"
  accepted := ["')'", "identifier"]
  issuer := "posec.ast.stmt.parse_prototype"

/-- Where a definition has to start. -/
def defWord : Expectation where
  message := "expected 'def'"
  accepted := ["'def'"]
  issuer := "posec.ast.stmt.parse_definition"

/-- Where a declaration has to start. -/
def externWord : Expectation where
  message := "expected 'extern'"
  accepted := ["'extern'"]
  issuer := "posec.ast.stmt.parse_extern"

end Expectation

/-- A prototype takes the name that expressions are compiled under. -/
def ParseError.reservedName (loc : Option Location) : ParseError :=
  .rejected ("'" ++ Prototype.anonymousName ++ "' is reserved for top-level expressions")
    "posec.ast.stmt.parse_prototype" loc

/-- The token at the front, or the end of input behind the last one. -/
def Token.current (ts : List Token) : Token :=
  ts.headD .endOfInput

/-- Consumes a token of a kind. -/
def Token.expect (kind : Token.Kind) (wanted : Expectation) :
    List Token → Except ParseError Token × List Token
  | [] => (.error (.unexpected wanted .endOfInput), [])
  | t :: ts =>
    if t.kind = kind then (.ok t, ts) else (.error (.unexpected wanted t), t :: ts)

namespace Prototype

/-- Reads parameters up to the parenthesis that closes them. -/
def parseParams : List Token → Except ParseError (List String) × List Token
  | [] => (.error (.unexpected .parametersClose .endOfInput), [])
  | t :: ts =>
    if t.kind = .identifier then
      match parseParams ts with
      | (.ok names, rest) => (.ok (t.name :: names), rest)
      | (.error err, rest) => (.error err, rest)
    else if t.kind = .rightParen then (.ok [], ts)
    else (.error (.unexpected .parametersClose t), t :: ts)

/-- Reads a prototype. -/
def parse (ts : List Token) : Except ParseError Prototype × List Token :=
  match Token.expect .identifier .functionName ts with
  | (.error err, rest) => (.error err, rest)
  | (.ok t, rest) =>
    if t.name = anonymousName then (.error (.reservedName t.location), rest)
    else
      match Token.expect .leftParen .parametersOpen rest with
      | (.error err, rest) => (.error err, rest)
      | (.ok _, rest) =>
        match parseParams rest with
        | (.error err, rest) => (.error err, rest)
        | (.ok params, rest) => (.ok ⟨t.name, params, t.location⟩, rest)

end Prototype

/-- Reads a definition. -/
def Definition.parse (d : Dialect) (ts : List Token) : Except ParseError Definition × List Token :=
  match Token.expect .kwDef .defWord ts with
  | (.error err, rest) => (.error err, rest)
  | (.ok _, rest) =>
    match Prototype.parse rest with
    | (.error err, rest) => (.error err, rest)
    | (.ok proto, rest) =>
      match Expr.parse d rest with
      | (.error err, rest) => (.error err, rest)
      | (.ok body, rest) => (.ok ⟨proto, body⟩, rest)

/-- Reads a declaration. -/
def Prototype.parseDeclaration (ts : List Token) : Except ParseError Prototype × List Token :=
  match Token.expect .kwExtern .externWord ts with
  | (.error err, rest) => (.error err, rest)
  | (.ok _, rest) => Prototype.parse rest

namespace Item

/-- Reads an expression as an item; its place is that of its first token. -/
def parseExpression (d : Dialect) (ts : List Token) : Except ParseError Item × List Token :=
  match Expr.parse d ts with
  | (.error err, rest) => (.error err, rest)
  | (.ok body, rest) => (.ok (.expression (Token.current ts).location body), rest)

/-- Reads an item; its first token says of which sort it is. -/
def parse (d : Dialect) (ts : List Token) : Except ParseError Item × List Token :=
  match (Token.current ts).kind with
  | .kwDef =>
    match Definition.parse d ts with
    | (.error err, rest) => (.error err, rest)
    | (.ok f, rest) => (.ok (.definition f), rest)
  | .kwExtern =>
    match Prototype.parseDeclaration ts with
    | (.error err, rest) => (.error err, rest)
    | (.ok p, rest) => (.ok (.declaration p), rest)
  | _ => parseExpression d ts

end Item

end PoseLang
