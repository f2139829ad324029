import PoseLang.Dialect
import PoseLang.Expr.Basic
import PoseLang.ParseError

/-!
# The grammar of expressions, and its parser

The rules are these:

    expression := primary (operator primary)*
    primary    := number | identifier | identifier '(' (expression (',' expression)*)? ')'
                | '(' expression ')'
                | 'if' expression 'then' expression 'else' expression
                | 'for' identifier '=' expression ',' expression (',' expression)? 'in' expression

A chain of operators groups by their precedences, and to the left among equal ones. A call of a
record's name builds the record.

The parser reads the tokens once, from left to right. What it has begun and not finished is a stack
of frames, the innermost first, and the next token decides one move: it is consumed, or the
expression ends before it, or it is in error. So the parser looks at the first token that it leaves
and at none behind it.
-/

namespace PoseLang

namespace Expectation

/-- Where an operand has to start. -/
def operand : Expectation where
  message := "unknown token when expecting an expression"
  accepted := ["number", "identifier", "'('", "'if'", "'for'"]
  issuer := "posec.ast.expr.parse_primary"

/-- Where an operand has to start and text stands that spells no number. -/
def numeral (text : String) : Expectation where
  message := "malformed number literal '" ++ text ++ "'"
  accepted := ["number"]
  issuer := "posec.ast.expr.parse_primary"

/-- A number has to have a value. -/
def numberValue : Expectation where
  message := "number token carries no value"
  accepted := ["number"]
  issuer := "posec.ast.expr.parse_number_expr"

/-- Behind an expression in parentheses. -/
def closingParen : Expectation where
  message := "expected ')'"
  accepted := ["')'"]
  issuer := "posec.ast.expr.parse_paren_expr"

/-- Behind an argument. -/
def argumentEnd : Expectation where
  message := "expected ')' or ',' in argument list"
  accepted := ["')'", "','"]
  issuer := "posec.ast.expr.parse_identifier_expr"

/-- Behind a condition. -/
def thenWord : Expectation where
  message := "expected 'then'"
  accepted := ["'then'"]
  issuer := "posec.ast.expr.parse_if_expr"

/-- Behind the first branch. -/
def elseWord : Expectation where
  message := "expected 'else'"
  accepted := ["'else'"]
  issuer := "posec.ast.expr.parse_if_expr"

/-- Behind the word that opens a loop. -/
def loopVariable : Expectation where
  message := "expected identifier after 'for'"
  accepted := ["identifier"]
  issuer := "posec.ast.expr.parse_for_expr"

/-- Behind the variable of a loop. -/
def loopEquals : Expectation where
  message := "expected '=' after 'for'"
  accepted := ["'='"]
  issuer := "posec.ast.expr.parse_for_expr"

/-- Behind the start value of a loop. -/
def loopComma : Expectation where
  message := "expected ',' after 'for' start value"
  accepted := ["','"]
  issuer := "posec.ast.expr.parse_for_expr"

/-- Before the body of a loop. -/
def inWord : Expectation where
  message := "expected 'in' after 'for'"
  accepted := ["'in'"]
  issuer := "posec.ast.expr.parse_for_expr"

end Expectation

/-- A record is built from a wrong number of values. -/
def ParseError.fieldCount (layout : Layout) (name : String) (given : Nat) (loc : Option Location) :
    ParseError :=
  .rejected
    ("record '" ++ name ++ "' has " ++ toString layout.width ++ " field(s) but " ++
      toString given ++ " value(s) were given")
    "posec.ast.expr.parse_identifier_expr" loc

namespace Expr

/-- An expression that has been begun and waits for the next part of it. -/
inductive Frame where
  /-- A binary operator waits for its right operand. -/
  | operator (loc : Option Location) (op : Char) (precedence : Int32) (left : Expr)
  /-- An opening parenthesis waits for what it encloses. -/
  | group
  /-- A call waits for its next argument; those it has are listed the latest first. -/
  | argument (loc : Option Location) (callee : String) (done : List Expr)
  /-- A conditional waits for its condition. -/
  | condition (loc : Option Location)
  /-- A conditional waits for its first branch. -/
  | thenBranch (loc : Option Location) (condition : Expr)
  /-- A conditional waits for its second branch. -/
  | elseBranch (loc : Option Location) (condition thenBranch : Expr)
  /-- A loop waits for its start value. -/
  | loopStart (loc : Option Location) (var : String)
  /-- A loop waits for its test. -/
  | loopTest (loc : Option Location) (var : String) (start : Expr)
  /-- A loop waits for its step. -/
  | loopStep (loc : Option Location) (var : String) (start test : Expr)
  /-- A loop waits for its body. -/
  | loopBody (loc : Option Location) (var : String) (start test : Expr) (step : Option Expr)

/-- What the next token is for. -/
inductive Phase where
  /-- An operand starts here. -/
  | operand
  /-- An operand is complete. -/
  | operandDone (e : Expr)
  /-- An identifier has been read: it is called if a parenthesis follows. -/
  | named (loc : Option Location) (name : String)
  /-- The parenthesis of a call has been read. -/
  | callOpened (loc : Option Location) (callee : String)
  /-- The variable of a loop comes next. -/
  | loopVariable (loc : Option Location)
  /-- The equals sign of a loop comes next. -/
  | loopEquals (loc : Option Location) (var : String)

/-- What the parser does on looking at a token. -/
inductive Move where
  /-- It consumes the token and goes on. -/
  | shift (phase : Phase) (stack : List Frame)
  /-- The expression is complete, and the token is left. -/
  | done (e : Expr)
  /-- The token cannot be used, and is left. -/
  | refuse (err : ParseError)
  /-- The token is consumed and what it completes is wrong. -/
  | reject (err : ParseError)

/-- The move on a token that a rule cannot use. -/
def Move.unexpected (wanted : Expectation) (found : Token) : Move :=
  .refuse (.unexpected wanted found)

/-- A call with all its arguments: of a record's name, the record built from them in order. -/
def ofCall (records : Registry) (loc : Option Location) (callee : String) (args : List Expr) :
    Except ParseError Expr :=
  match records[callee]? with
  | none => .ok (.call loc callee args)
  | some layout =>
    if args.length = layout.width then
      .ok (.construct loc (.alloc loc callee) (args.zipIdx.map fun p => (p.2, p.1)))
    else
      .error (.fieldCount layout callee args.length loc)

/-- The move on the parenthesis that closes a call. -/
def closeCall (records : Registry) (loc : Option Location) (callee : String) (args : List Expr)
    (stack : List Frame) : Move :=
  match ofCall records loc callee args with
  | .ok e => .shift (.operandDone e) stack
  | .error err => .reject err

/-- The move on a token where an operand has to start. -/
def startOperand (stack : List Frame) (t : Token) : Move :=
  match t.kind with
  | .identifier => .shift (.named t.location t.name) stack
  | .number =>
    match t.value with
    | some x => .shift (.operandDone (.num t.location x)) stack
    | none => .reject (.unexpected .numberValue t)
  | .leftParen => .shift .operand (.group :: stack)
  | .kwIf => .shift .operand (.condition t.location :: stack)
  | .kwFor => .shift (.loopVariable t.location) stack
  | .invalid => .unexpected (.numeral t.name) t
  | _ => .unexpected .operand t

/-- An operand takes in the pending operators that bind at least as tightly as the one behind it. -/
def reduce (precedence : Int32) : Expr → List Frame → Expr × List Frame
  | e, .operator loc op p left :: stack =>
    if p < precedence then (e, .operator loc op p left :: stack)
    else reduce precedence (.binary loc op left e) stack
  | e, stack => (e, stack)

/-- The move on a token that is no binary operator, behind a complete operand. Pending operators are
closed, and then the token has to be what the innermost frame waits for. -/
def settle (records : Registry) (t : Token) : Expr → List Frame → Move
  | e, [] => .done e
  | e, .operator loc op _ left :: stack => settle records t (.binary loc op left e) stack
  | e, .group :: stack =>
    if t.kind = .rightParen then .shift (.operandDone e) stack
    else .unexpected .closingParen t
  | e, .argument loc callee done :: stack =>
    if t.kind = .rightParen then closeCall records loc callee (e :: done).reverse stack
    else if t.kind = .comma then .shift .operand (.argument loc callee (e :: done) :: stack)
    else .unexpected .argumentEnd t
  | e, .condition loc :: stack =>
    if t.kind = .kwThen then .shift .operand (.thenBranch loc e :: stack)
    else .unexpected .thenWord t
  | e, .thenBranch loc c :: stack =>
    if t.kind = .kwElse then .shift .operand (.elseBranch loc c e :: stack)
    else .unexpected .elseWord t
  | e, .elseBranch loc c th :: stack => settle records t (.cond loc c th e) stack
  | e, .loopStart loc v :: stack =>
    if t.kind = .comma then .shift .operand (.loopTest loc v e :: stack)
    else .unexpected .loopComma t
  | e, .loopTest loc v s :: stack =>
    if t.kind = .comma then .shift .operand (.loopStep loc v s e :: stack)
    else if t.kind = .kwIn then .shift .operand (.loopBody loc v s e none :: stack)
    else .unexpected .inWord t
  | e, .loopStep loc v s test :: stack =>
    if t.kind = .kwIn then .shift .operand (.loopBody loc v s test (some e) :: stack)
    else .unexpected .inWord t
  | e, .loopBody loc v s test step :: stack => settle records t (.loop loc v s test step e) stack

/-- The move on a token behind a complete operand. -/
def afterOperand (d : Dialect) (e : Expr) (stack : List Frame) (t : Token) : Move :=
  match d.operators.binary? t with
  | some (op, p) =>
    let (left, stack) := reduce p e stack
    .shift .operand (.operator t.location op p left :: stack)
  | none => settle d.records t e stack

/-- The move on a token. -/
def move (d : Dialect) (phase : Phase) (stack : List Frame) (t : Token) : Move :=
  match phase with
  | .operand => startOperand stack t
  | .operandDone e => afterOperand d e stack t
  | .named loc name =>
    if t.kind = .leftParen then .shift (.callOpened loc name) stack
    else afterOperand d (.var loc name) stack t
  | .callOpened loc callee =>
    if t.kind = .rightParen then closeCall d.records loc callee [] stack
    else startOperand (.argument loc callee [] :: stack) t
  | .loopVariable loc =>
    if t.kind = .identifier then .shift (.loopEquals loc t.name) stack
    else .unexpected .loopVariable t
  | .loopEquals loc v =>
    if t.kind = .equal then .shift .operand (.loopStart loc v :: stack)
    else .unexpected .loopEquals t

/-- Reads an expression to its end from the middle of it, and leaves the tokens behind it. Behind
the last token stands the end of input, which no move consumes. -/
def parseFrom (d : Dialect) (phase : Phase) (stack : List Frame) :
    List Token → Except ParseError Expr × List Token
  | [] =>
    match move d phase stack .endOfInput with
    | .done e => (.ok e, [])
    | .refuse err | .reject err => (.error err, [])
    | .shift .. => (.error (.unexpected .operand .endOfInput), [])
  | t :: ts =>
    match move d phase stack t with
    | .shift phase stack => parseFrom d phase stack ts
    | .done e => (.ok e, t :: ts)
    | .refuse err => (.error err, t :: ts)
    | .reject err => (.error err, ts)

/-- Reads an expression at the front of the tokens, and leaves those behind it. -/
def parse (d : Dialect) (ts : List Token) : Except ParseError Expr × List Token :=
  parseFrom d .operand [] ts

/-- What is left is the end of what was given. -/
theorem parseFrom_suffix (d : Dialect) (phase : Phase) (stack : List Frame) (ts : List Token) :
    (parseFrom d phase stack ts).2 <:+ ts := by
  induction ts generalizing phase stack with
  | nil =>
    rw [parseFrom]
    split <;> exact List.suffix_refl []
  | cons t ts ih =>
    rw [parseFrom]
    split
    · exact (ih _ _).trans (List.suffix_cons t ts)
    · exact List.suffix_refl _
    · exact List.suffix_refl _
    · exact List.suffix_cons t ts

theorem parse_suffix (d : Dialect) (ts : List Token) : (parse d ts).2 <:+ ts :=
  parseFrom_suffix d .operand [] ts

/-- Where an operand starts, no expression is complete. -/
theorem startOperand_ne_done (stack : List Frame) (t : Token) (e : Expr) :
    startOperand stack t ≠ .done e := by
  unfold startOperand
  split
  case h_2 => split <;> intro h <;> cases h
  all_goals intro h; cases h

/-- An operand takes at least one token, whatever waits for it. -/
theorem parseFrom_operand_length_lt {d : Dialect} {stack : List Frame} {ts rest : List Token}
    {e : Expr} (h : parseFrom d .operand stack ts = (.ok e, rest)) : rest.length < ts.length := by
  cases ts with
  | nil => cases h
  | cons t ts =>
    rw [parseFrom] at h
    split at h
    next phase stack _ =>
      have := (parseFrom_suffix d phase stack ts).length_le
      rw [h] at this
      exact Nat.lt_succ_of_le this
    next e' hm => exact absurd hm (startOperand_ne_done stack t e')
    all_goals cases h

/-- An expression that is read takes at least one token. -/
theorem parse_length_lt {d : Dialect} {ts rest : List Token} {e : Expr}
    (h : parse d ts = (.ok e, rest)) : rest.length < ts.length :=
  parseFrom_operand_length_lt h

end Expr

end PoseLang
