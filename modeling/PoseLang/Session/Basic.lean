import PoseLang.Session.Report
import PoseLang.Settings.Basic
import PoseLang.Token.Lexer

/-!
# Sessions

Sessions: compilations of one source after another into one program. Each item is dealt with on its
own, and one that fails leaves the program as it was. An expression is lowered under the reserved
name, evaluated on a machine of its own if the settings say so, and taken out of the program again.
-/

namespace PoseLang

/-- What one source after another is compiled into. -/
structure Session where
  settings : Settings
  context : Context

namespace Session

/-- A session in which nothing has been compiled. -/
def start (s : Settings) : Session :=
  ⟨s, .start s.registry⟩

/-- The dialect of a session. -/
def dialect (s : Session) : Dialect :=
  s.settings.dialect

/-- What dealing with an item leads to. -/
structure Step where
  session : Session
  result : Except Problem Outcome
  output : String := ""
  log : List Log.Entry := []

/-- Declares a prototype. -/
def declare (s : Session) (p : Prototype) : Step :=
  let r := s.context.declare p
  let log := Log.ofDeclaration s.context p r
  match r with
  | .error e => { session := s, result := .error (.lower e), log }
  | .ok (sig, c) => { session := { s with context := c }, result := .ok (.declared sig.name), log }

/-- Defines a function. -/
def define (s : Session) (d : Definition) : Step :=
  let r := s.context.define d
  let log := Log.ofDefinition s.context d r
  match r with
  | .error e => { session := s, result := .error (.lower e), log }
  | .ok (r, c) => { session := { s with context := c }, result := .ok (.defined r.name), log }

/-- The context without what expressions are compiled under. -/
def dropAnonymous (c : Context) : Context :=
  { c with program := (c.program.remove Prototype.anonymousName).2 }.forget Prototype.anonymousName

/-- Evaluates the expression that a program holds under the reserved name, on a fresh machine. -/
def evaluateAnonymous (s : Session) (p : Program) : Except Problem Outcome × String :=
  match Machine.evaluate p s.settings.maxSteps {} Prototype.anonymousName [] with
  | (.ok v, m) => (.ok (.evaluated v), m.output)
  | (.error e, m) => (.error (.run e), m.output)

/-- Lowers an expression, and evaluates it if the settings say so. -/
def express (s : Session) (location : Option Location) (body : Expr) : Step :=
  let d := Definition.anonymous location body
  let r := s.context.define d
  let log := Log.ofDefinition s.context d r
  match r with
  | .error e => { session := s, result := .error (.lower e), log }
  | .ok (r, c) =>
    let session := { s with context := dropAnonymous c }
    if s.settings.evaluate then
      let (result, output) := s.evaluateAnonymous c.program
      { session, result, output, log }
    else
      { session, result := .ok (.lowered r), log }

/-- Deals with an item. -/
def item (s : Session) : Item → Step
  | .declaration p => s.declare p
  | .definition d => s.define d
  | .expression location body => s.express location body

/-- The description of an item by its first token. -/
def firstSummary (t : Token) : String :=
  match t.kind with
  | .kwDef => "def"
  | .kwExtern => "extern"
  | _ => "expression at " ++ t.shown

/-- The description of an item that has been read. -/
def itemSummary : Item → String
  | .definition d => "def " ++ d.proto.text
  | .declaration p => "extern " ++ p.text
  | .expression _ body => body.text

/-- The line of the log for an item that failed. -/
def failureEntry (index : Nat) (first : Token) (p : Problem) : Log.Entry :=
  ⟨.warn, "item " ++ toString index ++ " (" ++ firstSummary first ++ "): " ++ p.diagnostic.text⟩

/-- Deals with what stands where an item should, which is the item with a number. -/
def reading (s : Session) (index : Nat) (r : Item.Reading) : Session × Report :=
  match r.item with
  | .error e =>
    (s, {
      items := [⟨index, firstSummary r.first, none, .error (.parse e)⟩]
      log := [failureEntry index r.first (.parse e)] })
  | .ok i =>
    let step := s.item i
    let report : ItemReport := ⟨index, itemSummary i, some i, step.result⟩
    let read : Log.Entry := ⟨.debug, "parsed item " ++ toString index ++ ": " ++ i.text⟩
    (step.session, {
      items := [report]
      output := step.output
      log := read :: step.log ++ report.problem?.toList.map (failureEntry index r.first) })

/-- Deals with items one after the other, numbered from some number on. -/
def readings (s : Session) (index : Nat) : List Item.Reading → Session × Report
  | [] => (s, {})
  | r :: rs =>
    let (s, first) := s.reading index r
    let (s, rest) := s.readings (index + 1) rs
    (s, first.append rest)

/-- The last line of the log of a compilation. -/
def closingEntry (s : Session) (r : Report) : Log.Entry :=
  ⟨.info, "compiled " ++ toString r.items.length ++ " item(s), " ++ toString r.failures.length ++
    " failed, module holds " ++ toString s.context.program.size ++ " function(s)"⟩

/-- Compiles all items of a list of tokens. -/
def compileTokens (s : Session) (ts : List Token) : Session × Report :=
  let (s, report) := s.readings 0 (Item.readings s.dialect ts)
  (s, { report with log := report.log ++ [s.closingEntry report] })

/-- Compiles all items of a source text. -/
def compile (s : Session) (file source : String) : Session × Report :=
  s.compileTokens (Token.tokenize file source)

end Session

end PoseLang
