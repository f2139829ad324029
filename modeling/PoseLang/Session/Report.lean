import PoseLang.Item.Reading
import PoseLang.Machine.Run
import PoseLang.Session.Log

/-!
# Reports of a compilation

Reports of a session: for each item what it was and what became of it, and the text that evaluations
wrote.
-/

namespace PoseLang

/-- What became of an item. -/
inductive Outcome where
  | declared (name : String)
  | defined (name : String)
  | evaluated (value : Datum)
  /-- An expression was lowered and not run. -/
  | lowered (routine : Routine)

/-- An outcome in words. -/
def Outcome.text : Outcome → String
  | .declared n => "declared " ++ n
  | .defined n => "defined " ++ n
  | .evaluated v => "evaluated to " ++ v.text
  | .lowered r => "lowered (" ++ toString r.blocks.length ++ " blocks)"

/-- Why an item failed: its text, its meaning, or its run. -/
inductive Problem where
  | parse (e : ParseError)
  | lower (e : LowerError)
  | run (e : RunError)

/-- A problem as a diagnostic. -/
def Problem.diagnostic : Problem → Diagnostic
  | .parse e => e.diagnostic
  | .lower e => e.diagnostic
  | .run e => e.diagnostic

/-- An item of a session: its number, a short description, the item if it could be read, and what
became of it. -/
structure ItemReport where
  index : Nat
  summary : String
  item : Option Item
  result : Except Problem Outcome

namespace ItemReport

/-- Whether the item was dealt with. -/
def isOk (r : ItemReport) : Bool :=
  match r.result with
  | .ok _ => true
  | .error _ => false

/-- Why the item failed. -/
def problem? (r : ItemReport) : Option Problem :=
  match r.result with
  | .ok _ => none
  | .error p => some p

/-- The value of an expression that was evaluated. -/
def value? (r : ItemReport) : Option Datum :=
  match r.result with
  | .ok (.evaluated v) => some v
  | _ => none

end ItemReport

/-- The report of a compilation: its items, the text that evaluations wrote, and its log. -/
structure Report where
  items : List ItemReport := []
  output : String := ""
  log : List Log.Entry := []

namespace Report

/-- One report behind another. -/
def append (r s : Report) : Report :=
  ⟨r.items ++ s.items, r.output ++ s.output, r.log ++ s.log⟩

/-- The items that failed. -/
def failures (r : Report) : List ItemReport :=
  r.items.filter (!·.isOk)

/-- Whether an item failed. -/
def hasFailures (r : Report) : Bool :=
  !r.failures.isEmpty

/-- The values of the expressions that were evaluated, in order. -/
def values (r : Report) : List Datum :=
  r.items.filterMap ItemReport.value?

end Report

end PoseLang
