import PoseLang.Session.Report
import PoseLang.Text.Grid

/-!
# What the command line shows of a report

A summary with a row for each item, the failures, and the part of the log that was asked for.
-/

namespace PoseLang.Cli

/-- A failure as it is shown. -/
def errorLine (d : Diagnostic) : String :=
  "error: " ++ d.line ++ "\n"

/-- The status and the detail of an item in the summary. -/
def statusOf (r : ItemReport) : String × String :=
  match r.result with
  | .ok (.declared name) => ("declared", name)
  | .ok (.defined name) => ("defined", name)
  | .ok (.evaluated v) => ("evaluated", v.text)
  | .ok (.lowered routine) => ("lowered", toString routine.blocks.length ++ " blocks")
  | .error p => (p.diagnostic.level.text.map Char.toLower, p.diagnostic.line)

/-- The row of an item in the summary. -/
def summaryRow (r : ItemReport) : List String :=
  let (status, detail) := statusOf r
  [toString r.index, r.summary, status, detail]

/-- The summary of a report: a grid with a row for each item. -/
def summary (r : Report) : String :=
  Text.Grid.render ["#", "item", "status", "detail"] (r.items.map summaryRow)

/-- The failures of a report, a line for each. -/
def failureLines (r : Report) : String :=
  String.join (r.failures.filterMap fun i => i.problem?.map fun p => errorLine p.diagnostic)

/-- The log of a report down to a level. -/
def logLines (r : Report) (level : Log.Level) : String :=
  String.join ((r.log.filter (·.level.rank ≤ level.rank)).map fun e => e.line ++ "\n")

/-- The exit code that a report leads to. -/
def exitCode (r : Report) : Nat :=
  if r.hasFailures then 1 else 0

end PoseLang.Cli
