import PoseLang.Cli.Arguments
import PoseLang.Cli.Summary
import PoseLang.Script
import PoseLang.Session.Basic
import PoseLang.Settings.Load

/-!
# The command line

Building a script lowers it and shows a summary, running it evaluates its expressions. Files are
read and written through a `FileAccess`, so that this holds for files on disk as well as for those
of a `FileTree`.
-/

namespace PoseLang.Cli

/-- What a use of the command line leads to: the texts on both channels, and the exit code. -/
structure Response where
  out : String := ""
  err : String := ""
  code : Nat := 0
deriving Repr, DecidableEq

namespace Response

/-- Adds a text to what was put out. -/
def say (r : Response) (text : String) : Response :=
  { r with out := r.out ++ text }

/-- Adds a text to the other channel. -/
def complain (r : Response) (text : String) : Response :=
  { r with err := r.err ++ text }

end Response

/-- The end of a command that cannot go on. -/
def fatal (d : Diagnostic) : Response :=
  { err := errorLine d, code := 2 }

/-- The text of a stage: the items that could be read, the listing of the program, or the program as
a document. -/
def Stage.text (s : Session) (r : Report) : Stage → String
  | .ast => String.join (r.items.filterMap fun i => i.item.map fun item => item.text ++ "\n")
  | .ir => s.context.program.text
  | .json => s.context.program.json.pretty

section

variable {m : Type → Type} [Monad m]

/-- The script and the settings of a command; the settings are looked at first. -/
def load (fs : FileAccess m) (file : String) (config : Option String) :
    m (Except Diagnostic (Script × Settings)) := do
  let settings ← match config with
    | none => pure (.ok Settings.standard)
    | some path => do
      let content ← fs.read path
      pure (Settings.ofFile path content)
  match settings with
  | .error e => return .error e.diagnostic
  | .ok settings =>
    match Script.ofFile file (← fs.read file) with
    | .error e => return .error e.diagnostic
    | .ok script => return .ok (script, settings)

/-- The end of a build: its result, and the exit code. -/
def closeBuild (report : Report) (r : Response) : Response :=
  let r := if report.hasFailures then r else r.say "build succeeded\n"
  { r with code := exitCode report }

/-- Builds a script: puts out its name and a summary, and what is to be shown of the result. -/
def build (fs : FileAccess m) (level : Log.Level) (file : String) (dump : Option Stage)
    (output config : Option String) : m Response := do
  match ← load fs file config with
  | .error d => return fatal d
  | .ok (script, settings) =>
    let start := Session.start { settings with evaluate := false }
    let (session, report) := start.compile script.name script.content
    let head : Response :=
      { out := script.name ++ "\n" ++ summary report ++ "\n"
        err := logLines report level ++ failureLines report }
    match dump, output with
    | none, _ => return closeBuild report head
    | some stage, none => return closeBuild report (head.say (stage.text session report))
    | some stage, some path =>
      match ← fs.write path (stage.text session report) with
      | .ok () => return closeBuild report (head.say ("wrote " ++ path ++ "\n"))
      | .error e =>
        return { head.complain ("error: cannot write " ++ path ++ ": " ++ e.text ++ "\n") with
          code := 2 }

/-- Runs a script: puts out the text that its evaluations write, and then their values. -/
def run (fs : FileAccess m) (level : Log.Level) (file : String) (config : Option String) :
    m Response := do
  match ← load fs file config with
  | .error d => return fatal d
  | .ok (script, settings) =>
    let start := Session.start { settings with evaluate := true }
    let (_, report) := start.compile script.name script.content
    let values := String.join (report.values.map fun v => v.text ++ "\n")
    let warning :=
      if report.hasFailures then
        "warning: " ++ toString report.failures.length ++ " of " ++ toString report.items.length ++
          " item(s) failed\n"
      else ""
    return {
      out := report.output ++ values
      err := logLines report level ++ warning ++ failureLines report
      code := exitCode report }

/-- The version of the program. -/
def versionText : String :=
  "posec 0.1.0\n"

/-- The commands and their options. -/
def helpText : String :=
  "Compiler front end for a small expression language with Pose2D records\n\n" ++
    "Usage: posec [OPTIONS] [COMMAND]\n\n" ++
    "Commands:\n" ++
    "  build <file> [-d ast|ir|json] [-o FILE] [-c FILE]\n" ++
    "  run <file> [-c FILE]\n" ++
    "  help\n\n" ++
    "Options:\n" ++
    "  -v, --verbose...\n" ++
    "  -q, --quiet\n" ++
    "  -h, --help\n" ++
    "  -V, --version\n"

/-- The response where arguments are not read to their end. -/
def Halt.response : Halt → Response
  | .help => { out := helpText }
  | .version => { out := versionText }
  | .misuse e => { err := "error: " ++ e.message ++ "\n", code := 2 }

/-- Does what arguments ask for. -/
def execute (fs : FileAccess m) (args : List String) : m Response :=
  match Invocation.ofArguments {} args with
  | .error h => return h.response
  | .ok ⟨level, some (.build file dump output config)⟩ => build fs level file dump output config
  | .ok ⟨level, some (.run file config)⟩ => run fs level file config
  | .ok ⟨_, none⟩ =>
    return {
      out := "No valid subcommand was used. Use --help for more information.\n"
      code := 2 }

end

end PoseLang.Cli
