import PoseLang.Location
import PoseLang.Text.Quoted

/-!
# Diagnostics

Diagnostics: what any failure of the compiler looks like from outside. A failure has a severity, the
part of the compiler that issues it, a message and, if it concerns a place in the source, that
place.
-/

namespace PoseLang

/-- The severity of a diagnostic, from the mildest up. -/
inductive Level where
  | info
  | warning
  | error
  | critical
deriving Repr, DecidableEq

namespace Level

/-- The place of a severity in their order. -/
def rank : Level → Nat
  | .info => 0
  | .warning => 1
  | .error => 2
  | .critical => 3

instance : LT Level :=
  ⟨fun a b => a.rank < b.rank⟩

instance (a b : Level) : Decidable (a < b) :=
  inferInstanceAs (Decidable (a.rank < b.rank))

/-- The name of a severity in reports. -/
def text : Level → String
  | .info => "INFO"
  | .warning => "WARNING"
  | .error => "ERROR"
  | .critical => "CRITICAL"

/-- The name of a severity in the inspected form of a diagnostic. -/
def word : Level → String
  | .info => "Info"
  | .warning => "Warning"
  | .error => "Error"
  | .critical => "Critical"

end Level

/-- A failure as it is reported. -/
structure Diagnostic where
  level : Level
  issuer : String
  location : Option Location
  message : String
deriving Repr, DecidableEq

namespace Diagnostic

/-- The span of the place that the diagnostic concerns. -/
def span (d : Diagnostic) : Option Span :=
  d.location.map Span.point

/-- The message, followed by its place if it has one. -/
def text (d : Diagnostic) : String :=
  match d.location with
  | some l => d.message ++ " (at " ++ l.text ++ ")"
  | none => d.message

/-- The diagnostic as a line with all its parts but the issuer. -/
def report (d : Diagnostic) : String :=
  let place := match d.location with
    | some l => l.text
    | none => "unknown location"
  " | ".intercalate ["POSEC", d.level.text, place, d.message]

/-- The diagnostic as a line for the terminal: the place in front of the message. -/
def line (d : Diagnostic) : String :=
  match d.location with
  | some l => l.text ++ ": " ++ d.message
  | none => d.message

/-- A location field by field. -/
def inspectLocation (l : Location) : String :=
  "Location \x7b file: " ++ Text.quoted l.file ++ ", line: " ++ toString l.line ++ ", column: " ++
    toString l.column ++ " \x7d"

/-- The diagnostic field by field, with its texts quoted. -/
def inspect (d : Diagnostic) : String :=
  let place := match d.location with
    | some l => "Some(" ++ inspectLocation l ++ ")"
    | none => "None"
  "PosecError \x7b level: " ++ d.level.word ++ ", issuer: " ++ Text.quoted d.issuer ++
    ", location: " ++ place ++ ", message: " ++ Text.quoted d.message ++ " \x7d"

end Diagnostic

end PoseLang
