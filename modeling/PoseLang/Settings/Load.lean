import PoseLang.FileTree
import PoseLang.Settings.Json

/-!
# Settings from a file

Settings from a file: it has to be readable, hold settings as JSON, and nothing may be wrong with
them.
-/

namespace PoseLang.Settings

/-- Why there are no settings. -/
inductive Error.Cause where
  | unreadable (reason : FileError)
  | malformed
  | flawed (flaw : Flaw)
deriving Repr, DecidableEq

/-- A failure to get settings, with the file that they were to come from. -/
structure Error where
  cause : Error.Cause
  path : Option String
deriving Repr, DecidableEq

/-- A text with the file behind it. -/
def Error.withPath (text : String) : Option String → String
  | some p => text ++ " (" ++ p ++ ")"
  | none => text

/-- A failure in words. -/
def Error.message (e : Error) : String :=
  match e.cause with
  | .unreadable reason => withPath ("read config: " ++ reason.text) e.path
  | .malformed => "parse config"
  | .flawed flaw => withPath flaw.message e.path

/-- The failure as a diagnostic. -/
def Error.diagnostic (e : Error) : Diagnostic :=
  ⟨.critical, "posec.config", none, e.message⟩

/-- Settings with nothing wrong with them. -/
def validate (s : Settings) : Except Error Unit :=
  match s.flaw? with
  | none => .ok ()
  | some flaw => .error ⟨.flawed flaw, none⟩

/-- Settings from a text. -/
def ofText (text : String) : Except Error.Cause Settings :=
  match (Json.parse? text).bind ofJson? with
  | none => .error .malformed
  | some s =>
    match s.flaw? with
    | none => .ok s
    | some flaw => .error (.flawed flaw)

/-- Settings from what was read from a file. -/
def ofFile (path : String) (content : Except FileError String) : Except Error Settings :=
  match content with
  | .error reason => .error ⟨.unreadable reason, some path⟩
  | .ok text => (ofText text).mapError fun cause => ⟨cause, some path⟩

end PoseLang.Settings
