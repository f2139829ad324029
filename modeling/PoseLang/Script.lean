import PoseLang.Diagnostic
import PoseLang.FileTree
import PoseLang.Text.Blank

/-!
# Scripts

Scripts: source texts with the name that diagnostics give them.
-/

namespace PoseLang

/-- A source text, the name it goes by and the path it came from. -/
structure Script where
  name : String
  path : String
  content : String

namespace Script

/-- A text in memory; its name is its path too. -/
def ofSource (name content : String) : Script :=
  ⟨name, name, content⟩

/-- Whether a script holds nothing but blanks. -/
def isEmpty (s : Script) : Bool :=
  Text.allBlank s.content

/-- A script that cannot be read. -/
structure Error where
  path : String
  reason : FileError
deriving Repr, DecidableEq

/-- The failure as a diagnostic. -/
def Error.diagnostic (e : Error) : Diagnostic :=
  ⟨.critical, "posec.script", none, "cannot read script '" ++ e.path ++ "': " ++ e.reason.kind⟩

/-- A script from what was read from a file, named by the last name of its path. -/
def ofFile (path : String) (content : Except FileError String) : Except Error Script :=
  match content with
  | .ok text => .ok ⟨(FileTree.fileName? path).getD path, path, text⟩
  | .error reason => .error ⟨path, reason⟩

end Script

end PoseLang
