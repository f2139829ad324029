import PoseLang.Cli.Execute

/-!
# The program

The program: the command line on the files of the machine.
-/

namespace PoseLang.Cli

/-- The number that the operating system gives to a failure; some calls report it negated. -/
def osCode (e : IO.Error) : Nat :=
  let code : UInt32 :=
    match e with
    | .noFileOrDirectory _ code _ | .inappropriateType _ code _ | .permissionDenied _ code _
    | .invalidArgument _ code _ => code
    | _ => 0
  code.toInt32.toInt.natAbs

/-- The reason behind a failure of the operating system. -/
def fileError (e : IO.Error) : FileError :=
  match osCode e with
  | 2 => .notFound
  | 13 => .denied
  | 20 => .notDirectory
  | 21 => .isDirectory
  | 36 => .nameTooLong
  | _ => .other (toString e)

/-- Reading and writing on disk. -/
def disk : FileAccess IO where
  read path := do
    try
      return FileTree.textOfBytes (← IO.FS.readBinFile path)
    catch e => return .error (fileError e)
  write path text := do
    try
      IO.FS.writeFile path text
      return .ok ()
    catch e => return .error (fileError e)

end PoseLang.Cli

/-- Does what the arguments ask for, and ends with the exit code. -/
def main (args : List String) : IO UInt32 := do
  let r ← PoseLang.Cli.execute PoseLang.Cli.disk args
  IO.print r.out
  IO.eprint r.err
  return r.code.toUInt32
