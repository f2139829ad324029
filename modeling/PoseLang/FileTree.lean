/-!
# Trees of files

A tree of files, and what reading and writing by a path does on it. A path is a sequence of names
between slashes, read from the root of the tree: an empty name or `.` stays, `..` goes up. What lies
above the root, where absolute paths start too, is a directory of which nothing is known.
-/

namespace PoseLang

/-- Why a file cannot be read or written. -/
inductive FileError where
  | notFound
  | notDirectory
  | isDirectory
  | nameTooLong
  | nulInName
  | notText
  | denied
  | other (reason : String)
deriving Repr, DecidableEq

namespace FileError

/-- A reason in the words of the operating system. -/
def text : FileError → String
  | .notFound => "No such file or directory (os error 2)"
  | .notDirectory => "Not a directory (os error 20)"
  | .isDirectory => "Is a directory (os error 21)"
  | .nameTooLong => "File name too long (os error 36)"
  | .nulInName => "file name contained an unexpected NUL byte"
  | .notText => "stream did not contain valid UTF-8"
  | .denied => "Permission denied (os error 13)"
  | .other reason => reason

/-- The kind of a reason. -/
def kind : FileError → String
  | .notFound => "entity not found"
  | .notDirectory => "not a directory"
  | .isDirectory => "is a directory"
  | .nameTooLong => "invalid filename"
  | .nulInName => "invalid input parameter"
  | .notText => "invalid data"
  | .denied => "permission denied"
  | .other _ => "other error"

end FileError

/-- Files by the names that lead to them, and directories. Every directory that a file stands in is
there, named or not. -/
structure FileTree where
  files : List (List String × ByteArray)
  directories : List (List String)

namespace FileTree

/-- A tree without files. -/
def empty : FileTree :=
  ⟨[], []⟩

/-- What stands at a place. -/
inductive Entry where
  | file (content : ByteArray)
  | directory
  | missing

/-- A place in the tree by the names that lead to it, or somewhere above it. -/
abbrev Place :=
  Option (List String)

/-- What stands at a place. -/
def entry (t : FileTree) : Place → Entry
  | none => .directory
  | some names =>
    match t.files.find? (·.1 == names) with
    | some f => .file f.2
    | none =>
      if names.isEmpty || t.directories.contains names || t.files.any (names.isPrefixOf ·.1) then
        .directory
      else .missing

/-- The place that a name leads to from a directory. -/
def child (place : Place) (name : String) : Place :=
  if name = "" || name = "." then place
  else
    match place with
    | none => if name = ".." then none else some ["", name]
    | some names =>
      if name = ".." then
        match names with
        | [] => none
        | _ => some names.dropLast
      else some (names ++ [name])

/-- Follows names from a place; all but the last have to lead to directories. -/
def walk (t : FileTree) (place : Place) : List String → Except FileError Place
  | [] => .ok place
  | name :: names =>
    match t.entry place with
    | .file _ => .error .notDirectory
    | .missing => .error .notFound
    | .directory =>
      if 255 < name.utf8ByteSize then .error .nameTooLong else walk t (child place name) names

/-- The names of a path, and whether it starts and ends with a slash. -/
structure Path where
  absolute : Bool
  names : List String
  trailing : Bool

/-- A path from its text. -/
def Path.ofString (path : String) : Path :=
  let chars := path.toList
  let body := (chars.reverse.dropWhile (· == '/')).reverse
  { absolute := chars.head? == some '/'
    names := (String.ofList body).splitOn "/"
    trailing := chars.getLast? == some '/' }

/-- The place where a path starts. -/
def Path.start (p : Path) : Place :=
  if p.absolute then none else some []

/-- A path from its text, if a file can have it. -/
def Path.parse (path : String) : Except FileError Path := do
  if path.isEmpty then throw .notFound
  if path.toList.contains (Char.ofNat 0) then throw .nulInName
  if 4096 ≤ path.utf8ByteSize then throw .nameTooLong
  return Path.ofString path

/-- The bytes of a file. -/
def readBytes (t : FileTree) (path : String) : Except FileError ByteArray := do
  let p ← Path.parse path
  match t.entry (← t.walk p.start p.names) with
  | .file content => if p.trailing then throw .notDirectory else return content
  | .directory => throw .isDirectory
  | .missing => throw .notFound

/-- The text that bytes stand for. -/
def textOfBytes (bytes : ByteArray) : Except FileError String :=
  match String.fromUTF8? bytes with
  | some text => .ok text
  | none => .error .notText

/-- The text of a file. -/
def read (t : FileTree) (path : String) : Except FileError String := do
  textOfBytes (← t.readBytes path)

/-- The tree with a file at a place. -/
def put (t : FileTree) (names : List String) (content : ByteArray) : FileTree :=
  { t with files := (names, content) :: t.files.filter (·.1 != names) }

/-- The tree with a text put into a file, which may be a new one in a directory that exists. The
last name of a path that ends with a slash is taken for a directory and not looked up: only the
directory that it stands in has to be there. -/
def write (t : FileTree) (path text : String) : Except FileError FileTree := do
  let p ← Path.parse path
  let place ← t.walk p.start (if p.trailing then p.names.dropLast ++ ["."] else p.names)
  if p.trailing then throw .isDirectory
  match t.entry place, place with
  | .directory, _ | _, none => throw .isDirectory
  | _, some names => return t.put names text.toUTF8

/-- The tree with a file and the directories that its path goes through. -/
def withFile (t : FileTree) (path : String) (content : ByteArray) : FileTree :=
  let names := path.splitOn "/"
  let through := (names.dropLast.scanl child (some [])).filterMap id
  let t := { t with directories := through ++ t.directories }
  match names.foldl child (some []) with
  | some place => if names.getLast? == some "" then t else t.put place content
  | none => t

/-- The last name of a path, if it is one and does not go up. -/
def fileName? (path : String) : Option String :=
  match ((path.splitOn "/").filter fun n => n != "" && n != ".").getLast? with
  | some ".." => none
  | name => name

end FileTree

/-- Ways to read and write files by their paths. -/
structure FileAccess (m : Type → Type) where
  read : String → m (Except FileError String)
  write : String → String → m (Except FileError Unit)

/-- Reading and writing in a tree. -/
def FileTree.access : FileAccess (StateM FileTree) where
  read path := return (← get).read path
  write path text := do
    match (← get).write path text with
    | .ok t =>
      set t
      return .ok ()
    | .error e => return .error e

end PoseLang
