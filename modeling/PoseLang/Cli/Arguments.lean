import PoseLang.Session.Log

/-!
# Arguments of the command line

The arguments of the command line: options of all commands, the name of a command, and what belongs
to it. An option is a letter behind one dash or a word behind two. Letters may stand together behind
one dash; the value of a letter may stand right behind it or behind a `=`, that of a word behind a
`=`, and otherwise it is the argument that follows. Behind `--` there are no options. Arguments are
taken up one after the other, and the first that cannot be used, or that asks for help, settles the
outcome.
-/

namespace PoseLang.Cli

/-- What a build can show of its result. -/
inductive Stage where
  | ast
  | ir
  | json
deriving Repr, DecidableEq

/-- A stage by its name. -/
def Stage.ofString? : String → Option Stage
  | "ast" => some .ast
  | "ir" => some .ir
  | "json" => some .json
  | _ => none

/-- The options. -/
inductive Switch where
  | verbose
  | quiet
  | help
  | version
  | dump
  | output
  | config
deriving Repr, DecidableEq

/-- Where options stand: before the name of a command, or behind it. -/
inductive Scope where
  | top
  | build
  | run
deriving Repr, DecidableEq

namespace Switch

/-- The letter of an option. -/
def letter : Switch → Char
  | .verbose => 'v'
  | .quiet => 'q'
  | .help => 'h'
  | .version => 'V'
  | .dump => 'd'
  | .output => 'o'
  | .config => 'c'

/-- The word of an option. -/
def word : Switch → String
  | .verbose => "verbose"
  | .quiet => "quiet"
  | .help => "help"
  | .version => "version"
  | .dump => "dump"
  | .output => "output"
  | .config => "config"

/-- Whether an option has a value. -/
def takesValue : Switch → Bool
  | .dump | .output | .config => true
  | _ => false

/-- The options of a scope. -/
def ofScope : Scope → List Switch
  | .top => [.verbose, .quiet, .help, .version]
  | .build => [.verbose, .quiet, .help, .dump, .output, .config]
  | .run => [.verbose, .quiet, .help, .config]

/-- The option of a scope that has a letter. -/
def ofLetter? (s : Scope) (c : Char) : Option Switch :=
  (ofScope s).find? (·.letter == c)

/-- The option of a scope that has a word. -/
def ofWord? (s : Scope) (w : String) : Option Switch :=
  (ofScope s).find? (·.word == w)

end Switch

/-- Why arguments cannot be used. -/
inductive Misuse where
  | unexpected (arg : String)
  | unknownCommand (name : String)
  | missingValue (option : Switch)
  | unneededValue (option : Switch)
  | invalidValue (option : Switch) (value : String)
  | repeated (option : Switch)
  | missingFile
  | emptyFile
deriving Repr, DecidableEq

/-- A misuse in words. -/
def Misuse.message : Misuse → String
  | .unexpected a => "unexpected argument '" ++ a ++ "' found"
  | .unknownCommand n => "unrecognized subcommand '" ++ n ++ "'"
  | .missingValue o => "a value is required for '--" ++ o.word ++ "' but none was supplied"
  | .unneededValue o => "unexpected value for '--" ++ o.word ++ "' found; no more were expected"
  | .invalidValue o v => "invalid value '" ++ v ++ "' for '--" ++ o.word ++ "'"
  | .repeated o => "the argument '--" ++ o.word ++ "' cannot be used multiple times"
  | .missingFile => "the following required arguments were not provided: <file>"
  | .emptyFile => "a value is required for '<file>' but none was supplied"

/-- What ends the reading of arguments early. -/
inductive Halt where
  | help
  | version
  | misuse (m : Misuse)
deriving Repr, DecidableEq

/-- A part of the arguments. -/
inductive Piece where
  | flag (option : Switch)
  | value (option : Switch) (text : String)
  | plain (text : String)
  | bad (m : Misuse)
deriving Repr, DecidableEq

namespace Piece

/-- The parts of letters that stand together, and the option that still wants its value. -/
def ofLetters (s : Scope) : List Char → List Piece × Option Switch
  | [] => ([], none)
  | c :: cs =>
    match Switch.ofLetter? s c with
    | none => ([.bad (.unexpected ("-" ++ c.toString))], none)
    | some o =>
      if o.takesValue then
        match cs with
        | [] => ([], some o)
        | '=' :: text => ([.value o (String.ofList text)], none)
        | text => ([.value o (String.ofList text)], none)
      else
        let (rest, wanting) := ofLetters s cs
        (.flag o :: rest, wanting)

/-- The part of a word, with what stands behind its `=`, and the option that still wants its
value. -/
def ofWord (s : Scope) (text : List Char) : List Piece × Option Switch :=
  let name := String.ofList (text.takeWhile (· != '='))
  let attached : Option String :=
    match text.dropWhile (· != '=') with
    | [] => none
    | _ :: behind => some (String.ofList behind)
  match Switch.ofWord? s name, attached with
  | none, _ => ([.bad (.unexpected ("--" ++ name))], none)
  | some o, some v => ([if o.takesValue then .value o v else .bad (.unneededValue o)], none)
  | some o, none => if o.takesValue then ([], some o) else ([.flag o], none)

/-- The parts of an argument, and the option that still wants its value. -/
def ofArgument (s : Scope) (arg : String) : List Piece × Option Switch :=
  match arg.toList with
  | '-' :: '-' :: text => ofWord s text
  | '-' :: c :: text => ofLetters s (c :: text)
  | _ => ([.plain arg], none)

/-- Whether an argument can be the value of the option before it. -/
def canBeValue (arg : String) : Bool :=
  match arg.toList with
  | '-' :: _ :: _ => false
  | _ => true

/-- The parts of arguments. -/
def ofArguments (s : Scope) : List String → List Piece
  | [] => []
  | "--" :: args => args.map .plain
  | arg :: args =>
    match ofArgument s arg with
    | (ps, none) => ps ++ ofArguments s args
    | (ps, some o) =>
      match args with
      | [] => ps ++ [.bad (.missingValue o)]
      | v :: args =>
        if canBeValue v then ps ++ .value o v :: ofArguments s args
        else ps ++ [.bad (.missingValue o)]

end Piece

/-- What arguments have given so far. -/
structure Given where
  verbose : Nat := 0
  quiet : Bool := false
  file : Option String := none
  dump : Option Stage := none
  output : Option String := none
  config : Option String := none
deriving Repr, DecidableEq

namespace Given

/-- Takes up a value, which has to be the first of its option. -/
def once {α : Type} (o : Switch) (old : Option α) (new : Option α) (text : String) :
    Except Halt (Option α) :=
  match new, old with
  | none, _ => .error (.misuse (.invalidValue o text))
  | some _, some _ => .error (.misuse (.repeated o))
  | some v, none => .ok (some v)

/-- A path, which must not be empty. -/
def path? (text : String) : Option String :=
  if text.isEmpty then none else some text

/-- Takes up a part of the arguments. -/
def take (g : Given) : Piece → Except Halt Given
  | .bad m => .error (.misuse m)
  | .flag .help => .error .help
  | .flag .version => .error .version
  | .flag .verbose => .ok { g with verbose := g.verbose + 1 }
  | .flag .quiet =>
    if g.quiet then .error (.misuse (.repeated .quiet)) else .ok { g with quiet := true }
  | .flag o => .error (.misuse (.missingValue o))
  | .value .dump text => do
    return { g with dump := ← once .dump g.dump (Stage.ofString? text) text }
  | .value .output text => do
    return { g with output := ← once .output g.output (path? text) text }
  | .value .config text => do
    return { g with config := ← once .config g.config (path? text) text }
  | .value o _ => .error (.misuse (.unneededValue o))
  | .plain text =>
    match g.file with
    | some _ => .error (.misuse (.unexpected text))
    | none => if text.isEmpty then .error (.misuse .emptyFile) else .ok { g with file := some text }

/-- Takes up parts one after the other. -/
def takeAll (g : Given) (ps : List Piece) : Except Halt Given :=
  ps.foldlM take g

end Given

/-- What is to be done. -/
inductive Command where
  | build (file : String) (dump : Option Stage) (output config : Option String)
  | run (file : String) (config : Option String)
deriving Repr, DecidableEq

/-- A use of the command line: how much of the log is shown, and what is to be done. -/
structure Invocation where
  level : Log.Level
  command : Option Command
deriving Repr, DecidableEq

namespace Invocation

/-- The gravest level is always shown; each demand for more shows one level more. -/
def levelFor (verbose : Nat) (quiet : Bool) : Log.Level :=
  if quiet then .error
  else
    match verbose with
    | 0 => .warn
    | 1 => .info
    | 2 => .debug
    | _ => .trace

/-- What counts of options that all commands have: what stands behind the command, if it stands
there. -/
def levelOf (top inner : Given) : Log.Level :=
  levelFor (if inner.verbose = 0 then top.verbose else inner.verbose) (inner.quiet || top.quiet)

/-- The use of a command with the arguments behind it. -/
def ofCommand (top : Given) (s : Scope) (args : List String)
    (make : String → Given → Command) : Except Halt Invocation := do
  let g ← ({} : Given).takeAll (Piece.ofArguments s args)
  match g.file with
  | none => throw (.misuse .missingFile)
  | some file => return ⟨levelOf top g, some (make file g)⟩

/-- A request for help about commands, which have to exist. -/
def ofHelp : List String → Halt
  | [] | ["build"] | ["run"] | ["help"] => .help
  | [name] => .misuse (.unknownCommand name)
  | name :: inner :: _ =>
    if name = "build" ∨ name = "run" ∨ name = "help" then .misuse (.unknownCommand inner)
    else .misuse (.unknownCommand name)

/-- The use that arguments describe, behind options that were given. -/
def ofArguments (top : Given) : List String → Except Halt Invocation
  | [] => .ok ⟨levelOf top {}, none⟩
  | "--" :: args =>
    match args with
    | [] => .ok ⟨levelOf top {}, none⟩
    | arg :: _ => .error (.misuse (.unexpected arg))
  | "build" :: args => ofCommand top .build args fun f g => .build f g.dump g.output g.config
  | "run" :: args => ofCommand top .run args fun f g => .run f g.config
  | "help" :: args => .error (ofHelp args)
  | arg :: args =>
    match Piece.ofArgument .top arg with
    | ([.plain name], _) => .error (.misuse (.unknownCommand name))
    | (ps, _) => do
      let top ← top.takeAll ps
      ofArguments top args

end Invocation

end PoseLang.Cli
