import PoseLang.Lowering.Definition

/-!
# The log of a compilation

The lines of a log are told by their level; which levels are shown is up to the reader.
-/

namespace PoseLang.Log

/-- The level of a line, from the gravest down. -/
inductive Level where
  | error
  | warn
  | info
  | debug
  | trace
deriving Repr, DecidableEq

namespace Level

/-- The place of a level in their order. -/
def rank : Level → Nat
  | .error => 0
  | .warn => 1
  | .info => 2
  | .debug => 3
  | .trace => 4

/-- The name of a level, filled up to five characters. -/
def tag : Level → String
  | .error => "ERROR"
  | .warn => "WARN "
  | .info => "INFO "
  | .debug => "DEBUG"
  | .trace => "TRACE"

end Level

/-- A line of the log. -/
structure Entry where
  level : Level
  text : String
deriving Repr, DecidableEq

/-- A line of the log as it is shown. -/
def Entry.line (e : Entry) : String :=
  e.level.tag ++ " " ++ e.text

/-- A prototype becomes known. -/
def registered (p : Prototype) : Entry :=
  ⟨.debug, "registered prototype " ++ p.text⟩

/-- What a declaration leaves in the log, given the context before it. -/
def ofDeclaration (c : Context) (p : Prototype)
    (result : Except LowerError (Signature × Context)) : List Entry :=
  match result with
  | .error _ => []
  | .ok _ =>
    registered p ::
      if c.program.contains p.name then [] else [⟨.debug, "declared " ++ p.text⟩]

/-- What a definition leaves in the log, given the context before it. If its body fails, the
prototype that its name had before becomes known again. -/
def ofDefinition (c : Context) (d : Definition)
    (result : Except LowerError (Routine × Context)) : List Entry :=
  match c.conflict? d.proto true with
  | some _ => []
  | none =>
    registered d.proto ::
      match result with
      | .error _ => (c.prototypes[d.proto.name]?).toList.map registered
      | .ok (r, after) =>
        let added := (after.program.names.drop c.program.size).filter (· != r.name)
        added.map (fun n => ⟨.debug, "declared " ++ n ++ " on first use"⟩) ++
          [⟨.debug, "defined " ++ r.name ++ " (" ++ toString r.blocks.length ++ " blocks)"⟩]

end PoseLang.Log
