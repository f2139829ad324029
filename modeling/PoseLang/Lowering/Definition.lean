import PoseLang.Lowering.Expr

/-!
# Lowering of declarations and definitions

A definition is built apart from the program and enters it only when it is complete, together with
the declarations that its calls rely on; a definition that fails changes nothing.
-/

namespace PoseLang

namespace Definition

/-- The registers and the names of parameters: the first registers, in order, where a repeated name
stands for its last one. -/
def bindParams (params : List String) (b : Builder) : Builder :=
  params.foldl (fun b p =>
    let (reg, b) := b.newReg .f64
    (b.bind p reg).2) b

/-- The body with its end, and the register of its value. -/
def lowerBody (c : Context) (d : Definition) : Lower Nat := do
  modify (bindParams d.proto.params)
  let result ← d.body.lower c
  Lower.emit (.ret result)
  pure result

/-- The result type that is taken for granted: that of the routine the program has under the name,
or a number if the body calls the function itself. -/
def assumedType? (c : Context) (d : Definition) (declarations : List Signature) : Option Ty :=
  match c.program.get? d.proto.name with
  | some r => some r.signature.ret
  | none => if declarations.any (·.name == d.proto.name) then some .f64 else none

/-- A failure of the definition as a whole. -/
def failure (d : Definition) (cause : LowerError.Cause) : LowerError :=
  { cause, site := .function, location := d.proto.location }

/-- The routine, if it has no flaw. -/
def checkShape (d : Definition) (r : Routine) : Except LowerError Routine :=
  match r.flaw? with
  | none => .ok r
  | some flaw => .error (d.failure (.invalidFunction r.name flaw))

/-- The routine, if its result has the type that is taken for granted. -/
def checkType (d : Definition) (assumed : Option Ty) (r : Routine) : Except LowerError Routine :=
  match assumed with
  | none => .ok r
  | some expected =>
    if expected = r.signature.ret then .ok r
    else .error (d.failure (.typeMismatch expected r.signature.ret))

/-- The routine of a definition, and the declarations that it relies on. -/
def build (c : Context) (d : Definition) : Except LowerError (Routine × List Signature) :=
  match d.lowerBody c Builder.start with
  | .error e _ => .error e
  | .ok result b => do
    let ret := (b.typeOf? result).getD .f64
    let routine := b.finish ⟨d.proto.name, d.proto.params, ret⟩
    let routine ← d.checkType (d.assumedType? c b.declarations) routine
    let routine ← d.checkShape routine
    return (routine, b.declarations)

end Definition

namespace Context

/-- Why a prototype cannot have the name that it has: the function has a body already and a second
one is given, or it has another number of parameters. -/
def conflict? (c : Context) (p : Prototype) (defining : Bool) : Option LowerError.Cause :=
  match c.program.get? p.name with
  | none => none
  | some r =>
    if defining && !r.isDeclaration then some (.redefinition p.name)
    else if r.arity ≠ p.arity then some (.arityMismatch p.name r.arity p.arity)
    else none

/-- Makes a prototype known and declares it, unless the program has a routine under its name. Gives
the signature that the program has for it. -/
def declare (c : Context) (p : Prototype) : Except LowerError (Signature × Context) :=
  match c.conflict? p false with
  | some cause => .error { cause, site := .prototype, location := p.location }
  | none =>
    let c := c.register p
    match c.program.get? p.name with
    | some r => .ok (r.signature, c)
    | none =>
      let s := Signature.external p.name p.params
      .ok (s, { c with program := c.program.declare s })

/-- Adds a routine and the declarations that it relies on, its own apart. -/
def commit (c : Context) (r : Routine) (declarations : List Signature) : Context :=
  let others := declarations.filter (·.name != r.name)
  { c with program := (others.foldl Program.declare c.program).define r }

/-- Lowers a definition and adds it to the program. While its body is lowered its prototype is
known, so that it may call itself. -/
def define (c : Context) (d : Definition) : Except LowerError (Routine × Context) :=
  match c.conflict? d.proto true with
  | some cause => .error ((d.failure cause).inFunction d.proto.name)
  | none =>
    let inner := c.register d.proto
    match d.build inner with
    | .error e => .error (e.inFunction d.proto.name)
    | .ok (routine, declarations) => .ok (routine, inner.commit routine declarations)

end Context

end PoseLang
