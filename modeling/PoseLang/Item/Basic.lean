import PoseLang.Expr.Basic

/-!
# Items

Items: what a source text is a sequence of. A definition gives a prototype a body, a declaration
announces a prototype that is implemented elsewhere, and an expression stands for itself; it is
compiled as the body of a function without parameters under a reserved name.
-/

namespace PoseLang

/-- The name and the parameters of a function. -/
structure Prototype where
  name : String
  params : List String
  location : Option Location := none
deriving Repr, DecidableEq, Inhabited

namespace Prototype

/-- The number of parameters. -/
def arity (p : Prototype) : Nat :=
  p.params.length

/-- The text of a prototype, its parameters separated by blanks. -/
def text (p : Prototype) : String :=
  p.name ++ "(" ++ " ".intercalate p.params ++ ")"

/-- The name that expressions are compiled under. -/
def anonymousName : String :=
  "anon_expr"

/-- The prototype that an expression is compiled under. -/
def anonymous (location : Option Location) : Prototype :=
  ⟨anonymousName, [], location⟩

end Prototype

/-- A function with its body. -/
structure Definition where
  proto : Prototype
  body : Expr
deriving Inhabited

/-- The text of a definition. -/
def Definition.text (d : Definition) : String :=
  "def " ++ d.proto.text ++ " " ++ d.body.text

/-- The function that an expression is compiled as. -/
def Definition.anonymous (location : Option Location) (body : Expr) : Definition :=
  ⟨.anonymous location, body⟩

/-- One unit of a source text. -/
inductive Item where
  | definition (d : Definition)
  | declaration (p : Prototype)
  | expression (location : Option Location) (body : Expr)

namespace Item

/-- The name that an item is compiled under. -/
def name : Item → String
  | .definition d => d.proto.name
  | .declaration p => p.name
  | .expression _ _ => Prototype.anonymousName

/-- The text of an item. -/
def text : Item → String
  | .definition d => d.text
  | .declaration p => "extern " ++ p.text
  | .expression _ e => e.text

end Item

end PoseLang
