import PoseLang.Diagnostic
import PoseLang.Expr.Basic
import PoseLang.Code.Verify

/-!
# Failures of lowering

Failures of lowering: what is wrong, the part of the source that it is wrong with, and the function
that this part belongs to.
-/

namespace PoseLang

/-- Why storage cannot be used for a record. -/
inductive StorageProblem where
  | noLayout (record : String)
  | notStorage (found : Ty)
  | fieldOutside (field : Nat) (record : String) (width : Nat)
deriving Repr, DecidableEq

/-- A problem with storage, in words. -/
def StorageProblem.message : StorageProblem → String
  | .noLayout r => "no record layout named '" ++ r ++ "'"
  | .notStorage t => "record destination has type " ++ t.text ++ ", not a record pointer"
  | .fieldOutside i r n =>
    "field " ++ toString i ++ " is outside record '" ++ r ++ "' (" ++ toString n ++ " fields)"

/-- What is wrong with a definition. -/
inductive LowerError.Cause where
  | unboundVariable (name : String)
  | unknownFunction (name : String)
  | arityMismatch (name : String) (expected found : Nat)
  | unsupportedOperator (op : Char)
  | allocationFailure (problem : StorageProblem)
  | typeMismatch (expected found : Ty)
  | redefinition (name : String)
  /-- The finished routine has a flaw. -/
  | invalidFunction (name : String) (flaw : Flaw)
deriving Repr, DecidableEq

/-- A cause in words. -/
def LowerError.Cause.message : LowerError.Cause → String
  | .unboundVariable n => "unbound variable '" ++ n ++ "'"
  | .unknownFunction n => "unknown function '" ++ n ++ "'"
  | .arityMismatch n e f =>
    "function '" ++ n ++ "' takes " ++ toString e ++ " argument(s) but " ++ toString f ++
      " were supplied"
  | .unsupportedOperator c => "unsupported binary operator '" ++ c.toString ++ "'"
  | .allocationFailure p => "allocation failure: " ++ p.message
  | .typeMismatch e f => "type mismatch: expected " ++ e.text ++ ", found " ++ f.text
  | .redefinition n => "function '" ++ n ++ "' cannot be redefined"
  | .invalidFunction n f => "invalid function: " ++ f.message n

/-- The part of the source that is being lowered. -/
inductive LowerError.Site where
  | expr (form : Expr.Form)
  | prototype
  | function
deriving Repr, DecidableEq

/-- The name of a part of the source. -/
def LowerError.Site.text : LowerError.Site → String
  | .expr f => f.text
  | .prototype => "Prototype"
  | .function => "Function"

/-- A failure of lowering. -/
structure LowerError where
  cause : LowerError.Cause
  site : LowerError.Site
  location : Option Location
  function : Option String := none
deriving Repr, DecidableEq

namespace LowerError

/-- A failure at an expression. -/
def atExpr (cause : Cause) (e : Expr) : LowerError :=
  { cause, site := .expr e.form, location := e.location }

/-- Notes the function that was being lowered, unless one is noted. -/
def inFunction (e : LowerError) (name : String) : LowerError :=
  { e with function := some (e.function.getD name) }

/-- The cause and the part of the source, in words. -/
def message (e : LowerError) : String :=
  let place := match e.function with
    | some f => " in '" ++ f ++ "'"
    | none => ""
  e.cause.message ++ " while lowering " ++ e.site.text ++ place

/-- The failure as a diagnostic. -/
def diagnostic (e : LowerError) : Diagnostic :=
  ⟨.error, "posec.ir.lower", e.location, e.message⟩

end LowerError

end PoseLang
