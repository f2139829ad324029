import PoseLang.Location
import PoseLang.Decimal.Format

/-!
# Expressions

Expressions of the language, as trees. Every node remembers where it was written; two trees are the
same when they agree up to these places. Beyond its place a node has no identity: nothing in the language
asks for one, so that nodes are not numbered. The text of a tree is an S-expression.
-/

namespace PoseLang

/-- An expression. The first argument of every form is its place in the source. -/
inductive Expr where
  | num (loc : Option Location) (value : Float)
  | var (loc : Option Location) (name : String)
  | binary (loc : Option Location) (op : Char) (left right : Expr)
  | call (loc : Option Location) (callee : String) (args : List Expr)
  | cond (loc : Option Location) (condition thenBranch elseBranch : Expr)
  /-- Runs the body with the variable at its start value, and again with the variable increased by
  the step as long as the test does not give zero. -/
  | loop (loc : Option Location) (var : String) (start test : Expr) (step : Option Expr)
      (body : Expr)
  /-- Fresh storage for a record. -/
  | alloc (loc : Option Location) (record : String)
  /-- Storage with values put into some of its fields, each given by its position. -/
  | construct (loc : Option Location) (destination : Expr) (fields : List (Nat × Expr))
deriving Inhabited

namespace Expr

/-- The place of an expression. -/
def location : Expr → Option Location
  | .num l _ | .var l _ | .binary l _ _ _ | .call l _ _ | .cond l _ _ _ | .loop l _ _ _ _ _
  | .alloc l _ | .construct l _ _ => l

/-- The forms of expressions, as diagnostics name them. -/
inductive Form where
  | num
  | var
  | binary
  | call
  | cond
  | loop
  | alloc
  | construct
deriving Repr, DecidableEq

/-- The form of an expression. -/
def form : Expr → Form
  | .num .. => .num
  | .var .. => .var
  | .binary .. => .binary
  | .call .. => .call
  | .cond .. => .cond
  | .loop .. => .loop
  | .alloc .. => .alloc
  | .construct .. => .construct

/-- The name of a form. -/
def Form.text : Form → String
  | .num => "Number"
  | .var => "Variable"
  | .binary => "BinaryOp"
  | .call => "Call"
  | .cond => "If"
  | .loop => "For"
  | .alloc => "Allocate"
  | .construct => "RecordConstruct"

mutual

/-- The text of an expression. -/
def text : Expr → String
  | .num _ x => Decimal.plain.text x
  | .var _ name => name
  | .binary _ op l r => "(" ++ op.toString ++ " " ++ l.text ++ " " ++ r.text ++ ")"
  | .call _ f args => "(call " ++ f ++ textArgs args ++ ")"
  | .cond _ c t e => "(if " ++ c.text ++ " " ++ t.text ++ " " ++ e.text ++ ")"
  | .loop _ v s t st b =>
    "(for " ++ v ++ " " ++ s.text ++ " " ++ t.text ++ textStep st ++ " " ++ b.text ++ ")"
  | .alloc _ r => "(alloc " ++ r ++ ")"
  | .construct _ d fs => "(record " ++ d.text ++ textFields fs ++ ")"

/-- The text of arguments, each behind a blank. -/
def textArgs : List Expr → String
  | [] => ""
  | e :: es => " " ++ e.text ++ textArgs es

/-- The text of a step, behind a blank if there is one. -/
def textStep : Option Expr → String
  | none => ""
  | some e => " " ++ e.text

/-- The text of field values, each behind a blank and its position. -/
def textFields : List (Nat × Expr) → String
  | [] => ""
  | (i, e) :: fs => " [" ++ toString i ++ "]=" ++ e.text ++ textFields fs

end

mutual

/-- Whether two expressions agree up to places, numbers being compared as numbers. -/
def same : Expr → Expr → Bool
  | .num _ x, .num _ y => x == y
  | .var _ a, .var _ b => a == b
  | .binary _ o l r, .binary _ o' l' r' => o == o' && l.same l' && r.same r'
  | .call _ f as, .call _ f' as' => f == f' && sameArgs as as'
  | .cond _ c t e, .cond _ c' t' e' => c.same c' && t.same t' && e.same e'
  | .loop _ v s t st b, .loop _ v' s' t' st' b' =>
    v == v' && s.same s' && t.same t' && sameStep st st' && b.same b'
  | .alloc _ r, .alloc _ r' => r == r'
  | .construct _ d fs, .construct _ d' fs' => d.same d' && sameFields fs fs'
  | _, _ => false
termination_by structural e => e

/-- Whether two lists of arguments agree up to places. -/
def sameArgs : List Expr → List Expr → Bool
  | [], [] => true
  | e :: es, e' :: es' => e.same e' && sameArgs es es'
  | _, _ => false
termination_by structural es => es

/-- Whether two steps agree up to places. -/
def sameStep : Option Expr → Option Expr → Bool
  | none, none => true
  | some e, some e' => e.same e'
  | _, _ => false
termination_by structural st => st

/-- Whether two lists of field values agree up to places. -/
def sameFields : List (Nat × Expr) → List (Nat × Expr) → Bool
  | [], [] => true
  | (i, e) :: fs, (i', e') :: fs' => i == i' && e.same e' && sameFields fs fs'
  | _, _ => false
termination_by structural fs => fs

end

end Expr

end PoseLang
