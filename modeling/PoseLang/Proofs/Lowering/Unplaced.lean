import PoseLang.Lowering.Definition
import PoseLang.Proofs.Item.Unplaced

/-!
# Lowering without places

Lowering keeps places only in its errors, and in the prototypes that become known. Where it looks at a
tree, it looks at its form; where it looks at the context, it looks at names, parameters and routines. So
taking the places away commutes with lowering, and the routines are the same.
-/

namespace PoseLang

/-- A failure of lowering without its place. -/
def LowerError.unplaced (e : LowerError) : LowerError :=
  { e with location := none }

/-- A context without the places of prototypes. -/
def Context.unplaced (c : Context) : Context :=
  { c with prototypes := c.prototypes.map fun _ p => p.unplaced }

@[simp] theorem Context.program_unplaced (c : Context) : c.unplaced.program = c.program := rfl

theorem Context.getElem?_unplaced (c : Context) (name : String) :
    c.unplaced.prototypes[name]? = (c.prototypes[name]?).map Prototype.unplaced :=
  Std.ExtTreeMap.getElem?_map

@[simp] theorem Context.resolve?_unplaced (c : Context) (name : String) :
    c.unplaced.resolve? name = c.resolve? name := by
  unfold resolve?
  rw [getElem?_unplaced, program_unplaced]
  cases c.program.get? name with
  | some r => rfl
  | none => cases c.prototypes[name]? <;> rfl

/-! ## Expressions -/

namespace Lower

variable {α β : Type}

/-- A computation whose failure is without its place. -/
def unplaced (x : Lower α) : Lower α :=
  EStateM.adaptExcept LowerError.unplaced x

@[simp] theorem unplaced_bind (x : Lower α) (f : α → Lower β) :
    unplaced (x >>= f) = unplaced x >>= fun a => unplaced (f a) := by
  funext b
  simp only [unplaced, EStateM.adaptExcept, bind, EStateM.bind]
  cases x b <;> rfl

@[simp] theorem unplaced_pure (a : α) : unplaced (pure a : Lower α) = pure a := rfl

@[simp] theorem unplaced_step (f : Builder → α × Builder) : unplaced (step f) = step f := rfl

@[simp] theorem unplaced_get : unplaced (get : Lower Builder) = get := rfl

@[simp] theorem unplaced_modify (f : Builder → Builder) :
    unplaced (modify f : Lower Unit) = modify f := rfl

@[simp] theorem unplaced_emit (op : Op) : unplaced (emit op) = emit op := rfl

@[simp] theorem unplaced_newReg (ty : Ty) : unplaced (newReg ty) = newReg ty := rfl

@[simp] theorem unplaced_current : unplaced current = current := rfl

@[simp] theorem unplaced_typeOf (reg : Nat) : unplaced (typeOf reg) = typeOf reg := rfl

@[simp] theorem unplaced_failAt (cause : LowerError.Cause) (e : Expr) :
    unplaced (failAt cause e : Lower α) = failAt cause e.unplaced := by
  have herror : (LowerError.atExpr cause e).unplaced = .atExpr cause e.unplaced := by
    simp only [LowerError.unplaced, LowerError.atExpr, Expr.form_unplaced, Expr.location_unplaced]
  funext b
  change EStateM.Result.error (LowerError.atExpr cause e).unplaced b = .error _ b
  rw [herror]

@[simp] theorem unplaced_expectType (reg : Nat) (ty : Ty) (e : Expr) :
    unplaced (expectType reg ty e) = expectType reg ty e.unplaced := by
  unfold expectType
  rw [unplaced_bind, unplaced_typeOf]
  congr
  funext found
  split
  · rfl
  · exact unplaced_failAt _ e

@[simp] theorem unplaced_widthOf (c : Context) (record : String) (e : Expr) :
    unplaced (widthOf c record e) = widthOf c.unplaced record e.unplaced := by
  unfold widthOf
  rw [Context.program_unplaced]
  cases c.program.records[record]? with
  | some layout => rfl
  | none => exact unplaced_failAt _ e

@[simp] theorem unplaced_recordOf (reg : Nat) (e : Expr) :
    unplaced (recordOf reg e) = recordOf reg e.unplaced := by
  unfold recordOf
  rw [unplaced_bind, unplaced_typeOf]
  congr
  funext found
  cases found with
  | ptr record => rfl
  | f64 => exact unplaced_failAt _ e
  | bool => exact unplaced_failAt _ e

end Lower

namespace Expr

open Lower

variable (c : Context)

mutual

/-- Lowering a tree without places gives what lowering the tree gives, and fails without places. -/
theorem lower_unplaced : ∀ e : Expr, e.unplaced.lower c.unplaced = Lower.unplaced (e.lower c)
  | .num _ _ => rfl
  | .var loc name => by
    simp only [Expr.unplaced, lower, unplaced_bind, unplaced_get]
    congr
    funext b
    cases b.lookup? name with
    | some reg => rfl
    | none => exact (unplaced_failAt _ (.var loc name)).symm
  | .binary loc op left right => by
    simp only [Expr.unplaced, lower, unplaced_bind, unplaced_expectType, unplaced_newReg,
      lower_unplaced left, lower_unplaced right]
    cases Arith.ofChar? op with
    | some kind => rfl
    | none => simp only [unplaced_failAt, Expr.unplaced]
  | .call loc callee args => by
    simp only [Expr.unplaced, lower, Context.resolve?_unplaced]
    cases c.resolve? callee with
    | none => simp only [unplaced_failAt, Expr.unplaced]
    | some target =>
      have hlength : (unplacedArgs args).length = args.length := by
        rw [unplacedArgs_eq, List.length_map]
      simp only [hlength, lowerArgs_unplaced args]
      split
      · simp only [unplaced_failAt, Expr.unplaced]
      · cases target <;>
          simp only [unplaced_bind, unplaced_modify, unplaced_newReg, unplaced_emit, unplaced_pure]
  | .cond loc condition thenBranch elseBranch => by
    simp only [Expr.unplaced, lower, unplaced_bind, unplaced_expectType, unplaced_newReg, unplaced_emit,
      unplaced_step, unplaced_modify, unplaced_current, unplaced_typeOf, unplaced_pure,
      lower_unplaced condition, lower_unplaced thenBranch, lower_unplaced elseBranch]
  | .loop loc v start test stepBy body => by
    simp only [Expr.unplaced, lower, unplaced_bind, unplaced_expectType, unplaced_newReg, unplaced_emit,
      unplaced_step, unplaced_modify, unplaced_current, lower_unplaced start, lower_unplaced test,
      lowerStep_unplaced stepBy, lower_unplaced body]
  | .alloc loc record => by
    simp only [Expr.unplaced, lower, unplaced_bind, unplaced_widthOf, unplaced_newReg, unplaced_emit,
      unplaced_pure]
  | .construct loc destination fields => by
    have hfields (base : Nat) (record : String) (width : Nat) :=
      lowerFields_unplaced fields (.construct loc destination fields) base record width
    simp only [Expr.unplaced] at hfields
    simp only [Expr.unplaced, lower, unplaced_bind, unplaced_recordOf, unplaced_widthOf, unplaced_pure,
      lower_unplaced destination, hfields]

theorem lowerArgs_unplaced : ∀ es : List Expr,
    lowerArgs c.unplaced (unplacedArgs es) = Lower.unplaced (lowerArgs c es)
  | [] => rfl
  | e :: es => by
    simp only [unplacedArgs, lowerArgs, unplaced_bind, unplaced_expectType, unplaced_pure,
      lower_unplaced e, lowerArgs_unplaced es]

theorem lowerStep_unplaced : ∀ stepBy : Option Expr,
    lowerStep c.unplaced (unplacedStep stepBy) = Lower.unplaced (lowerStep c stepBy)
  | none => rfl
  | some e => by
    simp only [unplacedStep, lowerStep, unplaced_bind, unplaced_expectType, unplaced_pure,
      lower_unplaced e]

theorem lowerFields_unplaced : ∀ (fields : List (Nat × Expr)) (whole : Expr) (base : Nat)
    (record : String) (width : Nat),
    lowerFields c.unplaced whole.unplaced base record width (unplacedFields fields) =
      Lower.unplaced (lowerFields c whole base record width fields)
  | [], _, _, _, _ => rfl
  | (i, e) :: fields, whole, base, record, width => by
    simp only [unplacedFields, lowerFields]
    split
    · simp only [unplaced_failAt]
    · simp only [unplaced_bind, unplaced_expectType, unplaced_newReg, unplaced_emit, lower_unplaced e,
        lowerFields_unplaced fields whole base record width]

end

end Expr

/-! ## Declarations and definitions -/

namespace Definition

variable (c : Context) (d : Definition)

theorem lowerBody_unplaced : d.unplaced.lowerBody c.unplaced = Lower.unplaced (d.lowerBody c) := by
  simp only [lowerBody, Lower.unplaced_bind, Lower.unplaced_modify, Lower.unplaced_emit,
    Lower.unplaced_pure, ← Expr.lower_unplaced]
  rfl

theorem assumedType?_unplaced (declarations : List Signature) :
    d.unplaced.assumedType? c.unplaced declarations = d.assumedType? c declarations := rfl

theorem checkType_unplaced (assumed : Option Ty) (r : Routine) :
    d.unplaced.checkType assumed r = (d.checkType assumed r).mapError LowerError.unplaced := by
  cases assumed with
  | none => rfl
  | some expected =>
    unfold checkType
    dsimp only
    by_cases hret : expected = r.signature.ret
    · rw [if_pos hret, if_pos hret]
      rfl
    · rw [if_neg hret, if_neg hret]
      rfl

theorem checkShape_unplaced (r : Routine) :
    d.unplaced.checkShape r = (d.checkShape r).mapError LowerError.unplaced := by
  unfold checkShape
  cases r.flaw? <;> rfl

theorem build_unplaced :
    d.unplaced.build c.unplaced = (d.build c).mapError LowerError.unplaced := by
  unfold build
  rw [lowerBody_unplaced, Lower.unplaced, EStateM.adaptExcept]
  cases d.lowerBody c Builder.start with
  | error e b => rfl
  | ok result b =>
    simp only [assumedType?_unplaced, checkType_unplaced, checkShape_unplaced]
    simp only [show d.unplaced.proto.name = d.proto.name from rfl,
      show d.unplaced.proto.params = d.proto.params from rfl]
    cases hchecked : d.checkType (d.assumedType? c b.declarations)
      (b.finish ⟨d.proto.name, d.proto.params, (b.typeOf? result).getD .f64⟩) with
    | error e => rfl
    | ok r =>
      cases hshape : d.checkShape r with
      | error e => simp only [mapError_ok, mapError_error, bind, Except.bind, hshape]
      | ok r => simp only [mapError_ok, bind, Except.bind, hshape]; rfl

end Definition

namespace Context

variable (c : Context)

/-- What comes out of an addition to a context, without places. -/
def unplacedResult {α : Type} (r : Except LowerError (α × Context)) :
    Except LowerError (α × Context) :=
  (r.map fun p => (p.1, p.2.unplaced)).mapError LowerError.unplaced

theorem register_unplaced (p : Prototype) :
    c.unplaced.register p.unplaced = (c.register p).unplaced := by
  have hmap : (c.unplaced.register p.unplaced).prototypes = (c.register p).unplaced.prototypes := by
    apply Std.ExtTreeMap.ext_getElem?
    intro name
    rw [getElem?_unplaced]
    simp only [register, Std.ExtTreeMap.getElem?_insert, getElem?_unplaced,
      apply_ite (Option.map Prototype.unplaced)]
    rfl
  exact congrArg (Context.mk · c.program) hmap

theorem forget_unplaced (name : String) : c.unplaced.forget name = (c.forget name).unplaced := by
  have hmap : (c.unplaced.forget name).prototypes = (c.forget name).unplaced.prototypes := by
    apply Std.ExtTreeMap.ext_getElem?
    intro other
    rw [getElem?_unplaced]
    simp only [forget, Std.ExtTreeMap.getElem?_erase, getElem?_unplaced,
      apply_ite (Option.map Prototype.unplaced)]
    rfl
  exact congrArg (Context.mk · c.program) hmap

theorem declare_unplaced (p : Prototype) :
    c.unplaced.declare p.unplaced = unplacedResult (c.declare p) := by
  have hconflict : c.unplaced.conflict? p.unplaced false = c.conflict? p false := rfl
  unfold declare
  rw [hconflict, register_unplaced]
  cases c.conflict? p false with
  | some cause => rfl
  | none =>
    have hget : (c.register p).unplaced.program.get? p.unplaced.name =
        (c.register p).program.get? p.name := rfl
    dsimp only
    rw [hget]
    cases (c.register p).program.get? p.name <;> rfl

theorem define_unplaced (d : Definition) :
    c.unplaced.define d.unplaced = unplacedResult (c.define d) := by
  have hconflict : c.unplaced.conflict? d.unplaced.proto true = c.conflict? d.proto true := rfl
  have hinner : c.unplaced.register d.unplaced.proto = (c.register d.proto).unplaced :=
    c.register_unplaced d.proto
  unfold define
  rw [hconflict, hinner]
  cases c.conflict? d.proto true with
  | some cause => rfl
  | none =>
    dsimp only
    rw [Definition.build_unplaced]
    cases d.build (c.register d.proto) <;> rfl

end Context

end PoseLang
