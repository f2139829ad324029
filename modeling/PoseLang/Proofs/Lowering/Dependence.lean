import PoseLang.Proofs.Lowering.Settled

/-!
# What lowering depends on

Of a context, lowering an expression looks at the records and at the targets of the functions that the
expression calls, and at nothing else (`Expr.lower_congr`). A definition also looks at what the program
has under its own name (`Context.define_congr`). What else is compiled in between makes no difference,
neither to the routine nor to the failure.
-/

namespace PoseLang

/-! ## The functions that are called -/

namespace Expr

mutual

/-- The names of the functions that an expression calls, in the order in which the calls are lowered:
a call behind its arguments, and the body of a loop in front of its step and its test. -/
def callees : Expr → List String
  | .num _ _ => []
  | .var _ _ => []
  | .binary _ _ l r => l.callees ++ r.callees
  | .call _ f args => calleesArgs args ++ [f]
  | .cond _ c t e => c.callees ++ t.callees ++ e.callees
  | .loop _ _ start test stepBy body =>
    start.callees ++ body.callees ++ calleesStep stepBy ++ test.callees
  | .alloc _ _ => []
  | .construct _ destination fields => destination.callees ++ calleesFields fields

/-- The names of the functions that arguments call. -/
def calleesArgs : List Expr → List String
  | [] => []
  | e :: es => e.callees ++ calleesArgs es

/-- The names of the functions that a step calls. -/
def calleesStep : Option Expr → List String
  | none => []
  | some e => e.callees

/-- The names of the functions that field values call. -/
def calleesFields : List (Nat × Expr) → List String
  | [] => []
  | (_, e) :: fields => e.callees ++ calleesFields fields

end

end Expr

/-! ## Expressions -/

/-- Contexts that have the same records, and the same targets for some names. -/
structure Context.Agree (c c' : Context) (names : List String) : Prop where
  records : c.program.records = c'.program.records
  resolve : ∀ name ∈ names, c.resolve? name = c'.resolve? name

section

variable {c c' : Context} {names others : List String}

theorem Context.Agree.left (h : c.Agree c' (names ++ others)) : c.Agree c' names :=
  ⟨h.records, fun name hname => h.resolve name (List.mem_append_left _ hname)⟩

theorem Context.Agree.right (h : c.Agree c' (names ++ others)) : c.Agree c' others :=
  ⟨h.records, fun name hname => h.resolve name (List.mem_append_right _ hname)⟩

theorem Lower.widthOf_congr (h : c.Agree c' names) (record : String) (e : Expr) :
    widthOf c record e = widthOf c' record e := by
  rw [widthOf, widthOf, h.records]

end

namespace Expr

open Lower

variable {c c' : Context}

mutual

/-- An expression is lowered alike in contexts that agree on the functions that it calls. -/
theorem lower_congr : ∀ e : Expr, c.Agree c' e.callees → e.lower c = e.lower c'
  | .num _ _, _ => rfl
  | .var _ _, _ => rfl
  | .binary loc op left right, h => by
    rw [callees] at h
    simp only [lower, lower_congr left h.left, lower_congr right h.right]
  | .call loc callee args, h => by
    rw [callees] at h
    have hcallee := h.right.resolve callee (List.mem_singleton_self callee)
    simp only [lower, hcallee, lowerArgs_congr args h.left]
  | .cond _ condition thenBranch elseBranch, h => by
    rw [callees] at h
    simp only [lower, lower_congr condition h.left.left, lower_congr thenBranch h.left.right,
      lower_congr elseBranch h.right]
  | .loop _ v start test stepBy body, h => by
    rw [callees] at h
    simp only [lower, lower_congr start h.left.left.left, lower_congr body h.left.left.right,
      lowerStep_congr stepBy h.left.right, lower_congr test h.right]
  | .alloc loc record, h => by
    simp only [lower, widthOf_congr h]
  | .construct loc destination fields, h => by
    rw [callees] at h
    simp only [lower, lower_congr destination h.left, widthOf_congr h,
      lowerFields_congr fields h.right]

theorem lowerArgs_congr : ∀ es : List Expr, c.Agree c' (calleesArgs es) →
    lowerArgs c es = lowerArgs c' es
  | [], _ => rfl
  | e :: es, h => by
    rw [calleesArgs] at h
    simp only [lowerArgs, lower_congr e h.left, lowerArgs_congr es h.right]

theorem lowerStep_congr : ∀ stepBy : Option Expr, c.Agree c' (calleesStep stepBy) →
    lowerStep c stepBy = lowerStep c' stepBy
  | none, _ => rfl
  | some e, h => by
    rw [calleesStep] at h
    simp only [lowerStep, lower_congr e h]

theorem lowerFields_congr : ∀ fields : List (Nat × Expr), c.Agree c' (calleesFields fields) →
    ∀ (whole : Expr) (base : Nat) (record : String) (width : Nat),
      lowerFields c whole base record width fields = lowerFields c' whole base record width fields
  | [], _ => fun _ _ _ _ => rfl
  | (i, e) :: fields, h => fun whole base record width => by
    rw [calleesFields] at h
    simp only [lowerFields, lower_congr e h.left,
      lowerFields_congr fields h.right whole base record width]

end

end Expr

/-! ## Definitions -/

section

variable {c c' : Context} {d : Definition}

theorem Definition.build_congr (hagree : c.Agree c' d.body.callees)
    (hown : c.program.get? d.proto.name = c'.program.get? d.proto.name) :
    d.build c = d.build c' := by
  simp only [build, lowerBody, assumedType?, Expr.lower_congr d.body hagree, hown]

/-- Making a prototype known does not change the target of another name. -/
theorem Context.resolve?_register (c : Context) {proto : Prototype} {name : String}
    (hne : proto.name ≠ name) : (c.register proto).resolve? name = c.resolve? name := by
  simp only [resolve?, getElem?_register, if_neg hne]
  rfl

theorem Context.resolve?_register_self (c : Context) (proto : Prototype) :
    (c.register proto).resolve? proto.name =
      some (((c.program.get? proto.name).map fun r => .routine r.signature).getD
        (.prototype (.external proto.name proto.params))) := by
  have hprogram : (c.register proto).program = c.program := rfl
  simp only [resolve?, getElem?_register, if_true, hprogram]
  cases c.program.get? proto.name <;> rfl

/-- What becomes of a definition: its routine, or its failure. -/
def Context.defined (c : Context) (d : Definition) : Except LowerError Routine :=
  (c.define d).map Prod.fst

/-- The same becomes of a definition in contexts that agree on the functions that it calls and have the
same routine under its name. -/
theorem Context.define_congr (hagree : c.Agree c' d.body.callees)
    (hown : c.program.get? d.proto.name = c'.program.get? d.proto.name) :
    c.defined d = c'.defined d := by
  have hconflict : c.conflict? d.proto true = c'.conflict? d.proto true := by
    rw [conflict?, conflict?, hown]
  have hinner : (c.register d.proto).Agree (c'.register d.proto) d.body.callees := by
    refine ⟨hagree.records, fun name hname => ?_⟩
    by_cases heq : d.proto.name = name
    · subst heq
      rw [resolve?_register_self, resolve?_register_self, hown]
    · rw [resolve?_register c heq, resolve?_register c' heq]
      exact hagree.resolve name hname
  have hbuild : d.build (c.register d.proto) = d.build (c'.register d.proto) :=
    Definition.build_congr hinner hown
  unfold defined define
  rw [hconflict]
  cases c'.conflict? d.proto true with
  | some cause => rfl
  | none =>
    dsimp only
    rw [hbuild]
    cases d.build (c'.register d.proto) <;> rfl

end

end PoseLang
