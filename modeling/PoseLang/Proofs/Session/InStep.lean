import PoseLang.Proofs.Lowering.Resolved
import PoseLang.Proofs.Session.Reached

/-!
# Prototypes and routines stay in step

A session has two tables: the prototypes of the functions that may be called, and the program with
their routines. Declarations, definitions, failures and expressions change them separately; between
two items they always agree (`Context.InStep`), and the program is whole: a routine without a body
gives a number, one with a body has the shape that it has to have, and every call goes to a routine of
the program that takes as many arguments and gives a value of the register's type.
-/

namespace PoseLang

open Prototype (anonymousName)

/-! ## Calls of a routine -/

/-- Whether an operation calls a function. -/
def Op.isCallOf (name : String) : Op → Bool
  | .call _ callee _ => callee == name
  | _ => false

theorem Op.eq_call {op : Op} {name : String} (h : op.isCallOf name = true) :
    ∃ dest args, op = .call dest name args := by
  unfold isCallOf at h
  split at h
  · exact ⟨_, _, congrArg (Op.call _ · _) (beq_iff_eq.mp h)⟩
  · cases h

/-- Every call of a lowered body goes to a routine of the program that it was checked against. -/
theorem Routine.Implements.callee {p : Program} {params : List String} {body : Expr} {r : Routine}
    {dest : Nat} {callee : String} {args : List Nat} (h : r.Implements p params body)
    (hcall : .call dest callee args ∈ r.ops) :
    ∃ f, p.get? callee = some f ∧ f.arity = args.length ∧
      r.regTypes[dest]? = some f.signature.ret := by
  cases h with
  | @lowered ctx b name result linked derived =>
    have returned : Builder.Adds ctx b (b.emit (.ret result)) := .emit (.of_isCall rfl)
    have added := derived.steps.adds.trans returned
    obtain ⟨blk, hblk, hop⟩ := List.mem_flatMap.mp hcall
    obtain ⟨i, hi⟩ := List.mem_iff_getElem?.mp hblk
    have hmem : .call dest callee args ∈ Builder.opsOf (b.emit (.ret result)).blocks i := by
      rw [Builder.opsOf, show (b.emit (.ret result)).blocks[i]? = some blk from hi]
      exact hop
    rcases added.resolved i _ hmem with hstart | hresolved
    · -- Parameters have no operations.
      rw [(Definition.bindParams_eq params).1] at hstart
      cases i <;> cases hstart
    · obtain ⟨target, hresolve, harity, hdest, hneeded⟩ := hresolved dest callee args rfl
      obtain ⟨f, hf, hfarity, hret⟩ := linked.target hresolve hneeded
      exact ⟨f, hf, hfarity.trans harity, hdest.trans (congrArg some hret.symm)⟩

/-! ## Compiled sources -/

/-- The prototypes and the program agree, nothing has the reserved name, and the program is whole. -/
structure Context.InStep (c : Context) : Prop where
  names : ∀ name, name ∈ c.prototypes ↔ name ∈ c.program.names
  anonymous : anonymousName ∉ c.prototypes ∧ anonymousName ∉ c.program.names
  arity : ∀ name proto r, c.prototypes[name]? = some proto → c.program.get? name = some r →
    proto.name = name ∧ proto.arity = r.arity
  external : ∀ r ∈ c.program.routines, r.isDeclaration = true → r.signature.ret = .f64
  shape : ∀ r ∈ c.program.routines, r.isDeclaration = false → r.verify = .ok ()
  calls : ∀ r ∈ c.program.routines, ∀ dest callee args, .call dest callee args ∈ r.ops →
    ∃ f ∈ c.program.routines, f.name = callee ∧ f.arity = args.length ∧
      r.regTypes[dest]? = some f.signature.ret

namespace Compiled

variable {records : Registry} {s : Source} {c : Context}

/-- No routine of a compiled source has a flaw. -/
theorem flaw?_eq_none (h : Compiled records s c) {name : String} {r : Routine}
    (hr : c.program.get? name = some r) : r.flaw? = none := by
  induction h generalizing name r with
  | start => cases hr
  | declare before declared ih =>
    obtain ⟨-, rfl⟩ := Context.declare_ok declared
    rw [Program.get?_declare] at hr
    split at hr
    · cases hr; rfl
    · exact ih hr
  | define before defined ih =>
    obtain ⟨-, rfl, -, -, -, -, -, hflaw⟩ := before.settled.define_ok defined
    rw [Program.get?_define] at hr
    split at hr
    · cases hr; exact hflaw
    · exact ih hr

theorem inStep (h : Compiled records s c) (hfree : c.program.get? anonymousName = none) : c.InStep := by
  have settled := h.settled
  have implemented := h.implemented
  have hnames : ∀ name, name ∈ c.prototypes ↔ name ∈ c.program.names := by
    intro name
    rw [Program.mem_names, ne_eq, ← settled.known, ← Std.ExtTreeMap.isSome_getElem?_iff_mem,
      Option.isSome_iff_ne_none]
  refine ⟨hnames, ?_, fun name proto r hproto hr => ?_, fun r hr hbodyless => ?_, fun r hr _ => ?_,
    fun r hr dest callee args hcall => ?_⟩
  · have habsent := Program.notMem_names hfree
    exact ⟨fun hmem => habsent ((hnames _).mp hmem), habsent⟩
  · exact ⟨settled.named hproto, (settled.arity hproto hr).symm⟩
  · obtain ⟨f, -, hstands⟩ := implemented.function (Program.get?_name hr)
    cases hstands with
    | declared => rfl
    | defined lowered => rw [lowered.isDeclaration] at hbodyless; cases hbodyless
  · rw [Routine.verify, h.flaw?_eq_none (Program.get?_name hr)]
  · obtain ⟨f, -, hstands⟩ := implemented.function (Program.get?_name hr)
    cases hstands with
    | declared => cases hcall
    | defined lowered =>
      obtain ⟨f, hf, harity, hret⟩ := lowered.callee hcall
      exact ⟨f, Program.mem_of_get? hf, Program.name_of_get? hf, harity, hret⟩

end Compiled

/-! ## Sessions -/

namespace Session

variable {settings : Settings} {s : Session}

/-- Prototypes and routines stay in step: between any two items of any compilation of a session the two
tables have the same names with the same numbers of parameters, nothing has the reserved name, and
the program is whole. -/
theorem Reached.in_step {ts : List Token} {done left : List Item.Reading} {between : Session}
    (h : Reached settings s) (hsplit : Item.readings s.dialect ts = done ++ left)
    (hbetween : (s.readings 0 done).1 = between) : between.context.InStep := by
  have settled := h.settled_between hsplit
  rw [hbetween] at settled
  obtain ⟨source, hcompiled⟩ := settled.compiled
  exact hcompiled.inStep settled.unnamed

/-- The tokens of a declaration, a definition that calls it and an expression that calls it. -/
def declareDefineCall : List Token :=
  { kind := .kwExtern } :: callTokens ++ { kind := .kwDef } ::
    { kind := .identifier, text := some "g" } :: { kind := .leftParen } :: { kind := .rightParen } ::
      callTokens ++ callTokens

/-- The session before the expression. -/
def defineSession : Session :=
  ((start plainSettings).readings 0
    ((Item.readings (start plainSettings).dialect declareDefineCall).take 2)).1

theorem Reached.in_step_define : defineSession.context.program.names = ["f", "g"] ∧
    "f" ∈ defineSession.context.prototypes ∧ anonymousName ∉ defineSession.context.prototypes ∧
    ∃ r ∈ defineSession.context.program.routines, ∃ dest args, .call dest "f" args ∈ r.ops ∧
      ∃ f ∈ defineSession.context.program.routines, f.name = "f" ∧ f.arity = args.length ∧
        r.regTypes[dest]? = some f.signature.ret := by
  have hnames : defineSession.context.program.names = ["f", "g"] := by decide +kernel
  have hcalls : defineSession.context.program.routines.any (·.ops.any (·.isCallOf "f")) = true := by
    decide +kernel
  have inStep : defineSession.context.InStep :=
    Reached.start.in_step (List.take_append_drop 2 _).symm rfl
  obtain ⟨r, hr, hops⟩ := List.any_eq_true.mp hcalls
  obtain ⟨op, hop, hcall⟩ := List.any_eq_true.mp hops
  obtain ⟨dest, args, rfl⟩ := Op.eq_call hcall
  refine ⟨hnames, (inStep.names "f").mpr ?_, inStep.anonymous.1, r, hr, dest, args, hop,
    inStep.calls r hr dest "f" args hop⟩
  rw [hnames]
  exact List.mem_cons_self

end Session

end PoseLang
