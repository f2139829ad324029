import PoseLang.Proofs.Lowering.Settled
import PoseLang.Proofs.Meaning.Evaluation

/-!
# Compiled sources

A program implements a source if it has a routine for each of its functions: a declaration for a
function without a body, the lowered body for one with a body (`Source.Implemented`). A source grows by
declarations and definitions, and the context in which it is compiled grows along with it (`Compiled`).
The only declaration that lowering asks for on the way is that of the function that is just being
defined, so that the program implements the source (`Compiled.implemented`).
-/

namespace PoseLang

/-! ## Programs that fit a context -/

/-- A program has what was known when a routine was lowered: the records, the routines by their types,
and those that were declared for the routine. -/
structure Context.Linked (ctx : Context) (declared : List Signature) (p : Program) : Prop where
  records : p.records = ctx.program.records
  named : ∀ {name : String} {proto : Prototype}, ctx.prototypes[name]? = some proto →
    proto.name = name
  routine : ∀ {name : String} {r : Routine}, ctx.program.get? name = some r →
    ∃ r', p.get? name = some r' ∧ r'.arity = r.arity ∧ r'.signature.ret = r.signature.ret
  queued : ∀ {s : Signature} {proto : Prototype}, s ∈ declared → ctx.prototypes[s.name]? = some proto →
    ∃ r', p.get? s.name = some r' ∧ r'.arity = proto.params.length ∧ r'.signature.ret = .f64

section

variable {p p' : Program} {ctx : Context} {declared : List Signature}

/-- The routine that a call goes to has the signature that the call was checked against, if what had to
be declared for the call was. -/
theorem Context.Linked.target {callee : String} {target : Target}
    (h : ctx.Linked declared p) (resolved : ctx.resolve? callee = some target)
    (hdeclared : ∀ s, target = .prototype s → ∃ s' ∈ declared, s'.name = s.name) :
    ∃ r', p.get? callee = some r' ∧ r'.arity = target.signature.arity ∧
      r'.signature.ret = target.signature.ret := by
  unfold Context.resolve? at resolved
  cases hknown : ctx.program.get? callee with
  | some old =>
    rw [hknown] at resolved
    cases resolved
    exact h.routine hknown
  | none =>
    rw [hknown] at resolved
    obtain ⟨proto, hproto, heq⟩ := Option.map_eq_some_iff.mp resolved
    subst heq
    obtain ⟨s, hs, hname⟩ := hdeclared _ rfl
    obtain rfl : s.name = callee := hname.trans (h.named hproto)
    exact h.queued hs hproto

theorem Context.Linked.mono (h : ctx.Linked declared p) (he : p.Extends p') :
    ctx.Linked declared p' where
  records := he.records.trans h.records
  named := h.named
  routine := fun hr => he.typed (h.routine hr)
  queued := fun hs hproto => he.typed (h.queued hs hproto)

end

/-! ## Programs that implement sources -/

/-- A routine is the lowered form of a body: lowered in a context that fits the program, and ended with
the value's way back. -/
inductive Routine.Implements (p : Program) (params : List String) (body : Expr) : Routine → Prop
  | lowered {ctx : Context} {b : Builder} {name : String} {result : Nat}
    (linked : ctx.Linked b.declarations p)
    (derived : Lowered ctx body (Definition.bindParams params .start) result b) :
    Implements p params body ((b.emit (.ret result)).finish ⟨name, params, b.typeAt result⟩)

/-- A routine stands for a function of a source: it takes as many numbers, and is a declaration or the
lowered body. -/
inductive SourceFunction.Stands (p : Program) : SourceFunction → Routine → Prop
  | declared {params params' : List String} {name : String} (arity : params'.length = params.length) :
    Stands p ⟨params, none⟩ (.declaration (.external name params'))
  | defined {params : List String} {body : Expr} {r : Routine} (lowered : r.Implements p params body) :
    Stands p ⟨params, some body⟩ r

/-- A program has routines for the functions of a source, and for no others. -/
structure Source.Implemented (s : Source) (p : Program) : Prop where
  records : s.records = p.records
  missing : ∀ {name : String}, s.functions[name]? = none ↔ p.get? name = none
  stands : ∀ {name : String} {f : SourceFunction} {r : Routine}, s.functions[name]? = some f →
    p.get? name = some r → f.Stands p r

section

variable {s : Source} {p p' : Program} {name : String} {f : SourceFunction} {r : Routine}

theorem Routine.Implements.isDeclaration {params : List String} {body : Expr}
    (h : r.Implements p params body) : r.isDeclaration = false := by
  cases h with
  | @lowered _ b _ result linked derived =>
    have hlt := (derived.grown (Definition.ready_bindParams params Builder.ready_start)).1.current_lt
    have hne : (b.emit (.ret result)).blocks ≠ [] :=
      List.ne_nil_of_length_pos (by rw [Builder.emit_blocks_length]; exact Nat.zero_lt_of_lt hlt)
    simpa [Routine.isDeclaration, Builder.finish] using hne

theorem SourceFunction.Stands.arity (h : f.Stands p r) : r.arity = f.params.length := by
  cases h with
  | declared arity => exact arity
  | defined lowered => cases lowered with | lowered => rfl

theorem Source.Implemented.function (h : s.Implemented p) (hr : p.get? name = some r) :
    ∃ f, s.functions[name]? = some f ∧ f.Stands p r := by
  cases hf : s.functions[name]? with
  | none => exact absurd (h.missing.mp hf) (by simp [hr])
  | some f => exact ⟨f, rfl, h.stands hf hr⟩

theorem SourceFunction.Stands.mono (h : f.Stands p r) (he : p.Extends p') : f.Stands p' r := by
  cases h with
  | declared arity => exact .declared arity
  | defined lowered =>
    cases lowered with
    | lowered linked derived => exact .defined (.lowered (linked.mono he) derived)

end

/-! ## Sources that grow -/

namespace Source

/-- The source without functions. -/
def empty (records : Registry) : Source :=
  ⟨records, ∅⟩

/-- The source with a function that is implemented elsewhere, unless it has the function already. -/
def declare (s : Source) (p : Prototype) : Source :=
  if p.name ∈ s.functions then s
  else { s with functions := s.functions.insert p.name ⟨p.params, none⟩ }

/-- The source with a function and its body. -/
def define (s : Source) (d : Definition) : Source :=
  { s with functions := s.functions.insert d.proto.name ⟨d.proto.params, some d.body⟩ }

end Source

section

variable {s : Source} {c c' : Context} {proto : Prototype} {sig : Signature} {d : Definition}
  {r : Routine}

/-- A source with one function more is implemented by a program with its routine. -/
theorem Source.Implemented.insert {p p' : Program} {name : String} {f : SourceFunction}
    (h : s.Implemented p) (he : p.Extends p')
    (hget : ∀ n, p'.get? n = if name = n then some r else p.get? n) (hf : f.Stands p' r) :
    Source.Implemented { s with functions := s.functions.insert name f } p' := by
  have hfunctions : ∀ n, (s.functions.insert name f)[n]? =
      if name = n then some f else s.functions[n]? := by
    simp [Std.ExtTreeMap.getElem?_insert]
  refine ⟨h.records.trans he.records.symm, fun {n} => ?_, fun {n f' r'} hf' hr' => ?_⟩
  · rw [hfunctions, hget]
    by_cases heq : name = n
    · simp [heq]
    · simpa [heq] using h.missing
  · rw [hfunctions] at hf'
    rw [hget] at hr'
    by_cases heq : name = n
    · rw [if_pos heq] at hf' hr'
      cases hf'
      cases hr'
      exact hf
    · rw [if_neg heq] at hf' hr'
      exact (h.stands hf' hr').mono he

theorem Source.Implemented.declare (h : s.Implemented c.program)
    (hdeclared : c.declare proto = .ok (sig, c')) : (s.declare proto).Implemented c'.program := by
  obtain ⟨-, rfl⟩ := Context.declare_ok hdeclared
  have he := c.program.extends_declare (.external proto.name proto.params)
  cases hr : c.program.get? proto.name with
  | some r =>
    have hmem : proto.name ∈ s.functions := by
      obtain ⟨f, hf, -⟩ := h.function hr
      exact Std.ExtTreeMap.isSome_getElem?_iff_mem.mp (by rw [hf]; rfl)
    rw [Source.declare, if_pos hmem,
      Program.declare_of_get? (s := .external proto.name proto.params) hr]
    exact h
  | none =>
    have hmem : proto.name ∉ s.functions := by
      rw [← Std.ExtTreeMap.isSome_getElem?_iff_mem, h.missing.mpr hr]
      simp
    rw [Source.declare, if_neg hmem]
    refine h.insert he (r := .declaration (.external proto.name proto.params)) (fun name => ?_)
      (.declared rfl)
    rw [Program.get?_declare]
    by_cases heq : proto.name = name
    · exact (if_pos ⟨heq, hr⟩).trans (if_pos heq).symm
    · exact (if_neg fun hs => heq hs.1).trans (if_neg heq).symm

theorem Source.Implemented.define (hc : c.Settled) (h : s.Implemented c.program)
    (hdefined : c.define d = .ok (r, c')) : (s.define d).Implemented c'.program := by
  have he := hc.extends_define hdefined
  obtain ⟨-, rfl, b, result, hlowered, rfl, hret, -⟩ := hc.define_ok hdefined
  have hget : ∀ name, (c.program.define ((b.emit (.ret result)).finish
      ⟨d.proto.name, d.proto.params, b.typeAt result⟩)).get? name = _ := Program.get?_define _ _
  refine h.insert he hget (.defined (.lowered ?_ hlowered))
  refine ⟨he.records, fun {name proto} hproto => ?_, fun hr => he.routine hr, fun {s proto} hs hproto => ?_⟩
  · rw [Context.getElem?_register] at hproto
    split at hproto
    next heq => cases hproto; exact heq
    next => exact hc.named hproto
  · -- The function calls itself: its prototype is known, and a number was taken for granted.
    obtain ⟨hname, hnone⟩ := hc.name_of_declared hlowered hs
    rw [hname, Context.getElem?_register, if_pos rfl] at hproto
    cases hproto
    refine ⟨_, (hget _).trans (if_pos hname.symm), rfl, hret _ ?_⟩
    have hany : b.declarations.any (·.name == d.proto.name) = true :=
      List.any_eq_true.mpr ⟨s, hs, by simpa using hname⟩
    simp only [Definition.assumedType?, Context.register, hnone, hany, if_true]

end

/-- A source has been compiled, declaration by declaration and definition by definition. -/
inductive Compiled (records : Registry) : Source → Context → Prop
  | start : Compiled records (.empty records) (.start records)
  | declare {s : Source} {c c' : Context} {p : Prototype} {sig : Signature} (before : Compiled records s c)
    (declared : c.declare p = .ok (sig, c')) : Compiled records (s.declare p) c'
  | define {s : Source} {c c' : Context} {d : Definition} {r : Routine} (before : Compiled records s c)
    (defined : c.define d = .ok (r, c')) : Compiled records (s.define d) c'

namespace Compiled

variable {records : Registry} {s : Source} {c : Context}

theorem settled (h : Compiled records s c) : c.Settled := by
  induction h with
  | start => exact Context.settled_start records
  | declare _ declared ih => exact ih.declare declared
  | define _ defined ih => exact ih.define defined

theorem records_eq (h : Compiled records s c) : c.program.records = records := by
  induction h with
  | start => rfl
  | declare before declared ih =>
    obtain ⟨-, rfl⟩ := Context.declare_ok declared
    exact (Program.records_declare _ _).trans ih
  | define before defined ih =>
    obtain ⟨-, rfl, -⟩ := before.settled.define_ok defined
    exact (Program.records_define _ _).trans ih

/-- The program has a routine for each function of the source that is what the function is. -/
theorem implemented (h : Compiled records s c) : s.Implemented c.program := by
  induction h with
  | start => constructor <;> simp [Source.empty, Context.start, Program.get?, Program.empty]
  | declare _ declared ih => exact ih.declare declared
  | define before defined ih => exact ih.define before.settled defined

end Compiled

end PoseLang
