import PoseLang.Proofs.Code.Program
import PoseLang.Proofs.Lowering.Placed

/-!
# Contexts in which nothing is missing

What a definition does to a context if it succeeds: its body is lowered behind its parameters, and its
routine is added to the program. Along declarations and definitions every function whose prototype is
known has a routine with as many parameters (`Context.Settled`), so the only declaration that lowering
ever asks for is that of the function that is just being defined, and routines keep their types
(`Program.Extends`).
-/

namespace PoseLang

/-! ## Parameters -/

namespace Builder

/-- A new register for a parameter, which its name stands for. -/
def parameter (b : Builder) (p : String) : Builder :=
  ((b.newReg .f64).2.bind p b.regTypes.length).2

variable {b : Builder} {p : String}

theorem parameter_regTypes : (b.parameter p).regTypes = b.regTypes ++ [.f64] := rfl

theorem lookup?_parameter {name : String} {reg : Nat}
    (h : (b.parameter p).lookup? name = some reg) :
    p = name ∧ reg = b.regTypes.length ∨ p ≠ name ∧ b.lookup? name = some reg := by
  simp only [lookup?, parameter, bind, newReg, Std.ExtTreeMap.getElem?_insert] at h
  split at h
  next heq => exact .inl ⟨by simpa using heq, (Option.some.inj h).symm⟩
  next hne => exact .inr ⟨by simpa using hne, h⟩

theorem Ready.parameter (hb : b.Ready) : (b.parameter p).Ready := by
  refine ⟨hb.current_lt, fun {name reg} hname => ?_⟩
  rw [parameter_regTypes, List.length_append, List.length_singleton]
  rcases lookup?_parameter hname with ⟨-, rfl⟩ | ⟨-, hold⟩
  · exact Nat.lt_succ_self _
  · exact Nat.lt_succ_of_lt (hb.bound_lt hold)

end Builder

namespace Definition

variable {b : Builder}

/-- Parameters have no operations, and need no declarations. -/
theorem bindParams_eq (params : List String) : (bindParams params b).blocks = b.blocks ∧
    (bindParams params b).current = b.current ∧
    (bindParams params b).declarations = b.declarations ∧
    (bindParams params b).regTypes.length = b.regTypes.length + params.length := by
  induction params generalizing b with
  | nil => exact ⟨rfl, rfl, rfl, rfl⟩
  | cons p params ih =>
    obtain ⟨hblocks, hcurrent, hdeclarations, hlen⟩ := ih (b := b.parameter p)
    refine ⟨hblocks, hcurrent, hdeclarations, hlen.trans ?_⟩
    rw [Builder.parameter_regTypes, List.length_append, List.length_singleton, List.length_cons]
    omega

theorem ready_bindParams (params : List String) (hb : b.Ready) : (bindParams params b).Ready := by
  induction params generalizing b with
  | nil => exact hb
  | cons p params ih => exact ih hb.parameter

end Definition

theorem Builder.ready_start : Builder.start.Ready :=
  ⟨Nat.zero_lt_one, fun h => by simp [Builder.lookup?, Builder.start] at h⟩

/-! ## Definitions that succeed -/

section

variable {c : Context} {proto : Prototype} {d : Definition} {r : Routine}

theorem Context.arity_of_conflict? {defining : Bool} (h : c.conflict? proto defining = none)
    (hr : c.program.get? proto.name = some r) :
    r.arity = proto.params.length ∧ (defining = true → r.isDeclaration = true) := by
  simp only [conflict?, hr] at h
  split at h
  · cases h
  next hbody =>
    split at h
    · cases h
    next harity => exact ⟨Decidable.not_not.mp harity, by simpa using hbody⟩

theorem Definition.lowerBody_ok {result : Nat} {b' : Builder}
    (h : d.lowerBody c .start = .ok result b') :
    ∃ b, Lowered c d.body (bindParams d.proto.params .start) result b ∧
      b' = b.emit (.ret result) := by
  unfold lowerBody at h
  rw [Lower.modify_bind] at h
  obtain ⟨value, b, hlower, h⟩ := Lower.bind_ok.mp h
  rw [Lower.emit_bind] at h
  obtain ⟨rfl, rfl⟩ := Lower.pure_ok.mp h
  exact ⟨b, d.body.lowered_of_lower hlower, rfl⟩

theorem Definition.checkType_ok {assumed : Option Ty} {r' : Routine}
    (h : d.checkType assumed r = .ok r') :
    r' = r ∧ ∀ ty, assumed = some ty → r.signature.ret = ty := by
  unfold checkType at h
  split at h
  · cases h
    exact ⟨rfl, fun _ hty => by cases hty⟩
  next expected =>
    split at h
    next heq =>
      cases h
      exact ⟨rfl, fun _ hty => by cases hty; exact heq.symm⟩
    · cases h

theorem Definition.checkShape_ok {r' : Routine} (h : d.checkShape r = .ok r') :
    r' = r ∧ r.flaw? = none := by
  unfold checkShape at h
  split at h
  next hflaw => cases h; exact ⟨rfl, hflaw⟩
  next => cases h

/-- What a successful definition did: its body was lowered, its result has the type that was taken for
granted, and its routine has no flaw. -/
theorem Definition.build_ok {declarations : List Signature} (h : d.build c = .ok (r, declarations)) :
    ∃ b result, Lowered c d.body (bindParams d.proto.params .start) result b ∧
      r = (b.emit (.ret result)).finish ⟨d.proto.name, d.proto.params, b.typeAt result⟩ ∧
      declarations = b.declarations ∧
      (∀ ty, d.assumedType? c b.declarations = some ty → r.signature.ret = ty) ∧
      r.flaw? = none := by
  unfold build at h
  split at h
  · cases h
  next result b' hlower =>
    obtain ⟨b, hlowered, rfl⟩ := lowerBody_ok hlower
    obtain ⟨r₁, htype, h⟩ := Except.bind_ok h
    obtain ⟨r₂, hshape, h⟩ := Except.bind_ok h
    cases h
    obtain ⟨rfl, hret⟩ := checkType_ok htype
    obtain ⟨rfl, hflaw⟩ := checkShape_ok hshape
    exact ⟨b, result, hlowered, rfl, rfl, hret, hflaw⟩

theorem Context.declare_ok {s : Signature} {c' : Context} (h : c.declare proto = .ok (s, c')) :
    c.conflict? proto false = none ∧
      c' = { c.register proto with
        program := c.program.declare (.external proto.name proto.params) } := by
  unfold declare at h
  split at h
  · cases h
  next hfits =>
    refine ⟨hfits, ?_⟩
    dsimp only at h
    split at h
    next r hr =>
      cases h
      rw [Program.declare_of_get? (p := c.program) (s := .external proto.name proto.params) hr]
      rfl
    next => cases h; rfl

end

/-! ## Settled contexts -/

/-- Prototypes are known for the routines of the program and for no other functions, under their own
names and with as many parameters. -/
structure Context.Settled (c : Context) : Prop where
  named : ∀ {name : String} {proto : Prototype}, c.prototypes[name]? = some proto → proto.name = name
  known : ∀ {name : String}, c.prototypes[name]? = none ↔ c.program.get? name = none
  arity : ∀ {name : String} {proto : Prototype} {r : Routine}, c.prototypes[name]? = some proto →
    c.program.get? name = some r → r.arity = proto.params.length

theorem Context.settled_start (records : Registry) : (Context.start records).Settled := by
  constructor <;> simp [start, Program.get?, Program.empty]

section

variable {c : Context} {proto : Prototype} {d : Definition} {r : Routine}

theorem Context.getElem?_register (c : Context) (proto : Prototype) (name : String) :
    (c.register proto).prototypes[name]? =
      if proto.name = name then some proto else c.prototypes[name]? := by
  simp [register, Std.ExtTreeMap.getElem?_insert]

/-- A prototype that fits what the program has under its name leaves a context settled, once the
program has a routine for it. -/
theorem Context.Settled.register (h : c.Settled) {p : Program}
    (hget : ∀ name, proto.name ≠ name → p.get? name = c.program.get? name)
    (hr : p.get? proto.name = some r) (harity : r.arity = proto.params.length) :
    Context.Settled { c.register proto with program := p } := by
  refine ⟨fun {name q} hq => ?_, fun {name} => ?_, fun {name q r'} hq hr' => ?_⟩
  all_goals simp only [getElem?_register] at *
  · split at hq
    next heq => cases hq; exact heq
    next => exact h.named hq
  · by_cases heq : proto.name = name
    · subst heq
      simp [hr]
    · rw [if_neg heq, hget name heq]
      exact h.known
  · split at hq
    next heq =>
      subst heq
      cases hq
      cases hr.symm.trans hr'
      exact harity
    next hne => exact h.arity hq (hget name hne ▸ hr')

/-- While a function is lowered, the only declaration that is asked for is its own. -/
theorem Context.Settled.name_of_needed (h : c.Settled) {s : Signature}
    (hs : s.Needed (c.register proto)) : s.name = proto.name ∧ c.program.get? proto.name = none := by
  obtain ⟨name, q, hnone, hq, rfl⟩ := hs
  rw [getElem?_register] at hq
  split at hq
  next heq =>
    cases hq
    exact ⟨rfl, heq ▸ hnone⟩
  next =>
    have hnone' := h.known.mpr hnone
    rw [hq] at hnone'
    cases hnone'

theorem Context.Settled.name_of_declared (h : c.Settled) {e : Expr} {params : List String}
    {result : Nat} {b : Builder} {s : Signature}
    (hlowered : Lowered (c.register proto) e (Definition.bindParams params .start) result b)
    (hs : s ∈ b.declarations) : s.name = proto.name ∧ c.program.get? proto.name = none := by
  rcases hlowered.steps.notes.needed s hs with hstart | hneeded
  · rw [(Definition.bindParams_eq params).2.2.1] at hstart
    cases hstart
  · exact h.name_of_needed hneeded

/-- A definition adds its routine to the program, and nothing else. -/
theorem Context.Settled.define_ok {c' : Context} (hc : c.Settled) (h : c.define d = .ok (r, c')) :
    c.conflict? d.proto true = none ∧
      c' = { c.register d.proto with program := c.program.define r } ∧
      ∃ b result, Lowered (c.register d.proto) d.body
        (Definition.bindParams d.proto.params .start) result b ∧
        r = (b.emit (.ret result)).finish ⟨d.proto.name, d.proto.params, b.typeAt result⟩ ∧
        (∀ ty, d.assumedType? (c.register d.proto) b.declarations = some ty →
          r.signature.ret = ty) ∧
        r.flaw? = none := by
  unfold define at h
  split at h
  · cases h
  next hfits =>
    dsimp only at h
    split at h
    · cases h
    next routine declarations hbuild =>
      cases h
      obtain ⟨b, result, hlowered, rfl, rfl, hret, hflaw⟩ := Definition.build_ok hbuild
      refine ⟨hfits, ?_, b, result, hlowered, rfl, hret, hflaw⟩
      have hothers : b.declarations.filter (·.name != d.proto.name) = [] := by
        refine List.filter_eq_nil_iff.mpr fun s hs => ?_
        simp [(hc.name_of_declared hlowered hs).1]
      rw [commit]
      change ({ c.register d.proto with program := ((b.declarations.filter
        (·.name != d.proto.name)).foldl Program.declare c.program).define _ } : Context) = _
      rw [hothers]
      rfl

/-- The routine of a definition has its name and its parameters, and is what the program then has under
the name. -/
theorem Context.Settled.routine_of_define {c' : Context} (hc : c.Settled)
    (h : c.define d = .ok (r, c')) :
    r.name = d.proto.name ∧ r.arity = d.proto.params.length ∧
      c'.program.get? d.proto.name = some r := by
  obtain ⟨-, rfl, b, result, -, rfl, -⟩ := hc.define_ok h
  exact ⟨rfl, rfl, (Program.get?_define _ _ _).trans (if_pos rfl)⟩

end

/-! ## Programs that grow -/

/-- A program has the records of another one, and its routines by their types. -/
structure Program.Extends (p p' : Program) : Prop where
  records : p'.records = p.records
  routine : ∀ {name : String} {r : Routine}, p.get? name = some r →
    ∃ r', p'.get? name = some r' ∧ r'.arity = r.arity ∧ r'.signature.ret = r.signature.ret

section

variable {p : Program}

/-- A routine of some type is still there, or another one of that type is. -/
theorem Program.Extends.typed {p' : Program} (h : p.Extends p') {name : String} {arity : Nat} {ret : Ty}
    (hr : ∃ r, p.get? name = some r ∧ r.arity = arity ∧ r.signature.ret = ret) :
    ∃ r, p'.get? name = some r ∧ r.arity = arity ∧ r.signature.ret = ret := by
  obtain ⟨r, hr, rfl, rfl⟩ := hr
  exact h.routine hr

theorem Program.extends_declare (p : Program) (s : Signature) : p.Extends (p.declare s) := by
  refine ⟨records_declare p s, fun {name r} hr => ⟨r, ?_, rfl, rfl⟩⟩
  rw [get?_declare, if_neg]
  · exact hr
  · rintro ⟨rfl, hnone⟩
    rw [hr] at hnone
    cases hnone

theorem Program.extends_define {r : Routine}
    (h : ∀ {old}, p.get? r.name = some old → r.arity = old.arity ∧ r.signature.ret = old.signature.ret) :
    p.Extends (p.define r) := by
  refine ⟨records_define p r, fun {name old} hold => ?_⟩
  rw [get?_define]
  by_cases heq : r.name = name
  · subst heq
    exact ⟨r, if_pos rfl, h hold⟩
  · exact ⟨old, (if_neg heq).trans hold, rfl, rfl⟩

end

section

variable {c c' : Context} {proto : Prototype} {sig : Signature} {d : Definition} {r : Routine}

theorem Context.Settled.declare (h : c.Settled) (hdeclared : c.declare proto = .ok (sig, c')) :
    c'.Settled := by
  obtain ⟨hfits, rfl⟩ := declare_ok hdeclared
  have hget : ∀ name, proto.name ≠ name →
      (c.program.declare (.external proto.name proto.params)).get? name = c.program.get? name := by
    intro name hne
    rw [Program.get?_declare]
    exact if_neg fun hs => hne hs.1
  cases hr : c.program.get? proto.name with
  | none =>
    refine h.register hget (r := .declaration (.external proto.name proto.params)) ?_ rfl
    rw [Program.get?_declare]
    exact if_pos ⟨rfl, hr⟩
  | some r =>
    refine h.register hget (r := r) ?_ (arity_of_conflict? hfits hr).1
    rw [Program.declare_of_get? (s := .external proto.name proto.params) hr]
    exact hr

theorem Context.Settled.define (h : c.Settled) (hdefined : c.define d = .ok (r, c')) :
    c'.Settled := by
  obtain ⟨-, rfl, b, result, -, rfl, -⟩ := h.define_ok hdefined
  refine h.register (r := (b.emit (.ret result)).finish
    ⟨d.proto.name, d.proto.params, b.typeAt result⟩) (fun name hne => ?_) ?_ rfl
  · rw [Program.get?_define]
    exact if_neg hne
  · rw [Program.get?_define]
    exact if_pos rfl

/-- A function that has been declared keeps the type of its declaration when it is defined. -/
theorem Context.Settled.extends_define (h : c.Settled) (hdefined : c.define d = .ok (r, c')) :
    c.program.Extends (c.program.define r) := by
  obtain ⟨hfits, -, b, result, -, rfl, hret, -⟩ := h.define_ok hdefined
  refine Program.extends_define fun {old} hold => ?_
  have hold : c.program.get? d.proto.name = some old := hold
  refine ⟨(arity_of_conflict? hfits hold).1.symm, hret _ ?_⟩
  simp only [Definition.assumedType?, Context.register, hold]

end

end PoseLang
