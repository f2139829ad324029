import PoseLang.Proofs.Lowering.Dependence
import PoseLang.Proofs.Lowering.Flawless
import PoseLang.Proofs.Lowering.Typing

/-!
# Lowering accepts what is well typed

A definition is lowered if and only if it is well typed (`Definition.WellTyped`): nothing else has a body
under its name, a declaration of it fits, and its body has a type that agrees with what is taken for
granted about its result. The body is lowered because it has a type; the routine is never refused for
its shape; and what is taken for granted is told by the declaration, or else by whether the body calls
the function itself, since the declarations that a body asks for are those of the functions that it
calls (`Lowered.declarations_eq`).
-/

namespace PoseLang

/-! ## The declarations that a body asks for -/

namespace Context

/-- Every prototype is known under its own name. -/
def Keyed (c : Context) : Prop :=
  ∀ (name : String) (proto : Prototype), c.prototypes[name]? = some proto → proto.name = name

theorem keyed_start (records : Registry) : (start records).Keyed := by
  intro name proto h
  simp [start] at h

theorem Keyed.register {c : Context} (hc : c.Keyed) (proto : Prototype) :
    (c.register proto).Keyed := by
  intro name q hq
  rw [getElem?_register] at hq
  split at hq
  next heq =>
    cases hq
    exact heq
  next => exact hc name q hq

theorem Keyed.forget {c : Context} (hc : c.Keyed) (name : String) : (c.forget name).Keyed := by
  intro other q hq
  have hget : (c.forget name).prototypes[other]? = if compare name other = .eq then none
      else c.prototypes[other]? := Std.ExtTreeMap.getElem?_erase
  rw [hget] at hq
  split at hq
  next => cases hq
  next => exact hc other q hq

/-- Declarations with the one that a call asks for: that of a function of which only the prototype is
known, unless there is one of that name. -/
def note (c : Context) (declared : List Signature) (callee : String) : List Signature :=
  match c.resolve? callee with
  | some (.prototype s) => if declared.any (·.name == s.name) then declared else declared ++ [s]
  | _ => declared

/-- Only the prototype of a function is known. -/
def Lacks (c : Context) (name : String) : Prop :=
  c.program.get? name = none ∧ c.prototypes[name]? ≠ none

variable {c : Context}

theorem mem_note (hc : c.Keyed) (declared : List Signature) (callee name : String) :
    name ∈ (c.note declared callee).map Signature.name ↔
      name ∈ declared.map Signature.name ∨ name = callee ∧ c.Lacks callee := by
  unfold note resolve? Lacks
  cases hget : c.program.get? callee with
  | some r => simp
  | none =>
    cases hproto : c.prototypes[callee]? with
    | none => simp
    | some proto =>
      have hname : proto.name = callee := hc callee proto hproto
      simp only [Option.map_some, Signature.external, hname]
      split
      next hnoted =>
        simp only [List.any_eq_true, beq_iff_eq] at hnoted
        obtain ⟨s, hs, hsname⟩ := hnoted
        constructor
        · exact .inl
        · rintro (hold | ⟨rfl, -⟩)
          · exact hold
          · exact List.mem_map.mpr ⟨s, hs, hsname⟩
      next => simp

theorem mem_foldl_note (hc : c.Keyed) (names : List String) (declared : List Signature)
    (name : String) :
    name ∈ (names.foldl c.note declared).map Signature.name ↔
      name ∈ declared.map Signature.name ∨ name ∈ names ∧ c.Lacks name := by
  induction names generalizing declared with
  | nil => simp
  | cons callee names ih =>
    rw [List.foldl_cons, ih, mem_note hc, List.mem_cons]
    constructor
    · rintro ((hold | ⟨rfl, hlacks⟩) | ⟨hmem, hlacks⟩)
      · exact .inl hold
      · exact .inr ⟨.inl rfl, hlacks⟩
      · exact .inr ⟨.inr hmem, hlacks⟩
    · rintro (hold | ⟨rfl | hmem, hlacks⟩)
      · exact .inl (.inl hold)
      · exact .inl (.inr ⟨rfl, hlacks⟩)
      · exact .inr ⟨hmem, hlacks⟩

end Context

section

open Builder PoseLang.Expr

variable {c : Context}

theorem Builder.declarations_need {b : Builder} {callee : String} {target : Target}
    (h : c.resolve? callee = some target) :
    (b.need target).declarations = c.note b.declarations callee := by
  rw [Context.note, h]
  cases target with
  | routine s => rfl
  | prototype s =>
    unfold need queue
    dsimp only
    split <;> rfl

mutual

/-- The declarations that an expression asks for are those of the functions that it calls. -/
theorem Lowered.declarations_eq : ∀ {e : Expr} {b b' : Builder} {r : Nat},
    Lowered c e b r b' → b'.declarations = e.callees.foldl c.note b.declarations
  | _, _, _, _, .num => rfl
  | _, _, _, _, .var _ => rfl
  | _, _, _, _, .binary first second _ _ _ => by
    rw [callees, List.foldl_append, ← first.declarations_eq, ← second.declarations_eq]
    rfl
  | _, _, _, _, .call resolved _ given => by
    rw [callees, List.foldl_append, ← given.declarations_eq]
    exact declarations_need resolved
  | _, _, _, _, @Lowered.cond _ _ _ thenBranch elseBranch b b₁ b₂ b₃ _ _ _ test _ first second _ => by
    have hthen : b₂.declarations = thenBranch.callees.foldl c.note b₁.declarations :=
      first.declarations_eq
    have helse : b₃.declarations = elseBranch.callees.foldl c.note b₂.declarations :=
      second.declarations_eq
    rw [callees, List.foldl_append, List.foldl_append, ← test.declarations_eq, ← hthen, ← helse]
    rfl
  | _, _, _, _, @Lowered.loop _ _ v _ test _ body b b₁ b₂ b₃ b₄ _ _ _ _ _ started _ ran stepped tested _
      closed => by
    have hbody : b₂.declarations = body.callees.foldl c.note b₁.declarations := ran.declarations_eq
    have htest : b₄.declarations = test.callees.foldl c.note b₃.declarations := tested.declarations_eq
    rw [callees, List.foldl_append, List.foldl_append, List.foldl_append, ← started.declarations_eq,
      ← hbody, ← stepped.declarations_eq, ← htest]
    subst closed
    exact restore_declarations _ v _
  | _, _, _, _, .alloc _ => rfl
  | _, _, _, _, .construct storage _ _ filled => by
    rw [callees, List.foldl_append, ← storage.declarations_eq]
    exact filled.declarations_eq

theorem LoweredArgs.declarations_eq : ∀ {es : List Expr} {b b' : Builder} {regs : List Nat},
    LoweredArgs c es b regs b' → b'.declarations = (calleesArgs es).foldl c.note b.declarations
  | _, _, _, _, .nil => rfl
  | _, _, _, _, .cons head _ tail => by
    rw [calleesArgs, List.foldl_append, ← head.declarations_eq]
    exact tail.declarations_eq

theorem LoweredStep.declarations_eq : ∀ {stepBy : Option Expr} {b b' : Builder} {r : Nat},
    LoweredStep c stepBy b r b' → b'.declarations = (calleesStep stepBy).foldl c.note b.declarations
  | _, _, _, _, .one => rfl
  | _, _, _, _, .given value _ => value.declarations_eq

theorem LoweredFields.declarations_eq : ∀ {base width : Nat} {record : String}
    {fields : List (Nat × Expr)} {b b' : Builder}, LoweredFields c base record width fields b b' →
      b'.declarations = (calleesFields fields).foldl c.note b.declarations
  | _, _, _, _, _, _, .nil => rfl
  | _, _, _, _, _, _, .cons _ head _ tail => by
    rw [calleesFields, List.foldl_append, ← head.declarations_eq]
    exact tail.declarations_eq

end

end

/-! ## Definitions -/

/-- A definition is well typed with a result type: its body has the type if parameters are numbers and
the function is known; a routine under its name is a declaration with as many parameters and that
result type; and without one, a body that calls the function itself gives a number. -/
structure Definition.WellTyped (c : Context) (d : Definition) (ty : Ty) : Prop where
  body : d.body.HasType (c.register d.proto) (.ofParams d.proto.params) ty
  declared : ∀ r, c.program.get? d.proto.name = some r →
    r.isDeclaration = true ∧ r.arity = d.proto.arity ∧ r.signature.ret = ty
  recursive : c.program.get? d.proto.name = none → d.proto.name ∈ d.body.callees → ty = .f64

section

variable {c : Context} {d : Definition}

theorem Context.conflict?_eq_none {proto : Prototype} (h : ∀ r, c.program.get? proto.name = some r →
    r.isDeclaration = true ∧ r.arity = proto.arity) : c.conflict? proto true = none := by
  unfold conflict?
  cases hget : c.program.get? proto.name with
  | none => rfl
  | some r =>
    obtain ⟨hdeclaration, harity⟩ := h r hget
    simp [hdeclaration, harity]

/-- What is taken for granted about the result of a definition whose body was lowered. -/
theorem Definition.assumedType?_eq {result : Nat} {b : Builder} (hc : c.Keyed)
    (h : Lowered (c.register d.proto) d.body (bindParams d.proto.params .start) result b) :
    d.assumedType? (c.register d.proto) b.declarations =
      ((c.program.get? d.proto.name).map (·.signature.ret)).or
        (if d.proto.name ∈ d.body.callees then some .f64 else none) := by
  have hprogram : (c.register d.proto).program = c.program := rfl
  rw [assumedType?, hprogram]
  cases hget : c.program.get? d.proto.name with
  | some r => rfl
  | none =>
    have hlacks : (c.register d.proto).Lacks d.proto.name :=
      ⟨hget, by rw [Context.getElem?_register, if_pos rfl]; exact Option.some_ne_none _⟩
    have hstart : (bindParams d.proto.params Builder.start).declarations = [] :=
      (bindParams_eq d.proto.params).2.2.1
    have hasked : b.declarations.any (·.name == d.proto.name) = true ↔
        d.proto.name ∈ d.body.callees := by
      have hmem := Context.mem_foldl_note (hc.register d.proto) d.body.callees [] d.proto.name
      rw [h.declarations_eq, hstart, List.any_eq_true]
      simp only [List.map_nil, List.not_mem_nil, false_or, hlacks, and_true, List.mem_map] at hmem
      simpa only [beq_iff_eq] using hmem
    by_cases hcalls : d.proto.name ∈ d.body.callees
    · simp only [hasked.mpr hcalls, if_pos hcalls]
      rfl
    · have hnot : b.declarations.any (·.name == d.proto.name) = false :=
        Bool.eq_false_iff.mpr fun h => hcalls (hasked.mp h)
      simp only [hnot, if_neg hcalls]
      rfl

/-- Before its body is lowered, a definition has a block without operations. -/
theorem Definition.shaped_bindParams (params : List String) :
    (bindParams params Builder.start).Shaped fun _ => False := by
  obtain ⟨hblocks, hcurrent, -, -⟩ := bindParams_eq (b := .start) params
  have hempty (i : Nat) : Builder.opsOf (bindParams params Builder.start).blocks i = [] := by
    rw [hblocks]
    cases i <;> rfl
  refine ⟨⟨ready_bindParams params Builder.ready_start, fun _ h => h.elim, id⟩, ?_, ?_, ?_, ?_, ?_⟩
  · rw [hempty]
    exact .nil
  · exact fun i _ => hempty i
  · intro i hi hne
    rw [hblocks] at hi
    rw [hcurrent] at hne
    exact absurd (Nat.lt_one_iff.mp hi) hne
  · intro i dest incoming hphi
    rw [hempty] at hphi
    cases hphi
  · intro i op hop
    rw [hempty] at hop
    cases hop

/-- A body that has been lowered, with its end, makes a routine without a flaw. -/
theorem Lowered.flaw?_finish {e : Expr} {params : List String} {result : Nat} {b : Builder}
    (h : Lowered c e (Definition.bindParams params .start) result b) (s : Signature) :
    ((b.emit (.ret result)).finish s).flaw? = none :=
  (h.shaped (Definition.shaped_bindParams params)).flaw?_eq_none
    (h.grown (Definition.ready_bindParams params Builder.ready_start)).2 s

/-- A definition whose body was lowered is built, if the result has the type that is taken for
granted. -/
theorem Definition.build_of_lowered {result : Nat} {b : Builder}
    (h : Lowered c d.body (bindParams d.proto.params .start) result b)
    (hassumed : ∀ ty, d.assumedType? c b.declarations = some ty → ty = b.typeAt result) :
    d.build c = .ok ((b.emit (.ret result)).finish ⟨d.proto.name, d.proto.params, b.typeAt result⟩,
      b.declarations) := by
  have hflaw := h.flaw?_finish ⟨d.proto.name, d.proto.params, b.typeAt result⟩
  have hbody : d.lowerBody c .start = .ok result (b.emit (.ret result)) := by
    unfold lowerBody
    rw [Lower.modify_bind]
    exact Lower.bind_ok.mpr ⟨result, b, h.lower_eq, rfl⟩
  have htype (r : Routine) (hr : r.signature.ret = b.typeAt result) :
      d.checkType (d.assumedType? c b.declarations) r = .ok r := by
    unfold checkType
    cases hty : d.assumedType? c b.declarations with
    | none => rfl
    | some ty => exact if_pos ((hassumed ty hty).trans hr.symm)
  have hshape (r : Routine) (hr : r.flaw? = none) : d.checkShape r = .ok r := by
    rw [checkShape, hr]
  unfold build
  rw [hbody]
  change (d.checkType (d.assumedType? c b.declarations)
    ((b.emit (.ret result)).finish ⟨d.proto.name, d.proto.params, b.typeAt result⟩) >>= _) = _
  rw [htype _ rfl]
  change (d.checkShape _ >>= _) = _
  rw [hshape _ hflaw]
  rfl

theorem Context.define_eq_ok {r : Routine} {after : Context} (h : c.define d = .ok (r, after)) :
    c.conflict? d.proto true = none ∧
      ∃ declarations, d.build (c.register d.proto) = .ok (r, declarations) ∧
        after = (c.register d.proto).commit r declarations := by
  unfold define at h
  split at h
  · cases h
  next hfits =>
    dsimp only at h
    split at h
    · cases h
    next hbuild =>
      cases h
      exact ⟨hfits, _, hbuild, rfl⟩

/-- A definition that is lowered is well typed, with the result type of its routine. -/
theorem Context.Keyed.wellTyped {r : Routine} {after : Context} (hc : c.Keyed)
    (h : c.define d = .ok (r, after)) : d.WellTyped c r.signature.ret := by
  obtain ⟨hfits, declarations, hbuild, -⟩ := define_eq_ok h
  obtain ⟨b, result, hlowered, rfl, rfl, hassumed, -⟩ := Definition.build_ok hbuild
  rw [Definition.assumedType?_eq hc hlowered] at hassumed
  refine ⟨?_, fun declared hget => ?_, fun hget hcalls => ?_⟩
  · have hbody := hlowered.hasType (Definition.ready_bindParams d.proto.params Builder.ready_start)
    rw [Builder.types_start] at hbody
    exact hbody
  · obtain ⟨harity, hdeclaration⟩ := arity_of_conflict? hfits hget
    rw [hget] at hassumed
    exact ⟨hdeclaration rfl, harity, (hassumed _ rfl).symm⟩
  · rw [hget, if_pos hcalls] at hassumed
    exact hassumed _ rfl

/-- A definition that is well typed is lowered, to a routine with its result type. -/
theorem Context.Keyed.define_of_wellTyped {ty : Ty} (hc : c.Keyed) (h : d.WellTyped c ty) :
    ∃ r after, c.define d = .ok (r, after) ∧ r.signature.ret = ty := by
  obtain ⟨result, b, hlowered, hresult⟩ := h.body.lowers _
    (Definition.ready_bindParams d.proto.params Builder.ready_start)
    (Builder.types_start d.proto.params)
  have hassumed (ty' : Ty) (hty : d.assumedType? (c.register d.proto) b.declarations = some ty') :
      ty' = b.typeAt result := by
    rw [hresult]
    rw [Definition.assumedType?_eq hc hlowered] at hty
    cases hget : c.program.get? d.proto.name with
    | some r =>
      rw [hget] at hty
      cases hty
      exact (h.declared r hget).2.2
    | none =>
      rw [hget] at hty
      by_cases hcalls : d.proto.name ∈ d.body.callees
      · rw [if_pos hcalls] at hty
        cases hty
        exact (h.recursive hget hcalls).symm
      · rw [if_neg hcalls] at hty
        cases hty
  have hfits : c.conflict? d.proto true = none :=
    conflict?_eq_none fun r hget => ⟨(h.declared r hget).1, (h.declared r hget).2.1⟩
  unfold define
  rw [hfits]
  dsimp only
  rw [Definition.build_of_lowered hlowered hassumed]
  exact ⟨_, _, rfl, hresult⟩

/-- Lowering accepts exactly the well-typed definitions: whatever is known and whatever the program holds,
a definition is lowered if and only if it is well typed with some result type, and the routine has a
result type that it is well typed with. -/
theorem Context.Keyed.define_ok_iff_wellTyped (hc : c.Keyed) (d : Definition) :
    ((∃ r after, c.define d = .ok (r, after)) ↔ ∃ ty, d.WellTyped c ty) ∧
      ∀ r after, c.define d = .ok (r, after) → d.WellTyped c r.signature.ret := by
  refine ⟨⟨?_, ?_⟩, fun r after h => hc.wellTyped h⟩
  · rintro ⟨r, after, h⟩
    exact ⟨r.signature.ret, hc.wellTyped h⟩
  · rintro ⟨ty, h⟩
    obtain ⟨r, after, hdefine, -⟩ := hc.define_of_wellTyped h
    exact ⟨r, after, hdefine⟩

/-- A function that gives a number and calls itself. -/
def recursiveNumber : Definition :=
  ⟨{ name := "f", params := ["x"] },
    .binary none '+' (.var none "x") (.call none "f" [.var none "x"])⟩

/-- A function that gives a record and calls itself for a field of it. -/
def recursiveRecord : Definition :=
  ⟨{ name := "f", params := [] }, .construct none (.alloc none "Pose2D") [(0, .call none "f" [])]⟩

theorem Context.Keyed.define_ok_iff_wellTyped_recursive :
    (∃ ty, recursiveNumber.WellTyped (.start .builtin) ty) ∧
      recursiveRecord.body.HasType ((Context.start .builtin).register recursiveRecord.proto)
        (.ofParams []) (.ptr "Pose2D") ∧
      ¬ ∃ r after, (Context.start .builtin).define recursiveRecord = .ok (r, after) := by
  have hkeyed := keyed_start .builtin
  have hnumber : ((Context.start .builtin).define recursiveNumber).isOk = true := by decide +kernel
  have hregistered : Registry.builtin["Pose2D"]? = some .pose2D := by decide +kernel
  have hknown : ((Context.start .builtin).register recursiveRecord.proto).prototypes["f"]? =
      some recursiveRecord.proto := by
    rw [getElem?_register]
    exact if_pos rfl
  have hbody : recursiveRecord.body.HasType
      ((Context.start .builtin).register recursiveRecord.proto) (.ofParams []) (.ptr "Pose2D") := by
    refine .construct (.alloc hregistered) hregistered (fun f hf => ?_) fun f hf => ?_
    · rw [List.mem_singleton.mp hf]
      decide
    · rw [List.mem_singleton.mp hf]
      exact .callKnown rfl hknown rfl fun e he => by cases he
  refine ⟨?_, hbody, ?_⟩
  · refine (hkeyed.define_ok_iff_wellTyped recursiveNumber).1.mp ?_
    cases hdefine : (Context.start .builtin).define recursiveNumber with
    | error e =>
      rw [hdefine] at hnumber
      cases hnumber
    | ok result => exact ⟨result.1, result.2, rfl⟩
  · intro hdefined
    -- A body that calls the function would have to give a number, and a record is none.
    obtain ⟨ty, hty⟩ := (hkeyed.define_ok_iff_wellTyped recursiveRecord).1.mp hdefined
    have hcalls : recursiveRecord.proto.name ∈ recursiveRecord.body.callees := by decide +kernel
    have hf64 := hty.recursive rfl hcalls
    subst hf64
    cases hty.body

end

end PoseLang
