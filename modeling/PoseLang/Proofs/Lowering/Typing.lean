import PoseLang.Proofs.Lowering.Settled

/-!
# Types of expressions

The type of an expression, given the types of the names that are bound (`Expr.HasType`): rules about
trees that mention no builder, no register and no block. Lowering follows them. What it succeeds on has
the type of the register that it gives (`Lowered.hasType`), and what has a type it succeeds on
(`Expr.HasType.lowers`), from every builder in which names stand for registers of these types.
-/

namespace PoseLang

/-- The types of the names that are bound. -/
def Types :=
  String → Option Ty

namespace Types

/-- A name stands for a value of a type, whatever it stood for before. -/
def bind (types : Types) (v : String) (ty : Ty) : Types :=
  fun name => if v = name then some ty else types name

/-- Parameters are numbers. -/
def ofParams (params : List String) : Types :=
  fun name => if name ∈ params then some .f64 else none

end Types

/-- The operators that there are operations for. -/
def Arith.operators : List Char :=
  ['+', '-', '*', '/', '<', '>']

theorem Arith.mem_operators {op : Char} : op ∈ operators ↔ ∃ kind, ofChar? op = some kind := by
  constructor
  · intro h
    simp only [operators, List.mem_cons, List.not_mem_nil, or_false] at h
    rcases h with rfl | rfl | rfl | rfl | rfl | rfl <;> exact ⟨_, rfl⟩
  · rintro ⟨kind, h⟩
    unfold ofChar? at h
    split at h
    case h_7 => cases h
    all_goals decide

/-- An expression has a type where names have types and functions are known. -/
inductive Expr.HasType (c : Context) : Types → Expr → Ty → Prop
  | num {types : Types} {loc : Option Location} {x : Float} : HasType c types (.num loc x) .f64
  | var {types : Types} {loc : Option Location} {name : String} {ty : Ty}
    (bound : types name = some ty) : HasType c types (.var loc name) ty
  | binary {types : Types} {loc : Option Location} {op : Char} {left right : Expr}
    (known : op ∈ Arith.operators) (first : HasType c types left .f64)
    (second : HasType c types right .f64) : HasType c types (.binary loc op left right) .f64
  /-- A routine of the program gives a value of its result type. -/
  | call {types : Types} {loc : Option Location} {callee : String} {args : List Expr} {r : Routine}
    (found : c.program.get? callee = some r) (arity : args.length = r.arity)
    (given : ∀ e ∈ args, HasType c types e .f64) :
    HasType c types (.call loc callee args) r.signature.ret
  /-- A function of which only the prototype is known gives a number. -/
  | callKnown {types : Types} {loc : Option Location} {callee : String} {args : List Expr}
    {proto : Prototype} (absent : c.program.get? callee = none)
    (known : c.prototypes[callee]? = some proto) (arity : args.length = proto.arity)
    (given : ∀ e ∈ args, HasType c types e .f64) : HasType c types (.call loc callee args) .f64
  | cond {types : Types} {loc : Option Location} {condition thenBranch elseBranch : Expr} {ty : Ty}
    (test : HasType c types condition .f64) (first : HasType c types thenBranch ty)
    (second : HasType c types elseBranch ty) :
    HasType c types (.cond loc condition thenBranch elseBranch) ty
  | loop {types : Types} {loc : Option Location} {v : String} {start test body : Expr}
    {stepBy : Option Expr} {ty : Ty} (started : HasType c types start .f64)
    (ran : HasType c (types.bind v .f64) body ty)
    (stepped : ∀ e, stepBy = some e → HasType c (types.bind v .f64) e .f64)
    (tested : HasType c (types.bind v .f64) test .f64) :
    HasType c types (.loop loc v start test stepBy body) .f64
  | alloc {types : Types} {loc : Option Location} {record : String} {layout : Layout}
    (registered : c.program.records[record]? = some layout) :
    HasType c types (.alloc loc record) (.ptr record)
  | construct {types : Types} {loc : Option Location} {destination : Expr} {record : String}
    {layout : Layout} {fields : List (Nat × Expr)}
    (storage : HasType c types destination (.ptr record))
    (registered : c.program.records[record]? = some layout)
    (inside : ∀ f ∈ fields, f.1 < layout.width) (filled : ∀ f ∈ fields, HasType c types f.2 .f64) :
    HasType c types (.construct loc destination fields) (.ptr record)

/-! ## The names of a builder -/

namespace Builder

/-- The types of the registers that names stand for. -/
def types (b : Builder) : Types :=
  fun name => (b.lookup? name).map b.typeAt

variable {b b' : Builder}

theorem types_of_regTypes (hb : b.Ready) (hnames : b'.bindings = b.bindings)
    (hregs : b.regTypes <+: b'.regTypes) : b'.types = b.types := by
  funext name
  have hlookup : b'.lookup? name = b.lookup? name := by rw [lookup?, lookup?, hnames]
  rw [types, types, hlookup]
  cases hreg : b.lookup? name with
  | none => rfl
  | some reg =>
    have hkept := typeAt_of_prefix hregs (hb.bound_lt hreg)
    exact congrArg some hkept

theorem Grown.typeAt {reg : Nat} (h : Grown b b') (hreg : reg < b.regTypes.length) :
    b'.typeAt reg = b.typeAt reg :=
  typeAt_of_prefix h.regTypes hreg

theorem Grown.types (h : Grown b b') (hb : b.Ready) : b'.types = b.types :=
  types_of_regTypes hb h.bindings h.regTypes

theorem types_openBranches (hb : b.Ready) (value : Nat) : (b.openBranches value).types = b.types :=
  types_of_regTypes hb rfl (List.prefix_append _ _)

/-- Both branches of a conditional see the names that stand before it. -/
theorem Grown.types_otherwise {value : Nat} (g : Grown (b.openBranches value) b') (hb : b.Ready) :
    (b'.jumpTo (b.blocks.length + 2) (b.blocks.length + 1)).types = b.types := by
  have opened := hb.openBranches value
  calc (b'.jumpTo (b.blocks.length + 2) (b.blocks.length + 1)).types
      = b'.types := types_of_regTypes (g.ready opened) rfl (List.prefix_refl _)
    _ = (b.openBranches value).types := g.types opened
    _ = b.types := types_openBranches hb value

/-- A name that is bound to a new register with a number in it. -/
theorem types_of_bind {v : String} (hb : b.Ready)
    (hnames : b'.bindings = b.bindings.insert v b.regTypes.length)
    (hregs : b'.regTypes = b.regTypes ++ [.f64]) : b'.types = b.types.bind v .f64 := by
  have hprefix : b.regTypes <+: b'.regTypes := hregs ▸ List.prefix_append _ _
  funext name
  simp only [types, Types.bind, lookup?, hnames, Std.ExtTreeMap.getElem?_insert,
    Std.LawfulEqCmp.compare_eq_iff_eq]
  by_cases heq : v = name
  · rw [if_pos heq, if_pos heq]
    exact congrArg some (by simp [typeAt, typeOf?, hregs])
  · rw [if_neg heq, if_neg heq]
    cases hreg : b.bindings[name]? with
    | none => rfl
    | some reg =>
      have hkept := typeAt_of_prefix hprefix (hb.bound_lt hreg)
      exact congrArg some hkept

theorem types_openLoop (hb : b.Ready) (v : String) (first : Nat) :
    (b.openLoop v first).types = b.types.bind v .f64 :=
  types_of_bind hb rfl rfl

theorem types_parameter (hb : b.Ready) (p : String) :
    (b.parameter p).types = b.types.bind p .f64 :=
  types_of_bind hb rfl rfl

/-- Parameters stand for numbers, whatever their names stood for before. -/
theorem types_bindParams (hb : b.Ready) (params : List String) (name : String) :
    (Definition.bindParams params b).types name =
      if name ∈ params then some .f64 else b.types name := by
  induction params generalizing b with
  | nil => rfl
  | cons p params ih =>
    refine (ih hb.parameter).trans ?_
    rw [types_parameter hb]
    by_cases hmem : name ∈ params
    · rw [if_pos hmem, if_pos (List.mem_cons_of_mem p hmem)]
    · rw [if_neg hmem, Types.bind]
      by_cases heq : p = name
      · rw [if_pos heq, if_pos (heq ▸ List.mem_cons_self)]
      · rw [if_neg heq, if_neg fun h => (List.mem_cons.mp h).elim (fun h => heq h.symm) hmem]

theorem types_start (params : List String) :
    (Definition.bindParams params .start).types = Types.ofParams params :=
  funext fun name => types_bindParams ready_start params name

end Builder

/-! ## What is lowered has a type -/

namespace Expr.HasType

variable {c : Context} {types : Types} {loc : Option Location} {callee : String} {args : List Expr}

theorem of_resolved {target : Target} (resolved : c.resolve? callee = some target)
    (arity : target.signature.arity = args.length) (given : ∀ e ∈ args, HasType c types e .f64) :
    HasType c types (.call loc callee args) target.signature.ret := by
  unfold Context.resolve? at resolved
  cases hget : c.program.get? callee with
  | some r =>
    rw [hget] at resolved
    cases resolved
    exact .call hget arity.symm given
  | none =>
    rw [hget] at resolved
    obtain ⟨proto, hproto, rfl⟩ := Option.map_eq_some_iff.mp resolved
    exact .callKnown hget hproto arity.symm given

end Expr.HasType

section

open Builder

variable {c : Context}

mutual

/-- An expression that is lowered has the type of the register with its value. -/
theorem Lowered.hasType : ∀ {e : Expr} {b b' : Builder} {r : Nat},
    Lowered c e b r b' → b.Ready → e.HasType c b.types (b'.typeAt r)
  | _, b, _, _, .num, _ => by
    rw [typeAt_put]
    exact .num
  | _, b, _, _, .var bound, _ => by
    refine .var ?_
    rw [types, bound]
    rfl
  | _, _, _, _, @Lowered.binary _ _ _ _ _ _ b b₁ b₂ l r first second leftTy rightTy known, hb => by
    have g₁ := first.grown hb
    have g₂ := second.grown (g₁.1.ready hb)
    have hleft := first.hasType hb
    have hright := second.hasType (g₁.1.ready hb)
    rw [← g₂.1.typeAt g₁.2, leftTy] at hleft
    rw [g₁.1.types hb, rightTy] at hright
    rw [typeAt_put]
    exact .binary (Arith.mem_operators.mpr ⟨_, known⟩) hleft hright
  | _, _, _, _, @Lowered.call _ _ callee _ target b b₁ _ resolved arity given, hb => by
    have hargs := given.hasType hb
    rw [typeAt_put]
    exact .of_resolved resolved arity hargs
  | _, _, _, _, @Lowered.cond _ _ _ _ _ b b₁ b₂ b₃ value t e test testTy first second sameTy, hb => by
    have g₁ := (test.grown hb).1
    have ready₁ := g₁.ready hb
    have opened := ready₁.openBranches value
    have g₂ := first.grown opened
    have jumped := g₂.1.ready_otherwise ready₁
    have g₃ := second.grown jumped
    have htest := test.hasType hb
    have hthen := first.hasType opened
    have helse := second.hasType jumped
    have hkept : b₃.typeAt t = b₂.typeAt t := g₃.1.typeAt g₂.2
    rw [testTy] at htest
    rw [types_openBranches ready₁, g₁.types hb, ← hkept] at hthen
    rw [g₂.1.types_otherwise ready₁, g₁.types hb, sameTy] at helse
    have hjoined : (b₃.joinBranches (b₁.blocks.length + 2) (b₃.typeAt t)
        [(t, b₂.current), (e, b₃.current)]).typeAt b₃.regTypes.length = b₃.typeAt t :=
      typeAt_put (b := b₃.jumpTo (b₁.blocks.length + 2) (b₁.blocks.length + 2)) _ _
    rw [hjoined]
    exact .cond htest hthen helse
  | _, _, _, _, @Lowered.loop _ _ v _ _ _ _ b b₁ b₂ b₃ b₄ _ first result increment value started firstTy
      ran stepped tested valueTy closed, hb => by
    have g₁ := (started.grown hb).1
    have opened := (g₁.ready hb).openLoop v first
    have g₂ := (ran.grown opened).1
    have ready₂ := g₂.ready opened
    have g₃ := g₂.trans opened (stepped.grown ready₂).1
    have added := g₃.trans opened
      (.put (g₃.ready opened) .f64 (.arith .add · b₁.regTypes.length increment))
    have hstart := started.hasType hb
    have hbody := ran.hasType opened
    have hstep := stepped.hasType ready₂
    have htest := tested.hasType (added.ready opened)
    have htypes : (b₁.openLoop v first).types = b.types.bind v .f64 := by
      rw [types_openLoop (g₁.ready hb), g₁.types hb]
    rw [firstTy] at hstart
    rw [htypes] at hbody
    rw [g₂.types opened, htypes] at hstep
    rw [added.types opened, htypes, valueTy] at htest
    rw [typeAt_put]
    exact .loop hstart hbody hstep htest
  | _, b, _, _, .alloc registered, _ => by
    rw [typeAt_put]
    exact .alloc registered
  | _, _, _, _, @Lowered.construct _ _ _ _ record layout b b₁ b₂ base storage baseTy registered filled,
      hb => by
    have g₁ := storage.grown hb
    have ready₁ := g₁.1.ready hb
    have g₂ := filled.grown ready₁
    have hstorage := storage.hasType hb
    have hfields := filled.hasType ready₁
    rw [baseTy] at hstorage
    rw [g₁.1.types hb] at hfields
    rw [g₂.typeAt g₁.2, baseTy]
    exact .construct hstorage registered (fun f hf => (hfields f hf).1) fun f hf => (hfields f hf).2

theorem LoweredArgs.hasType : ∀ {es : List Expr} {b b' : Builder} {regs : List Nat},
    LoweredArgs c es b regs b' → b.Ready → ∀ e ∈ es, e.HasType c b.types .f64
  | _, _, _, _, .nil, _ => fun _ he => by cases he
  | _, _, _, _, @LoweredArgs.cons _ _ _ b b₁ b₂ reg regs head headTy tail, hb => by
    have g₁ := (head.grown hb).1
    have hhead := head.hasType hb
    have htail := tail.hasType (g₁.ready hb)
    rw [headTy] at hhead
    rw [g₁.types hb] at htail
    intro e he
    rcases List.mem_cons.mp he with rfl | he
    · exact hhead
    · exact htail e he

theorem LoweredStep.hasType : ∀ {stepBy : Option Expr} {b b' : Builder} {r : Nat},
    LoweredStep c stepBy b r b' → b.Ready → ∀ e, stepBy = some e → e.HasType c b.types .f64
  | _, _, _, _, .one, _ => fun _ he => by cases he
  | _, _, _, _, .given value valueTy, hb => by
    have hvalue := value.hasType hb
    rw [valueTy] at hvalue
    rintro e ⟨⟩
    exact hvalue

theorem LoweredFields.hasType : ∀ {base width : Nat} {record : String} {fields : List (Nat × Expr)}
    {b b' : Builder}, LoweredFields c base record width fields b b' → b.Ready →
      ∀ f ∈ fields, f.1 < width ∧ f.2.HasType c b.types .f64
  | _, _, _, _, _, _, .nil, _ => fun _ hf => by cases hf
  | _, _, _, _, _, _, @LoweredFields.cons _ base _ record i _ _ b b₁ _ value inside head headTy tail,
      hb => by
    have g₁ := (head.grown hb).1
    have stored := g₁.trans hb (.storeField (g₁.ready hb) record base value i)
    have hhead := head.hasType hb
    have htail := tail.hasType (stored.ready hb)
    rw [headTy] at hhead
    rw [stored.types hb] at htail
    intro f hf
    rcases List.mem_cons.mp hf with rfl | hf
    · exact ⟨inside, hhead⟩
    · exact htail f hf

end

end

/-! ## What has a type is lowered -/

namespace Expr

open Builder

variable {c : Context} {types : Types}

/-- An expression is lowered, to a register of a type, from every builder whose names have types. -/
def Lowers (c : Context) (types : Types) (e : Expr) (ty : Ty) : Prop :=
  ∀ b : Builder, b.Ready → b.types = types → ∃ reg b', Lowered c e b reg b' ∧ b'.typeAt reg = ty

theorem lowers_args {es : List Expr} (h : ∀ e ∈ es, e.Lowers c types .f64) (b : Builder)
    (hb : b.Ready) (htypes : b.types = types) : ∃ regs b', LoweredArgs c es b regs b' := by
  induction es generalizing b with
  | nil => exact ⟨[], b, .nil⟩
  | cons e es ih =>
    obtain ⟨reg, b₁, head, hreg⟩ := h e List.mem_cons_self b hb htypes
    have g₁ := (head.grown hb).1
    obtain ⟨regs, b₂, tail⟩ := ih (fun e' he' => h e' (List.mem_cons_of_mem e he')) b₁ (g₁.ready hb)
      ((g₁.types hb).trans htypes)
    exact ⟨reg :: regs, b₂, .cons head hreg tail⟩

theorem lowers_step {stepBy : Option Expr} (h : ∀ e, stepBy = some e → e.Lowers c types .f64)
    (b : Builder) (hb : b.Ready) (htypes : b.types = types) :
    ∃ reg b', LoweredStep c stepBy b reg b' := by
  cases stepBy with
  | none => exact ⟨_, _, .one⟩
  | some e =>
    obtain ⟨reg, b', value, hreg⟩ := h e rfl b hb htypes
    exact ⟨reg, b', .given value hreg⟩

theorem lowers_fields {fields : List (Nat × Expr)} {width : Nat} (base : Nat) (record : String)
    (hinside : ∀ f ∈ fields, f.1 < width) (h : ∀ f ∈ fields, f.2.Lowers c types .f64) (b : Builder)
    (hb : b.Ready) (htypes : b.types = types) :
    ∃ b', LoweredFields c base record width fields b b' := by
  induction fields generalizing b with
  | nil => exact ⟨b, .nil⟩
  | cons f fields ih =>
    obtain ⟨i, e⟩ := f
    obtain ⟨value, b₁, head, hvalue⟩ := h (i, e) List.mem_cons_self b hb htypes
    have g₁ := (head.grown hb).1
    have stored := g₁.trans hb (.storeField (g₁.ready hb) record base value i)
    obtain ⟨b₂, tail⟩ := ih (fun f hf => hinside f (List.mem_cons_of_mem _ hf))
      (fun f hf => h f (List.mem_cons_of_mem _ hf)) _ (stored.ready hb)
      ((stored.types hb).trans htypes)
    exact ⟨b₂, .cons (hinside (i, e) List.mem_cons_self) head hvalue tail⟩

theorem lowers_call {loc : Option Location} {callee : String} {args : List Expr} {target : Target}
    (resolved : c.resolve? callee = some target) (arity : args.length = target.signature.arity)
    (h : ∀ e ∈ args, e.Lowers c types .f64) :
    (Expr.call loc callee args).Lowers c types target.signature.ret := by
  intro b hb htypes
  obtain ⟨regs, b', given⟩ := lowers_args h b hb htypes
  exact ⟨_, _, .call resolved arity.symm given, typeAt_put _ _⟩

theorem lowers_cond {loc : Option Location} {condition thenBranch elseBranch : Expr} {ty : Ty}
    (htest : condition.Lowers c types .f64) (hthen : thenBranch.Lowers c types ty)
    (helse : elseBranch.Lowers c types ty) :
    (Expr.cond loc condition thenBranch elseBranch).Lowers c types ty := by
  intro b hb htypes
  obtain ⟨value, b₁, test, hvalue⟩ := htest b hb htypes
  have g₁ := (test.grown hb).1
  have ready₁ := g₁.ready hb
  have htypes₁ : b₁.types = types := (g₁.types hb).trans htypes
  have opened := ready₁.openBranches value
  obtain ⟨t, b₂, first, ht⟩ := hthen _ opened ((types_openBranches ready₁ value).trans htypes₁)
  have g₂ := first.grown opened
  have jumped := g₂.1.ready_otherwise ready₁
  obtain ⟨e, b₃, second, he⟩ := helse _ jumped ((g₂.1.types_otherwise ready₁).trans htypes₁)
  have hkept : b₃.typeAt t = ty := ((second.grown jumped).1.typeAt g₂.2).trans ht
  exact ⟨_, _, .cond test hvalue first second (he.trans hkept.symm),
    (typeAt_put (b := b₃.jumpTo (b₁.blocks.length + 2) (b₁.blocks.length + 2)) _ _).trans hkept⟩

theorem lowers_loop {loc : Option Location} {v : String} {start test body : Expr}
    {stepBy : Option Expr} {ty : Ty} (hstart : start.Lowers c types .f64)
    (hbody : body.Lowers c (types.bind v .f64) ty)
    (hstep : ∀ e, stepBy = some e → e.Lowers c (types.bind v .f64) .f64)
    (htest : test.Lowers c (types.bind v .f64) .f64) :
    (Expr.loop loc v start test stepBy body).Lowers c types .f64 := by
  intro b hb htypes
  obtain ⟨first, b₁, started, hfirst⟩ := hstart b hb htypes
  have g₁ := (started.grown hb).1
  have opened := (g₁.ready hb).openLoop v first
  have htypes₁ : (b₁.openLoop v first).types = types.bind v .f64 := by
    rw [types_openLoop (g₁.ready hb), g₁.types hb, htypes]
  obtain ⟨result, b₂, ran, -⟩ := hbody _ opened htypes₁
  have g₂ := (ran.grown opened).1
  obtain ⟨increment, b₃, stepped⟩ :=
    lowers_step hstep b₂ (g₂.ready opened) ((g₂.types opened).trans htypes₁)
  have g₃ := g₂.trans opened (stepped.grown (g₂.ready opened)).1
  have added := g₃.trans opened
    (.put (g₃.ready opened) .f64 (.arith .add · b₁.regTypes.length increment))
  obtain ⟨value, b₄, tested, hvalue⟩ :=
    htest _ (added.ready opened) ((added.types opened).trans htypes₁)
  exact ⟨_, _, .loop started hfirst ran stepped tested hvalue rfl, typeAt_put _ _⟩

/-- An expression that has a type is lowered, to a register of that type. -/
theorem HasType.lowers {e : Expr} {ty : Ty} (h : e.HasType c types ty) : e.Lowers c types ty := by
  induction h with
  | num => exact fun b _ _ => ⟨_, _, .num, typeAt_put _ _⟩
  | var bound =>
    intro b hb htypes
    rw [← htypes] at bound
    obtain ⟨reg, hreg, hty⟩ := Option.map_eq_some_iff.mp bound
    exact ⟨reg, b, .var hreg, hty⟩
  | binary known _ _ ihleft ihright =>
    intro b hb htypes
    obtain ⟨kind, hkind⟩ := Arith.mem_operators.mp known
    obtain ⟨l, b₁, first, hl⟩ := ihleft b hb htypes
    have g₁ := first.grown hb
    obtain ⟨r, b₂, second, hr⟩ := ihright b₁ (g₁.1.ready hb) ((g₁.1.types hb).trans htypes)
    have hkept := (second.grown (g₁.1.ready hb)).1.typeAt g₁.2
    exact ⟨_, _, .binary first second (hkept.trans hl) hr hkind, typeAt_put _ _⟩
  | @call types loc callee args r found arity _ ih =>
    have resolved : c.resolve? callee = some (.routine r.signature) := by
      rw [Context.resolve?, found]
    exact lowers_call resolved arity ih
  | @callKnown types loc callee args proto absent known arity _ ih =>
    have resolved : c.resolve? callee = some (.prototype (.external proto.name proto.params)) := by
      rw [Context.resolve?, absent, known]
      rfl
    exact lowers_call resolved arity ih
  | cond _ _ _ ihtest ihfirst ihsecond => exact lowers_cond ihtest ihfirst ihsecond
  | loop _ _ _ _ ihstart ihbody ihstep ihtest => exact lowers_loop ihstart ihbody ihstep ihtest
  | alloc registered => exact fun b _ _ => ⟨_, _, .alloc registered, typeAt_put _ _⟩
  | @construct types loc destination record layout fields _ registered inside _ ihstorage ihfields =>
    intro b hb htypes
    obtain ⟨base, b₁, storage, hbase⟩ := ihstorage b hb htypes
    have g₁ := storage.grown hb
    have ready₁ := g₁.1.ready hb
    obtain ⟨b₂, filled⟩ := lowers_fields base record inside ihfields b₁ ready₁
      ((g₁.1.types hb).trans htypes)
    exact ⟨base, b₂, .construct storage hbase registered filled,
      ((filled.grown ready₁).typeAt g₁.2).trans hbase⟩

end Expr

end PoseLang
