import PoseLang.Proofs.Meaning.Realizes
import PoseLang.Proofs.Meaning.Sources

/-!
# Where the machine stands

The machine stands where a builder stood (`Config.At`), with the variables of the scope in the
registers that names stand for (`Scope.Held`). What lowered code has to do from there is to realize an
evaluation and to stand where the builder stood then (`Simulates`). The single moves are here: an
operation that fills a register, a store, and the ways from block to block.

What calls do is left open: the calls of the evaluator and those of the machine are taken to agree
(`CallsRealized`), whatever they do.
-/

namespace PoseLang

open Registers (Agree)
open Allocation (Kept)

/-! ## Positions and scopes -/

namespace Config

/-- The machine runs a routine and stands where a builder of it stood. -/
structure At (r : Routine) (b : Builder) (c : Config) : Prop where
  routine : c.frame.routine = r
  block : c.frame.block = b.current
  ops : c.frame.ops = b.rest r.blocks
  size : c.frame.regs.size = r.regTypes.length

/-- The machine has gone on in the same call: the first `n` registers hold what they held, and memory
has only grown. -/
structure Follows (n : Nat) (c c' : Config) : Prop where
  callers : c'.callers = c.callers
  regs : Agree n c.frame.regs c'.frame.regs
  memory : Kept c.machine.memory c'.machine.memory

/-- A register of a builder holds a value of its type. -/
structure Has (p : Program) (b : Builder) (reg : Nat) (v : Value) (c : Config) : Prop where
  holds : c.frame.regs.Holds reg v
  fits : v.Fits p.records c.machine.memory (b.typeAt reg)

namespace Follows

variable {n : Nat} {c c₁ c₂ : Config}

theorem refl : Follows n c c :=
  ⟨rfl, .refl, .refl⟩

theorem trans {k : Nat} (h : Follows n c c₁) (h' : Follows k c₁ c₂) (hk : n ≤ k) : Follows n c c₂ :=
  ⟨h'.callers.trans h.callers, h.regs.trans (h'.regs.mono hk), h.memory.trans h'.memory⟩

theorem wrote {dest : Nat} {m : Machine} (rest : List Op) (v : Value) (hdest : n ≤ dest)
    (hkept : Kept c.machine.memory m.memory) : Follows n c (c.wrote rest dest v m) :=
  ⟨rfl, .set hdest (some v), hkept⟩

end Follows

theorem Has.float {p : Program} {b : Builder} {reg : Nat} {v : Value} {c : Config}
    (h : c.Has p b reg v) (hty : b.typeAt reg = .f64) : ∃ x, v = .float x :=
  Value.Fits.eq_float (hty ▸ h.fits)

end Config

/-- The names of a builder stand for registers in which variables are. -/
def Builder.VarsIn (b : Builder) (vars : Std.ExtTreeMap String Float) (regs : Registers) : Prop :=
  ∀ {name : String} {reg : Nat}, b.lookup? name = some reg → b.typeAt reg = .f64 ∧
    ∃ x, vars[name]? = some x ∧ regs.Holds reg (.float x)

/-- The machine runs in the function of a scope, as deep, and has its variables in the registers that
names stand for. -/
structure Scope.Held (scope : Scope) (r : Routine) (b : Builder) (c : Config) : Prop where
  function : scope.function = r.name
  depth : scope.depth = c.depth
  vars : b.VarsIn scope.vars c.frame.regs

section

variable {r : Routine} {b b' : Builder} {c c' : Config} {scope : Scope}

/-- Variables stay where they are while the machine goes on. -/
theorem Scope.Held.mono (h : scope.Held r b c) (hb : b.Ready) (hregs : b.regTypes <+: b'.regTypes)
    (hnames : b'.bindings = b.bindings) (hf : c.Follows b.regTypes.length c') :
    scope.Held r b' c' := by
  refine ⟨h.function, ?_, fun {name reg} hname => ?_⟩
  · rw [h.depth, Config.depth, Config.depth, hf.callers]
  · have hold : b.lookup? name = some reg := by simpa only [Builder.lookup?, hnames] using hname
    have hlt := hb.bound_lt hold
    obtain ⟨hty, x, hx, hreg⟩ := h.vars hold
    exact ⟨(Builder.typeAt_of_prefix hregs hlt).trans hty, x, hx, hf.regs.holds hlt hreg⟩

theorem Scope.Held.grown (h : scope.Held r b c) (hb : b.Ready) (hg : b.Grown b')
    (hf : c.Follows b.regTypes.length c') : scope.Held r b' c' :=
  h.mono hb hg.regTypes hg.bindings hf

/-- In a loop its variable is the register that was made for it. -/
theorem Scope.Held.openLoop {b₁ : Builder} {v : String} {first : Nat} {x : Float}
    (h : scope.Held r b c) (hb : b.Ready) (hg : b.Grown b₁) (hf : c.Follows b.regTypes.length c')
    (hx : c'.frame.regs.Holds b₁.regTypes.length (.float x)) :
    (scope.bind v x).Held r (b₁.openLoop v first) c' := by
  have outside := h.grown hb hg hf
  refine ⟨outside.function, outside.depth, fun {name reg} hname => ?_⟩
  simp only [Builder.lookup?, Builder.openLoop_bindings, Std.ExtTreeMap.getElem?_insert] at hname
  simp only [Scope.bind, Std.ExtTreeMap.getElem?_insert]
  split at hname
  next heq =>
    cases hname
    exact ⟨by simp [Builder.typeAt, Builder.typeOf?], x, by rw [if_pos heq], hx⟩
  next hne =>
    have hname : b₁.lookup? name = some reg := hname
    obtain ⟨hty, y, hy, hreg⟩ := outside.vars hname
    have hlt := (hg.ready hb).bound_lt hname
    refine ⟨?_, y, by rw [if_neg hne, hy], hreg⟩
    rw [← hty]
    exact Builder.typeAt_of_prefix (List.prefix_append _ _) hlt

end

/-! ## What the parts have to do -/

/-- What calls do in the evaluator is what they do in the machine: a call of a function that the
program has, with as many numbers as it takes, puts a value of the function's type into its register.
-/
def CallsRealized (p : Program) (ticks : Nat) (call : Scope → String → List Float → Eval Value) :
    Prop :=
  ∀ {scope : Scope} {c : Config} {dest : Nat} {callee : String} {args : List Nat} {rest : List Op}
    {xs : List Float} {r : Routine}, c.frame.ops = .call dest callee args :: rest →
    dest < c.frame.regs.size → c.frame.regs.HoldAll args xs → p.get? callee = some r →
    r.arity = xs.length → scope.function = c.frame.routine.name → scope.depth = c.depth →
    c.Realizes p ticks (fun v c' => ∃ m, c' = c.wrote rest dest v m ∧
      Kept c.machine.memory m.memory ∧ v.Fits p.records m.memory r.signature.ret)
      (call scope callee xs c.machine.world)

/-- What is lowered between two builders of a routine does what an evaluation says, and leaves what
`has` tells. -/
def Simulates {α : Type} (p : Program) (r : Routine) (declared : List Signature) (ticks : Nat)
    (b b' : Builder) (has : α → Config → Prop) (eval : Scope → Eval α) : Prop :=
  ∀ {pending : Nat → Prop} {scope : Scope} {c : Config}, b.Open pending →
    b'.Inside pending r declared → c.At r b → scope.Held r b c →
    c.Realizes p ticks (fun v c' => c'.At r b' ∧ c.Follows b.regTypes.length c' ∧ has v c')
      (eval scope c.machine.world)

/-- What is lowered between two builders stores into the record that a register has the address of,
as an evaluation says. -/
def Stores (p : Program) (r : Routine) (declared : List Signature) (ticks base : Nat)
    (b b' : Builder) (eval : Scope → Nat → Eval Unit) : Prop :=
  ∀ {pending : Nat → Prop} {scope : Scope} {c : Config} {place : Nat}, b.Open pending →
    b'.Inside pending r declared → c.At r b → scope.Held r b c → c.Has p b base (.ptr place 0) →
    c.Realizes p ticks (fun _ c' => c'.At r b' ∧ c.Follows b.regTypes.length c')
      (eval scope place c.machine.world)

section

variable {p : Program} {r : Routine} {declared : List Signature} {ticks : Nat} {b : Builder}
  {c : Config} {pending : Nat → Prop}

theorem Context.Linked.callee {ctx : Context} {callee : String} {target : Target}
    (h : ctx.Linked declared p) (resolved : ctx.resolve? callee = some target)
    (hi : (b.need target).Inside pending r declared) :
    ∃ r', p.get? callee = some r' ∧ r'.arity = target.signature.arity ∧
      r'.signature.ret = target.signature.ret := by
  refine h.target resolved ?_
  rintro s rfl
  obtain ⟨s', hs', hname⟩ := Builder.exists_mem_need b s
  exact ⟨s', hi.declares s' hs', hname⟩

/-- Where the machine stands depends on the blocks of a builder alone. -/
theorem Config.At.of_blocks {b' : Builder} (h : c.At r b) (hblocks : b'.blocks = b.blocks)
    (hcur : b'.current = b.current) : c.At r b' :=
  ⟨h.routine, h.block.trans hcur.symm,
    h.ops.trans (by rw [Builder.rest, Builder.rest, hblocks, hcur]), h.size⟩

/-- Where the machine stands when an operation that fills a new register comes next. -/
theorem Config.At.put {ty : Ty} {op : Nat → Op} (h : c.At r b) (hb : b.Open pending)
    (hi : (b.put ty op).Inside pending r declared) (hop : (op b.regTypes.length).isPhi = false) :
    c.frame.ops = op b.regTypes.length :: (b.put ty op).rest r.blocks ∧
      b.regTypes.length < c.frame.regs.size ∧
      ∀ v m, (c.wrote ((b.put ty op).rest r.blocks) b.regTypes.length v m).At r (b.put ty op) := by
  refine ⟨h.ops.trans (hi.within.rest_put hb.ready.current_lt hb.free hop), ?_, fun v m => ?_⟩
  · have hroom := hi.room
    rw [Builder.put_regTypes, List.length_append, List.length_singleton] at hroom
    rw [h.size]
    omega
  · exact ⟨h.routine, h.block, rfl, by simpa [Config.wrote, Array.set!_eq_setIfInBounds] using h.size⟩

/-- An operation that fills a new register with a value of its type, and then is done. -/
theorem Config.At.realizes_put {ty : Ty} {op : Nat → Op} {v : Value} {m : Machine} {w : World}
    (h : c.At r b) (hb : b.Open pending) (hi : (b.put ty op).Inside pending r declared)
    (hop : (op b.regTypes.length).isPhi = false)
    (hstep : c.step p = .next (c.wrote ((b.put ty op).rest r.blocks) b.regTypes.length v m))
    (hw : m.world = w) (hkept : Kept c.machine.memory m.memory)
    (hfits : v.Fits p.records m.memory ty) :
    c.Realizes p ticks (fun v c' => c'.At r (b.put ty op) ∧ c.Follows b.regTypes.length c' ∧
      c'.Has p (b.put ty op) b.regTypes.length v) (some (.ok v, w)) := by
  obtain ⟨-, hsize, hat⟩ := h.put hb hi hop
  refine .step hstep (.value hw ⟨hat v m, .wrote _ v (Nat.le_refl _) hkept, ?_, ?_⟩)
  · exact Registers.holds_set hsize
  · rw [Builder.typeAt_put]
    exact hfits

/-- The machine puts a number into a field of a record that there is, in two steps. -/
theorem Config.At.store {record : String} {base value i place : Nat} {x : Float} {a : Allocation}
    (h : c.At r b) (hb : b.Open pending)
    (hi : (b.storeField record base value i).Inside pending r declared)
    (hbase : c.frame.regs.Holds base (.ptr place 0)) (hvalue : value < b.regTypes.length)
    (hx : c.frame.regs.Holds value (.float x)) (ha : c.machine.memory[place]? = some a)
    (hcell : i < a.cells.length) (hword : i < UInt64.size) :
    ∃ rest c', c.frame.ops =
        .fieldAddr b.regTypes.length base 0 i :: .store value b.regTypes.length :: rest ∧
      c.Reaches p 2 c' ∧ Eval.store place i x c.machine.world = some (.ok (), c'.machine.world) ∧
      c'.At r (b.storeField record base value i) ∧ c.Follows b.regTypes.length c' := by
  have hput : (b.put (.ptr record) (.fieldAddr · base 0 i)).Inside pending r declared :=
    hi.back (.of_emit hi.within rfl) (List.prefix_refl _) fun _ hs => hs
  obtain ⟨hops, hsize, hat⟩ := h.put hb hput rfl
  have haddress := step_fieldAddr (p := p) hops hsize hbase (by rwa [Nat.zero_mul, Nat.zero_add])
  rw [Nat.zero_mul, Nat.zero_add] at haddress
  have hat₁ := hat (.ptr place i) c.machine.tick
  have hrest := hi.within.rest_emit (hb.put _ _).ready.current_lt (hb.put _ _).free rfl
  have hregs : Agree b.regTypes.length c.frame.regs
      (c.frame.regs.set! b.regTypes.length (some (.ptr place i))) := .set (Nat.le_refl _) _
  have hstored := step_store (p := p) (hat₁.ops.trans hrest) (hregs.holds hvalue hx)
    (Registers.holds_set hsize)
    (show i < c.machine.tick.widthAt place by
      rw [Machine.widthAt, show c.machine.tick.memory[place]? = some a from ha]
      exact hcell)
  refine ⟨_, _, hops.trans (congrArg _ hrest), .step haddress (.step hstored .refl),
    Eval.store_apply x ha hcell, ⟨hat₁.routine, hat₁.block, rfl, hat₁.size⟩, ?_⟩
  exact ⟨rfl, hregs, .store c.machine.tick place i x⟩

/-- The next step leads into a block. -/
def Config.GoesTo (p : Program) (c : Config) (target : Nat) : Prop :=
  ∀ frame : Frame, Frame.enterBlock c.frame.routine c.frame.regs (some c.frame.block) target =
    .ok frame → c.step p = .next ⟨c.machine.tick, frame, c.callers⟩

/-- At its end a block is left by a jump. -/
theorem Config.At.goesTo_jump {target : Nat} {ops : List Op} (h : c.At r b)
    (hops : b.rest r.blocks = .jump target :: ops) : c.GoesTo p target :=
  fun _ => step_jump (h.ops.trans hops)

/-- The machine goes on in an empty block, where the builder stands that has opened it. -/
theorem Config.GoesTo.enter {target : Nat} (h : c.GoesTo p target) (hr : c.frame.routine = r)
    (hsize : c.frame.regs.size = r.regTypes.length) (hcur : b.current = target)
    (hb : b.Open pending) (hi : b.Inside pending r declared)
    (hempty : Builder.opsOf b.blocks b.current = []) :
    ∃ c', c.step p = .next c' ∧ c'.machine.world = c.machine.world ∧ c'.At r b ∧
      ∀ n, c.Follows n c' := by
  have henter := hi.enterBlock hb hempty c.frame.regs (some c.frame.block)
  subst hcur hr
  exact ⟨_, h _ henter, rfl, ⟨rfl, rfl, rfl, hsize⟩, fun _ => ⟨rfl, .refl, .refl⟩⟩

/-- The machine goes on in a block that starts with a phi, and takes over a value. -/
theorem Config.GoesTo.enter_phi {target dest reg source : Nat} {edges : List (Nat × Nat)} {v : Value}
    (h : c.GoesTo p target) (hr : c.frame.routine = r)
    (hsize : c.frame.regs.size = r.regTypes.length) (hcur : b.current = target)
    (hb : b.Open pending) (hi : b.Inside pending r declared)
    (hphi : Builder.opsOf b.blocks b.current = [.phi dest edges]) (hsource : c.frame.block = source)
    (hedge : ∀ more ops, Builder.opsOf r.blocks b.current = .phi dest more :: ops →
      more.find? (·.2 == source) = some (reg, source))
    (hv : c.frame.regs.Holds reg v) (hdest : dest < r.regTypes.length) :
    ∃ c', c.step p = .next c' ∧ c'.machine.world = c.machine.world ∧ c'.At r b ∧
      c.Follows dest c' ∧ c'.frame.regs.Holds dest v := by
  subst hcur hr hsource
  rw [← hsize] at hdest
  have henter := hi.enterBlock_phi hb hphi hedge hv hdest
  refine ⟨_, h _ henter, rfl, ⟨rfl, rfl, rfl, ?_⟩, ⟨rfl, .set (Nat.le_refl _) _, .refl⟩,
    Registers.holds_set hdest⟩
  simpa [Array.set!_eq_setIfInBounds] using hsize

/-- At the end of a branch the machine goes to the join and takes the value of the branch along. -/
theorem Config.At.join {joined : Builder} {pending' : Nat → Prop} {dest reg : Nat}
    {edges : List (Nat × Nat)} {v : Value} (h : c.At r b) (hb : b.Open pending')
    (hbj : joined.Open pending) (hi : joined.Inside pending r declared)
    (hphi : Builder.opsOf joined.blocks joined.current = [.phi dest edges])
    (hjump : (b.emit (.jump joined.current)).Within pending' r.blocks)
    (hedge : edges.find? (·.2 == b.current) = some (reg, b.current))
    (hdest : dest < r.regTypes.length) (hv : c.frame.regs.Holds reg v)
    (hfits : v.Fits p.records c.machine.memory (joined.typeAt dest)) :
    c.Realizes p ticks (fun v c' => c'.At r joined ∧ c.Follows dest c' ∧ c'.Has p joined dest v)
      (some (.ok v, c.machine.world)) := by
  have hops := hjump.rest_emit hb.ready.current_lt hb.free rfl
  obtain ⟨c', hstep, hworld, hat, hf, hv'⟩ := (h.goesTo_jump (p := p) hops).enter_phi h.routine
    h.size rfl hbj hi hphi h.block
    (fun _ _ hall => hi.find_edge hbj.ready.current_lt hbj.free hphi hall hedge) hv hdest
  exact .step hstep (.value hworld ⟨hat, hf, hv', hfits.kept hf.memory⟩)

/-- The machine tests a number, and then goes to one of two blocks. -/
theorem Config.At.test {value t e : Nat} {x : Float} {ops : List Op} (h : c.At r b)
    (hops : b.rest r.blocks =
      .truthy b.regTypes.length value :: .branch b.regTypes.length t e :: ops)
    (hx : c.frame.regs.Holds value (.float x)) (hroom : b.regTypes.length < r.regTypes.length) :
    ∃ c', c.step p = .next c' ∧ c'.machine.world = c.machine.world ∧ c'.frame.routine = r ∧
      c'.frame.block = b.current ∧ c'.frame.regs.size = r.regTypes.length ∧
      c.Follows b.regTypes.length c' ∧ c'.GoesTo p (if x != 0 then t else e) := by
  have hsize : b.regTypes.length < c.frame.regs.size := h.size.symm ▸ hroom
  refine ⟨_, step_truthy (h.ops.trans hops) hsize hx, rfl, h.routine, h.block, ?_,
    .wrote _ _ (Nat.le_refl _) .refl, fun _ => step_branch rfl (Registers.holds_set hsize)⟩
  simpa [Config.wrote, Array.set!_eq_setIfInBounds] using h.size

end

end PoseLang
