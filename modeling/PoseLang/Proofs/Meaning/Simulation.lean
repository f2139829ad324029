import PoseLang.Proofs.Meaning.Standing

/-!
# Lowered expressions do what they mean

The simulation of expressions, one form after the other: from where the builder stood the machine
realizes the value of the expression that was lowered next, and stands where the builder stood then,
with the value in its register and all registers from before as they were (`Lowered.simulates`).
-/

namespace PoseLang

open Allocation (Kept)

/-! ## One form of expression after the other -/

/-- A round of a loop has been tested, and the next step leads to another round, with a number for the
variable in a register, or behind the loop. -/
structure Config.Turns (p : Program) (r : Routine) (source next loop after : Nat)
    (o : Option Float) (c : Config) : Prop where
  routine : c.frame.routine = r
  block : c.frame.block = source
  size : c.frame.regs.size = r.regTypes.length
  again : ∀ x, o = some x → c.GoesTo p loop ∧ c.frame.regs.Holds next (.float x)
  leave : o = none → c.GoesTo p after

/-- The operators of the language are those of the machine. -/
theorem Expr.operate?_eq_some {op : Char} {kind : Arith} (h : Arith.ofChar? op = some kind)
    (x y : Float) : operate? op x y = some (kind.apply x y) := by
  unfold Arith.ofChar? at h
  split at h <;> cases h <;> rfl

namespace Simulates

open Config Config.Realizes

variable {ctx : Context} {p : Program} {r : Routine} {declared : List Signature} {ticks : Nat}
  {onCall : Scope → String → List Float → Eval Value} {b b₁ b₂ : Builder}

theorem num {loc : Option Location} {x : Float} :
    Simulates p r declared ticks b (b.put .f64 (.const · x))
      (fun v c => c.Has p (b.put .f64 (.const · x)) b.regTypes.length v)
      fun scope => (Expr.num loc x).eval p.records onCall ticks scope := by
  intro pending scope c hb hi hat _
  obtain ⟨hops, hsize, -⟩ := hat.put hb hi rfl
  simp only [Expr.eval, Eval.pure_apply]
  exact hat.realizes_put hb hi rfl (step_const hops hsize) rfl .refl .float

theorem var {loc : Option Location} {name : String} {reg : Nat} (bound : b.lookup? name = some reg) :
    Simulates p r declared ticks b b (fun v c => c.Has p b reg v)
      fun scope => (Expr.var loc name).eval p.records onCall ticks scope := by
  intro pending scope c hb hi hat held
  obtain ⟨hty, x, hx, hreg⟩ := held.vars bound
  simp only [Expr.eval, hx]
  exact .value rfl ⟨hat, .refl, hreg, hty ▸ .float⟩

theorem binary {loc : Option Location} {op : Char} {kind : Arith} {left right : Expr} {i j : Nat}
    (first : Lowered ctx left b i b₁) (second : Lowered ctx right b₁ j b₂)
    (leftTy : b₂.typeAt i = .f64) (rightTy : b₂.typeAt j = .f64)
    (known : Arith.ofChar? op = some kind)
    (hfirst : Simulates p r declared ticks b b₁ (fun v c => c.Has p b₁ i v)
      fun scope => left.eval p.records onCall ticks scope)
    (hsecond : Simulates p r declared ticks b₁ b₂ (fun v c => c.Has p b₂ j v)
      fun scope => right.eval p.records onCall ticks scope) :
    Simulates p r declared ticks b (b₂.put .f64 (.arith kind · i j))
      (fun v c => c.Has p (b₂.put .f64 (.arith kind · i j)) b₂.regTypes.length v)
      fun scope => (Expr.binary loc op left right).eval p.records onCall ticks scope := by
  intro pending scope c hb hi hat held
  obtain ⟨g₁, hlt⟩ := first.grown hb.ready
  have hb₁ := hb.grown g₁
  have g₂ := (second.grown hb₁.ready).1
  have hi₂ := hi.of_put rfl
  dsimp only
  rw [Expr.eval]
  refine bind_number (hfirst hb (second.inside hb₁.ready hi₂) hat held) (fun v c₁ h₁ => ?_)
    fun x c₁ ⟨hat₁, hf₁, hx⟩ => ?_
  · exact h₁.2.2.float ((Builder.typeAt_of_prefix g₂.regTypes hlt).symm.trans leftTy)
  refine bind_number (hsecond hb₁ hi₂ hat₁ (held.grown hb.ready g₁ hf₁)) (fun v c₂ h₂ => ?_)
    fun y c₂ ⟨hat₂, hf₂, hy⟩ => ?_
  · exact h₂.2.2.float rightTy
  -- The first operand is still where it was when the second one is there.
  have hx₂ := hf₂.regs.holds hlt hx.holds
  have hb₂ := hb₁.grown g₂
  obtain ⟨hops, hsize, -⟩ := hat₂.put hb₂ hi rfl
  rw [Expr.operate?_eq_some known]
  refine (hat₂.realizes_put hb₂ hi rfl (step_arith hops hsize hx₂ hy.holds) rfl .refl .float).imp ?_
  rintro v c₃ ⟨hat₃, hf₃, hv⟩
  exact ⟨hat₃, (hf₁.trans hf₂ g₁.regTypes.length_le).trans hf₃
    (g₁.regTypes.trans g₂.regTypes).length_le, hv⟩

theorem call {loc : Option Location} {callee : String} {args : List Expr} {target : Target}
    {regs : List Nat} (linked : ctx.Linked declared p) (calls : CallsRealized p ticks onCall)
    (resolved : ctx.resolve? callee = some target) (arity : target.signature.arity = args.length)
    (given : LoweredArgs ctx args b regs b₁)
    (hgiven : Simulates p r declared ticks b b₁ (fun xs c => c.frame.regs.HoldAll regs xs)
      fun scope => Expr.evalArgs p.records onCall ticks scope args) :
    Simulates p r declared ticks b ((b₁.need target).put target.signature.ret (.call · callee regs))
      (fun v c => c.Has p ((b₁.need target).put target.signature.ret (.call · callee regs))
        (b₁.need target).regTypes.length v)
      fun scope => (Expr.call loc callee args).eval p.records onCall ticks scope := by
  intro pending scope c hb hi hat held
  have g₁ := (given.grown hb.ready).1
  have hb₁ := hb.grown g₁
  have hneeded := hi.of_put rfl
  simp only [Expr.eval]
  refine (hgiven hb (hneeded.of_need resolved) hat held).bind fun xs c₁ ⟨hat₁, hf₁, hxs⟩ => ?_
  have held₁ := held.grown hb.ready g₁ hf₁
  have hb₂ := hb₁.grown (.need hb₁.ready target)
  have hat₂ : c₁.At r (b₁.need target) := hat₁.of_blocks (by simp) (by simp)
  obtain ⟨hops, hsize, hput⟩ := hat₂.put hb₂ hi rfl
  obtain ⟨routine, hroutine, harity, hret⟩ := linked.callee resolved hneeded
  have hcount : routine.arity = xs.length := by
    rw [harity, arity, ← given.length_eq, hxs.length_eq]
  refine (calls hops hsize hxs hroutine hcount (held₁.function.trans ?_) held₁.depth).imp ?_
  · rw [hat₁.routine]
  rintro v c₂ ⟨m, rfl, hkept, hfits⟩
  refine ⟨hput v m, hf₁.trans (.wrote _ v (Nat.le_refl _) hkept) ?_, Registers.holds_set hsize, ?_⟩
  · rw [Builder.need_regTypes]
    exact g₁.regTypes.length_le
  · rw [Builder.typeAt_put, ← hret]
    exact hfits

theorem args_nil : Simulates p r declared ticks b b (fun xs c => c.frame.regs.HoldAll [] xs)
    fun scope => Expr.evalArgs p.records onCall ticks scope [] := by
  intro pending scope c hb hi hat held
  simp only [Expr.evalArgs, Eval.pure_apply]
  exact .value rfl ⟨hat, .refl, rfl⟩

theorem args_cons {e : Expr} {es : List Expr} {reg : Nat} {regs : List Nat}
    (head : Lowered ctx e b reg b₁) (headTy : b₁.typeAt reg = .f64)
    (tail : LoweredArgs ctx es b₁ regs b₂)
    (hhead : Simulates p r declared ticks b b₁ (fun v c => c.Has p b₁ reg v)
      fun scope => e.eval p.records onCall ticks scope)
    (htail : Simulates p r declared ticks b₁ b₂ (fun xs c => c.frame.regs.HoldAll regs xs)
      fun scope => Expr.evalArgs p.records onCall ticks scope es) :
    Simulates p r declared ticks b b₂ (fun xs c => c.frame.regs.HoldAll (reg :: regs) xs)
      fun scope => Expr.evalArgs p.records onCall ticks scope (e :: es) := by
  intro pending scope c hb hi hat held
  obtain ⟨g₁, hlt⟩ := head.grown hb.ready
  have hb₁ := hb.grown g₁
  simp only [Expr.evalArgs]
  refine bind_number (hhead hb (tail.inside hb₁.ready hi) hat held)
    (fun v c₁ h₁ => h₁.2.2.float headTy) fun x c₁ ⟨hat₁, hf₁, hx⟩ => ?_
  refine (htail hb₁ hi hat₁ (held.grown hb.ready g₁ hf₁)).bind fun xs c₂ ⟨hat₂, hf₂, hxs⟩ => ?_
  have hx₂ := hf₂.regs.holds hlt hx.holds
  exact .value rfl ⟨hat₂, hf₁.trans hf₂ g₁.regTypes.length_le, .cons hx₂ hxs⟩

theorem step_one : Simulates p r declared ticks b (b.put .f64 (.const · 1))
    (fun x c => c.frame.regs.Holds b.regTypes.length (.float x))
    fun scope => Expr.evalStep p.records onCall ticks scope none := by
  intro pending scope c hb hi hat held
  obtain ⟨hops, hsize, hput⟩ := hat.put hb hi rfl
  simp only [Expr.evalStep, Eval.pure_apply]
  exact .step (step_const hops hsize)
    (.value rfl ⟨hput _ _, .wrote _ _ (Nat.le_refl _) .refl, Registers.holds_set hsize⟩)

theorem step_given {e : Expr} {reg : Nat} (valueTy : b₁.typeAt reg = .f64)
    (hvalue : Simulates p r declared ticks b b₁ (fun v c => c.Has p b₁ reg v)
      fun scope => e.eval p.records onCall ticks scope) :
    Simulates p r declared ticks b b₁ (fun x c => c.frame.regs.Holds reg (.float x))
      fun scope => Expr.evalStep p.records onCall ticks scope (some e) := by
  intro pending scope c hb hi hat held
  simp only [Expr.evalStep]
  refine bind (hvalue hb hi hat held) fun v c₁ ⟨hat₁, hf₁, hv⟩ => ?_
  obtain ⟨x, rfl⟩ := hv.float valueTy
  exact .value rfl ⟨hat₁, hf₁, hv.holds⟩

theorem alloc {loc : Option Location} {record : String} {layout : Layout}
    (registered : p.records[record]? = some layout) :
    Simulates p r declared ticks b (b.put (.ptr record) (.alloca · record))
      (fun v c => c.Has p (b.put (.ptr record) (.alloca · record)) b.regTypes.length v)
      fun scope => (Expr.alloc loc record).eval p.records onCall ticks scope := by
  intro pending scope c hb hi hat _
  obtain ⟨hops, hsize, -⟩ := hat.put hb hi rfl
  simp only [Expr.eval, registered]
  exact hat.realizes_put hb hi rfl (step_alloca hops hsize registered) rfl (.push _)
    (.ptr Array.getElem?_push_size registered List.length_replicate)

theorem fields_nil {base : Nat} : Stores p r declared ticks base b b
    fun scope place => Expr.evalFields p.records onCall ticks scope place 0 [] := by
  intro pending scope c place hb hi hat held _
  simp only [Expr.evalFields, Eval.pure_apply]
  exact .value rfl ⟨hat, .refl⟩

/-- Where the value of a field has been computed, the machine puts it into the record, and then has all
that the next field needs. -/
theorem field {pending : Nat → Prop} {scope : Scope} {c c₁ : Config} {base value i place : Nat}
    {record : String} {layout : Layout} {e : Expr} {x : Float} (hbase : base < b.regTypes.length)
    (baseTy : b.typeAt base = .ptr record) (registered : p.records[record]? = some layout)
    (inside : i < layout.width) (head : Lowered ctx e b value b₁) (hb : b.Open pending)
    (hi : (b₁.storeField record base value i).Inside pending r declared) (held : scope.Held r b c)
    (has : c.Has p b base (.ptr place 0)) (hat₁ : c₁.At r b₁) (hf₁ : c.Follows b.regTypes.length c₁)
    (hx : c₁.frame.regs.Holds value (.float x)) :
    ∃ rest c₂, c₁.frame.ops =
        .fieldAddr b₁.regTypes.length base 0 i :: .store value b₁.regTypes.length :: rest ∧
      c₁.frame.regs.Holds base (.ptr place 0) ∧ c₁.Reaches p 2 c₂ ∧
      Eval.store place i x c₁.machine.world = some (.ok (), c₂.machine.world) ∧
      c₂.At r (b₁.storeField record base value i) ∧ c.Follows b.regTypes.length c₂ ∧
      scope.Held r (b₁.storeField record base value i) c₂ ∧
      c₂.Has p (b₁.storeField record base value i) base (.ptr place 0) := by
  obtain ⟨g₁, hlt⟩ := head.grown hb.ready
  have hb₁ := hb.grown g₁
  have g := g₁.trans hb.ready (.storeField hb₁.ready record base value i)
  have hbase₁ := hf₁.regs.holds hbase has.holds
  have hfits₁ := has.fits.kept hf₁.memory
  rw [baseTy] at hfits₁
  obtain ⟨a, ha, hwide⟩ := hfits₁.allocation registered
  obtain ⟨rest, c₂, hops, hreach, hstore, hat₂, hf₂⟩ :=
    hat₁.store (p := p) hb₁ hi hbase₁ hlt hx ha (hwide ▸ inside)
      (Nat.lt_trans inside layout.fields_lt)
  have hf : c.Follows b.regTypes.length c₂ := hf₁.trans hf₂ g₁.regTypes.length_le
  refine ⟨rest, c₂, hops, hbase₁, hreach, hstore, hat₂, hf, held.grown hb.ready g hf, ?_⟩
  exact ⟨hf.regs.holds hbase has.holds,
    Builder.typeAt_of_prefix g.regTypes hbase ▸ has.fits.kept hf.memory⟩

theorem fields_cons {base value i : Nat} {record : String} {layout : Layout} {e : Expr}
    {fields : List (Nat × Expr)} (hbase : base < b.regTypes.length)
    (baseTy : b.typeAt base = .ptr record) (registered : p.records[record]? = some layout)
    (inside : i < layout.width) (head : Lowered ctx e b value b₁) (headTy : b₁.typeAt value = .f64)
    (tail : LoweredFields ctx base record layout.width fields (b₁.storeField record base value i) b₂)
    (hhead : Simulates p r declared ticks b b₁ (fun v c => c.Has p b₁ value v)
      fun scope => e.eval p.records onCall ticks scope)
    (htail : Stores p r declared ticks base (b₁.storeField record base value i) b₂
      fun scope place => Expr.evalFields p.records onCall ticks scope place 0 fields) :
    Stores p r declared ticks base b b₂
      fun scope place => Expr.evalFields p.records onCall ticks scope place 0 ((i, e) :: fields) := by
  intro pending scope c place hb hi hat held has
  have g₁ := (head.grown hb.ready).1
  have g := g₁.trans hb.ready (.storeField (hb.grown g₁).ready record base value i)
  have hb₂ := hb.grown g
  have hi₂ := tail.inside hb₂.ready hi
  simp only [Expr.evalFields]
  refine bind_number (hhead hb hi₂.of_storeField hat held) (fun v c₁ h₁ => h₁.2.2.float headTy)
    fun x c₁ ⟨hat₁, hf₁, hx⟩ => ?_
  obtain ⟨rest, c₂, -, -, hreach, hstore, hat₂, hf, held₂, has₂⟩ :=
    field hbase baseTy registered inside head hb hi₂ held has hat₁ hf₁ hx.holds
  have hstored : c₁.Realizes p ticks (fun _ c' => c' = c₂)
      (Eval.store place (0 + i) x c₁.machine.world) := by
    rw [Nat.zero_add, hstore]
    exact ⟨2, c₂, hreach, rfl, rfl⟩
  refine hstored.bind fun _ c' hc' => ?_
  subst hc'
  refine (htail hb₂ hi hat₂ held₂ has₂).imp ?_
  rintro _ c₃ ⟨hat₃, hf₃⟩
  exact ⟨hat₃, hf.trans hf₃ g.regTypes.length_le⟩

theorem construct {loc : Option Location} {destination : Expr} {fields : List (Nat × Expr)}
    {record : String} {base : Nat} (storage : Lowered ctx destination b base b₁)
    (baseTy : b₁.typeAt base = .ptr record) {width : Nat}
    (filled : LoweredFields ctx base record width fields b₁ b₂)
    (hstorage : Simulates p r declared ticks b b₁ (fun v c => c.Has p b₁ base v)
      fun scope => destination.eval p.records onCall ticks scope)
    (hfilled : Stores p r declared ticks base b₁ b₂
      fun scope place => Expr.evalFields p.records onCall ticks scope place 0 fields) :
    Simulates p r declared ticks b b₂ (fun v c => c.Has p b₂ base v)
      fun scope => (Expr.construct loc destination fields).eval p.records onCall ticks scope := by
  intro pending scope c hb hi hat held
  obtain ⟨g₁, hlt⟩ := storage.grown hb.ready
  have hb₁ := hb.grown g₁
  have g₂ := filled.grown hb₁.ready
  dsimp only
  rw [Expr.eval]
  refine (hstorage hb (filled.inside hb₁.ready hi) hat held).bind fun v c₁ ⟨hat₁, hf₁, has₁⟩ => ?_
  have hfits := has₁.fits
  rw [baseTy] at hfits
  obtain ⟨place, rfl⟩ := hfits.eq_ptr
  refine (hfilled hb₁ hi hat₁ (held.grown hb.ready g₁ hf₁) has₁).bind fun _ c₂ ⟨hat₂, hf₂⟩ => ?_
  refine .value rfl ⟨hat₂, hf₁.trans hf₂ g₁.regTypes.length_le, hf₂.regs.holds hlt has₁.holds, ?_⟩
  rw [Builder.typeAt_of_prefix g₂.regTypes hlt]
  exact has₁.fits.kept hf₂.memory

/-- One branch of a conditional: the machine enters its block, runs it, and takes its value to the
join. -/
theorem branch {before joined : Builder} {pending pending' : Nat → Prop} {scope : Scope}
    {c c₂ : Config} {reg dest : Nat} {edges : List (Nat × Nat)} {eval : Scope → Eval Value}
    (hbranch : Simulates p r declared ticks b₁ b₂ (fun v c => c.Has p b₂ reg v) eval)
    (hb₁ : b₁.Open pending') (hi₁ : b₁.Inside pending' r declared)
    (hempty : Builder.opsOf b₁.blocks b₁.current = []) (hb₂ : b₂.Open pending')
    (hi₂ : b₂.Inside pending' r declared) (hbj : joined.Open pending)
    (hij : joined.Inside pending r declared)
    (hphi : Builder.opsOf joined.blocks joined.current = [.phi dest edges])
    (hjump : (b₂.emit (.jump joined.current)).Within pending' r.blocks)
    (hedge : edges.find? (·.2 == b₂.current) = some (reg, b₂.current))
    (hdest : dest < r.regTypes.length) (hty : joined.typeAt dest = b₂.typeAt reg)
    (hgo : c₂.GoesTo p b₁.current) (hr : c₂.frame.routine = r)
    (hsize : c₂.frame.regs.size = r.regTypes.length) (hf : c.Follows before.regTypes.length c₂)
    (held : ∀ c₃, c.Follows before.regTypes.length c₃ → scope.Held r b₁ c₃)
    (hregs : before.regTypes.length ≤ b₁.regTypes.length)
    (hregs' : before.regTypes.length ≤ dest) :
    c₂.Realizes p ticks (fun v c' => c'.At r joined ∧ c.Follows before.regTypes.length c' ∧
      c'.Has p joined dest v) (eval scope c₂.machine.world) := by
  obtain ⟨c₃, hstep₃, hworld₃, hat₃, hf₃⟩ := hgo.enter hr hsize rfl hb₁ hi₁ hempty
  have hf₃ := hf.trans (hf₃ _) (Nat.le_refl _)
  rw [← hworld₃]
  refine .step hstep₃ ((hbranch hb₁ hi₂ hat₃ (held c₃ hf₃)).followed fun v c₄ ⟨hat₄, hf₄, hv⟩ => ?_)
  have hf₄ := hf₃.trans hf₄ hregs
  refine (hat₄.join hb₂ hbj hij hphi hjump hedge hdest hv.holds (hty ▸ hv.fits)).imp ?_
  rintro v c₅ ⟨hat₅, hf₅, hv₅⟩
  exact ⟨hat₅, hf₄.trans hf₅ hregs', hv₅⟩

theorem cond {loc : Option Location} {condition thenBranch elseBranch : Expr} {b₃ : Builder}
    {value t e : Nat} (test : Lowered ctx condition b value b₁) (testTy : b₁.typeAt value = .f64)
    (first : Lowered ctx thenBranch (b₁.openBranches value) t b₂)
    (second : Lowered ctx elseBranch
      (b₂.jumpTo (b₁.blocks.length + 2) (b₁.blocks.length + 1)) e b₃)
    (sameTy : b₃.typeAt e = b₃.typeAt t)
    (htest : Simulates p r declared ticks b b₁ (fun v c => c.Has p b₁ value v)
      fun scope => condition.eval p.records onCall ticks scope)
    (hfirst : Simulates p r declared ticks (b₁.openBranches value) b₂ (fun v c => c.Has p b₂ t v)
      fun scope => thenBranch.eval p.records onCall ticks scope)
    (hsecond : Simulates p r declared ticks
      (b₂.jumpTo (b₁.blocks.length + 2) (b₁.blocks.length + 1)) b₃ (fun v c => c.Has p b₃ e v)
      fun scope => elseBranch.eval p.records onCall ticks scope) :
    Simulates p r declared ticks b
      (b₃.joinBranches (b₁.blocks.length + 2) (b₃.typeAt t) [(t, b₂.current), (e, b₃.current)])
      (fun v c => c.Has p (b₃.joinBranches (b₁.blocks.length + 2) (b₃.typeAt t)
        [(t, b₂.current), (e, b₃.current)]) b₃.regTypes.length v)
      fun scope => (Expr.cond loc condition thenBranch elseBranch).eval p.records onCall ticks
        scope := by
  intro pending scope c hb hi hat held
  obtain ⟨g₁, hlt⟩ := test.grown hb.ready
  have hb₁ := hb.grown g₁
  have hbt := hb₁.openBranches value
  obtain ⟨gt, htlt⟩ := first.grown hbt.ready
  have hb₂ := hbt.grown gt
  have hlen := gt.length_le
  rw [Builder.openBranches_blocks_length] at hlen
  have hbe := hb₂.jumpTo (b₁.blocks.length + 2) (b₁.blocks.length + 1) (by omega)
    (fun h => h.elim (by omega) fun h => absurd (hb₁.known _ h) (by omega))
  obtain ⟨ge, -⟩ := second.grown hbe.ready
  have hb₃ := hbe.grown ge
  have hbj := hb.grown (g₁.branches hb.ready gt ge (b₃.typeAt t) [(t, b₂.current), (e, b₃.current)])
  -- What is built lies within the routine, the block of the join apart as long as it is empty.
  have hi₃ := hi.of_joinBranches
  have hie := second.inside hbe.ready hi₃
  have hi₂ := hie.of_jumpTo
  have hit := first.inside hbt.ready hi₂
  have hi₁ := hit.of_openBranches
  obtain ⟨hends, hphi⟩ := Builder.joined_phi hb₁.ready gt (fun h => hb₂.free (.inl h)) ge
    (b₃.typeAt t) [(t, b₂.current), (e, b₃.current)]
  have hroom := hi.room
  rw [Builder.joinBranches_regTypes, List.length_append, List.length_singleton] at hroom
  simp only [Expr.eval]
  refine bind_number (htest hb hi₁ hat held) (fun v c₁ h₁ => h₁.2.2.float testTy)
    fun x c₁ ⟨hat₁, hf₁, hx⟩ => ?_
  have hregs₁ := g₁.regTypes.length_le
  have hregst : b₁.regTypes.length ≤ (b₁.openBranches value).regTypes.length := by simp
  have hregs₂ : b₁.regTypes.length ≤ b₂.regTypes.length :=
    Nat.le_trans hregst gt.regTypes.length_le
  have hregs₃ : b₂.regTypes.length ≤ b₃.regTypes.length := ge.regTypes.length_le
  obtain ⟨ops, hops⟩ := hit.rest_openBranches hb₁.ready
    (fun h => h.elim (fun h => absurd hb₁.ready.current_lt (by omega)) hb₁.free)
  obtain ⟨c₂, hstep₂, hworld₂, hr₂, -, hsize₂, hf₂, hgo⟩ :=
    hat₁.test (p := p) hops hx.holds (by omega)
  rw [← hworld₂]
  refine .step hstep₂ ?_
  have hf₂ := hf₁.trans hf₂ g₁.regTypes.length_le
  have hty : (b₃.joinBranches (b₁.blocks.length + 2) (b₃.typeAt t)
      [(t, b₂.current), (e, b₃.current)]).typeAt b₃.regTypes.length = b₃.typeAt t :=
    Builder.typeAt_put (b := b₃.jumpTo _ _) _ _
  by_cases hzero : x != 0
  · rw [if_pos hzero] at hgo ⊢
    refine branch hfirst hbt hit (Builder.opsOf_openBranches value hb₁.ready (Nat.le_refl _)) hb₂ hi₂
      hbj hi hphi (.of_blocks hie.within rfl) (by simp) (by omega) ?_ hgo hr₂ hsize₂ hf₂
      (fun c₃ hf₃ => ?_) (by omega) (by omega)
    · exact hty.trans (Builder.typeAt_of_prefix ge.regTypes htlt)
    · exact held.mono hb.ready (g₁.regTypes.trans (List.prefix_append _ _)) g₁.bindings hf₃
  · rw [if_neg hzero] at hgo ⊢
    have helse : b₂.current ≠ b₁.blocks.length + 1 := by
      have hcur := gt.current
      simp only [Builder.openBranches_current, Builder.openBranches_blocks_length] at hcur
      omega
    have hjump : (b₃.jumpTo (b₁.blocks.length + 2) (b₁.blocks.length + 2)).Within
        (fun i => i = b₁.blocks.length + 2 ∨ pending i) r.blocks := .of_phi hi.within
    refine branch hsecond hbe hie (gt.opsOf_openBranches hb₁.ready (by simp) (by simp) helse _ _) hb₃
      hi₃ hbj hi hphi (.of_blocks hjump rfl) (by simp [hends]) (by omega) (hty.trans sameTy.symm) hgo
      hr₂ hsize₂ hf₂ (fun c₃ hf₃ => ?_) (Nat.le_trans hregs₁ hregs₂) (by omega)
    have hprefix : b₁.regTypes <+: b₂.regTypes := (List.prefix_append _ _).trans gt.regTypes
    exact held.mono hb.ready (g₁.regTypes.trans hprefix) (gt.bindings.trans g₁.bindings) hf₃

/-! ### Loops -/

section

variable {body test : Expr} {stepBy : Option Expr} {v : String}
  {first result increment value : Nat} {b₃ b₄ : Builder}
  (ran : Lowered ctx body (b₁.openLoop v first) result b₂)
  (stepped : LoweredStep ctx stepBy b₂ increment b₃)
  (tested : Lowered ctx test (b₃.put .f64 (.arith .add · b₁.regTypes.length increment)) value b₄)
  (valueTy : b₄.typeAt value = .f64)
  (hran : Simulates p r declared ticks (b₁.openLoop v first) b₂ (fun v c => c.Has p b₂ result v)
    fun scope => body.eval p.records onCall ticks scope)
  (hstepped : Simulates p r declared ticks b₂ b₃
    (fun x c => c.frame.regs.Holds increment (.float x))
    fun scope => Expr.evalStep p.records onCall ticks scope stepBy)
  (htested : Simulates p r declared ticks
    (b₃.put .f64 (.arith .add · b₁.regTypes.length increment)) b₄
    (fun v c => c.Has p b₄ value v) fun scope => test.eval p.records onCall ticks scope)

include ran stepped tested

/-- What the block of a loop holds behind its phi is built one part after the other. -/
theorem grown_round (hb : b₁.Ready) : (b₁.openLoop v first).Grown b₄ ∧
    b₃.regTypes.length < b₄.regTypes.length := by
  have hbl := hb.openLoop v first
  have g₂ := (ran.grown hbl).1
  have g₃ := g₂.trans hbl (stepped.grown (g₂.ready hbl)).1
  have ga := g₃.trans hbl (.put (g₃.ready hbl) .f64 (.arith .add · b₁.regTypes.length increment))
  have gt := (tested.grown (ga.ready hbl)).1
  refine ⟨ga.trans hbl gt, ?_⟩
  have hregs := gt.regTypes.length_le
  rw [Builder.put_regTypes, List.length_append, List.length_singleton] at hregs
  exact hregs

theorem inside_round {pending : Nat → Prop} (hb : b₁.Ready) (hi : b₄.Inside pending r declared) :
    (b₁.openLoop v first).Inside pending r declared := by
  have hbl := hb.openLoop v first
  have g₂ := (ran.grown hbl).1
  have hb₂ := g₂.ready hbl
  have hb₃ := (stepped.grown hb₂).1.ready hb₂
  have hia := tested.inside (hb₃.put .f64 (.arith .add · b₁.regTypes.length increment)) hi
  exact ran.inside hbl (stepped.inside hb₂ (hia.of_put rfl))

include valueTy hran hstepped htested

/-- A round of a loop: the body, the step, the variable's next value, and the test. -/
theorem round {pending : Nat → Prop} {scope : Scope} {c : Config} {x : Float} (hb : b₁.Open pending)
    (hi : b₄.Inside pending r declared) (hat : c.At r (b₁.openLoop v first))
    (held : scope.Held r (b₁.openLoop v first) c)
    (hx : c.frame.regs.Holds b₁.regTypes.length (.float x)) :
    c.Realizes p ticks (fun o c' => c'.At r b₄ ∧ c.Follows (b₁.regTypes.length + 1) c' ∧
      ∃ y z, o = (if y != 0 then some z else none) ∧ c'.frame.regs.Holds value (.float y) ∧
        c'.frame.regs.Holds b₃.regTypes.length (.float z))
      ((do
        let _ ← body.eval p.records onCall ticks scope
        let step ← Expr.evalStep p.records onCall ticks scope stepBy
        let again ← Eval.number (← test.eval p.records onCall ticks scope)
        pure (if again != 0 then some (x + step) else none) : Eval (Option Float))
        c.machine.world) := by
  have hbl := hb.openLoop v first
  have hlen : (b₁.openLoop v first).regTypes.length = b₁.regTypes.length + 1 := by simp
  have g₂ := (ran.grown hbl.ready).1
  have hb₂ := hbl.grown g₂
  have gs := (stepped.grown hb₂.ready).1
  have g₃ := g₂.trans hbl.ready gs
  have hb₃ := hb₂.grown gs
  have hba := hb₃.put .f64 (.arith .add · b₁.regTypes.length increment)
  have hia := tested.inside hba.ready hi
  have hi₃ := hia.of_put rfl
  refine (hran hbl (stepped.inside hb₂.ready hi₃) hat held).bind fun _ c₁ ⟨hat₁, hf₁, _⟩ => ?_
  have held₁ := held.grown hbl.ready g₂ hf₁
  refine (hstepped hb₂ hi₃ hat₁ held₁).bind fun step c₂ ⟨hat₂, hf₂, hstep⟩ => ?_
  have hf₂ := hf₁.trans hf₂ g₂.regTypes.length_le
  obtain ⟨hops, hsize, hput⟩ := hat₂.put hb₃ hia rfl
  have hx₂ := hf₂.regs.holds (by simp) hx
  refine .step (step_arith hops hsize hx₂ hstep) ?_
  have hkept : Kept c₂.machine.memory c₂.machine.tick.memory := .refl
  have hf₃ := hf₂.trans
    (.wrote ((b₃.put .f64 (.arith .add · b₁.regTypes.length increment)).rest r.blocks)
      (.float (x + step)) (Nat.le_refl _) hkept) g₃.regTypes.length_le
  have ga := g₃.trans hbl.ready
    (.put hb₃.ready .f64 (.arith .add · b₁.regTypes.length increment))
  refine bind_number (htested hba hi (hput _ _) (held.grown hbl.ready ga hf₃))
    (fun v c₄ h₄ => h₄.2.2.float valueTy) fun y c₄ ⟨hat₄, hf₄, hy⟩ => ?_
  have hz := hf₄.regs.holds (by simp) (Registers.holds_set hsize)
  exact .value rfl ⟨hat₄, hlen ▸ hf₃.trans hf₄ ga.regTypes.length_le, y, x + step, rfl, hy.holds, hz⟩

/-- Rounds of a loop, and the way out of it. -/
theorem rounds {pending : Nat → Prop} {scope : Scope} {c c₁ : Config} {x : Float}
    {shadowed : Option Nat} {b₅ : Builder} (hb : b.Ready) (g₁ : b.Grown b₁) (hb₁ : b₁.Open pending)
    (closed : b₅ = b₄.closeLoop v shadowed b₁.blocks.length b₁.regTypes.length b₃.regTypes.length
      value) (hb₅ : b₅.Open pending) (hi₅ : b₅.Inside pending r declared) (held : scope.Held r b c)
    (hat : c₁.At r (b₁.openLoop v first)) (hf : c.Follows b.regTypes.length c₁)
    (hx : c₁.frame.regs.Holds b₁.regTypes.length (.float x)) :
    c₁.Realizes p ticks (fun _ c' => c'.At r b₅ ∧ c.Follows b.regTypes.length c')
      (Eval.rounds (fun x => do
        let _ ← body.eval p.records onCall ticks (scope.bind v x)
        let increment ← Expr.evalStep p.records onCall ticks (scope.bind v x) stepBy
        let again ← Eval.number (← test.eval p.records onCall ticks (scope.bind v x))
        pure (if again != 0 then some (x + increment) else none)) ticks x c₁.machine.world) := by
  subst closed
  have hbl := hb₁.openLoop v first
  obtain ⟨g₄, hnext⟩ := grown_round ran stepped tested hb₁.ready
  have hb₄ := hbl.grown g₄
  have hi₄ := hi₅.of_closeLoop
  have hil := inside_round ran stepped tested hb₁.ready hi₄
  have hrooml := hil.room
  have hroom₅ := hi₅.room
  rw [Builder.openLoop_regTypes, List.length_append, List.length_singleton] at hrooml
  rw [Builder.closeLoop_regTypes, List.length_append, List.length_singleton] at hroom₅
  have hregs₁ := g₁.regTypes.length_le
  have hregs₄ := g₄.regTypes.length_le
  rw [Builder.openLoop_regTypes, List.length_append, List.length_singleton] at hregs₄
  have hlen₄ := g₄.length_le
  rw [Builder.openLoop_blocks_length] at hlen₄
  refine Realizes.rounds
    (fun x c' => c'.At r (b₁.openLoop v first) ∧ c.Follows b.regTypes.length c' ∧
      c'.frame.regs.Holds b₁.regTypes.length (.float x))
    (fun o c' => c'.Turns p r b₄.current b₃.regTypes.length b₁.blocks.length b₄.blocks.length o ∧
      c.Follows b.regTypes.length c')
    ?round ?again ?leave ⟨hat, hf, hx⟩ (Nat.le_refl _)
  case round =>
    rintro x c₂ ⟨hat₂, hf₂, hx₂⟩
    refine (round ran stepped tested valueTy hran hstepped htested hb₁ hi₄ hat₂
      (held.openLoop hb g₁ hf₂ hx₂) hx₂).followed ?_
    rintro o c₃ ⟨hat₃, hf₃, y, z, ho, hy, hz⟩
    obtain ⟨_, hops⟩ := hi₅.rest_closeLoop hb₄.ready hb₄.free
    obtain ⟨c₄, hstep₄, hworld₄, hr₄, hblock₄, hsize₄, hf₄, hgo⟩ :=
      hat₃.test (p := p) hops hy (by omega)
    have hf₄' := (hf₂.trans hf₃ (by omega)).trans hf₄ (by omega)
    refine .step hstep₄ (.value hworld₄ ⟨⟨hr₄, hblock₄, hsize₄, fun u hu => ?_, fun hu => ?_⟩, hf₄'⟩)
    · by_cases hzero : y != 0
      · rw [if_pos hzero] at hgo ho
        cases ho.symm.trans hu
        exact ⟨hgo, hf₄.regs.holds hnext hz⟩
      · rw [if_neg hzero] at ho
        cases ho.symm.trans hu
    · by_cases hzero : y != 0
      · rw [if_pos hzero] at ho
        cases ho.symm.trans hu
      · rw [if_neg hzero] at hgo
        exact hgo
  case again =>
    rintro x c₂ ⟨hturns, hf₂⟩
    obtain ⟨hgo, hx₂⟩ := hturns.again x rfl
    obtain ⟨c₃, hstep₃, hworld₃, hat₃, hf₃, hx₃⟩ := hgo.enter_phi hturns.routine hturns.size rfl hbl
      hil (Builder.opsOf_openLoop v first hb₁.ready) hturns.block
      (fun _ _ hall => (hi₅.loop_edges hb₁ g₄ hall).2) hx₂ (by omega)
    exact ⟨c₃, hstep₃, hworld₃, hat₃, hf₂.trans hf₃ hregs₁, hx₃⟩
  case leave =>
    rintro c₂ ⟨hturns, hf₂⟩
    obtain ⟨c₃, hstep₃, hworld₃, hat₃, hf₃⟩ := (hturns.leave rfl).enter hturns.routine hturns.size
      (Builder.closeLoop_current ..) hb₅ hi₅ (by
        rw [Builder.closeLoop_current]
        exact Builder.opsOf_closeLoop_after v shadowed _ value hb₄.ready (by omega))
    exact .step hstep₃ (.value hworld₃ ⟨hat₃, hf₂.trans (hf₃ _) (Nat.le_refl _)⟩)

theorem loop {loc : Option Location} {start : Expr} {b₅ : Builder}
    (started : Lowered ctx start b first b₁) (firstTy : b₁.typeAt first = .f64)
    (closed : b₅ = b₄.closeLoop v (b₁.lookup? v) b₁.blocks.length b₁.regTypes.length
      b₃.regTypes.length value)
    (hstarted : Simulates p r declared ticks b b₁ (fun v c => c.Has p b₁ first v)
      fun scope => start.eval p.records onCall ticks scope) :
    Simulates p r declared ticks b (b₅.put .f64 (.const · 0))
      (fun v c => c.Has p (b₅.put .f64 (.const · 0)) b₅.regTypes.length v)
      fun scope => (Expr.loop loc v start test stepBy body).eval p.records onCall ticks scope := by
  intro pending scope c hb hi hat held
  obtain ⟨g₁, -⟩ := started.grown hb.ready
  have hb₁ := hb.grown g₁
  obtain ⟨g₄, -⟩ := grown_round ran stepped tested hb₁.ready
  have g₅ : b.Grown b₅ := closed ▸ g₁.loop hb.ready g₄ _ _ _
  have hb₅ := hb.grown g₅
  have hi₅ := hi.of_put rfl
  have hi₅' := hi₅
  rw [closed] at hi₅'
  have hil := inside_round ran stepped tested hb₁.ready hi₅'.of_closeLoop
  have hroom := hil.room
  rw [Builder.openLoop_regTypes, List.length_append, List.length_singleton] at hroom
  simp only [Expr.eval]
  refine bind_number (hstarted hb hil.of_openLoop hat held) (fun v c₁ h₁ => h₁.2.2.float firstTy)
    fun x c₁ ⟨hat₁, hf₁, hx⟩ => ?_
  obtain ⟨_, hjump⟩ := hil.rest_openLoop hb₁
  obtain ⟨c₂, hstep₂, hworld₂, hat₂, hf₂, hx₂⟩ := (hat₁.goesTo_jump (p := p) hjump).enter_phi
    hat₁.routine hat₁.size rfl (hb₁.openLoop v first) hil (Builder.opsOf_openLoop v first hb₁.ready)
    hat₁.block (fun _ _ hall => (hi₅'.loop_edges hb₁ g₄ hall).1) hx.holds hroom
  rw [← hworld₂]
  refine .step hstep₂ (.bind (rounds ran stepped tested valueTy hran hstepped htested hb.ready g₁ hb₁
    closed hb₅ hi₅ held hat₂ (hf₁.trans hf₂ g₁.regTypes.length_le) hx₂)
    fun _ c₃ ⟨hat₃, hf₃⟩ => ?_)
  obtain ⟨hops, hsize, -⟩ := hat₃.put hb₅ hi rfl
  refine (hat₃.realizes_put hb₅ hi rfl (step_const hops hsize) rfl .refl .float).imp ?_
  rintro v c₄ ⟨hat₄, hf₄, hv⟩
  exact ⟨hat₄, hf₃.trans hf₄ g₅.regTypes.length_le, hv⟩

end

end Simulates

/-! ## All expressions -/

section

variable {ctx : Context} {p : Program} {r : Routine} {declared : List Signature} {ticks : Nat}
  {onCall : Scope → String → List Float → Eval Value}

mutual

/-- An expression that has been lowered does what it means. -/
theorem Lowered.simulates (linked : ctx.Linked declared p) (calls : CallsRealized p ticks onCall) :
    ∀ {e : Expr} {b b' : Builder} {reg : Nat}, Lowered ctx e b reg b' →
      Simulates p r declared ticks b b' (fun v c => c.Has p b' reg v)
        fun scope => e.eval p.records onCall ticks scope
  | _, _, _, _, .num => Simulates.num
  | _, _, _, _, .var bound => Simulates.var bound
  | _, _, _, _, .binary first second leftTy rightTy known =>
    Simulates.binary first second leftTy rightTy known (first.simulates linked calls)
      (second.simulates linked calls)
  | _, _, _, _, .call resolved arity given =>
    Simulates.call linked calls resolved arity given (given.simulates linked calls)
  | _, _, _, _, .cond test testTy first second sameTy =>
    Simulates.cond test testTy first second sameTy (test.simulates linked calls)
      (first.simulates linked calls) (second.simulates linked calls)
  | _, _, _, _, .loop started firstTy ran stepped tested valueTy closed =>
    Simulates.loop ran stepped tested valueTy (ran.simulates linked calls) (stepped.simulates linked calls)
      (tested.simulates linked calls) started firstTy closed (started.simulates linked calls)
  | _, _, _, _, .alloc registered => Simulates.alloc (linked.records ▸ registered)
  | _, _, _, _, .construct storage baseTy registered filled => by
    intro hb
    obtain ⟨g, hlt⟩ := storage.grown hb.ready
    exact Simulates.construct storage baseTy filled (storage.simulates linked calls)
      (filled.stores linked calls hlt baseTy (linked.records ▸ registered) (g.ready hb.ready)) hb

theorem LoweredArgs.simulates (linked : ctx.Linked declared p)
    (calls : CallsRealized p ticks onCall) :
    ∀ {es : List Expr} {b b' : Builder} {regs : List Nat}, LoweredArgs ctx es b regs b' →
      Simulates p r declared ticks b b' (fun xs c => c.frame.regs.HoldAll regs xs)
        fun scope => Expr.evalArgs p.records onCall ticks scope es
  | _, _, _, _, .nil => Simulates.args_nil
  | _, _, _, _, .cons head headTy tail =>
    Simulates.args_cons head headTy tail (head.simulates linked calls) (tail.simulates linked calls)

theorem LoweredStep.simulates (linked : ctx.Linked declared p)
    (calls : CallsRealized p ticks onCall) :
    ∀ {stepBy : Option Expr} {b b' : Builder} {reg : Nat}, LoweredStep ctx stepBy b reg b' →
      Simulates p r declared ticks b b' (fun x c => c.frame.regs.Holds reg (.float x))
        fun scope => Expr.evalStep p.records onCall ticks scope stepBy
  | _, _, _, _, .one => Simulates.step_one
  | _, _, _, _, .given value valueTy => Simulates.step_given valueTy (value.simulates linked calls)

theorem LoweredFields.stores (linked : ctx.Linked declared p)
    (calls : CallsRealized p ticks onCall) :
    ∀ {base : Nat} {record : String} {layout : Layout} {fields : List (Nat × Expr)} {b b' : Builder},
      LoweredFields ctx base record layout.width fields b b' → base < b.regTypes.length →
      b.typeAt base = .ptr record → p.records[record]? = some layout → b.Ready →
      Stores p r declared ticks base b b'
        fun scope place => Expr.evalFields p.records onCall ticks scope place 0 fields
  | _, _, _, _, _, _, .nil, _, _, _, _ => Simulates.fields_nil
  | _, _, _, _, _, _, @LoweredFields.cons _ base _ record i _ _ _ _ _ value inside head headTy tail,
      hbase, baseTy, registered, hb => by
    have g₁ := (head.grown hb).1
    have g := g₁.trans hb (.storeField (g₁.ready hb) record base value i)
    exact Simulates.fields_cons hbase baseTy registered inside head headTy tail
      (head.simulates linked calls)
      (tail.stores linked calls (Nat.lt_of_lt_of_le hbase g.regTypes.length_le)
        ((Builder.typeAt_of_prefix g.regTypes hbase).trans baseTy) registered (g.ready hb))

end

end

end PoseLang
