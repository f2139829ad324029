import PoseLang.Proofs.Lowering.Resolved

/-!
# Every register is filled once, and as its type says

A builder makes a register only together with the operation that fills it, so that the registers that
operations write are those behind the parameters, each of them once (`Builder.writes`). What an
operation does also says of which types its registers are (`Op.WellTyped`). Lowering keeps both
(`Lowered.filled`). Registers keep their types, which is why operations stay well typed while registers
are added; an edge is added to a phi only if its register has the type of the phi.
-/

namespace PoseLang

/-- The registers of an operation have the types that it requires. What a call requires is said by its
target, and what an end with a value requires by the result type of the function. -/
def Op.WellTyped (c : Context) (ret : Ty) (types : List Ty) : Op → Prop
  | .const dest _ => types[dest]? = some .f64
  | .arith _ dest left right =>
    types[dest]? = some .f64 ∧ types[left]? = some .f64 ∧ types[right]? = some .f64
  | .truthy dest src => types[dest]? = some .bool ∧ types[src]? = some .f64
  | .call dest callee args =>
    (∀ arg ∈ args, types[arg]? = some .f64) ∧ ∃ target, c.resolve? callee = some target ∧
      target.signature.arity = args.length ∧ types[dest]? = some target.signature.ret
  | .alloca dest record => types[dest]? = some (.ptr record)
  | .fieldAddr dest base _ _ =>
    ∃ record, types[dest]? = some (.ptr record) ∧ types[base]? = some (.ptr record)
  | .store src addr => types[src]? = some .f64 ∧ ∃ record, types[addr]? = some (.ptr record)
  | .phi dest incoming => ∃ ty, types[dest]? = some ty ∧ ∀ e ∈ incoming, types[e.1]? = some ty
  | .jump _ => True
  | .branch cond _ _ => types[cond]? = some .bool
  | .ret src => types[src]? = some ret

theorem regType_mono {types types' : List Ty} (h : types <+: types') {reg : Nat} {ty : Ty}
    (hreg : types[reg]? = some ty) : types'[reg]? = some ty := by
  obtain ⟨more, rfl⟩ := h
  rw [List.getElem?_append_left (List.getElem?_eq_some_iff.mp hreg).1]
  exact hreg

/-- Registers that are added make no difference to an operation. -/
theorem Op.WellTyped.mono {c : Context} {ret : Ty} {types types' : List Ty} {op : Op}
    (h : op.WellTyped c ret types) (hregs : types <+: types') : op.WellTyped c ret types' := by
  have keep {reg : Nat} {ty : Ty} (hreg : types[reg]? = some ty) : types'[reg]? = some ty :=
    regType_mono hregs hreg
  cases op with
  | const dest x => exact keep h
  | arith kind dest left right => exact ⟨keep h.1, keep h.2.1, keep h.2.2⟩
  | truthy dest src => exact ⟨keep h.1, keep h.2⟩
  | call dest callee args =>
    obtain ⟨hargs, target, hresolve, harity, hret⟩ := h
    exact ⟨fun arg harg => keep (hargs arg harg), target, hresolve, harity, keep hret⟩
  | alloca dest record => exact keep h
  | fieldAddr dest base outer inner =>
    obtain ⟨record, hdest, hbase⟩ := h
    exact ⟨record, keep hdest, keep hbase⟩
  | store src addr =>
    obtain ⟨hsrc, record, haddr⟩ := h
    exact ⟨keep hsrc, record, keep haddr⟩
  | phi dest incoming =>
    obtain ⟨ty, hdest, hedges⟩ := h
    exact ⟨ty, keep hdest, fun e he => keep (hedges e he)⟩
  | jump target => trivial
  | branch cond thenBlock elseBlock => exact keep h
  | ret src => exact keep h

namespace Builder

/-! ## The registers that are written -/

/-- The registers that the operations of blocks write. -/
def writesOf (blocks : List Block) : List Nat :=
  blocks.flatMap fun block => block.ops.filterMap Op.dest?

/-- A block that is changed so that it writes some registers more. -/
theorem writesOf_modify {f : Block → Block} {more : List Nat}
    (hf : ∀ block : Block, (f block).ops.filterMap Op.dest? =
      block.ops.filterMap Op.dest? ++ more) :
    ∀ (blocks : List Block) (i : Nat), i < blocks.length →
      (writesOf (blocks.modify i f)).Perm (writesOf blocks ++ more) := by
  intro blocks
  induction blocks with
  | nil => exact fun i hi => absurd hi (Nat.not_lt_zero i)
  | cons block blocks ih =>
    intro i hi
    cases i with
    | zero =>
      rw [List.modify_zero_cons, writesOf, List.flatMap_cons, hf, writesOf, List.flatMap_cons,
        List.append_assoc, List.append_assoc]
      exact List.perm_append_comm.append_left _
    | succ i =>
      have hrest := ih i (Nat.lt_of_succ_lt_succ hi)
      rw [List.modify_succ_cons, writesOf, List.flatMap_cons, writesOf, List.flatMap_cons,
        List.append_assoc]
      exact hrest.append_left _

section

variable {b : Builder}

theorem writesOf_emit (op : Op) (hlt : b.current < b.blocks.length) :
    (writesOf (b.emit op).blocks).Perm (writesOf b.blocks ++ op.dest?.toList) := by
  refine writesOf_modify (fun block => ?_) b.blocks b.current hlt
  rw [Block.push, List.filterMap_append]
  cases hdest : op.dest? <;> simp [hdest]

theorem writesOf_appendBlock (label : String) :
    writesOf (b.appendBlock label).2.blocks = writesOf b.blocks := by
  simp [writesOf, Builder.appendBlock]

/-- A phi with an edge more writes the register that it wrote. -/
theorem filterMap_addEdge (dest : Nat) (edge : Nat × Nat) (ops : List Op) :
    (addEdge dest edge ops).filterMap Op.dest? = ops.filterMap Op.dest? := by
  fun_induction addEdge dest edge ops with
  | case1 => rfl
  | case2 incoming ops => rfl
  | case3 d incoming ops hne ih =>
    rw [List.filterMap_cons, List.filterMap_cons, ih]
  | case4 op ops hne ih => rw [List.filterMap_cons, List.filterMap_cons, ih]

theorem writesOf_addPhiEdge {block : Nat} (dest : Nat) (edge : Nat × Nat)
    (hblock : block < b.blocks.length) :
    (writesOf (b.addPhiEdge block dest edge).blocks).Perm (writesOf b.blocks) := by
  rw [← List.append_nil (writesOf b.blocks)]
  refine writesOf_modify (fun bl => ?_) b.blocks block hblock
  rw [filterMap_addEdge, List.append_nil]

end

/-! ## Steps -/

/-- The registers behind the first `n` are written once each, and no others are; operations are well
typed. -/
structure Filled (c : Context) (ret : Ty) (n : Nat) (b : Builder) : Prop where
  le : n ≤ b.regTypes.length
  writes : (writesOf b.blocks).Perm (List.range' n (b.regTypes.length - n))
  typed : ∀ (i : Nat), ∀ op ∈ opsOf b.blocks i, op.WellTyped c ret b.regTypes

theorem regTypes_of_typeAt {b : Builder} {reg : Nat} {ty : Ty} (hreg : reg < b.regTypes.length)
    (h : b.typeAt reg = ty) : b.regTypes[reg]? = some ty := by
  rw [typeAt, typeOf?, List.getElem?_eq_getElem hreg] at h
  rw [List.getElem?_eq_getElem hreg]
  exact congrArg some h

namespace Filled

variable {c : Context} {ret : Ty} {n : Nat} {b b' : Builder}

/-- A step that changes neither blocks nor registers. -/
theorem of_eq (h : b.Filled c ret n) (hblocks : b'.blocks = b.blocks)
    (hregs : b'.regTypes = b.regTypes) : b'.Filled c ret n := by
  refine ⟨?_, ?_, fun i op hop => ?_⟩
  · rw [hregs]
    exact h.le
  · rw [hblocks, hregs]
    exact h.writes
  · rw [hblocks] at hop
    rw [hregs]
    exact h.typed i op hop

/-- An operation that writes no register. -/
theorem emit (h : b.Filled c ret n) (hlt : b.current < b.blocks.length) (op : Op)
    (hdest : op.dest? = none) (hop : op.WellTyped c ret b.regTypes) : (b.emit op).Filled c ret n := by
  refine ⟨h.le, ?_, fun i o ho => ?_⟩
  · have hwrites := writesOf_emit op hlt
    rw [hdest, Option.toList_none, List.append_nil] at hwrites
    exact hwrites.trans h.writes
  · rcases mem_opsOf_emit ho with hold | rfl
    · exact h.typed i o hold
    · exact hop

/-- A new register, with the operation that writes it. -/
theorem put (h : b.Filled c ret n) (hlt : b.current < b.blocks.length) {ty : Ty} {op : Nat → Op}
    (hdest : (op b.regTypes.length).dest? = some b.regTypes.length)
    (hop : (op b.regTypes.length).WellTyped c ret (b.regTypes ++ [ty])) :
    (b.put ty op).Filled c ret n := by
  have hle := h.le
  have hlength : (b.put ty op).regTypes.length = b.regTypes.length + 1 := by
    rw [put_regTypes, List.length_append, List.length_singleton]
  refine ⟨by omega, ?_, fun i o ho => ?_⟩
  · have hwrites := writesOf_emit (b := (b.newReg ty).2) (op b.regTypes.length) hlt
    have hcount : b.regTypes.length + 1 - n = b.regTypes.length - n + 1 := by omega
    have hnext : n + (b.regTypes.length - n) = b.regTypes.length := by omega
    rw [hdest] at hwrites
    rw [hlength, hcount, List.range'_1_concat, hnext]
    exact hwrites.trans (h.writes.append_right _)
  · rcases mem_opsOf_emit (b := (b.newReg ty).2) ho with hold | rfl
    · exact (h.typed i o hold).mono (List.prefix_append _ _)
    · exact hop

theorem appendBlock (h : b.Filled c ret n) (label : String) :
    (b.appendBlock label).2.Filled c ret n := by
  refine ⟨h.le, ?_, fun i op hop => ?_⟩
  · rw [writesOf_appendBlock]
    exact h.writes
  · rw [opsOf_appendBlock] at hop
    exact h.typed i op hop

/-- An edge more for a phi, of the type of the phi. -/
theorem addPhiEdge (h : b.Filled c ret n) (block dest : Nat) (edge : Nat × Nat)
    (hblock : block < b.blocks.length)
    (hedge : ∀ ty, b.regTypes[dest]? = some ty → b.regTypes[edge.1]? = some ty) :
    (b.addPhiEdge block dest edge).Filled c ret n := by
  refine ⟨h.le, (writesOf_addPhiEdge dest edge hblock).trans h.writes, fun i op hop => ?_⟩
  show op.WellTyped c ret b.regTypes
  rcases mem_opsOf_addPhiEdge hop with hold | ⟨-, incoming, hphi, rfl⟩
  · exact h.typed i op hold
  · obtain ⟨ty, hdest, hedges⟩ := h.typed i _ hphi
    refine ⟨ty, hdest, fun e he => ?_⟩
    rcases List.mem_append.mp he with he | he
    · exact hedges e he
    · rw [List.mem_singleton.mp he]
      exact hedge ty hdest

theorem jumpTo (h : b.Filled c ret n) (hlt : b.current < b.blocks.length) (target next : Nat) :
    (b.jumpTo target next).Filled c ret n :=
  (h.emit hlt (.jump target) rfl trivial).of_eq rfl rfl

/-- A number is tested. -/
theorem test (h : b.Filled c ret n) (hlt : b.current < b.blocks.length) {value : Nat}
    (hvalue : b.regTypes[value]? = some .f64) : (b.put .bool (.truthy · value)).Filled c ret n :=
  h.put hlt rfl ⟨List.getElem?_concat_length, regType_mono (List.prefix_append _ _) hvalue⟩

theorem openBranches (h : b.Filled c ret n) (hlt : b.current < b.blocks.length) {value : Nat}
    (hvalue : b.regTypes[value]? = some .f64) : (b.openBranches value).Filled c ret n := by
  have forked := (((h.test hlt hvalue).appendBlock "then").appendBlock "else").appendBlock "ifcont"
  refine (forked.emit ?_ (.branch b.regTypes.length b.blocks.length (b.blocks.length + 1)) rfl
    ?_).of_eq rfl rfl
  · show b.current < _
    simp only [appendBlock_blocks_length, put_blocks_length]
    omega
  · exact List.getElem?_concat_length

theorem joinBranches (h : b.Filled c ret n) (hlt : b.current < b.blocks.length) {merge : Nat}
    (hmerge : merge < b.blocks.length) {ty : Ty} {edges : List (Nat × Nat)}
    (hedges : ∀ e ∈ edges, b.regTypes[e.1]? = some ty) :
    (b.joinBranches merge ty edges).Filled c ret n := by
  refine (h.jumpTo hlt merge merge).put (by simpa using hmerge) rfl ⟨ty, ?_, fun e he => ?_⟩
  · exact List.getElem?_concat_length
  · exact regType_mono (List.prefix_append _ _) (hedges e he)

theorem openLoop (h : b.Filled c ret n) (hlt : b.current < b.blocks.length) (v : String) {first : Nat}
    (hfirst : b.regTypes[first]? = some .f64) : (b.openLoop v first).Filled c ret n := by
  have joined : ((b.appendBlock "loop").2.joinBranches b.blocks.length .f64
      [(first, b.current)]).Filled c ret n := by
    refine (h.appendBlock "loop").joinBranches ?_ (by simp) fun e he => ?_
    · rw [appendBlock_blocks_length]
      exact Nat.lt_succ_of_lt hlt
    · rw [List.mem_singleton.mp he]
      exact hfirst
  exact joined.of_eq rfl rfl

theorem closeLoop (h : b.Filled c ret n) (hlt : b.current < b.blocks.length) (v : String)
    (shadowed : Option Nat) (block : Nat) {counter next value : Nat} (hblock : block < b.blocks.length)
    (hcounter : b.regTypes[counter]? = some .f64) (hnext : b.regTypes[next]? = some .f64)
    (hvalue : b.regTypes[value]? = some .f64) :
    (b.closeLoop v shadowed block counter next value).Filled c ret n := by
  have opened := (h.test hlt hvalue).appendBlock "afterloop"
  have branched := opened.emit
    (show b.current < _ by simp only [appendBlock_blocks_length, put_blocks_length]; omega)
    (.branch b.regTypes.length block b.blocks.length) rfl List.getElem?_concat_length
  have keep {reg : Nat} (hreg : b.regTypes[reg]? = some .f64) :
      (b.regTypes ++ [Ty.bool])[reg]? = some .f64 :=
    regType_mono (List.prefix_append _ _) hreg
  have edged := branched.addPhiEdge block counter (next, b.current)
    (by simp only [emit_blocks_length, appendBlock_blocks_length, put_blocks_length]; omega)
    (fun ty hty => by cases (keep hcounter).symm.trans hty; exact keep hnext)
  exact edged.of_eq (restore_blocks _ v shadowed) (restore_regTypes _ v shadowed)

theorem storeField (h : b.Filled c ret n) (hlt : b.current < b.blocks.length) {record : String}
    {base value : Nat} (field : Nat) (hbase : b.regTypes[base]? = some (.ptr record))
    (hvalue : b.regTypes[value]? = some .f64) : (b.storeField record base value field).Filled c ret n := by
  have addressed : (b.put (.ptr record) (.fieldAddr · base 0 field)).Filled c ret n :=
    h.put hlt rfl ⟨record, List.getElem?_concat_length,
      regType_mono (List.prefix_append _ _) hbase⟩
  refine addressed.emit (by simpa using hlt) (.store value b.regTypes.length) rfl ⟨?_, record, ?_⟩
  · exact regType_mono (List.prefix_append _ _) hvalue
  · exact List.getElem?_concat_length

theorem need (h : b.Filled c ret n) (t : Target) : (b.need t).Filled c ret n :=
  h.of_eq (need_blocks b t) (need_regTypes b t)

end Filled

end Builder

/-! ## Lowered expressions -/

section

open Builder

variable {c : Context} {ret : Ty} {n : Nat}

mutual

/-- Lowering an expression fills the registers that it makes, with values of their types. -/
theorem Lowered.filled : ∀ {e : Expr} {b b' : Builder} {r : Nat}, Lowered c e b r b' → b.Ready →
    b.Filled c ret n → b'.Filled c ret n
  | _, _, _, _, .num, hb, h => h.put hb.current_lt rfl List.getElem?_concat_length
  | _, _, _, _, .var _, _, h => h
  | _, _, _, _, @Lowered.binary _ _ _ kind _ _ b b₁ b₂ l r first second leftTy rightTy _, hb, h => by
    have g₁ := first.grown hb
    have g₂ := second.grown (g₁.1.ready hb)
    have f₂ := second.filled (g₁.1.ready hb) (first.filled hb h)
    have hl := regTypes_of_typeAt (Nat.lt_of_lt_of_le g₁.2 g₂.1.regTypes.length_le) leftTy
    have hr := regTypes_of_typeAt g₂.2 rightTy
    refine f₂.put g₂.1.current_lt rfl ⟨List.getElem?_concat_length, ?_, ?_⟩
    · exact regType_mono (List.prefix_append _ _) hl
    · exact regType_mono (List.prefix_append _ _) hr
  | _, _, _, _, @Lowered.call _ _ callee _ target b b₁ regs resolved arity given, hb, h => by
    obtain ⟨f₁, hargs⟩ := given.filled hb h
    have g₁ := (given.grown hb).1
    refine (f₁.need target).put (by simpa using g₁.current_lt) rfl
      ⟨fun arg harg => ?_, target, resolved, arity.trans given.length_eq.symm, ?_⟩
    · rw [need_regTypes]
      exact regType_mono (List.prefix_append _ _) (hargs arg harg)
    · exact List.getElem?_concat_length
  | _, _, _, _, @Lowered.cond _ _ _ _ _ b b₁ b₂ b₃ value t e test testTy first second sameTy, hb,
      h => by
    have g₁ := test.grown hb
    have r₁ := g₁.1.ready hb
    have opened := (test.filled hb h).openBranches g₁.1.current_lt (regTypes_of_typeAt g₁.2 testTy)
    have readyThen := r₁.openBranches value
    have g₂ := first.grown readyThen
    have jumped := (first.filled readyThen opened).jumpTo g₂.1.current_lt (b₁.blocks.length + 2)
      (b₁.blocks.length + 1)
    have readyElse := g₂.1.ready_otherwise r₁
    have g₃ := second.grown readyElse
    have long₂ := g₂.1.length_le
    have long₃ := g₃.1.length_le
    rw [openBranches_blocks_length] at long₂
    rw [jumpTo_blocks_length] at long₃
    refine (second.filled readyElse jumped).joinBranches g₃.1.current_lt (by omega) fun edge hedge => ?_
    rcases List.mem_cons.mp hedge with rfl | hedge
    · exact regTypes_of_typeAt (Nat.lt_of_lt_of_le g₂.2 g₃.1.regTypes.length_le) rfl
    · rw [List.mem_singleton.mp hedge]
      exact regTypes_of_typeAt g₃.2 sameTy
  | _, _, _, _, @Lowered.loop _ _ v _ _ _ _ b b₁ b₂ b₃ b₄ _ first _ increment value started firstTy
      ran stepped tested valueTy closed, hb, h => by
    have g₁ := started.grown hb
    have r₁ := g₁.1.ready hb
    have opened := (started.filled hb h).openLoop g₁.1.current_lt v (regTypes_of_typeAt g₁.2 firstTy)
    have readyBody := r₁.openLoop v first
    have g₂ := (ran.grown readyBody).1
    have r₂ := g₂.ready readyBody
    have g₃ := (stepped.grown r₂).1
    have r₃ := g₃.ready r₂
    obtain ⟨f₃, hincrement⟩ := stepped.filled r₂ (ran.filled readyBody opened)
    -- The register of the variable keeps its type in all that is lowered inside the loop.
    have hcounter : b₃.regTypes[b₁.regTypes.length]? = some .f64 := by
      refine regType_mono (g₂.regTypes.trans g₃.regTypes) ?_
      rw [openLoop_regTypes]
      exact List.getElem?_concat_length
    have added : (b₃.put .f64 (.arith .add · b₁.regTypes.length increment)).Filled c ret n :=
      f₃.put r₃.current_lt rfl ⟨List.getElem?_concat_length,
        regType_mono (List.prefix_append _ _) hcounter,
        regType_mono (List.prefix_append _ _) hincrement⟩
    have readyTest := r₃.put .f64 (.arith .add · b₁.regTypes.length increment)
    have g₄ := tested.grown readyTest
    have long₂ := g₂.length_le
    have long₃ := g₃.length_le
    have long₄ := g₄.1.length_le
    rw [openLoop_blocks_length] at long₂
    rw [put_blocks_length] at long₄
    have hnext : b₄.regTypes[b₃.regTypes.length]? = some .f64 := by
      refine regType_mono g₄.1.regTypes ?_
      rw [put_regTypes]
      exact List.getElem?_concat_length
    have hkept := regType_mono ((List.prefix_append b₃.regTypes [Ty.f64]).trans g₄.1.regTypes)
      hcounter
    subst closed
    have behind := (tested.filled readyTest added).closeLoop g₄.1.current_lt v (b₁.lookup? v)
      b₁.blocks.length (by omega) hkept hnext (regTypes_of_typeAt g₄.2 valueTy)
    exact behind.put (by simp) rfl List.getElem?_concat_length
  | _, _, _, _, .alloc _, hb, h => h.put hb.current_lt rfl List.getElem?_concat_length
  | _, _, _, _, .construct storage baseTy _ filled, hb, h => by
    have g₁ := storage.grown hb
    exact filled.filled (g₁.1.ready hb) (storage.filled hb h) (regTypes_of_typeAt g₁.2 baseTy)

theorem LoweredArgs.filled : ∀ {es : List Expr} {b b' : Builder} {regs : List Nat},
    LoweredArgs c es b regs b' → b.Ready → b.Filled c ret n →
      b'.Filled c ret n ∧ ∀ reg ∈ regs, b'.regTypes[reg]? = some .f64
  | _, _, _, _, .nil, _, h => ⟨h, fun _ hreg => by cases hreg⟩
  | _, _, _, _, .cons head headTy tail, hb, h => by
    have g₁ := head.grown hb
    have r₁ := g₁.1.ready hb
    obtain ⟨f₂, hregs⟩ := tail.filled r₁ (head.filled hb h)
    refine ⟨f₂, fun reg hreg => ?_⟩
    rcases List.mem_cons.mp hreg with rfl | hreg
    · exact regType_mono (tail.grown r₁).1.regTypes (regTypes_of_typeAt g₁.2 headTy)
    · exact hregs reg hreg

theorem LoweredStep.filled : ∀ {stepBy : Option Expr} {b b' : Builder} {r : Nat},
    LoweredStep c stepBy b r b' → b.Ready → b.Filled c ret n →
      b'.Filled c ret n ∧ b'.regTypes[r]? = some .f64
  | _, _, _, _, .one, hb, h =>
    ⟨h.put hb.current_lt rfl List.getElem?_concat_length, List.getElem?_concat_length⟩
  | _, _, _, _, .given value valueTy, hb, h =>
    ⟨value.filled hb h, regTypes_of_typeAt (value.grown hb).2 valueTy⟩

theorem LoweredFields.filled : ∀ {base width : Nat} {record : String} {fields : List (Nat × Expr)}
    {b b' : Builder}, LoweredFields c base record width fields b b' → b.Ready → b.Filled c ret n →
      b.regTypes[base]? = some (.ptr record) → b'.Filled c ret n
  | _, _, _, _, _, _, .nil, _, h, _ => h
  | _, _, _, _, _, _, @LoweredFields.cons _ base _ record i _ _ b b₁ _ value _ head headTy tail, hb, h,
      hbase => by
    have g₁ := head.grown hb
    have r₁ := g₁.1.ready hb
    have hbase₁ := regType_mono g₁.1.regTypes hbase
    have stored := (head.filled hb h).storeField g₁.1.current_lt i hbase₁
      (regTypes_of_typeAt g₁.2 headTy)
    have g₂ := Grown.storeField r₁ record base value i
    exact tail.filled (g₂.ready r₁) stored (regType_mono g₂.regTypes hbase₁)

end

end

end PoseLang
