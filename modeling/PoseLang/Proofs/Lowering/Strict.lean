import PoseLang.Proofs.Lowering.Accepted
import PoseLang.Proofs.Lowering.Assigned

/-!
# Lowered code is in strict single assignment form

A routine is strict (`Routine.Strict`) if the registers behind the parameters are filled by one operation
each, a phi has one edge from each block that leads to it, no register is read before it is filled, on
whatever way the reading operation is reached, and all operations are well typed. Every definition that
is lowered gives a strict routine.

The ways through a routine are those of its blocks, as many rounds of a loop as one likes
(`Routine.Path`). That registers are filled on all of them follows from what is available in each block:
at the entry these are the parameters, and a step from block to block keeps it
(`Builder.Assigned.along`).
-/

namespace PoseLang

namespace Routine

/-- The operations on a way from the entry of a routine to the start of a block. -/
inductive Path (r : Routine) : List Op → Nat → Prop
  | entry : Path r [] 0
  | step {trace : List Op} {i j : Nat} {block : Block} (way : Path r trace i)
    (here : r.blocks[i]? = some block) (leads : r.leadsTo i j = true) :
    Path r (trace ++ block.ops) j

/-- A register has a value behind some operations: it is a parameter, or one of them fills it. -/
def HasValue (r : Routine) (ops : List Op) (reg : Nat) : Prop :=
  reg < r.arity ∨ reg ∈ Op.dests ops

theorem HasValue.append {r : Routine} {ops more : List Op} {reg : Nat}
    (h : r.HasValue ops reg ∨ reg ∈ Op.dests more) : r.HasValue (ops ++ more) reg := by
  rw [HasValue, Op.dests, List.filterMap_append, List.mem_append]
  rcases h with (hparam | hold) | hnew
  · exact .inl hparam
  · exact .inr (.inl hold)
  · exact .inr (.inr hnew)

/-- A body in strict single assignment form. -/
structure Strict (c : Context) (r : Routine) : Prop where
  body : r.isDeclaration = false
  arity_le : r.arity ≤ r.regTypes.length
  /-- Parameters are filled by no operation, and all other registers by one. -/
  written : ∀ reg, (Op.dests r.ops).count reg =
    if r.arity ≤ reg ∧ reg < r.regTypes.length then 1 else 0
  /-- A phi has one edge from each block that leads to it, and none from others. -/
  sources : ∀ {i dest : Nat} {block : Block} {incoming : List (Nat × Nat)},
    r.blocks[i]? = some block → .phi dest incoming ∈ block.ops → ∀ source,
      (incoming.map Prod.snd).count source = if r.leadsTo source i = true then 1 else 0
  /-- On every way to an operation, what it reads has a value. -/
  reads : ∀ {i : Nat} {block : Block} {trace before after : List Op} {op : Op},
    r.Path trace i → r.blocks[i]? = some block → block.ops = before ++ op :: after →
      op.isPhi = false → ∀ reg ∈ op.operands, r.HasValue (trace ++ before) reg
  /-- On every way to the end of the block that an edge comes from, what a phi reads along it has a
  value. -/
  edges : ∀ {i dest : Nat} {block source : Block} {incoming : List (Nat × Nat)} {e : Nat × Nat}
    {trace : List Op}, r.blocks[i]? = some block → .phi dest incoming ∈ block.ops → e ∈ incoming →
      r.Path trace e.2 → r.blocks[e.2]? = some source → r.HasValue (trace ++ source.ops) e.1
  typed : ∀ op ∈ r.ops, op.WellTyped c r.signature.ret r.regTypes

end Routine

/-! ## Finished bodies -/

namespace Builder

variable {n : Nat} {avail : Nat → Nat → Prop} {b : Builder} {s : Signature}

theorem opsOf_finish {i : Nat} {block : Block} (h : (b.finish s).blocks[i]? = some block) :
    opsOf b.blocks i = block.ops := by
  rw [opsOf, show b.blocks[i]? = some block from h]
  rfl

theorem dests_finish (b : Builder) (s : Signature) : Op.dests (b.finish s).ops = writesOf b.blocks :=
  List.filterMap_flatMap

/-- Where the blocks of a routine lead is where those of its builder lead, if all of them are whole. -/
theorem LeadsTo.of_leadsTo {source target : Nat}
    (hwhole : ∀ i < b.blocks.length, ∃ last : Op, last.Ends (opsOf b.blocks i))
    (h : (b.finish s).leadsTo source target = true) : b.LeadsTo source target := by
  unfold Routine.leadsTo at h
  split at h
  next block hblock =>
    obtain ⟨last, hends⟩ := hwhole source (List.getElem?_eq_some_iff.mp hblock).1
    have hends' := hends
    rw [opsOf_finish hblock] at hends'
    rw [hends'.successors] at h
    exact ⟨last, hends, List.contains_iff_mem.mp h⟩
  · cases h

/-- What is available in a block has a value on every way to it. -/
theorem Assigned.along (h : b.Assigned s.arity avail)
    (hwhole : ∀ i < b.blocks.length, ∃ last : Op, last.Ends (opsOf b.blocks i)) {trace : List Op}
    {i : Nat} (way : (b.finish s).Path trace i) :
    ∀ reg, avail i reg → (b.finish s).HasValue trace reg := by
  induction way with
  | entry => exact fun reg hreg => .inl (h.entry reg hreg)
  | @step trace i j block way here leads ih =>
    intro reg hreg
    have hlive := h.flow i j (.of_leadsTo hwhole leads) reg hreg
    rw [Live, opsOf_finish here] at hlive
    exact .append (hlive.imp_left (ih reg))

/-- What is available or filled by some operations of a block has a value behind them, on every way. -/
theorem Assigned.hasValue (h : b.Assigned s.arity avail)
    (hwhole : ∀ i < b.blocks.length, ∃ last : Op, last.Ends (opsOf b.blocks i))
    {trace ops : List Op} {i reg : Nat} (way : (b.finish s).Path trace i)
    (hreg : avail i reg ∨ reg ∈ Op.dests ops) : (b.finish s).HasValue (trace ++ ops) reg :=
  .append (hreg.imp_left (h.along hwhole way reg))

theorem Filled.count_dests {c : Context} {ret : Ty} (h : b.Filled c ret n) (reg : Nat) :
    (Op.dests (b.finish s).ops).count reg = if n ≤ reg ∧ reg < b.regTypes.length then 1 else 0 := by
  have hle := h.le
  have hnodup : (List.range' n (b.regTypes.length - n)).Nodup := List.nodup_range'
  rw [dests_finish, h.writes.count_eq, hnodup.count]
  have hiff : reg ∈ List.range' n (b.regTypes.length - n) ↔ n ≤ reg ∧ reg < b.regTypes.length := by
    rw [List.mem_range'_1]
    omega
  exact ite_congr (propext hiff) (fun _ => rfl) fun _ => rfl

/-- A phi whose edges come from blocks that lead to it has one from each of them. -/
theorem Complete.count_source (h : b.Complete)
    (hwhole : ∀ i < b.blocks.length, ∃ last : Op, last.Ends (opsOf b.blocks i))
    {i dest : Nat} {incoming : List (Nat × Nat)} (hphi : .phi dest incoming ∈ opsOf b.blocks i)
    (hedges : ∀ e ∈ incoming, b.LeadsTo e.2 i) (source : Nat) :
    (incoming.map Prod.snd).count source =
      if (b.finish s).leadsTo source i = true then 1 else 0 := by
  obtain ⟨hnodup, hcovers⟩ := h.sources i dest incoming hphi
  rw [hnodup.count]
  have hiff : source ∈ incoming.map Prod.snd ↔ (b.finish s).leadsTo source i = true := by
    refine ⟨fun hmem => ?_, fun hleads => hcovers source (.of_leadsTo hwhole hleads)⟩
    obtain ⟨e, he, rfl⟩ := List.mem_map.mp hmem
    exact (hedges e he).leadsTo s
  exact ite_congr (propext hiff) (fun _ => rfl) fun _ => rfl

/-- A builder with whole blocks, of which all steps were as they should be, gives a strict routine. -/
theorem strict_finish {c : Context} (hpos : 0 < b.blocks.length)
    (hwhole : ∀ i < b.blocks.length, ∃ last : Op, last.Ends (opsOf b.blocks i))
    (hedges : ∀ (i dest : Nat) (incoming : List (Nat × Nat)), .phi dest incoming ∈ opsOf b.blocks i →
      ∀ e ∈ incoming, b.LeadsTo e.2 i)
    (filled : b.Filled c s.ret s.arity) (complete : b.Complete) (assigned : b.Assigned s.arity avail) :
    (b.finish s).Strict c := by
  refine ⟨List.isEmpty_eq_false_iff.mpr (List.ne_nil_of_length_pos hpos), filled.le,
    filled.count_dests, fun hblock hphi source => ?_,
    fun {i block trace before after op} way hblock hops hop reg hreg => ?_,
    fun {i dest block source incoming e trace} hblock hphi he way hsource => ?_, fun op hop => ?_⟩
  · rw [← opsOf_finish hblock] at hphi
    exact complete.count_source hwhole hphi (hedges _ _ _ hphi) source
  · rw [← opsOf_finish hblock] at hops
    exact assigned.hasValue hwhole way (assigned.reads i before after op hops hop reg hreg)
  · rw [← opsOf_finish hblock] at hphi
    have hread := assigned.edges i dest incoming hphi e he
    rw [Live, opsOf_finish hsource] at hread
    exact assigned.hasValue hwhole way hread
  · obtain ⟨block, hmem, hin⟩ := List.mem_flatMap.mp hop
    obtain ⟨i, hblock⟩ := List.mem_iff_getElem?.mp hmem
    rw [← opsOf_finish hblock] at hin
    exact filled.typed i op hin

end Builder

/-! ## Definitions -/

namespace Definition

open Builder

variable {c : Context} {n : Nat}

theorem opsOf_bindParams (params : List String) (i : Nat) :
    opsOf (bindParams params Builder.start).blocks i = [] := by
  rw [(bindParams_eq params).1]
  cases i <;> rfl

theorem length_bindParams (params : List String) :
    (bindParams params Builder.start).regTypes.length = params.length :=
  (bindParams_eq params).2.2.2.trans (Nat.zero_add _)

/-- Parameters are registers that no operation fills. -/
theorem filled_bindParams (params : List String) (ret : Ty) :
    (bindParams params Builder.start).Filled c ret params.length := by
  refine ⟨Nat.le_of_eq (length_bindParams params).symm, ?_, fun i op hop => ?_⟩
  · rw [length_bindParams, Nat.sub_self, (bindParams_eq params).1]
    exact .refl _
  · rw [opsOf_bindParams] at hop
    cases hop

theorem complete_bindParams (params : List String) :
    (bindParams params Builder.start).Complete := by
  refine ⟨fun i op hop => ?_, fun i dest incoming hphi => ?_⟩
  · rw [opsOf_bindParams] at hop
    cases hop
  · rw [opsOf_bindParams] at hphi
    cases hphi

/-- At the entry the parameters are available. -/
theorem assigned_bindParams (params : List String) :
    (bindParams params Builder.start).Assigned params.length fun _ reg => reg < params.length := by
  refine ⟨fun _ hreg => hreg, fun s t hleads => ?_, fun i before after op hops => ?_,
    fun i dest incoming hphi => ?_⟩
  · obtain ⟨last, ⟨-, before, hops, -⟩, -⟩ := hleads
    rw [opsOf_bindParams] at hops
    cases before <;> cases hops
  · rw [opsOf_bindParams] at hops
    cases before <;> cases hops
  · rw [opsOf_bindParams] at hphi
    cases hphi

theorem names_bindParams (params : List String) :
    (bindParams params Builder.start).Names fun _ reg => reg < params.length := by
  intro name reg hname
  have hreg := (ready_bindParams params ready_start).bound_lt hname
  rw [length_bindParams] at hreg
  exact .inl hreg

end Definition

open Builder

/-- A body that is lowered and given its end is strict. -/
theorem Lowered.strict {c : Context} {body : Expr} {params : List String} {result : Nat} {b : Builder}
    (h : Lowered c body (Definition.bindParams params .start) result b) (name : String) :
    ((b.emit (.ret result)).finish ⟨name, params, b.typeAt result⟩).Strict c := by
  have hready := Definition.ready_bindParams params ready_start
  have start := Definition.shaped_bindParams params
  have shaped := h.shaped start
  have hlt := shaped.ready.current_lt
  have hlength := emit_blocks_length b (.ret result)
  obtain ⟨avail, flows, hlive⟩ :=
    h.flows start (Definition.assigned_bindParams params) (Definition.names_bindParams params)
  apply strict_finish
  case hpos => omega
  case hwhole =>
    intro i hi
    rw [hlength] at hi
    exact (shaped.whole result hi).imp fun _ hends => hends.1
  case hedges =>
    intro i dest incoming hphi e he
    rcases mem_opsOf_emit hphi with hold | hret
    · exact shaped.leadsTo_emit_ret result (shaped.edges i dest incoming hold e he)
    · cases hret
  case filled =>
    exact (h.filled hready (Definition.filled_bindParams params _)).emit hlt _ rfl
      (regTypes_of_typeAt (h.grown hready).2 rfl)
  case complete =>
    exact (h.complete start (Definition.complete_bindParams params)).emit hlt _ rfl
      fun _ ht => by cases ht
  case assigned =>
    refine flows.assigned.emit hlt _ (fun _ reg hreg => ?_) (fun _ _ heq => by cases heq)
      fun _ ht => by cases ht
    rw [List.mem_singleton.mp hreg]
    exact hlive

/-- Whatever is known and whatever the program holds, a definition that is lowered has its routine in the
program, and the routine is in strict single assignment form. -/
theorem Context.define_strict {c after : Context} {d : Definition} {r : Routine}
    (h : c.define d = .ok (r, after)) : after.program.get? d.proto.name = some r ∧
      r.arity = d.proto.arity ∧ r.Strict (c.register d.proto) := by
  obtain ⟨-, declarations, hbuild, hafter⟩ := define_eq_ok h
  obtain ⟨b, result, hlowered, hr, -⟩ := Definition.build_ok hbuild
  have hname : r.name = d.proto.name := by rw [hr]; rfl
  refine ⟨?_, by rw [hr]; rfl, ?_⟩
  · rw [hafter]
    exact (Program.get?_define _ r _).trans (if_pos hname)
  · rw [hr]
    exact hlowered.strict d.proto.name

/-- A loop in a branch, whose variable has the name of the parameter, with a conditional in its body and
another one for its test. -/
def shadowingLoop : Definition :=
  ⟨{ name := "f", params := ["x"] }, .cond none (.var none "x")
    (.binary none '+'
      (.loop none "x" (.num none 0)
        (.cond none (.var none "x") (.binary none '<' (.var none "x") (.num none 3)) (.num none 1)) none
        (.cond none (.var none "x") (.call none "f" [.var none "x"]) (.num none 2)))
      (.var none "x"))
    (.num none 4)⟩

theorem Context.define_strict_shadowing : ∃ r after,
    (Context.start .builtin).define shadowingLoop = .ok (r, after) ∧ r.blocks.length = 12 ∧
      r.ops.countP Op.isPhi = 4 ∧ after.program.get? "f" = some r ∧ r.arity = 1 ∧
      r.Strict ((Context.start .builtin).register shadowingLoop.proto) := by
  have hsizes : ((Context.start .builtin).define shadowingLoop).toOption.map
      (fun x => (x.1.blocks.length, x.1.ops.countP Op.isPhi)) = some (12, 4) := by decide +kernel
  cases h : (Context.start .builtin).define shadowingLoop with
  | error e =>
    rw [h] at hsizes
    cases hsizes
  | ok lowered =>
    rw [h] at hsizes
    obtain ⟨hblocks, hphis⟩ := Prod.mk.inj (Option.some.inj hsizes)
    exact ⟨lowered.1, lowered.2, rfl, hblocks, hphis, define_strict h⟩

end PoseLang
