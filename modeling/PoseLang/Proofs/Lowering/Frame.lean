import PoseLang.Proofs.Lowering.Shape

/-!
# The frame of an expression

An expression is lowered into a builder that holds the code around it, and that code has to stay what
it is. `Lowered.grown` says what is left alone. What is added is in order as well: each block that
lowering opens or leaves gets one end, which is its last operation, and the block in which it goes on
has none (`Builder.Framed`). This needs nothing of the blocks around, which may have any operations.

On the way some blocks wait to be filled, and of the blocks around nothing is known. `Builder.Tidy`
says of all others that they have their end. Each step of the builder keeps this, and so does lowering
(`Lowered.tidy`).
-/

namespace PoseLang

/-! ## Ends among operations -/

namespace Op

/-- No operation is an end. -/
def Endless (ops : List Op) : Prop :=
  ∀ op ∈ ops, op.isTerminator = false

instance (ops : List Op) : Decidable (Endless ops) :=
  inferInstanceAs (Decidable (∀ op ∈ ops, op.isTerminator = false))

/-- The last operation is an end, and it is the only one. -/
def EndedOnce (ops : List Op) : Prop :=
  ∃ before last, ops = before ++ [last] ∧ last.isTerminator = true ∧ Endless before

variable {ops : List Op}

theorem Endless.nil : Endless [] :=
  fun _ h => by cases h

theorem Endless.push (h : Endless ops) {op : Op} (hop : op.isTerminator = false) :
    Endless (ops ++ [op]) := by
  intro o ho
  rcases List.mem_append.mp ho with ho | ho
  · exact h o ho
  · exact List.mem_singleton.mp ho ▸ hop

theorem Endless.endedOnce (h : Endless ops) {last : Op} (hlast : last.isTerminator = true) :
    EndedOnce (ops ++ [last]) :=
  ⟨ops, last, rfl, hlast, h⟩

theorem Endless.addEdge (h : Endless ops) (dest : Nat) (edge : Nat × Nat) :
    Endless (Builder.addEdge dest edge ops) := by
  intro o ho
  rcases Builder.mem_addEdge ho with hold | ⟨incoming, -, rfl⟩
  · exact h o hold
  · rfl

theorem EndedOnce.addEdge (h : EndedOnce ops) (dest : Nat) (edge : Nat × Nat) :
    EndedOnce (Builder.addEdge dest edge ops) := by
  obtain ⟨before, last, rfl, hlast, hbefore⟩ := h
  rw [addEdge_append (isPhi_of_terminates hlast)]
  exact (hbefore.addEdge dest edge).endedOnce hlast

end Op

open Op (Endless EndedOnce)

namespace Builder

/-! ## Builders on the way -/

/-- The block that operations are added to has no end, pending blocks are empty, and all others have
one end behind all else, except for old blocks, of which nothing is said. -/
structure Tidy (old pending : Nat → Prop) (b : Builder) : Prop where
  current_lt : b.current < b.blocks.length
  known : ∀ i, pending i → i < b.blocks.length
  free : ¬ pending b.current
  unended : Endless (opsOf b.blocks b.current)
  waiting : ∀ i, pending i → opsOf b.blocks i = []
  ended : ∀ i < b.blocks.length, i ≠ b.current → ¬ pending i → ¬ old i →
    EndedOnce (opsOf b.blocks i)

namespace Tidy

variable {old pending : Nat → Prop} {b b' : Builder}

/-- A step that changes nothing but registers, names and declarations. -/
theorem of_eq (h : b.Tidy old pending) (hblocks : b'.blocks = b.blocks)
    (hcurrent : b'.current = b.current) : b'.Tidy old pending := by
  refine ⟨?_, ?_, ?_, ?_, ?_, ?_⟩
  all_goals simp only [hblocks, hcurrent]
  · exact h.current_lt
  · exact h.known
  · exact h.free
  · exact h.unended
  · exact h.waiting
  · exact h.ended

/-- Which blocks are pending may be said in another way. -/
theorem of_iff (h : b.Tidy old pending) (pending' : Nat → Prop)
    (hiff : ∀ i, pending i ↔ pending' i) : b.Tidy old pending' := by
  have hpending : pending = pending' := funext fun i => propext (hiff i)
  exact hpending ▸ h

/-- A block that may be filled next is not the one that is filled now. -/
theorem current_ne (h : b.Tidy old pending) {i : Nat} (hi : pending i) : b.current ≠ i :=
  fun heq => h.free (heq ▸ hi)

theorem emit (h : b.Tidy old pending) {op : Op} (hop : op.isTerminator = false) :
    (b.emit op).Tidy old pending := by
  refine ⟨?_, fun i hi => ?_, h.free, ?_, fun i hi => ?_, fun i hi hne hfree hold => ?_⟩
  · rw [emit_blocks_length]
    exact h.current_lt
  · rw [emit_blocks_length]
    exact h.known i hi
  · change Endless (opsOf (b.emit op).blocks b.current)
    rw [opsOf_emit op h.current_lt]
    exact h.unended.push hop
  · rw [opsOf_emit_other op (h.current_ne hi)]
    exact h.waiting i hi
  · rw [emit_blocks_length] at hi
    rw [opsOf_emit_other (b := b) op (Ne.symm hne)]
    exact h.ended i hi hne hfree hold

theorem put (h : b.Tidy old pending) (ty : Ty) (op : Nat → Op)
    (hop : (op b.regTypes.length).isTerminator = false) : (b.put ty op).Tidy old pending := by
  have counted : (b.newReg ty).2.Tidy old pending := h.of_eq rfl rfl
  exact counted.emit hop

/-- A new block is pending. -/
theorem appendBlock (h : b.Tidy old pending) (label : String) :
    (b.appendBlock label).2.Tidy old fun i => i = b.blocks.length ∨ pending i := by
  refine ⟨?_, fun i hi => ?_, ?_, ?_, fun i hi => ?_, fun i hi hne hfree hold => ?_⟩
  · rw [appendBlock_blocks_length]
    exact Nat.lt_succ_of_lt h.current_lt
  · rw [appendBlock_blocks_length]
    rcases hi with rfl | hi
    · exact Nat.lt_succ_self _
    · exact Nat.lt_succ_of_lt (h.known i hi)
  · rintro (heq | hi)
    · exact Nat.ne_of_lt h.current_lt heq
    · exact h.free hi
  · rw [opsOf_appendBlock]
    exact h.unended
  · rw [opsOf_appendBlock]
    rcases hi with rfl | hi
    · exact opsOf_of_length_le (Nat.le_refl _)
    · exact h.waiting i hi
  · have hlt : i < b.blocks.length := by
      rw [appendBlock_blocks_length] at hi
      have hnew : i ≠ b.blocks.length := fun heq => hfree (.inl heq)
      omega
    rw [opsOf_appendBlock]
    exact h.ended i hlt hne (fun hp => hfree (.inr hp)) hold

/-- The current block gets its end, and the builder goes on in a block that was pending. -/
theorem endBlock {next : Nat} (h : b.Tidy old fun i => i = next ∨ pending i) (last : Op)
    (hlast : last.isTerminator = true) (hfresh : ¬ pending next) :
    ((b.emit last).position next).Tidy old pending := by
  have hlength : ((b.emit last).position next).blocks.length = b.blocks.length :=
    emit_blocks_length b last
  refine ⟨?_, fun i hi => ?_, hfresh, ?_, fun i hi => ?_, fun i hi hne hfree hold => ?_⟩
  · rw [hlength]
    exact h.known next (.inl rfl)
  · rw [hlength]
    exact h.known i (.inr hi)
  · change Endless (opsOf (b.emit last).blocks next)
    rw [opsOf_emit_other last (h.current_ne (.inl rfl)), h.waiting next (.inl rfl)]
    exact .nil
  · change opsOf (b.emit last).blocks i = []
    rw [opsOf_emit_other last (h.current_ne (.inr hi))]
    exact h.waiting i (.inr hi)
  · change EndedOnce (opsOf (b.emit last).blocks i)
    rw [hlength] at hi
    by_cases hcurrent : b.current = i
    · subst hcurrent
      rw [opsOf_emit last h.current_lt]
      exact h.unended.endedOnce hlast
    · rw [opsOf_emit_other last hcurrent]
      exact h.ended i hi (Ne.symm hcurrent) (fun hp => hp.elim hne hfree) hold

/-- An edge more makes no difference to where ends are. -/
theorem addPhiEdge (h : b.Tidy old pending) (block dest : Nat) (edge : Nat × Nat) :
    (b.addPhiEdge block dest edge).Tidy old pending := by
  have hlength : (b.addPhiEdge block dest edge).blocks.length = b.blocks.length := by
    simp [Builder.addPhiEdge]
  refine ⟨?_, fun i hi => ?_, h.free, ?_, fun i hi => ?_, fun i hi hne hfree hold => ?_⟩
  · rw [hlength]
    exact h.current_lt
  · rw [hlength]
    exact h.known i hi
  · exact opsOf_addPhiEdge_of h.unended fun hops => hops.addEdge dest edge
  · exact opsOf_addPhiEdge_of (p := (· = [])) (h.waiting i hi) fun hops => by rw [hops, addEdge]
  · rw [hlength] at hi
    exact opsOf_addPhiEdge_of (h.ended i hi hne hfree hold) fun hops => hops.addEdge dest edge

/-- Behind the test of a conditional its second block and that of the join are pending. -/
theorem openBranches (h : b.Tidy old pending) (value : Nat) :
    (b.openBranches value).Tidy old fun i =>
      i = b.blocks.length + 1 ∨ i = b.blocks.length + 2 ∨ pending i := by
  have tested := h.put .bool (.truthy · value) rfl
  have forked := ((tested.appendBlock "then").appendBlock "else").appendBlock "ifcont"
  simp only [appendBlock_blocks_length, put_blocks_length] at forked
  have hfresh : ¬ pending b.blocks.length := fun hp => Nat.lt_irrefl _ (h.known _ hp)
  -- The block of the first branch is the one that the builder goes on in.
  have waiting := forked.of_iff (fun i => i = b.blocks.length ∨ i = b.blocks.length + 1 ∨
    i = b.blocks.length + 2 ∨ pending i) fun i => by grind
  refine waiting.endBlock _ rfl ?_
  rintro (heq | heq | hp)
  · omega
  · omega
  · exact hfresh hp

theorem jumpTo {next : Nat} (h : b.Tidy old fun i => i = next ∨ pending i) (target : Nat)
    (hfresh : ¬ pending next) : (b.jumpTo target next).Tidy old pending :=
  h.endBlock (.jump target) rfl hfresh

theorem joinBranches {merge : Nat} (h : b.Tidy old fun i => i = merge ∨ pending i)
    (hfresh : ¬ pending merge) (ty : Ty) (edges : List (Nat × Nat)) :
    (b.joinBranches merge ty edges).Tidy old pending :=
  (h.jumpTo merge hfresh).put ty _ rfl

theorem openLoop (h : b.Tidy old pending) (v : String) (first : Nat) :
    (b.openLoop v first).Tidy old pending := by
  have hfresh : ¬ pending b.blocks.length := fun hp => Nat.lt_irrefl _ (h.known _ hp)
  have joined := (h.appendBlock "loop").joinBranches hfresh .f64 [(first, b.current)]
  exact joined.of_eq rfl rfl

theorem closeLoop (h : b.Tidy old pending) (v : String) (shadowed : Option Nat)
    (block counter next value : Nat) :
    (b.closeLoop v shadowed block counter next value).Tidy old pending := by
  have hfresh : ¬ pending b.blocks.length := fun hp => Nat.lt_irrefl _ (h.known _ hp)
  have tested := h.put .bool (.truthy · value) rfl
  have opened := tested.appendBlock "afterloop"
  rw [put_blocks_length] at opened
  have ended := opened.endBlock (.branch b.regTypes.length block b.blocks.length) rfl hfresh
  exact (ended.addPhiEdge block counter (next, b.current)).of_eq (restore_blocks _ v shadowed)
    (restore_current _ v shadowed)

theorem storeField (h : b.Tidy old pending) (record : String) (base value field : Nat) :
    (b.storeField record base value field).Tidy old pending :=
  (h.put (.ptr record) _ rfl).emit rfl

theorem need (h : b.Tidy old pending) (t : Target) : (b.need t).Tidy old pending :=
  h.of_eq (need_blocks b t) (need_current b t)

end Tidy

end Builder

/-! ## Lowered expressions -/

section

open Builder

variable {c : Context} {old : Nat → Prop}

mutual

/-- Lowering an expression leaves no block without an end but the one in which it goes on. -/
theorem Lowered.tidy : ∀ {e : Expr} {b b' : Builder} {r : Nat} {pending : Nat → Prop},
    Lowered c e b r b' → b.Tidy old pending → b'.Tidy old pending
  | _, _, _, _, _, .num, h => h.put _ _ rfl
  | _, _, _, _, _, .var _, h => h
  | _, _, _, _, _, .binary first second _ _ _, h => (second.tidy (first.tidy h)).put _ _ rfl
  | _, _, _, _, _, @Lowered.call _ _ _ _ target _ _ _ _ _ given, h =>
    ((given.tidy h).need target).put _ _ rfl
  | _, _, _, _, pending, @Lowered.cond _ _ _ _ _ _ b₁ _ _ value _ _ test _ first second _, h => by
    have tested := test.tidy h
    -- What was pending before lies in front of the blocks of the conditional.
    have hbehind : ∀ n, b₁.blocks.length ≤ n → ¬ pending n := fun n hn hp =>
      Nat.lt_irrefl _ (Nat.lt_of_lt_of_le (tested.known n hp) hn)
    have branched := first.tidy (tested.openBranches value)
    have resumed := branched.jumpTo (b₁.blocks.length + 2) fun hp =>
      hp.elim (by omega) (hbehind _ (by omega))
    exact (second.tidy resumed).joinBranches (hbehind _ (by omega)) _ _
  | _, _, _, _, _, @Lowered.loop _ _ v _ _ _ _ _ b₁ _ _ _ _ first _ increment _ started _ ran stepped
      tested _ closed, h => by
    have opened := (started.tidy h).openLoop v first
    have turned := stepped.tidy (ran.tidy opened)
    have added := turned.put .f64 (.arith .add · b₁.regTypes.length increment) rfl
    subst closed
    exact ((tested.tidy added).closeLoop _ _ _ _ _ _).put _ _ rfl
  | _, _, _, _, _, .alloc _, h => h.put _ _ rfl
  | _, _, _, _, _, .construct storage _ _ filled, h => filled.tidy (storage.tidy h)

theorem LoweredArgs.tidy : ∀ {es : List Expr} {b b' : Builder} {regs : List Nat}
    {pending : Nat → Prop}, LoweredArgs c es b regs b' → b.Tidy old pending → b'.Tidy old pending
  | _, _, _, _, _, .nil, h => h
  | _, _, _, _, _, .cons head _ tail, h => tail.tidy (head.tidy h)

theorem LoweredStep.tidy : ∀ {stepBy : Option Expr} {b b' : Builder} {r : Nat}
    {pending : Nat → Prop}, LoweredStep c stepBy b r b' → b.Tidy old pending → b'.Tidy old pending
  | _, _, _, _, _, .one, h => h.put _ _ rfl
  | _, _, _, _, _, .given value _, h => value.tidy h

theorem LoweredFields.tidy : ∀ {base width : Nat} {record : String} {fields : List (Nat × Expr)}
    {b b' : Builder} {pending : Nat → Prop}, LoweredFields c base record width fields b b' →
      b.Tidy old pending → b'.Tidy old pending
  | _, _, _, _, _, _, _, .nil, h => h
  | _, _, _, _, _, _, _, .cons _ head _ tail, h => tail.tidy ((head.tidy h).storeField _ _ _ _)

end

end

namespace Builder

/-- At the start of an expression all blocks but the current one are old. -/
theorem Ready.tidy {b : Builder} (h : b.Ready) (hopen : Endless (opsOf b.blocks b.current)) :
    b.Tidy (fun i => i < b.blocks.length ∧ i ≠ b.current) fun _ => False where
  current_lt := h.current_lt
  known := fun _ hp => hp.elim
  free := id
  unended := hopen
  waiting := fun _ hp => hp.elim
  ended := fun _ hi hne _ hnew => (hnew ⟨hi, hne⟩).elim

/-- What lowering an expression does to the builder that it is lowered into. Names stand for what they
stood for, registers keep their types, blocks are added behind the blocks, and of those that there were
none but the current one is changed, to which operations are added at the end. The blocks that are added,
and the one that was current, have one end behind all else, unless lowering goes on in them; the block
in which it goes on has none. -/
structure Framed (b b' : Builder) : Prop extends Grown b b' where
  ended : ∀ i < b'.blocks.length, i ≠ b'.current → i = b.current ∨ b.blocks.length ≤ i →
    EndedOnce (opsOf b'.blocks i)
  unended : Endless (opsOf b'.blocks b'.current)

end Builder

open Builder

/-- The frame law: an expression is lowered into any builder in which names stand for registers that
exist and the current block exists and has no end, and does nothing to it but what its frame allows. -/
theorem Expr.lower_framed {c : Context} {e : Expr} {b b' : Builder} {r : Nat} (hb : b.Ready)
    (hopen : Endless (opsOf b.blocks b.current)) (h : e.lower c b = .ok r b') : b.Framed b' := by
  have lowered := lowered_of_lower e h
  have tidy := lowered.tidy (hb.tidy hopen)
  refine ⟨(lowered.grown hb).1, fun i hi hne hmine => ?_, tidy.unended⟩
  refine tidy.ended i hi hne id fun hold => ?_
  rcases hmine with rfl | hnew
  · exact hold.2 rfl
  · exact Nat.not_le_of_lt hold.1 hnew

/-- A builder whose first block ends twice, with a phi between, and whose second one is current and has
a phi behind another operation. -/
def Builder.littered : Builder where
  blocks := [⟨"entry", [.jump 1, .phi 0 [], .ret 0]⟩, ⟨"loop", [.truthy 1 0, .phi 0 [(0, 5)]]⟩]
  current := 1
  regTypes := [.f64, .bool]
  bindings := (∅ : Std.ExtTreeMap String Nat).insert "x" 0
  labelCounts := ∅
  declarations := []

/-- A loop whose variable hides the name of its start value, with a conditional in its body. -/
def Expr.hidingLoop : Expr :=
  .loop none "x" (.var none "x") (.binary none '<' (.var none "x") (.num none 3)) none
    (.cond none (.var none "x") (.var none "x") (.num none 2))

/-- The builder that is left where all goes well. -/
def Lower.left? {α : Type} (x : Lower α) (b : Builder) : Option Builder :=
  match x b with
  | .ok _ b' => some b'
  | .error _ _ => none

theorem Expr.lower_framed_littered : Builder.littered.Ready ∧
    ∃ r b', hidingLoop.lower (.start .builtin) littered = .ok r b' ∧ b'.blocks.length = 7 ∧
      b'.current = 6 ∧ littered.Framed b' := by
  have hready : littered.Ready := by
    refine ⟨by decide, fun {name reg} hname => ?_⟩
    simp only [lookup?, littered, Std.ExtTreeMap.getElem?_insert] at hname
    split at hname
    · cases hname
      decide
    · cases hname
  have hsizes : (Lower.left? (hidingLoop.lower (.start .builtin)) littered).map
      (fun b => (b.blocks.length, b.current)) = some (7, 6) := by decide +kernel
  refine ⟨hready, ?_⟩
  cases h : hidingLoop.lower (.start .builtin) littered with
  | error e b =>
    rw [Lower.left?, h] at hsizes
    cases hsizes
  | ok r b' =>
    rw [Lower.left?, h] at hsizes
    obtain ⟨hblocks, hcurrent⟩ := Prod.mk.inj (Option.some.inj hsizes)
    exact ⟨r, b', rfl, hblocks, hcurrent, lower_framed hready (by decide) h⟩

end PoseLang
