import PoseLang.Proofs.Lowering.Lowered

/-!
# What lowering leaves alone

Lowering an expression only ever adds: registers behind the registers, blocks behind the blocks, and
operations at the end of the block that was current. `Builder.Grown` says so of the builder before
and the builder after, and `Lowered.grown` is the law. In between the current block moves about, so
the steps on the way are measured against where the expression started: `Builder.Spares n k` says
that of the blocks in front of the `n`th only the `k`th was touched, and that only at its end.
-/

namespace PoseLang

namespace Builder

/-- A builder that an expression can be lowered into: the current block exists, and names stand for
registers that exist. -/
structure Ready (b : Builder) : Prop where
  current_lt : b.current < b.blocks.length
  bound_lt : ∀ {name : String} {reg : Nat}, b.lookup? name = some reg → reg < b.regTypes.length

/-- Registers and blocks are only added, and of the first `n` blocks none but the `k`th is changed,
to which operations are added at the end. -/
structure Spares (n k : Nat) (b b' : Builder) : Prop where
  regTypes : b.regTypes <+: b'.regTypes
  length_le : b.blocks.length ≤ b'.blocks.length
  others : ∀ i < n, i ≠ k → b'.blocks[i]? = b.blocks[i]?
  extended : ∀ blk, b.blocks[k]? = some blk →
    ∃ ops, b'.blocks[k]? = some { blk with ops := blk.ops ++ ops }

/-- What lowering an expression does to a builder: names stand for what they stood for, of the
blocks that there were only the current one is changed, and the current block stays or is new. -/
structure Grown (b b' : Builder) : Prop extends Spares b.blocks.length b.current b b' where
  bindings : b'.bindings = b.bindings
  current : b'.current = b.current ∨ b.blocks.length ≤ b'.current
  current_lt : b'.current < b'.blocks.length

variable {b b' : Builder}

theorem typeAt_of_prefix {reg : Nat} (h : b.regTypes <+: b'.regTypes)
    (hreg : reg < b.regTypes.length) : b'.typeAt reg = b.typeAt reg := by
  obtain ⟨more, hmore⟩ := h
  rw [typeAt, typeAt, typeOf?, typeOf?, ← hmore, List.getElem?_append_left hreg]

theorem typeAt_put (ty : Ty) (op : Nat → Op) : (b.put ty op).typeAt b.regTypes.length = ty := by
  simp [typeAt, typeOf?]

/-! ## Steps that spare blocks -/

namespace Spares

variable {n k : Nat} {b b₁ b₂ : Builder}

theorem refl : Spares n k b b :=
  ⟨List.prefix_refl _, Nat.le_refl _, fun _ _ _ => rfl, fun blk h => ⟨[], by simpa using h⟩⟩

theorem trans (h : Spares n k b b₁) (h' : Spares n k b₁ b₂) : Spares n k b b₂ := by
  refine ⟨h.regTypes.trans h'.regTypes, Nat.le_trans h.length_le h'.length_le,
    fun i hi hk => (h'.others i hi hk).trans (h.others i hi hk), fun blk hblk => ?_⟩
  obtain ⟨ops₁, h₁⟩ := h.extended blk hblk
  obtain ⟨ops₂, h₂⟩ := h'.extended _ h₁
  exact ⟨ops₁ ++ ops₂, by simpa using h₂⟩

/-- What spares many blocks spares few of them. -/
theorem mono {n' k' : Nat} (h : Spares n' k' b b₁) (hk : k < n) (hn : n ≤ n')
    (hk' : k' = k ∨ n ≤ k') : Spares n k b b₁ := by
  refine ⟨h.regTypes, h.length_le, fun i hi hne => h.others i (by omega) (by omega),
    fun blk hblk => ?_⟩
  rcases hk' with rfl | hk'
  · exact h.extended blk hblk
  · have same := h.others k (by omega) (by omega)
    exact ⟨[], by simpa [same] using hblk⟩

/-- A step that changes nothing but names and what is current. -/
theorem of_eq (hblocks : b₁.blocks = b.blocks) (hregs : b₁.regTypes = b.regTypes) :
    Spares n k b b₁ :=
  ⟨hregs ▸ List.prefix_refl _, hblocks ▸ Nat.le_refl _, fun i _ _ => by rw [hblocks],
    fun blk h => ⟨[], by simpa [hblocks] using h⟩⟩

theorem emit (op : Op) (hcur : b.current = k ∨ n ≤ b.current) : Spares n k b (b.emit op) := by
  refine ⟨List.prefix_refl _, by simp, fun i hi hk => ?_, fun blk hblk => ?_⟩
  · have hne : b.current ≠ i := by omega
    simp [Builder.emit, hne]
  · by_cases hk : b.current = k
    · exact ⟨[op], by simp [Builder.emit, hk, hblk, Block.push]⟩
    · exact ⟨[], by simp [Builder.emit, hk, hblk]⟩

theorem put (ty : Ty) (op : Nat → Op) (hcur : b.current = k ∨ n ≤ b.current) :
    Spares n k b (b.put ty op) := by
  have filled : Spares n k (b.newReg ty).2 (b.put ty op) := emit (op b.regTypes.length) hcur
  exact ⟨List.prefix_append _ _, filled.length_le, filled.others, filled.extended⟩

theorem appendBlock (label : String) (hk : k < n) (hn : n ≤ b.blocks.length) :
    Spares n k b (b.appendBlock label).2 := by
  have same : ∀ i < n, (b.appendBlock label).2.blocks[i]? = b.blocks[i]? := by
    intro i hi
    simp only [Builder.appendBlock]
    rw [List.getElem?_append_left (by omega)]
  refine ⟨List.prefix_refl _, by simp, fun i hi _ => same i hi, fun blk hblk => ⟨[], ?_⟩⟩
  simpa [same k hk] using hblk

theorem addPhiEdge {block : Nat} (dest : Nat) (edge : Nat × Nat) (hk : k < n) (hblock : n ≤ block) :
    Spares n k b (b.addPhiEdge block dest edge) := by
  have same : ∀ i < n, (b.addPhiEdge block dest edge).blocks[i]? = b.blocks[i]? := by
    intro i hi
    have hne : block ≠ i := by omega
    simp [Builder.addPhiEdge, hne]
  refine ⟨List.prefix_refl _, by simp [Builder.addPhiEdge], fun i hi _ => same i hi,
    fun blk hblk => ⟨[], ?_⟩⟩
  simpa [same k hk] using hblk

theorem jumpTo (target next : Nat) (hcur : b.current = k ∨ n ≤ b.current) :
    Spares n k b (b.jumpTo target next) :=
  (emit (.jump target) hcur).trans (of_eq rfl rfl)

theorem openBranches (value : Nat) (hk : k < n) (hcur : b.current = k ∨ n ≤ b.current)
    (hn : n ≤ b.blocks.length) : Spares n k b (b.openBranches value) := by
  have tested : Spares n k b (b.put .bool (.truthy · value)) := put _ _ hcur
  have one := tested.trans (appendBlock "then" hk (by simpa using hn))
  have two := one.trans (appendBlock "else" hk (by simp; omega))
  have three := two.trans (appendBlock "ifcont" hk (by simp; omega))
  exact (three.trans (emit _ hcur)).trans (of_eq rfl rfl)

theorem joinBranches {merge : Nat} (ty : Ty) (edges : List (Nat × Nat))
    (hcur : b.current = k ∨ n ≤ b.current) (hmerge : n ≤ merge) :
    Spares n k b (b.joinBranches merge ty edges) :=
  (jumpTo merge merge hcur).trans (put _ _ (.inr hmerge))

theorem openLoop (v : String) (first : Nat) (hk : k < n) (hcur : b.current = k ∨ n ≤ b.current)
    (hn : n ≤ b.blocks.length) : Spares n k b (b.openLoop v first) := by
  have opened : Spares n k b (b.appendBlock "loop").2 := appendBlock _ hk hn
  have jumped := opened.trans (jumpTo b.blocks.length b.blocks.length hcur)
  have counted := jumped.trans (put .f64 (.phi · [(first, b.current)]) (.inr hn))
  exact counted.trans (of_eq rfl rfl)

theorem closeLoop (v : String) (shadowed : Option Nat) {block : Nat} (counter next value : Nat)
    (hk : k < n) (hcur : b.current = k ∨ n ≤ b.current) (hn : n ≤ b.blocks.length)
    (hblock : n ≤ block) : Spares n k b (b.closeLoop v shadowed block counter next value) := by
  have tested : Spares n k b (b.put .bool (.truthy · value)) := put _ _ hcur
  have opened := tested.trans (appendBlock "afterloop" hk (by simpa using hn))
  have branched := opened.trans (emit (.branch b.regTypes.length block b.blocks.length) hcur)
  have edged := branched.trans (addPhiEdge counter (next, b.current) hk hblock)
  exact edged.trans (of_eq (restore_blocks _ v shadowed) (restore_regTypes _ v shadowed))

theorem storeField (record : String) (base value field : Nat)
    (hcur : b.current = k ∨ n ≤ b.current) : Spares n k b (b.storeField record base value field) :=
  (put _ _ hcur).trans (emit _ hcur)

end Spares

namespace Ready

variable {b b' : Builder}

/-- A builder with more registers and the same names is ready once its current block exists. -/
theorem of_prefix (h : b.Ready) (hregs : b.regTypes <+: b'.regTypes)
    (hnames : b'.bindings = b.bindings) (hcur : b'.current < b'.blocks.length) : b'.Ready := by
  refine ⟨hcur, fun {name reg} hname => ?_⟩
  have hold : b.lookup? name = some reg := by
    simpa only [lookup?, hnames] using hname
  exact Nat.lt_of_lt_of_le (h.bound_lt hold) hregs.length_le

theorem put (h : b.Ready) (ty : Ty) (op : Nat → Op) : (b.put ty op).Ready :=
  h.of_prefix (List.prefix_append _ _) rfl (by simpa using h.current_lt)

theorem openBranches (h : b.Ready) (value : Nat) : (b.openBranches value).Ready :=
  h.of_prefix (List.prefix_append _ _) rfl (by simp)

theorem jumpTo (h : b.Ready) (target : Nat) {next : Nat} (hnext : next < b.blocks.length) :
    (b.jumpTo target next).Ready :=
  h.of_prefix (List.prefix_refl _) rfl (by simpa using hnext)

/-- In a loop its variable stands for the register that was made for it. -/
theorem openLoop (h : b.Ready) (v : String) (first : Nat) : (b.openLoop v first).Ready := by
  refine ⟨by simp, fun {name reg} hname => ?_⟩
  rw [openLoop_regTypes, List.length_append, List.length_singleton]
  simp only [lookup?, openLoop_bindings, Std.ExtTreeMap.getElem?_insert] at hname
  split at hname
  · cases hname
    exact Nat.lt_succ_self _
  · exact Nat.lt_succ_of_lt (h.bound_lt hname)

end Ready

namespace Grown

variable {b b₁ b₂ : Builder}

theorem refl (h : b.Ready) : Grown b b :=
  ⟨.refl, rfl, .inl rfl, h.current_lt⟩

theorem ready (h : Grown b b₁) (hb : b.Ready) : b₁.Ready :=
  hb.of_prefix h.regTypes h.bindings h.current_lt

/-- Where an expression ends is where it started or a block of its own. -/
theorem area {n k : Nat} (h : Grown b b₁) (hn : n ≤ b.blocks.length)
    (hk : b.current = k ∨ n ≤ b.current) : b₁.current = k ∨ n ≤ b₁.current := by
  rcases h.current with hc | hc
  · rw [hc]; exact hk
  · exact .inr (Nat.le_trans hn hc)

theorem trans (hb : b.Ready) (h : Grown b b₁) (h' : Grown b₁ b₂) : Grown b b₂ where
  toSpares := h.toSpares.trans (h'.toSpares.mono hb.current_lt h.length_le h.current)
  bindings := h'.bindings.trans h.bindings
  current := h'.area h.length_le h.current
  current_lt := h'.current_lt

theorem put (hb : b.Ready) (ty : Ty) (op : Nat → Op) : Grown b (b.put ty op) :=
  ⟨.put ty op (.inl rfl), rfl, .inl rfl, by simpa using hb.current_lt⟩

theorem need (hb : b.Ready) (t : Target) : Grown b (b.need t) :=
  ⟨.of_eq (by simp) (by simp), by simp, .inl (by simp), by simpa using hb.current_lt⟩

theorem storeField (hb : b.Ready) (record : String) (base value field : Nat) :
    Grown b (b.storeField record base value field) :=
  ⟨.storeField record base value field (.inl rfl), rfl, .inl rfl, by simpa using hb.current_lt⟩

/-- Behind one branch of a conditional the other can be lowered. -/
theorem ready_otherwise {value : Nat} (hb : b.Ready) (g : Grown (b.openBranches value) b₁) :
    (b₁.jumpTo (b.blocks.length + 2) (b.blocks.length + 1)).Ready := by
  have long := g.length_le
  rw [openBranches_blocks_length] at long
  exact (g.ready (hb.openBranches value)).jumpTo _ (by omega)

/-- A conditional, from its parts. -/
theorem branches {b₃ : Builder} {value : Nat} (hb : b.Ready) (g₁ : Grown b b₁)
    (g₂ : Grown (b₁.openBranches value) b₂)
    (g₃ : Grown (b₂.jumpTo (b₁.blocks.length + 2) (b₁.blocks.length + 1)) b₃) (ty : Ty)
    (edges : List (Nat × Nat)) : Grown b (b₃.joinBranches (b₁.blocks.length + 2) ty edges) := by
  have hk := hb.current_lt
  have long₁ := g₁.length_le
  have long₂ := g₂.length_le
  have long₃ := g₃.length_le
  rw [openBranches_blocks_length] at long₂
  rw [jumpTo_blocks_length] at long₃
  -- Every block that is opened or left here lies behind those that there were.
  have area₂ : b₂.current = b.current ∨ b.blocks.length ≤ b₂.current :=
    g₂.area (by simp; omega) (.inr (by simpa using long₁))
  have area₃ : b₃.current = b.current ∨ b.blocks.length ≤ b₃.current :=
    g₃.area (by simp; omega) (.inr (by simp; omega))
  have spared₂ : Spares b.blocks.length b.current b₁ b₂ :=
    (Spares.openBranches value hk g₁.current long₁).trans
      (g₂.toSpares.mono hk (by simp; omega) (.inr (by simpa using long₁)))
  have spared₃ : Spares b.blocks.length b.current b₁ b₃ := (spared₂.trans (.jumpTo _ _ area₂)).trans
    (g₃.toSpares.mono hk (by simp; omega) (.inr (by simp; omega)))
  refine ⟨g₁.toSpares.trans (spared₃.trans (.joinBranches _ _ area₃ (by omega))), ?_, .inr ?_, ?_⟩
  · rw [joinBranches_bindings, g₃.bindings, jumpTo_bindings, g₂.bindings, openBranches_bindings,
      g₁.bindings]
  · rw [joinBranches_current]
    omega
  · rw [joinBranches_current, joinBranches_blocks_length]
    omega

/-- A loop, from what comes before its block and what is in it. -/
theorem loop {v : String} {first : Nat} (hb : b.Ready) (g₁ : Grown b b₁)
    (g₂ : Grown (b₁.openLoop v first) b₂) (counter next value : Nat) :
    Grown b (b₂.closeLoop v (b₁.lookup? v) b₁.blocks.length counter next value) := by
  have hk := hb.current_lt
  have long₁ := g₁.length_le
  have long₂ := g₂.length_le
  rw [openLoop_blocks_length] at long₂
  have area₂ : b₂.current = b.current ∨ b.blocks.length ≤ b₂.current :=
    g₂.area (by simp; omega) (.inr (by simpa using long₁))
  have spared := (Spares.openLoop v first hk g₁.current long₁).trans
    (g₂.toSpares.mono hk (by simp; omega) (.inr (by simpa using long₁)))
  refine ⟨g₁.toSpares.trans (spared.trans (.closeLoop _ _ _ _ _ hk area₂ (by omega) long₁)), ?_,
    .inr ?_, by simp⟩
  · exact (closeLoop_bindings _ _ _ _ _ (g₂.bindings.trans (openLoop_bindings _ _ _))).trans
      g₁.bindings
  · rw [closeLoop_current]
    omega

end Grown

end Builder

/-! ## The law -/

section

open Builder

variable {c : Context}

mutual

/-- Lowering an expression only adds to the builder, and gives a register that there is. -/
theorem Lowered.grown : ∀ {e : Expr} {b b' : Builder} {r : Nat},
    Lowered c e b r b' → b.Ready → Grown b b' ∧ r < b'.regTypes.length
  | _, b, _, _, .num, hb => ⟨.put hb _ _, by simp⟩
  | _, b, _, _, .var bound, hb => ⟨.refl hb, hb.bound_lt bound⟩
  | _, b, _, _, .binary first second _ _ _, hb => by
    have g₁ := (first.grown hb).1
    have g₂ := (second.grown (g₁.ready hb)).1
    have g := g₁.trans hb g₂
    exact ⟨g.trans hb (.put (g.ready hb) _ _), by simp⟩
  | _, _, _, _, @Lowered.call _ _ _ _ target b b₁ _ _ _ given, hb => by
    have g := (given.grown hb).1
    have needed := g.trans hb (.need (g.ready hb) target)
    exact ⟨needed.trans hb (.put (needed.ready hb) _ _), by simp⟩
  | _, _, _, _, @Lowered.cond _ _ _ _ _ b b₁ b₂ b₃ value _ _ test _ first second _, hb => by
    have g₁ := (test.grown hb).1
    have readyThen := (g₁.ready hb).openBranches value
    have g₂ := (first.grown readyThen).1
    have g₃ := (second.grown (g₂.ready_otherwise (g₁.ready hb))).1
    exact ⟨g₁.branches hb g₂ g₃ _ _, by simp⟩
  | _, _, _, _, @Lowered.loop _ _ v _ _ _ _ b b₁ _ b₃ b₄ _ first _ increment _ started _ ran stepped
      tested _ closed, hb => by
    have g₁ := (started.grown hb).1
    have readyBody := (g₁.ready hb).openLoop v first
    have g₂ := (ran.grown readyBody).1
    have g₃ := g₂.trans readyBody (stepped.grown (g₂.ready readyBody)).1
    have added := g₃.trans readyBody
      (.put (g₃.ready readyBody) .f64 (.arith .add · b₁.regTypes.length increment))
    have g₄ := added.trans readyBody (tested.grown (added.ready readyBody)).1
    subst closed
    have g := g₁.loop hb g₄ b₁.regTypes.length b₃.regTypes.length
    exact ⟨(g _).trans hb (.put ((g _).ready hb) _ _), by simp⟩
  | _, b, _, _, .alloc _, hb => ⟨.put hb _ _, by simp⟩
  | _, b, _, _, .construct storage _ _ filled, hb => by
    have g₁ := storage.grown hb
    have g₂ := filled.grown (g₁.1.ready hb)
    exact ⟨g₁.1.trans hb g₂, Nat.lt_of_lt_of_le g₁.2 g₂.regTypes.length_le⟩

theorem LoweredArgs.grown : ∀ {es : List Expr} {b b' : Builder} {regs : List Nat},
    LoweredArgs c es b regs b' → b.Ready → Grown b b' ∧ ∀ reg ∈ regs, reg < b'.regTypes.length
  | _, _, _, _, .nil, hb => ⟨.refl hb, by simp⟩
  | _, _, _, _, .cons head _ tail, hb => by
    have g₁ := head.grown hb
    have g₂ := tail.grown (g₁.1.ready hb)
    refine ⟨g₁.1.trans hb g₂.1, fun reg hreg => ?_⟩
    rcases List.mem_cons.mp hreg with rfl | hreg
    · exact Nat.lt_of_lt_of_le g₁.2 g₂.1.regTypes.length_le
    · exact g₂.2 reg hreg

theorem LoweredStep.grown : ∀ {stepBy : Option Expr} {b b' : Builder} {r : Nat},
    LoweredStep c stepBy b r b' → b.Ready → Grown b b' ∧ r < b'.regTypes.length
  | _, _, _, _, .one, hb => ⟨.put hb _ _, by simp⟩
  | _, _, _, _, .given value _, hb => value.grown hb

theorem LoweredFields.grown : ∀ {base width : Nat} {record : String} {fields : List (Nat × Expr)}
    {b b' : Builder}, LoweredFields c base record width fields b b' → b.Ready → Grown b b'
  | _, _, _, _, _, _, .nil, hb => .refl hb
  | _, _, _, _, _, _, @LoweredFields.cons _ base _ record i _ _ b b₁ _ value _ head _ tail, hb => by
    have g₁ := (head.grown hb).1
    have stored := g₁.trans hb (.storeField (g₁.ready hb) record base value i)
    exact stored.trans hb (tail.grown (stored.ready hb))

end

end

/-- Each argument has its register. -/
theorem LoweredArgs.length_eq {c : Context} : ∀ {es : List Expr} {b b' : Builder} {regs : List Nat},
    LoweredArgs c es b regs b' → regs.length = es.length
  | _, _, _, _, h => by
    cases h with
    | nil => rfl
    | cons _ _ tail => exact congrArg (· + 1) tail.length_eq

end PoseLang
