import PoseLang.Proofs.Machine.Requests
import PoseLang.Proofs.Meaning.Compiled

/-!
# Records are filled field by field

A construction allocates its record first, and then computes and stores one value after the other
(`Config.Fills`). While a value is computed other records may be allocated and filled, but not this one:
it is older than all of them (`Eval.Apart`). So at the end each field holds the value that was computed
for it (`Config.Fills.allocation`).

A function whose body is a construction ends with the record, if it ends with a value at all, and its run
is what `Machine.Constructs` tells (`Compiled.constructs`).
-/

namespace PoseLang

/-! ## Runs that fill a record -/

/-- The machine goes through fields of a record. For each of them it runs to where a register holds the
value of the field's expression, which is what the expression means where its run starts, and then it
stores the value in two steps. -/
inductive Config.Fills (p : Program) (meaning : Expr → Eval Value) (place : Nat) :
    List (Nat × Expr) → Config → List Float → Config → Prop
  | nil {c : Config} : Fills p meaning place [] c [] c
  | cons {i n addr base value : Nat} {e : Expr} {fields : List (Nat × Expr)} {x : Float}
    {xs : List Float} {rest : List Op} {c c₁ c₂ c₃ : Config}
    (runs : c.Reaches p n c₁) (inside : c₁.callers = c.callers)
    (means : meaning e c.machine.world = some (.ok (.float x), c₁.machine.world))
    (next : c₁.frame.ops = .fieldAddr addr base 0 i :: .store value addr :: rest)
    (holds : c₁.frame.regs.Holds value (.float x))
    (target : c₁.frame.regs.Holds base (.ptr place 0))
    (stores : c₁.Reaches p 2 c₂) (stored : c₂.machine.world = (c₁.machine.store place i x).world)
    (filled : Fills p meaning place fields c₂ xs c₃) :
    Fills p meaning place ((i, e) :: fields) c (x :: xs) c₃

/-- The run of a routine that makes a record and gives it back: the routine is entered, allocates the
record, fills it, and ends. -/
inductive Machine.Constructs (p : Program) (m : Machine) (r : Routine) (args : List Value)
    (meaning : Expr → Eval Value) (record : String) (fields : List (Nat × Expr)) (xs : List Float) : Prop
  | run {layout : Layout} {frame : Frame} {n : Nat} {start finish : Config}
    (registered : p.records[record]? = some layout) (entered : Frame.enter r args = .ok frame)
    (allocates : Config.Reaches p n ⟨m, frame, []⟩ start)
    (fresh : start.machine.memory = m.memory.push ⟨record, List.replicate layout.width 0⟩)
    (fills : start.Fills p meaning m.memory.size fields xs finish)
    (ends : finish.step p = .done (.ptr m.memory.size 0) finish.machine.tick)

/-- A field is set behind those that have been set before. -/
theorem List.take_set_succ {α : Type} {cells : List α} {k : Nat} (h : k < cells.length) (x : α) :
    (cells.set k x).take (k + 1) = cells.take k ++ [x] := by
  rw [List.take_add_one, List.getElem?_set_self h, List.take_set_of_le (Nat.le_refl k)]
  rfl

/-- What is in a record when its fields from some field on have been filled in order, if the expressions
leave the record alone: what was in front, and the values that were computed. -/
theorem Config.Fills.allocation {p : Program} {meaning : Expr → Eval Value} {place : Nat}
    {fields : List (Nat × Expr)} {xs : List Float} {c c' : Config}
    (h : c.Fills p meaning place fields xs c')
    (apart : ∀ e, Eval.Apart (place + 1) (Value.Beyond (place + 1)) (meaning e)) {k : Nat}
    {record : String} {cells : List Float} (hfields : fields.map Prod.fst = List.range' k fields.length)
    (hcells : c.machine.memory[place]? = some ⟨record, cells⟩)
    (hlength : cells.length = k + fields.length) :
    c'.machine.memory[place]? = some ⟨record, cells.take k ++ xs⟩ := by
  induction h generalizing k cells with
  | nil =>
    have hall : cells.take k = cells := List.take_of_length_le (Nat.le_of_eq hlength)
    rw [hall, List.append_nil]
    exact hcells
  | @cons i n addr base value e fields x xs rest c c₁ c₂ c₃ runs inside means next holds target stores
      stored filled ih =>
    rw [List.length_cons, List.range'_succ, List.map_cons, List.cons.injEq] at hfields
    obtain ⟨rfl, hfields⟩ := hfields
    rw [List.length_cons] at hlength
    have hlt : i < cells.length := by omega
    have hsize : place < c.machine.memory.size := (Array.getElem?_eq_some_iff.mp hcells).1
    have hsame := (apart e c.machine.world _ _ hsize means).1 place (Nat.lt_succ_self place)
    have hcells₁ : c₁.machine.memory[place]? = some ⟨record, cells⟩ := hsame.trans hcells
    have hmemory : c₂.machine.memory = (c₁.machine.store place i x).memory :=
      congrArg World.memory stored
    have hcells₂ : c₂.machine.memory[place]? = some ⟨record, cells.set i x⟩ := by
      rw [hmemory, Machine.store, Array.getElem?_modify, if_pos rfl, hcells₁]
      rfl
    have hrest := ih hfields hcells₂ (by rw [List.length_set]; omega)
    rw [List.take_set_succ hlt, List.append_assoc] at hrest
    exact hrest

/-! ## Lowered constructions -/

section

open Config

variable {ctx : Context} {p : Program} {r : Routine} {declared : List Signature} {ticks : Nat}
  {onCall : Scope → String → List Float → Eval Value} {pending : Nat → Prop} {scope : Scope}

/-- Where the evaluation of field values ends, the machine fills the record. -/
theorem LoweredFields.fills (linked : ctx.Linked declared p) (calls : CallsRealized p ticks onCall)
    {base place : Nat} {record : String} {layout : Layout} {fields : List (Nat × Expr)} {b b' : Builder}
    {c : Config} {w : World} (h : LoweredFields ctx base record layout.width fields b b')
    (hbase : base < b.regTypes.length) (baseTy : b.typeAt base = .ptr record)
    (registered : p.records[record]? = some layout) (hb : b.Open pending)
    (hi : b'.Inside pending r declared) (hat : c.At r b) (held : scope.Held r b c)
    (has : c.Has p b base (.ptr place 0))
    (heval : Expr.evalFields p.records onCall ticks scope place 0 fields c.machine.world =
      some (.ok (), w)) :
    ∃ xs c', c.Fills p (fun e => e.eval p.records onCall ticks scope) place fields xs c' ∧
      c'.At r b' ∧ c.Follows b.regTypes.length c' ∧ c'.machine.world = w := by
  induction fields generalizing b c with
  | nil =>
    cases h
    rw [Expr.evalFields] at heval
    cases heval
    exact ⟨[], c, .nil, hat, .refl, rfl⟩
  | cons field fields ih =>
    obtain ⟨i, e⟩ := field
    cases h with
    | @cons _ _ _ _ _ _ _ b₁ _ value inside head headTy tail =>
      have g₁ := (head.grown hb.ready).1
      have g := g₁.trans hb.ready (.storeField (hb.grown g₁).ready record base value i)
      have hb₂ := hb.grown g
      have hi₂ := tail.inside hb₂.ready hi
      rw [Expr.evalFields] at heval
      obtain ⟨v, w₁, hvalue, heval⟩ := Eval.bind_ok heval
      obtain ⟨x, w₂, hnumber, heval⟩ := Eval.bind_ok heval
      obtain ⟨_, w₃, hstored, heval⟩ := Eval.bind_ok heval
      obtain ⟨rfl, rfl⟩ := Eval.number_ok hnumber
      have hrun := head.simulates linked calls hb hi₂.of_storeField hat held
      dsimp only at hrun
      rw [hvalue] at hrun
      obtain ⟨n, c₁, hreach, rfl, hat₁, hf₁, has₁⟩ := hrun
      obtain ⟨rest, c₂, hops, hbase₁, hreach₂, hstore, hat₂, hf, held₂, has₂⟩ :=
        Simulates.field hbase baseTy registered inside head hb hi₂ held has hat₁ hf₁ has₁.holds
      rw [Nat.zero_add, hstore] at hstored
      cases hstored
      obtain ⟨xs, c', hfills, hat', hf', hw⟩ := ih tail
        (Nat.lt_of_lt_of_le hbase g.regTypes.length_le)
        ((Builder.typeAt_of_prefix g.regTypes hbase).trans baseTy) hb₂ hat₂ held₂ has₂ heval
      obtain ⟨a, -, -, hworld⟩ := Eval.store_ok hstore
      refine ⟨x :: xs, c', ?_, hat', hf.trans hf' g.regTypes.length_le, hw⟩
      exact .cons hreach hf₁.callers hvalue hops has₁.holds hbase₁ hreach₂ hworld hfills

end

theorem Expr.eval_construct_ok {records : Registry} {call : Scope → String → List Float → Eval Value}
    {ticks : Nat} {scope : Scope} {loc : Option Location} {destination : Expr}
    {fields : List (Nat × Expr)} {w w' : World} {v : Value}
    (h : (Expr.construct loc destination fields).eval records call ticks scope w = some (.ok v, w')) :
    ∃ place cell w₁, destination.eval records call ticks scope w = some (.ok (.ptr place cell), w₁) ∧
      evalFields records call ticks scope place cell fields w₁ = some (.ok (), w') ∧
      v = .ptr place cell := by
  rw [eval] at h
  obtain ⟨v₁, w₁, hstorage, h⟩ := Eval.bind_ok h
  cases v₁ with
  | float x => cases h
  | bool b => cases h
  | ptr place cell =>
    obtain ⟨_, w₂, hfields, h⟩ := Eval.bind_ok h
    cases h
    exact ⟨place, cell, w₁, hstorage, hfields, rfl⟩

section

variable {ctx : Context} {p : Program} {r : Routine} {params : List String} {ticks : Nat}
  {onCall : Scope → String → List Float → Eval Value} {loc loc' : Option Location} {record : String}
  {layout : Layout} {fields : List (Nat × Expr)} {b : Builder} {result : Nat} {name : String}
  {args : List Float} {m : Machine} {w : World}

/-- The run of a body that is a construction, where the evaluation of the field values ends. -/
theorem Lowered.constructs (linked : ctx.Linked b.declarations p) (calls : CallsRealized p ticks onCall)
    (derived : Lowered ctx (.construct loc (.alloc loc' record) fields)
      (Definition.bindParams params .start) result b)
    (hr : r = (b.emit (.ret result)).finish ⟨name, params, b.typeAt result⟩)
    (hlen : params.length = args.length) (registered : p.records[record]? = some layout)
    (hfields : fields.map Prod.fst = List.range layout.width)
    (apart : ∀ e : Expr, Eval.Apart (m.memory.size + 1) (Value.Beyond (m.memory.size + 1))
      (e.eval p.records onCall ticks ⟨r.name, 1, Scope.parameters params args⟩))
    (heval : Expr.evalFields p.records onCall ticks ⟨r.name, 1, Scope.parameters params args⟩
      m.memory.size 0 fields ⟨m.memory.push ⟨record, List.replicate layout.width 0⟩, m.output⟩ =
        some (.ok (), w)) :
    ∃ xs, w.memory[m.memory.size]? = some ⟨record, xs⟩ ∧ m.Constructs p r (args.map .float)
      (fun e => e.eval p.records onCall ticks ⟨r.name, 1, Scope.parameters params args⟩) record fields
      xs := by
  obtain ⟨frame, hentered, -, hat, held, hb, hi⟩ := derived.enter hr hlen m []
  have hconstruct := derived
  cases hconstruct with
  | @construct _ _ _ record' layout' _ b₁ _ base storage baseTy registered' filled =>
    obtain ⟨g₁, hlt⟩ := storage.grown hb.ready
    -- The record is allocated, and its address is in the register that is given back.
    have hrun := storage.simulates linked calls hb (filled.inside (hb.grown g₁).ready hi) hat held
    dsimp only at hrun
    rw [Expr.eval, registered] at hrun
    obtain ⟨n, start, hreach, hworld, hat₁, hf₁, has₁⟩ := hrun
    change start.machine.world =
      ⟨m.memory.push ⟨record, List.replicate layout.width 0⟩, m.output⟩ at hworld
    have hfresh : start.machine.memory = m.memory.push ⟨record, List.replicate layout.width 0⟩ :=
      congrArg World.memory hworld
    have hcells : start.machine.memory[m.memory.size]? =
        some ⟨record, List.replicate layout.width 0⟩ := by
      rw [hfresh]
      exact Array.getElem?_push_size
    cases storage with
    | alloc known =>
      rw [Builder.typeAt_put] at baseTy
      cases baseTy
      cases (linked.records ▸ registered).symm.trans registered'
      -- The fields are filled, and behind them nothing is left to do.
      rw [← hworld] at heval
      obtain ⟨xs, finish, hfills, hat₂, hf₂, hw⟩ := filled.fills linked calls hlt
        (Builder.typeAt_put _ _) registered (hb.grown g₁) hi hat₁ (held.grown hb.ready g₁ hf₁) has₁ heval
      obtain ⟨rest, hops⟩ := derived.ops_end hr hat₂
      have hends := Config.step_ret (p := p) hops (hf₂.regs.holds hlt has₁.holds)
      rw [Config.giveBack, show (finish.takeUp rest).callers = [] from
        hf₂.callers.trans hf₁.callers] at hends
      have hlength : fields.length = layout.width := by
        rw [← List.length_map (f := Prod.fst), hfields, List.length_range]
      have hfilled := hfills.allocation apart (k := 0)
        (by rw [hfields, hlength, List.range_eq_range']) hcells
        (by rw [List.length_replicate, hlength, Nat.zero_add])
      refine ⟨xs, ?_, .run registered hentered hreach hfresh hfills hends⟩
      rw [← hw]
      exact hfilled

end

/-! ## Calls of constructions -/

/-- A call that ends with a value within a budget means that value, if there are enough ticks. -/
theorem Machine.Realizes.ok {p : Program} {ticks budget : Nat} {ret : Ty} {m m' : Machine}
    {name : String} {args : List Float} {v : Value} {result : Option (Except Failure Value × World)}
    (h : m.Realizes p ticks ret name args result) (hticks : budget - m.steps + 1 < ticks)
    (hcall : m.call p budget name args = (.ok v, m')) : result = some (.ok v, m'.world) := by
  obtain _ | ⟨(e | _) | v', w⟩ := result
  · obtain ⟨function, m₁, hstopped⟩ := h budget hticks
    rw [hcall] at hstopped
    cases hstopped
  · obtain ⟨m₁, ⟨k, hends⟩, -⟩ := h
    by_cases hk : k ≤ budget - m.steps
    · cases hcall.symm.trans ((hends budget).1 hk)
    · obtain ⟨function, m₂, hstopped⟩ := (hends budget).2 (Nat.lt_of_not_le hk)
      cases hcall.symm.trans hstopped
  · exact h.elim
  · obtain ⟨m₁, ⟨k, hends⟩, hw, -⟩ := h
    by_cases hk : k ≤ budget - m.steps
    · cases hcall.symm.trans ((hends budget).1 hk)
      rw [hw]
    · obtain ⟨function, m₂, hstopped⟩ := (hends budget).2 (Nat.lt_of_not_le hk)
      cases hcall.symm.trans hstopped

/-- A function whose body gives each field of a fresh record a value, in order: if a call of it ends with
a value, this is the record with the values that were computed for its fields in that run. -/
theorem Compiled.constructs {records : Registry} {s : Source} {c after : Context} {d : Definition}
    {r : Routine} {loc loc' : Option Location} {record : String} {layout : Layout}
    {fields : List (Nat × Expr)} (h : Compiled records s c) (hdefine : c.define d = .ok (r, after))
    (hbody : d.body = .construct loc (.alloc loc' record) fields)
    (hlayout : records[record]? = some layout) (hfields : fields.map Prod.fst = List.range layout.width)
    {m m' : Machine} {args : List Float} (hlen : d.proto.params.length = args.length) {budget : Nat}
    {shown : Datum} (hrun : m.evaluate after.program budget d.proto.name args = (.ok shown, m')) :
    ∃ xs ticks, shown = .record record xs ∧ m.Constructs after.program r (args.map .float)
      ((s.define d).run ticks ⟨d.proto.name, 1, Scope.parameters d.proto.params args⟩) record fields
      xs := by
  have himplemented := (h.define hdefine).implemented
  obtain ⟨hname, harity, hget⟩ := h.settled.routine_of_define hdefine
  have hregistered : after.program.records[record]? = some layout :=
    (h.define hdefine).records_eq ▸ hlayout
  have hfunction : (s.define d).functions[d.proto.name]? =
      some ⟨d.proto.params, some (.construct loc (.alloc loc' record) fields)⟩ := by
    simp [Source.define, hbody]
  -- There are more ticks than steps, so what the call means is the value that it has.
  obtain ⟨v, hcall⟩ := Machine.call_of_evaluate hrun
  have hmeans := (himplemented.call (budget - m.steps + 2) m hget (harity.trans hlen)).ok
    (Nat.lt_succ_self _) hcall
  rw [Source.call, Source.invoke_eq hfunction hlen] at hmeans
  dsimp only at hmeans
  rw [if_neg (show ¬ maxDepth ≤ 0 by decide), Source.run, himplemented.records] at hmeans
  obtain ⟨place, cell, w, hstorage, hvalues, rfl⟩ := Expr.eval_construct_ok hmeans
  rw [Expr.eval, hregistered] at hstorage
  cases hstorage
  have hmeaning : (s.define d).run (budget - m.steps + 2)
      ⟨d.proto.name, 1, Scope.parameters d.proto.params args⟩ =
      fun e => e.eval after.program.records (fun scope => (s.define d).invoke ((s.define d).run
        (budget - m.steps + 1)) (some scope.function) scope.depth) (budget - m.steps + 1)
        ⟨d.proto.name, 1, Scope.parameters d.proto.params args⟩ := by
    funext e
    rw [Source.run, himplemented.records]
  have apart : ∀ e, Eval.Apart (m.memory.size + 1) (Value.Beyond (m.memory.size + 1))
      ((s.define d).run (budget - m.steps + 2)
        ⟨d.proto.name, 1, Scope.parameters d.proto.params args⟩ e) :=
    fun e => (s.define d).run_apart _ _ e
  rw [hmeaning] at apart
  cases himplemented.stands hfunction hget with
  | defined lowered =>
    cases lowered with
    | @lowered ctx b name result linked derived =>
      obtain rfl : name = d.proto.name := hname
      obtain ⟨xs, hcells, hconstructs⟩ := derived.constructs linked
        (himplemented.callsRealized (budget - m.steps + 1)) rfl hlen hregistered hfields apart hvalues
      have hshown : m'.materialize (.ptr m.memory.size 0) = .ok (.record record xs) := by
        rw [Machine.materialize, show m'.memory[m.memory.size]? = _ from hcells]
      rw [Machine.evaluate, hcall] at hrun
      cases hshown.symm.trans (congrArg Prod.fst hrun)
      exact ⟨xs, budget - m.steps + 2, rfl, hmeaning ▸ hconstructs⟩

end PoseLang
