import PoseLang.Proofs.Expr.Parts
import PoseLang.Proofs.Lowering.Accepted

/-!
# What lowering may object to

Two causes of failure blame lowering and not the source: storage that cannot be used for a record, and a
finished routine that has a flaw. If the parts of a body fit the registered records, as they do if the
body has been read with them, then neither of the two ever comes up, whatever else is wrong with the body
(`Context.define_blamesSource`).

Of computations on builders this is a property that runs along with them (`Lower.BlamesSource`). Only at
a construction does it depend on the builder: that its storage can be used is seen from the type of the
register that fresh storage has just been given.
-/

namespace PoseLang

theorem Except.bind_error {ε α β : Type} {x : Except ε α} {f : α → Except ε β} {e : ε}
    (h : x >>= f = .error e) : x = .error e ∨ ∃ a, x = .ok a ∧ f a = .error e := by
  cases x with
  | error e' =>
    cases h
    exact .inl rfl
  | ok a => exact .inr ⟨a, rfl, h⟩

/-- Whether a cause is none that the source is to blame for. -/
def LowerError.Cause.isInternal : LowerError.Cause → Bool
  | .allocationFailure _ => true
  | .invalidFunction _ _ => true
  | _ => false

/-- A computation on a builder fails only for what the source is to blame for. -/
def Lower.BlamesSource {α : Type} (x : Lower α) : Prop :=
  ∀ b e b', x b = .error e b' → e.cause.isInternal = false

namespace Lower

variable {α β : Type} {b : Builder}

theorem bind_of_ok {x : Lower α} {f : α → Lower β} {a : α} {b' : Builder} (h : x b = .ok a b') :
    (x >>= f) b = f a b' := by
  simp only [bind, EStateM.bind, h]

namespace BlamesSource

theorem pure (a : α) : BlamesSource (Pure.pure a) := by
  intro b e b' h
  cases h

theorem step (f : Builder → α × Builder) : BlamesSource (Lower.step f) := by
  intro b e b' h
  cases h

theorem get : BlamesSource (MonadState.get : Lower Builder) := by
  intro b e b' h
  cases h

theorem modify (f : Builder → Builder) : BlamesSource (modify f : Lower Unit) := by
  intro b e b' h
  cases h

theorem bind {x : Lower α} {f : α → Lower β} (hx : BlamesSource x) (hf : ∀ a, BlamesSource (f a)) :
    BlamesSource (x >>= f) := by
  intro b e b' h
  simp only [Bind.bind, EStateM.bind] at h
  cases hresult : x b with
  | ok a b₁ =>
    rw [hresult] at h
    exact hf a b₁ e b' h
  | error err b₁ =>
    rw [hresult] at h
    cases h
    exact hx b e b' hresult

theorem failAt {cause : LowerError.Cause} (h : cause.isInternal = false) (e : Expr) :
    BlamesSource (Lower.failAt cause e : Lower α) := by
  intro b err b' heq
  cases heq
  exact h

theorem typeOf (reg : Nat) : BlamesSource (Lower.typeOf reg) :=
  bind get fun _ => pure _

theorem current : BlamesSource Lower.current :=
  bind get fun _ => pure _

theorem expectType (reg : Nat) (expected : Ty) (e : Expr) :
    BlamesSource (Lower.expectType reg expected e) := by
  refine bind (typeOf reg) fun found => ?_
  split
  · exact pure ()
  · exact failAt rfl e

end BlamesSource

end Lower

/-! ## Expressions -/

namespace Expr

open Lower (BlamesSource)

variable {c : Context}

/-- Fresh storage can be used for its record. -/
theorem lower_construct_alloc {loc loc' : Option Location} {record : String} {layout : Layout}
    (registered : c.program.records[record]? = some layout) (fields : List (Nat × Expr)) (b : Builder) :
    (Expr.construct loc (.alloc loc' record) fields).lower c b =
      (lowerFields c (.construct loc (.alloc loc' record) fields) b.regTypes.length record layout.width
        fields >>= fun _ => pure b.regTypes.length) (b.put (.ptr record) (.alloca · record)) := by
  have hstorage : (Expr.alloc loc' record).lower c b =
      .ok b.regTypes.length (b.put (.ptr record) (.alloca · record)) :=
    (Lowered.alloc registered).lower_eq
  have hrecord : Lower.recordOf b.regTypes.length (.alloc loc' record)
      (b.put (.ptr record) (.alloca · record)) =
      .ok record (b.put (.ptr record) (.alloca · record)) :=
    Lower.recordOf_ok.mpr ⟨Builder.typeAt_put (.ptr record) (.alloca · record), rfl⟩
  have hwidth : Lower.widthOf c record (.alloc loc' record) (b.put (.ptr record) (.alloca · record)) =
      .ok layout.width (b.put (.ptr record) (.alloca · record)) :=
    Lower.widthOf_ok.mpr ⟨⟨layout, registered, rfl⟩, rfl⟩
  rw [lower, Lower.bind_of_ok hstorage, Lower.bind_of_ok hrecord, Lower.bind_of_ok hwidth]

mutual

theorem lower_blamesSource : ∀ {e : Expr}, e.RecordsFit c.program.records →
    BlamesSource (e.lower c)
  | .num _ _, _ => .step _
  | .var loc name, _ => by
    rw [lower]
    refine .bind .get fun b => ?_
    split
    · exact .pure _
    · exact .failAt rfl _
  | .binary loc op left right, h => by
    obtain ⟨hleft, hright⟩ := recordsFit_binary.mp h
    rw [lower]
    refine .bind (lower_blamesSource hleft) fun l => .bind (lower_blamesSource hright) fun r => ?_
    refine .bind (.expectType l _ _) fun _ => .bind (.expectType r _ _) fun _ => ?_
    refine .bind (.step _) fun dest => ?_
    split
    · exact .bind (.modify _) fun _ => .pure _
    · exact .failAt rfl _
  | .call loc callee args, h => by
    rw [lower]
    split
    · exact .failAt rfl _
    next target _ =>
      dsimp only
      split
      · exact .failAt rfl _
      · refine .bind (lowerArgs_blamesSource (recordsFit_call.mp h)) fun regs => ?_
        have hrest : BlamesSource (do
            let dest ← Lower.newReg target.signature.ret
            Lower.emit (.call dest callee regs)
            pure dest) :=
          .bind (.step _) fun dest => .bind (.modify _) fun _ => .pure _
        split
        · exact .bind (.modify _) fun _ => hrest
        · exact hrest
  | .cond loc condition thenBranch elseBranch, h => by
    obtain ⟨hcondition, hthen, helse⟩ := recordsFit_cond.mp h
    rw [lower]
    refine .bind (lower_blamesSource hcondition) fun value => .bind (.expectType value _ _) fun _ => ?_
    refine .bind (.step _) fun test => .bind (.modify _) fun _ => ?_
    refine .bind (.step _) fun thenBlock => .bind (.step _) fun elseBlock => .bind (.step _) fun merge => ?_
    refine .bind (.modify _) fun _ => .bind (.modify _) fun _ => ?_
    refine .bind (lower_blamesSource hthen) fun thenValue => .bind (.modify _) fun _ => ?_
    refine .bind .current fun thenEnd => .bind (.modify _) fun _ => ?_
    refine .bind (lower_blamesSource helse) fun elseValue => .bind (.typeOf thenValue) fun ty => ?_
    refine .bind (.expectType elseValue ty _) fun _ => .bind (.modify _) fun _ => ?_
    refine .bind .current fun elseEnd => .bind (.modify _) fun _ => ?_
    exact .bind (.step _) fun dest => .bind (.modify _) fun _ => .pure _
  | .loop loc v start test stepBy body, h => by
    obtain ⟨hstart, htest, hstep, hbody⟩ := recordsFit_loop.mp h
    rw [lower]
    refine .bind (lower_blamesSource hstart) fun first => .bind (.expectType first _ _) fun _ => ?_
    refine .bind .current fun before => .bind (.step _) fun block => .bind (.modify _) fun _ => ?_
    refine .bind (.modify _) fun _ => .bind (.step _) fun counter => .bind (.modify _) fun _ => ?_
    refine .bind (.step _) fun shadowed => .bind (lower_blamesSource hbody) fun _ => ?_
    refine .bind (lowerStep_blamesSource hstep) fun increment => .bind (.step _) fun next => ?_
    refine .bind (.modify _) fun _ => .bind (lower_blamesSource htest) fun value => ?_
    refine .bind (.expectType value _ _) fun _ => .bind (.step _) fun again => ?_
    refine .bind (.modify _) fun _ => .bind .current fun last => .bind (.step _) fun after => ?_
    refine .bind (.modify _) fun _ => .bind (.modify _) fun _ => .bind (.modify _) fun _ => ?_
    exact .bind (.modify _) fun _ => .step _
  | .alloc loc record, h => by
    obtain ⟨layout, registered⟩ := h (.alloc loc record) (by simp [parts])
    intro b e b' herror
    rw [(Lowered.alloc registered).lower_eq] at herror
    cases herror
  | .construct loc destination fields, h => by
    obtain ⟨⟨loc', record, layout, hdestination, registered, hfields⟩, -, hvalues⟩ :=
      recordsFit_construct.mp h
    intro b e b' herror
    rw [hdestination, lower_construct_alloc registered] at herror
    refine BlamesSource.bind ?_ (fun _ => .pure _) _ e b' herror
    refine lowerFields_blamesSource (fun field hfield => ?_) hvalues
    have hmem : field.1 ∈ fields.map Prod.fst := List.mem_map_of_mem hfield
    rw [hfields] at hmem
    exact List.mem_range.mp hmem

theorem lowerArgs_blamesSource : ∀ {es : List Expr}, (∀ e ∈ es, e.RecordsFit c.program.records) →
    BlamesSource (lowerArgs c es)
  | [], _ => .pure _
  | e :: es, h => by
    obtain ⟨hhead, htail⟩ := List.forall_mem_cons.mp h
    rw [lowerArgs]
    refine .bind (lower_blamesSource hhead) fun reg => .bind (.expectType reg _ _) fun _ => ?_
    exact .bind (lowerArgs_blamesSource htail) fun regs => .pure _

theorem lowerStep_blamesSource : ∀ {step : Option Expr},
    (∀ e, step = some e → e.RecordsFit c.program.records) → BlamesSource (lowerStep c step)
  | none, _ => .step _
  | some e, h => by
    rw [lowerStep]
    refine .bind (lower_blamesSource (h e rfl)) fun reg => ?_
    exact .bind (.expectType reg _ _) fun _ => .pure _

/-- All fields are inside of the record. -/
theorem lowerFields_blamesSource {whole : Expr} {base : Nat} {record : String} {width : Nat} :
    ∀ {fields : List (Nat × Expr)}, (∀ field ∈ fields, field.1 < width) →
      (∀ field ∈ fields, field.2.RecordsFit c.program.records) →
      BlamesSource (lowerFields c whole base record width fields)
  | [], _, _ => .pure _
  | (i, e) :: fields, hinside, hvalues => by
    obtain ⟨hi, hinside⟩ := List.forall_mem_cons.mp hinside
    obtain ⟨he, hvalues⟩ := List.forall_mem_cons.mp hvalues
    rw [lowerFields, if_neg (Nat.not_le_of_lt hi)]
    refine .bind (lower_blamesSource he) fun value => .bind (.expectType value _ _) fun _ => ?_
    refine .bind (.step _) fun addr => .bind (.modify _) fun _ => .bind (.modify _) fun _ => ?_
    exact lowerFields_blamesSource hinside hvalues

end

end Expr

/-! ## Declarations and definitions -/

section

variable {c : Context} {d : Definition} {e : LowerError}

theorem Context.conflict?_blamesSource {proto : Prototype} {defining : Bool} {cause : LowerError.Cause}
    (h : c.conflict? proto defining = some cause) : cause.isInternal = false := by
  unfold conflict? at h
  split at h
  · cases h
  · split at h
    · cases h
      rfl
    · split at h
      · cases h
        rfl
      · cases h

theorem Context.declare_blamesSource {proto : Prototype} (h : c.declare proto = .error e) :
    e.cause.isInternal = false := by
  unfold declare at h
  split at h
  next cause hconflict =>
    cases h
    exact conflict?_blamesSource hconflict
  next =>
    dsimp only at h
    split at h <;> cases h

theorem Definition.checkType_blamesSource {assumed : Option Ty} {r : Routine}
    (h : d.checkType assumed r = .error e) : e.cause.isInternal = false := by
  unfold checkType at h
  split at h
  · cases h
  · split at h
    · cases h
    · cases h
      rfl

/-- A body that is lowered makes a routine that has no flaw. So only its type may be wrong. -/
theorem Definition.build_blamesSource (hfits : d.body.RecordsFit c.program.records)
    (h : d.build c = .error e) : e.cause.isInternal = false := by
  unfold build at h
  split at h
  next err b hlower =>
    cases h
    have hbody : Lower.BlamesSource (d.lowerBody c) :=
      .bind (.modify _) fun _ => .bind (Expr.lower_blamesSource hfits) fun result =>
        .bind (.modify _) fun _ => .pure _
    exact hbody _ _ _ hlower
  next result b' hlower =>
    obtain ⟨b, hlowered, rfl⟩ := lowerBody_ok hlower
    have hshape := hlowered.flaw?_finish
      ⟨d.proto.name, d.proto.params, ((b.emit (.ret result)).typeOf? result).getD .f64⟩
    rcases Except.bind_error h with htype | ⟨r, htype, h⟩
    · exact checkType_blamesSource htype
    · obtain ⟨rfl, -⟩ := checkType_ok htype
      rw [checkShape, hshape] at h
      cases h

theorem Context.define_blamesSource (hfits : d.body.RecordsFit c.program.records)
    (h : c.define d = .error e) : e.cause.isInternal = false := by
  unfold define at h
  split at h
  next cause hconflict =>
    cases h
    exact conflict?_blamesSource hconflict
  next =>
    dsimp only at h
    split at h
    next err hbuild =>
      cases h
      -- Naming the function leaves the cause as it is.
      change err.cause.isInternal = false
      exact Definition.build_blamesSource (c := c.register d.proto) hfits hbuild
    next => cases h

end

end PoseLang
