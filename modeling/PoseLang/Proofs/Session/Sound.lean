import PoseLang.Proofs.Meaning.Calls
import PoseLang.Proofs.Session.Reached

/-!
# Compiled code runs soundly

What a session has compiled never runs into a fault of the machine. A run is stopped by its budget, by
the depth of calls or at a function that nobody implements, or it ends with a value of the type that
its routine was given (`Machine.Safe`). This holds of every routine of the program, and of the
expressions that are evaluated on the way.
-/

namespace PoseLang

open Prototype (anonymousName)

namespace Machine

/-- What a run within a budget may come to, for a routine with a type. -/
inductive Safe (records : Registry) (ret : Ty) (budget : Nat) : Except RunError Datum → Prop
  | value {v : Datum} (fits : v.Fits records ret) : Safe records ret budget (.ok v)
  | budget {function : Option String} : Safe records ret budget (.error ⟨.budgetExhausted budget, function⟩)
  | depth {function : Option String} : Safe records ret budget (.error ⟨.depthExceeded, function⟩)
  | external {name : String} {function : Option String} :
    Safe records ret budget (.error ⟨.noHost name, function⟩)

section

variable {p : Program} {m m' : Machine} {name : String} {args : List Float} {ret : Ty}

theorem safe_of_isLimit {records : Registry} {budget : Nat} {e : RunError} (h : e.fault.IsLimit) :
    Safe records ret budget (.error e) := by
  obtain ⟨fault, function⟩ := e
  rcases h with hdepth | ⟨name, hhost⟩
  · cases hdepth; exact .depth
  · cases hhost; exact .external

theorem Exhausts.safe {budget : Nat} (h : m.Exhausts p budget name args) :
    Safe p.records ret budget (m.evaluate p budget name args).1 := by
  obtain ⟨function, m', hcall⟩ := h
  rw [evaluate, hcall]
  exact .budget

/-- Where a call comes to an end that is safe, every budget leads to a safe end. -/
theorem Ends.safe {result : Except RunError Value} (h : m.Ends p name args result m') (budget : Nat)
    (hsafe : m.call p budget name args = (result, m') →
      Safe p.records ret budget (m.evaluate p budget name args).1) :
    Safe p.records ret budget (m.evaluate p budget name args).1 := by
  obtain ⟨k, hk⟩ := h
  by_cases hle : k ≤ budget - m.steps
  · exact hsafe ((hk budget).1 hle)
  · exact ((hk budget).2 (Nat.lt_of_not_le hle)).safe

/-- A call that does what an evaluation with enough ticks says is safe. -/
theorem Realizes.safe {budget ticks : Nat} {result : Option (Except Failure Value × World)}
    (h : m.Realizes p ticks ret name args result) (hticks : budget - m.steps + 1 < ticks) :
    Safe p.records ret budget (m.evaluate p budget name args).1 := by
  match result, h with
  | none, h => exact (h budget hticks).safe
  | some (.ok v, w), ⟨m', hends, _, hfits⟩ =>
    refine hends.safe budget fun hcall => ?_
    obtain ⟨d, hd, hdfits⟩ := hfits.materialize
    rw [evaluate, hcall]
    dsimp only
    rw [hd]
    exact .value hdfits
  | some (.error (.fault e), w), ⟨m', hends, _, hlimit⟩ =>
    refine hends.safe budget fun hcall => ?_
    rw [evaluate, hcall]
    exact safe_of_isLimit hlimit

end

end Machine

theorem Source.Implemented.evaluate_safe {s : Source} {p : Program} {name : String} {r : Routine}
    (h : s.Implemented p) (hr : p.get? name = some r) (m : Machine) (budget : Nat)
    (args : List Float) (hargs : args.length = r.arity) :
    Machine.Safe p.records r.signature.ret budget (m.evaluate p budget name args).1 :=
  (h.call (budget - m.steps + 2) m hr hargs.symm).safe (Nat.lt_succ_self _)

namespace Compiled

variable {records : Registry} {s : Source} {c : Context}

/-- Every call of a routine of a compiled program is safe. -/
theorem evaluate_safe {name : String} {r : Routine} (h : Compiled records s c)
    (hr : c.program.get? name = some r) (m : Machine) (budget : Nat) (args : List Float)
    (hargs : args.length = r.arity) :
    Machine.Safe records r.signature.ret budget (m.evaluate c.program budget name args).1 :=
  h.records_eq ▸ h.implemented.evaluate_safe hr m budget args hargs

end Compiled

namespace Session

variable {settings : Settings} {s : Session} {location : Option Location} {body : Expr}

/-- The result of an expression is that of the run of what it was compiled to. -/
theorem express_result {r : Routine} {c : Context} (heval : s.settings.evaluate = true)
    (h : s.context.define (.anonymous location body) = .ok (r, c)) :
    (s.express location body).result =
      ((Machine.evaluate c.program s.settings.maxSteps {} anonymousName []).1.map
        Outcome.evaluated).mapError Problem.run := by
  obtain ⟨after, result, -, hresult, dealt⟩ := s.dealt_item (.expression location body)
  have houtcome := ((Dealt.expressed h).unique dealt).2
  refine (hresult.trans houtcome).trans ?_
  rw [Settings.outcome, if_pos heval]

/-- Evaluating an expression is safe. -/
theorem Settled.express_safe {r : Routine} {c : Context} (h : s.Settled settings)
    (hdefine : s.context.define (.anonymous location body) = .ok (r, c)) (m : Machine) (budget : Nat) :
    Machine.Safe settings.registry r.signature.ret budget
      (m.evaluate c.program budget anonymousName []).1 := by
  obtain ⟨source, hcompiled⟩ := h.compiled
  obtain ⟨-, harity, hget⟩ := hcompiled.settled.routine_of_define hdefine
  exact (hcompiled.define hdefine).evaluate_safe hget m budget [] harity.symm

/-- Compiled code runs soundly. Whatever a session has compiled, each routine of its program, called
with as many numbers as it has parameters, on any machine and within any budget, has a safe run; and
so has each expression that is evaluated in a compilation, whose result is that of its run. -/
theorem Reached.runs_safely (h : Reached settings s) :
    (∀ r ∈ s.context.program.routines, ∀ (m : Machine) (budget : Nat) (args : List Float),
      args.length = r.arity → Machine.Safe settings.registry r.signature.ret budget
        (m.evaluate s.context.program budget r.name args).1) ∧
    (∀ ts done r left, Item.readings s.dialect ts = done ++ r :: left →
      ∀ location body, r.item = .ok (.expression location body) →
      ∀ before, (s.readings 0 done).1 = before →
      ∀ routine c, before.context.define (.anonymous location body) = .ok (routine, c) →
      settings.evaluate = true →
      ∃ result, Machine.Safe settings.registry routine.signature.ret settings.maxSteps result ∧
        (before.reading done.length r).2.items = [⟨done.length, itemSummary (.expression location body),
          some (.expression location body), (result.map Outcome.evaluated).mapError Problem.run⟩]) := by
  refine ⟨fun r hr m budget args hargs => ?_, ?_⟩
  · obtain ⟨source, hcompiled⟩ := h.settled.compiled
    exact hcompiled.evaluate_safe (Program.get?_name hr) m budget args hargs
  · rintro ts done r left hsplit location body hr before rfl routine c hdefine heval
    have hsettled := h.settled_between hsplit
    have hresult := express_result (hsettled.settings_eq ▸ heval) hdefine
    rw [hsettled.settings_eq] at hresult
    refine ⟨_, hsettled.express_safe hdefine {} settings.maxSteps, ?_⟩
    rw [(reading_of_ok hr done.length).2.1, ← hresult]
    rfl

/-- The tokens of a function that makes a record of its parameter. -/
def turnTokens : List Token :=
  let x : Token := { kind := .identifier, text := some "x" }
  [{ kind := .kwDef }, { kind := .identifier, text := some "turn" }, { kind := .leftParen }, x,
    { kind := .rightParen }, { kind := .identifier, text := some "Pose2D" }, { kind := .leftParen }, x,
    { kind := .comma }, x, { kind := .comma }, x, { kind := .rightParen }]

/-- A session in which that function is defined. -/
def turnSession : Session :=
  ((start .standard).compileTokens turnTokens).1

/-- The tokens of a call of it. -/
def turnCall : List Token :=
  [{ kind := .identifier, text := some "turn" }, { kind := .leftParen },
    { kind := .number, value := some 1 }, { kind := .rightParen }]

theorem Reached.runs_safely_turn : ∃ r reading location body routine c result,
    r ∈ turnSession.context.program.routines ∧ r.signature.ret = .ptr "Pose2D" ∧
      Machine.Safe Settings.standard.registry (.ptr "Pose2D") 5
        (Machine.evaluate turnSession.context.program 5 {} r.name [1]).1 ∧
      Item.readings turnSession.dialect turnCall = [reading] ∧
      turnSession.context.define (.anonymous location body) = .ok (routine, c) ∧
      reading.item = .ok (.expression location body) ∧
      Machine.Safe Settings.standard.registry routine.signature.ret 1000000 result := by
  have hreached : Reached .standard turnSession := .compile .start _
  have hroutine : turnSession.context.program.routines.any
      (fun r => r.arity = 1 ∧ r.signature.ret = .ptr "Pose2D") = true := by decide +kernel
  have hlength : (Item.readings turnSession.dialect turnCall).length = 1 := by decide +kernel
  have hall : (Item.readings turnSession.dialect turnCall).all (fun reading =>
      reading.expression?.any fun e =>
        (turnSession.context.define (.anonymous e.1 e.2)).isOk) = true := by decide +kernel
  obtain ⟨r, hmem, hr⟩ := List.any_eq_true.mp hroutine
  obtain ⟨harity, hret⟩ := of_decide_eq_true hr
  obtain ⟨reading, hreading⟩ := List.length_eq_one_iff.mp hlength
  obtain ⟨⟨location, body⟩, hexpression, hok⟩ := (Option.any_eq_true _ _).mp
    (List.all_eq_true.mp hall reading (hreading ▸ List.mem_cons_self))
  have hitem := Item.Reading.item_of_expression? hexpression
  cases hdefine : turnSession.context.define (.anonymous location body) with
  | error e => rw [hdefine] at hok; cases hok
  | ok defined =>
    have hsafe := hreached.runs_safely.1 r hmem {} 5 [1] harity.symm
    obtain ⟨result, hresult, -⟩ := hreached.runs_safely.2 turnCall [] reading [] hreading location
      body hitem turnSession rfl defined.1 defined.2 hdefine rfl
    exact ⟨r, reading, location, body, defined.1, defined.2, result, hmem, hret, hret ▸ hsafe,
      hreading, hdefine, hitem, hresult⟩

end Session

end PoseLang
