import PoseLang.Proofs.Machine.Addresses
import PoseLang.Proofs.Machine.Recursion

/-!
# One machine, many calls

A machine outlives its calls, and what an earlier call has left is what a later one starts with. Here is
what holds of a machine after any number of calls, whatever the program is and whether the calls failed:
no function runs any more, there is a name for each list of cells, allocations have the widths of their
records and are those from before and more, and the steps exceed the budget by one for each call at most.
Whatever value a call has given can still be looked up, and an address shows a record of its layout.

Which functions run and which names there are is something to ask of an engine, which counts the ones and
keeps the others apart from the cells. So the requests are answered by an engine as well, and it is seen
to follow the machine.
-/

namespace PoseLang

/-- What a machine can be asked to do: to call a function with numbers, or to show the value of such a
call as it is seen from outside. -/
inductive Request where
  | call (name : String) (args : List Float)
  | evaluate (name : String) (args : List Float)

/-- What comes of a request. -/
inductive Answer where
  | value (v : Value)
  | datum (d : Datum)
  | failure (e : RunError)

/-- A machine with the answers that it has given. -/
structure Service where
  machine : Machine := {}
  answers : List Answer := []

namespace Request

/-- The function that is called. -/
def name : Request → String
  | call name _ => name
  | evaluate name _ => name

/-- What it is called with. -/
def args : Request → List Float
  | call _ args => args
  | evaluate _ args => args

end Request

namespace Answer

/-- The answer that a call leads to. -/
def called : Except RunError Value → Answer
  | .ok v => .value v
  | .error e => .failure e

/-- The answer that a value leads to as it is seen from outside. -/
def evaluated : Except RunError Datum → Answer
  | .ok d => .datum d
  | .error e => .failure e

theorem ok_of_called {result : Except RunError Value} {v : Value} (h : called result = .value v) :
    result = .ok v := by
  cases result with
  | error e => cases h
  | ok w => cases h; rfl

theorem ok_of_evaluated {result : Except RunError Datum} {d : Datum}
    (h : evaluated result = .datum d) : result = .ok d := by
  cases result with
  | error e => cases h
  | ok d' => cases h; rfl

end Answer

/-- Answers a request. -/
def Machine.answer (p : Program) (budget : Nat) (m : Machine) : Request → Answer × Machine
  | .call name args => (.called (m.call p budget name args).1, (m.call p budget name args).2)
  | .evaluate name args =>
    (.evaluated (m.evaluate p budget name args).1, (m.evaluate p budget name args).2)

namespace Service

/-- Answers a request and keeps the answer. -/
def handle (p : Program) (budget : Nat) (s : Service) (r : Request) : Service :=
  ⟨(s.machine.answer p budget r).2, s.answers ++ [(s.machine.answer p budget r).1]⟩

/-- A fresh machine after some requests. -/
def serve (p : Program) (budget : Nat) (requests : List Request) : Service :=
  requests.foldl (handle p budget) {}

end Service

namespace Engine

/-- Answers a request. -/
def answer (p : Program) (budget : Nat) (s : Engine) : Request → Answer × Engine
  | .call name args =>
    let ending := s.call p budget name (args.map .float)
    (.called ending.result, ending.engine)
  | .evaluate name args => (.evaluated (s.evaluate p budget name args).1, (s.evaluate p budget name args).2)

/-- Answers a request and keeps the answer. -/
def handle (p : Program) (budget : Nat) (s : Engine × List Answer) (r : Request) :
    Engine × List Answer :=
  ((s.1.answer p budget r).2, s.2 ++ [(s.1.answer p budget r).1])

/-- A fresh engine after some requests, and the answers that it has given. -/
def serve (p : Program) (budget : Nat) (requests : List Request) : Engine × List Answer :=
  requests.foldl (handle p budget) ({}, [])

end Engine

/-! ## Layouts and values -/

/-- Every layout is registered under its own name. -/
def Registry.Keyed (records : Registry) : Prop :=
  ∀ (name : String) (l : Layout), records[name]? = some l → l.name = name

namespace Registry

theorem Keyed.register {records : Registry} (h : records.Keyed) (l : Layout) :
    (records.register l).Keyed := by
  intro name l' hl'
  rw [Registry.register, Std.ExtTreeMap.getElem?_insert] at hl'
  split at hl'
  next heq =>
    cases hl'
    exact Std.LawfulEqCmp.eq_of_compare heq
  next => exact h name l' hl'

/-- Registering layouts is the only way to come to a registry, so that all of them are keyed. -/
theorem keyed_ofLayouts (layouts : List Layout) : (ofLayouts layouts).Keyed := by
  have hfold (records : Registry) (h : records.Keyed) : (layouts.foldl register records).Keyed := by
    induction layouts generalizing records with
    | nil => exact h
    | cons l layouts ih => exact ih (records.register l) (h.register l)
  exact hfold ∅ fun name l hl => by simp at hl

end Registry

/-- A value is shown as what it is: an address as a record that has the name and the width of its
layout. -/
inductive Value.ShownAs (records : Registry) : Value → Datum → Prop
  | number {x : Float} : ShownAs records (.float x) (.number x)
  | bool {b : Bool} : ShownAs records (.bool b) (.bool b)
  | record {alloc cell : Nat} {name : String} {fields : List Float} {l : Layout}
    (registered : records[name]? = some l) (named : l.name = name) (wide : fields.length = l.width) :
    ShownAs records (.ptr alloc cell) (.record name fields)

namespace Machine

variable {records : Registry} {m m' : Machine} {v : Value}

/-- An address of an allocation that there is can be looked up. -/
theorem materialize_points (hrecords : records.Keyed) (hlaid : m.Laid records)
    (hv : v.Points m.memory) : ∃ d, m.materialize v = .ok d ∧ v.ShownAs records d := by
  cases v with
  | float x => exact ⟨.number x, rfl, .number⟩
  | bool b => exact ⟨.bool b, rfl, .bool⟩
  | ptr alloc cell =>
    have hthere := Array.getElem?_eq_getElem (show alloc < m.memory.size from hv)
    obtain ⟨l, hl, hwide⟩ := hlaid alloc _ hthere
    refine ⟨.record _ _, ?_, .record hl (hrecords _ l hl) hwide⟩
    rw [materialize, hthere]

/-- Where a call has a value, the value can be shown. -/
theorem evaluate_of_call {p : Program} (hrecords : p.records.Keyed) (hlaid : m.Laid p.records)
    (budget : Nat) (name : String) (args : List Float)
    (hcall : m.call p budget name args = (.ok v, m')) :
    ∃ d, m.evaluate p budget name args = (.ok d, m') ∧ v.ShownAs p.records d := by
  have hlaid' := laid_call hlaid budget name args
  have hpoints := points_call p budget m name args (congrArg Prod.fst hcall)
  rw [hcall] at hlaid' hpoints
  obtain ⟨d, hd, hshown⟩ := materialize_points hrecords hlaid' hpoints
  refine ⟨d, ?_, hshown⟩
  rw [evaluate, hcall]
  dsimp only
  rw [hd]

/-- A value is shown only where a call has one. -/
theorem call_of_evaluate {p : Program} {budget : Nat} {name : String} {args : List Float} {d : Datum}
    (h : m.evaluate p budget name args = (.ok d, m')) :
    ∃ v, m.call p budget name args = (.ok v, m') := by
  rw [evaluate] at h
  split at h
  next v m₁ hcall =>
    cases congrArg Prod.snd h
    exact ⟨v, hcall⟩
  next => cases h

theorem snd_evaluate (p : Program) (budget : Nat) (m : Machine) (name : String) (args : List Float) :
    (m.evaluate p budget name args).2 = (m.call p budget name args).2 := by
  rw [evaluate]
  split
  next hcall => rw [hcall]
  next hcall => rw [hcall]

/-! ## One request -/

section

variable {p : Program} {budget : Nat} {r : Request}

/-- To show a value makes no difference to the machine. -/
theorem snd_answer (p : Program) (budget : Nat) (m : Machine) (r : Request) :
    (m.answer p budget r).2 = (m.call p budget r.name r.args).2 := by
  cases r with
  | call name args => rfl
  | evaluate name args => exact snd_evaluate p budget m name args

/-- A value that is answered points to an allocation that there is behind the request. -/
theorem points_answer (h : (m.answer p budget r).1 = .value v) :
    v.Points (m.answer p budget r).2.memory := by
  cases r with
  | call name args => exact points_call p budget m name args (Answer.ok_of_called h)
  | evaluate name args =>
    rw [answer] at h
    cases hevaluate : (m.evaluate p budget name args).1 <;> rw [hevaluate] at h <;> cases h

/-- What is shown in an answer is a value. -/
theorem shown_answer (hrecords : p.records.Keyed) (hlaid : m.Laid p.records) {d : Datum}
    (h : (m.answer p budget r).1 = .datum d) : ∃ v : Value, v.ShownAs p.records d := by
  cases r with
  | call name args =>
    rw [answer] at h
    cases hcall : (m.call p budget name args).1 <;> rw [hcall] at h <;> cases h
  | evaluate name args =>
    have hshown : m.evaluate p budget name args = (.ok d, (m.evaluate p budget name args).2) :=
      Prod.ext (Answer.ok_of_evaluated h) rfl
    obtain ⟨v, hcall⟩ := call_of_evaluate hshown
    obtain ⟨d', hshows, hv⟩ := evaluate_of_call hrecords hlaid budget name args hcall
    cases (congrArg Prod.fst hshown).symm.trans (congrArg Prod.fst hshows)
    exact ⟨v, hv⟩

theorem laid_answer (h : m.Laid p.records) (r : Request) :
    (m.answer p budget r).2.Laid p.records := by
  rw [snd_answer]
  exact laid_call h budget r.name r.args

theorem kept_answer (p : Program) (budget : Nat) (m : Machine) (r : Request) :
    Allocation.Kept m.memory (m.answer p budget r).2.memory := by
  rw [snd_answer]
  exact kept_call p budget m r.name r.args

/-- A request counts one step more than are left of the budget, or a single one. -/
theorem steps_answer_le {count : Nat} (h : m.steps ≤ budget + count) (r : Request) :
    (m.answer p budget r).2.steps ≤ budget + (count + 1) := by
  have hcall := steps_call_le p budget m r.name r.args
  rw [snd_answer]
  omega

end

end Machine

/-- An engine in which nothing runs answers as a machine does, and then nothing runs in it again. -/
theorem Machine.answer_engine (p : Program) (budget : Nat) (m : Machine) (r : Request) :
    (m.engine 0).answer p budget r =
      ((m.answer p budget r).1, (m.answer p budget r).2.engine 0) := by
  cases r with
  | call name args =>
    obtain ⟨hresult, hengine⟩ := m.call_engine p budget name args
    rw [Engine.answer, hresult, hengine]
    rfl
  | evaluate name args =>
    rw [Engine.answer, m.evaluate_engine]
    rfl

/-! ## Many requests -/

namespace Service

variable {p : Program} {budget count : Nat} {s : Service}

/-- What holds of a machine and of its answers after a number of requests. -/
structure Sound (p : Program) (budget count : Nat) (s : Service) : Prop where
  laid : s.machine.Laid p.records
  steps : s.machine.steps ≤ budget + count
  values : ∀ v, .value v ∈ s.answers → v.Points s.machine.memory
  shown : ∀ d, .datum d ∈ s.answers → ∃ v : Value, v.ShownAs p.records d

theorem Sound.handle (hrecords : p.records.Keyed) (h : s.Sound p budget count) (r : Request) :
    (s.handle p budget r).Sound p budget (count + 1) where
  laid := Machine.laid_answer h.laid r
  steps := Machine.steps_answer_le h.steps r
  values := by
    intro v hv
    rcases List.mem_append.mp hv with hv | hv
    · exact (h.values v hv).mono (Machine.kept_answer p budget s.machine r).size_le
    · exact Machine.points_answer (List.mem_singleton.mp hv).symm
  shown := by
    intro d hd
    rcases List.mem_append.mp hd with hd | hd
    · exact h.shown d hd
    · exact Machine.shown_answer hrecords h.laid (List.mem_singleton.mp hd).symm

theorem Sound.foldl (hrecords : p.records.Keyed) (h : s.Sound p budget count)
    (requests : List Request) : (requests.foldl (Service.handle p budget) s).Sound p budget
      (count + requests.length) := by
  induction requests generalizing s count with
  | nil => exact h
  | cons r requests ih =>
    have hrest := ih (h.handle hrecords r)
    rw [Nat.add_assoc, Nat.add_comm 1] at hrest
    exact hrest

theorem sound_serve (hrecords : p.records.Keyed) (budget : Nat) (requests : List Request) :
    (serve p budget requests).Sound p budget requests.length := by
  have hfresh : Sound p budget 0 {} :=
    ⟨fun _ _ h => by simp at h, Nat.zero_le _, fun _ h => (by cases h), fun _ h => (by cases h)⟩
  have hserved := hfresh.foldl hrecords requests
  rw [Nat.zero_add] at hserved
  exact hserved

theorem kept_foldl (p : Program) (budget : Nat) (s : Service) (requests : List Request) :
    Allocation.Kept s.machine.memory (requests.foldl (handle p budget) s).machine.memory := by
  induction requests generalizing s with
  | nil => exact .refl
  | cons r requests ih =>
    exact (Machine.kept_answer p budget s.machine r).trans (ih (s.handle p budget r))

theorem engine_foldl (p : Program) (budget : Nat) (s : Service) (requests : List Request) :
    requests.foldl (Engine.handle p budget) (s.machine.engine 0, s.answers) =
      ((requests.foldl (handle p budget) s).machine.engine 0,
        (requests.foldl (handle p budget) s).answers) := by
  induction requests generalizing s with
  | nil => rfl
  | cons r requests ih =>
    rw [List.foldl_cons, List.foldl_cons, ← ih, Engine.handle, Machine.answer_engine]
    rfl

/-- An engine after some requests holds what a machine holds after them, and has given its answers. -/
theorem serve_engine (p : Program) (budget : Nat) (requests : List Request) :
    Engine.serve p budget requests =
      ((serve p budget requests).machine.engine 0, (serve p budget requests).answers) := by
  rw [Engine.serve, ← Machine.engine_fresh]
  exact engine_foldl p budget {} requests

/-- A machine after any requests, of which some may have failed, and an engine that has answered them,
too. The engine holds what the machine holds and has given the same answers. No function runs any more.
There is a name for each list of cells, and it is that of a layout with as many fields. The allocations
of earlier are there, with their names and widths. The steps are those of the budget and one for each
request at most. A value that a call gave earlier is no address, or one of an allocation that there
was; it can be shown, an address as a record that has the name and the number of fields of its layout.
So to show the value of a call fails only if the call does. -/
theorem serve_sound (p : Program) (hrecords : p.records.Keyed) (budget : Nat)
    (earlier later : List Request) (before after : Service) (engine : Engine)
    (hbefore : serve p budget earlier = before) (hafter : serve p budget (earlier ++ later) = after)
    (hengine : (Engine.serve p budget (earlier ++ later)).1 = engine) :
    engine.depth = 0 ∧
    engine.cells.size = engine.records.size ∧
    engine = after.machine.engine 0 ∧
    (Engine.serve p budget (earlier ++ later)).2 = after.answers ∧
    after.machine.Laid p.records ∧
    Allocation.Kept before.machine.memory after.machine.memory ∧
    after.machine.steps ≤ budget + (earlier ++ later).length ∧
    (∀ v, .value v ∈ before.answers →
      (∀ alloc cell, v = .ptr alloc cell → alloc < before.machine.memory.size) ∧
      ∃ d, engine.materialize v = .ok d ∧ after.machine.materialize v = .ok d ∧
        v.ShownAs p.records d) ∧
    (∀ d, .datum d ∈ after.answers → ∃ v : Value, v.ShownAs p.records d) ∧
    ∀ name args v m, after.machine.call p budget name args = (.ok v, m) →
      ∃ d, after.machine.evaluate p budget name args = (.ok d, m) ∧ v.ShownAs p.records d := by
  have hsound := sound_serve hrecords budget earlier
  have hsound' := sound_serve hrecords budget (earlier ++ later)
  have hkept := kept_foldl p budget (serve p budget earlier) later
  have hserved := serve_engine p budget (earlier ++ later)
  rw [serve, ← List.foldl_append, ← serve, ← serve] at hkept
  rw [hafter] at hsound' hkept hserved
  rw [hbefore] at hsound hkept
  rw [hserved] at hengine ⊢
  subst hengine
  refine ⟨rfl, ?_, rfl, rfl, hsound'.laid, hkept, hsound'.steps, fun v hv => ⟨?_, ?_⟩, hsound'.shown,
    fun name args v m => Machine.evaluate_of_call hrecords hsound'.laid budget name args⟩
  · exact (after.machine.size_cells_engine 0).trans (after.machine.size_records_engine 0).symm
  · rintro alloc cell rfl
    exact hsound.values _ hv
  · obtain ⟨d, hd, hshown⟩ :=
      Machine.materialize_points hrecords hsound'.laid ((hsound.values v hv).mono hkept.size_le)
    exact ⟨d, (after.machine.materialize_engine 0 v).trans hd, hd, hshown⟩

/-- A program with a function that gives a record, and one that calls another one that fails after it has
allocated a record. -/
def poseProgram : Program :=
  (((Program.empty .builtin).define
    ⟨⟨"make", [], .ptr "Pose2D"⟩, [⟨"entry", [.alloca 0 "Pose2D", .ret 0]⟩], [.ptr "Pose2D"]⟩).define
    ⟨⟨"inner", [], .f64⟩, [⟨"entry", [.alloca 0 "Pose2D"]⟩], [.ptr "Pose2D"]⟩).define
    ⟨⟨"outer", [], .f64⟩, [⟨"entry", [.call 0 "inner" [], .ret 0]⟩], [.f64]⟩

/-- The record that was given before the failure can be shown behind it. -/
theorem serve_sound_failed :
    poseProgram.records.Keyed ∧
    .value (.ptr 0 0) ∈ (serve poseProgram 9 [.call "make" []]).answers ∧
    ∃ engine, (Engine.serve poseProgram 9 [.call "make" [], .evaluate "outer" []]).1 = engine ∧
      engine.depth = 0 ∧ engine.cells.size = 2 ∧ engine.records.size = 2 ∧
      ∃ d, engine.materialize (.ptr 0 0) = .ok d ∧ Value.ShownAs poseProgram.records (.ptr 0 0) d := by
  have hkeyed : poseProgram.records.Keyed := Registry.keyed_ofLayouts [Layout.pose2D]
  have hgiven : Answer.value (.ptr 0 0) ∈ (serve poseProgram 9 [.call "make" []]).answers :=
    List.mem_of_getElem? (i := 0) rfl
  have hmemory : (serve poseProgram 9 [.call "make" [], .evaluate "outer" []]).machine.memory.size = 2 := by
    decide +kernel
  obtain ⟨hdepth, hsizes, hengine, -, -, -, -, hvalues, -⟩ :=
    serve_sound poseProgram hkeyed 9 [.call "make" []] [.evaluate "outer" []] _ _ _ rfl rfl rfl
  have hcells : (Engine.serve poseProgram 9 [.call "make" [], .evaluate "outer" []]).1.cells.size = 2 := by
    rw [show (Engine.serve poseProgram 9 [.call "make" [], .evaluate "outer" []]).1 = _ from hengine,
      Machine.size_cells_engine]
    exact hmemory
  obtain ⟨-, d, hd, -, hshown⟩ := hvalues _ hgiven
  exact ⟨hkeyed, hgiven, _, rfl, hdepth, hcells, hsizes.symm.trans hcells, d, hd, hshown⟩

end Service

end PoseLang
