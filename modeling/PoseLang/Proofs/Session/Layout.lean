import PoseLang.Proofs.Lowering.Unplaced
import PoseLang.Proofs.Session.Reached

/-!
# The layout of a source

Where the tokens of a source stand decides where its items and errors stand, and nothing else. A session
does with tokens without places what it does with the tokens, without places: for one item
(`item_unplaced`), and from it for a whole compilation (`compileTokens_unplaced`). Two sources whose
tokens differ only in their places have the same tokens without places, so they compile to the same
(`compileTokens_layout`). The log is left out, since its lines show places.
-/

namespace PoseLang

/-- A diagnostic without its place. -/
def Diagnostic.unplaced (d : Diagnostic) : Diagnostic :=
  { d with location := none }

/-- A problem without its place. A run does not know places. -/
def Problem.unplaced : Problem → Problem
  | .parse e => .parse e.unplaced
  | .lower e => .lower e.unplaced
  | .run e => .run e

theorem Problem.diagnostic_unplaced (p : Problem) :
    p.unplaced.diagnostic = p.diagnostic.unplaced := by
  cases p with
  | parse e => cases e <;> rfl
  | lower e => rfl
  | run e => rfl

/-- The report of an item without places. -/
def ItemReport.unplaced (r : ItemReport) : ItemReport :=
  { r with item := r.item.map Item.unplaced, result := r.result.mapError Problem.unplaced }

@[simp] theorem ItemReport.isOk_unplaced (r : ItemReport) : r.unplaced.isOk = r.isOk := by
  rcases r with ⟨index, summary, item, problem | outcome⟩ <;> rfl

@[simp] theorem ItemReport.value?_unplaced (r : ItemReport) : r.unplaced.value? = r.value? := by
  rcases r with ⟨index, summary, item, problem | outcome⟩ <;> rfl

@[simp] theorem ItemReport.problem?_unplaced (r : ItemReport) :
    r.unplaced.problem? = r.problem?.map Problem.unplaced := by
  rcases r with ⟨index, summary, item, problem | outcome⟩ <;> rfl

namespace Session

/-- A session without the places of prototypes. -/
def unplaced (s : Session) : Session :=
  { s with context := s.context.unplaced }

/-! ## One item -/

/-- One step does what another does, without places. -/
structure Step.Unplaces (u t : Step) : Prop where
  session : u.session = t.session.unplaced
  result : u.result = t.result.mapError Problem.unplaced
  output : u.output = t.output

variable (s : Session)

theorem declare_unplaced (p : Prototype) :
    (s.unplaced.declare p.unplaced).Unplaces (s.declare p) := by
  have hdeclare : s.unplaced.context.declare p.unplaced = _ := s.context.declare_unplaced p
  unfold declare
  dsimp only
  rw [hdeclare]
  rcases s.context.declare p with e | ⟨sig, c⟩ <;> exact ⟨rfl, rfl, rfl⟩

theorem define_unplaced (d : Definition) :
    (s.unplaced.define d.unplaced).Unplaces (s.define d) := by
  have hdefine : s.unplaced.context.define d.unplaced = _ := s.context.define_unplaced d
  unfold define
  dsimp only
  rw [hdefine]
  rcases s.context.define d with e | ⟨r, c⟩ <;> exact ⟨rfl, rfl, rfl⟩

theorem dropAnonymous_unplaced (c : Context) :
    dropAnonymous c.unplaced = (dropAnonymous c).unplaced :=
  Context.forget_unplaced { c with program := (c.program.remove Prototype.anonymousName).2 } _

theorem evaluateAnonymous_mapError (p : Program) :
    (s.evaluateAnonymous p).1.mapError Problem.unplaced = (s.evaluateAnonymous p).1 := by
  unfold evaluateAnonymous
  rcases Machine.evaluate p s.settings.maxSteps {} Prototype.anonymousName [] with ⟨e | v, m⟩ <;> rfl

theorem express_unplaced (location : Option Location) (body : Expr) :
    (s.unplaced.express none body.unplaced).Unplaces (s.express location body) := by
  have hdefine : s.unplaced.context.define (Definition.anonymous none body.unplaced) = _ :=
    s.context.define_unplaced (Definition.anonymous location body)
  unfold express
  dsimp only
  rw [hdefine]
  rcases s.context.define (Definition.anonymous location body) with e | ⟨r, c⟩
  · exact ⟨rfl, rfl, rfl⟩
  · have hdrop := dropAnonymous_unplaced c
    by_cases hevaluate : s.settings.evaluate = true
    · have hevaluate' : s.unplaced.settings.evaluate = true := hevaluate
      refine ⟨?_, ?_, ?_⟩ <;>
        simp only [Context.unplacedResult, Except.map, mapError_ok, if_pos hevaluate,
          if_pos hevaluate']
      · exact congrArg (Session.mk s.settings) hdrop
      · exact (s.evaluateAnonymous_mapError c.program).symm
      · rfl
    · have hevaluate' : ¬ s.unplaced.settings.evaluate = true := hevaluate
      refine ⟨?_, ?_, ?_⟩ <;>
        simp only [Context.unplacedResult, Except.map, mapError_ok, if_neg hevaluate,
          if_neg hevaluate']
      exact congrArg (Session.mk s.settings) hdrop

theorem item_unplaced (i : Item) : (s.unplaced.item i.unplaced).Unplaces (s.item i) := by
  cases i with
  | declaration p => exact s.declare_unplaced p
  | definition d => exact s.define_unplaced d
  | expression location body => exact s.express_unplaced location body

theorem itemSummary_unplaced (i : Item) : itemSummary i.unplaced = itemSummary i := by
  cases i with
  | declaration p => rfl
  | definition d => rfl
  | expression location body => exact body.text_unplaced

/-! ## A compilation -/

/-- One compilation does what another does, without places; logs apart. -/
structure Unplaces (u t : Session × Report) : Prop where
  session : u.1 = t.1.unplaced
  items : u.2.items = t.2.items.map ItemReport.unplaced
  output : u.2.output = t.2.output

theorem reading_unplaced (index : Nat) (r : Item.Reading) :
    Unplaces (s.unplaced.reading index r.unplaced) (s.reading index r) := by
  cases hitem : r.item with
  | error e =>
    have hitem' : r.unplaced.item = .error e.unplaced := by
      rw [Item.Reading.unplaced, hitem]
      rfl
    have hfirst : r.unplaced.first = r.first.unplaced := Token.current_unplaced r.start
    simp only [reading, hitem, hitem', hfirst]
    exact ⟨rfl, rfl, rfl⟩
  | ok i =>
    have hitem' : r.unplaced.item = .ok i.unplaced := by
      rw [Item.Reading.unplaced, hitem]
      rfl
    have same := s.item_unplaced i
    simp only [reading, hitem, hitem']
    refine ⟨same.session, ?_, same.output⟩
    simp only [List.map_cons, List.map_nil, ItemReport.unplaced, same.result, itemSummary_unplaced]
    rfl

theorem readings_unplaced (index : Nat) (rs : List Item.Reading) :
    Unplaces (s.unplaced.readings index (rs.map Item.Reading.unplaced)) (s.readings index rs) := by
  induction rs generalizing s index with
  | nil => exact ⟨rfl, rfl, rfl⟩
  | cons r rs ih =>
    have first := s.reading_unplaced index r
    have rest := ih (s.reading index r).1 (index + 1)
    simp only [List.map_cons, readings]
    rw [first.session]
    refine ⟨rest.session, ?_, ?_⟩
    · simp only [Report.append, List.map_append, first.items, rest.items]
    · simp only [Report.append, first.output, rest.output]

theorem compileTokens_unplaced (ts : List Token) :
    Unplaces (s.unplaced.compileTokens (ts.map Token.unplaced)) (s.compileTokens ts) := by
  have same := s.readings_unplaced 0 (Item.readings s.dialect ts)
  rw [← Item.readings_unplaced] at same
  exact ⟨same.session, same.items, same.output⟩

/-! ## Sources that differ in their layout -/

/-- Tokens that differ at most in their places. -/
structure SameTokens (ts ts' : List Token) : Prop where
  length : ts.length = ts'.length
  agree : ∀ (i : Nat) (t t' : Token), ts[i]? = some t → ts'[i]? = some t' →
    t.kind = t'.kind ∧ t.value = t'.value ∧ t.text = t'.text

theorem SameTokens.map_unplaced {ts ts' : List Token} (h : SameTokens ts ts') :
    ts.map Token.unplaced = ts'.map Token.unplaced := by
  refine List.ext_getElem ?_ fun i hi hi' => ?_
  · rw [List.length_map, List.length_map, h.length]
  · rw [List.length_map] at hi hi'
    rw [List.getElem_map, List.getElem_map, Token.unplaced_eq_iff]
    exact h.agree i _ _ (List.getElem?_eq_getElem hi) (List.getElem?_eq_getElem hi')

/-- Reports of one item that differ at most in the places of the item and of the error. -/
structure SameReport (r r' : ItemReport) : Prop where
  index : r.index = r'.index
  summary : r.summary = r'.summary
  item : r.item.map Item.unplaced = r'.item.map Item.unplaced
  success : r.isOk = r'.isOk
  result : r.result.mapError Problem.unplaced = r'.result.mapError Problem.unplaced
  value : r.value? = r'.value?
  message : r.problem?.map (·.diagnostic.message) = r'.problem?.map (·.diagnostic.message)

theorem SameReport.of_unplaced {r r' : ItemReport} (h : r.unplaced = r'.unplaced) :
    SameReport r r' := by
  have hmessage (q : ItemReport) : q.problem?.map (·.diagnostic.message) =
      q.unplaced.problem?.map (·.diagnostic.message) := by
    rw [ItemReport.problem?_unplaced, Option.map_map]
    congr
    funext p
    rw [Function.comp_apply, Problem.diagnostic_unplaced]
    rfl
  have hindex : r.unplaced.index = r'.unplaced.index := congrArg ItemReport.index h
  have hsummary : r.unplaced.summary = r'.unplaced.summary := congrArg ItemReport.summary h
  have hitem : r.unplaced.item = r'.unplaced.item := congrArg ItemReport.item h
  have hresult : r.unplaced.result = r'.unplaced.result := congrArg ItemReport.result h
  have hsuccess := congrArg ItemReport.isOk h
  have hvalue := congrArg ItemReport.value? h
  rw [ItemReport.isOk_unplaced, ItemReport.isOk_unplaced] at hsuccess
  rw [ItemReport.value?_unplaced, ItemReport.value?_unplaced] at hvalue
  exact ⟨hindex, hsummary, hitem, hsuccess, hresult, hvalue, by rw [hmessage r, hmessage r', h]⟩

/-- The layout of a source does not matter: tokens that differ at most in their places compile, from any
session, to the same program, the same prototypes up to their places, the same output, and reports
that differ, item by item, at most in places. -/
theorem compileTokens_layout {ts ts' : List Token} (h : SameTokens ts ts') :
    (s.compileTokens ts).1.settings = (s.compileTokens ts').1.settings ∧
    (s.compileTokens ts).1.context.program = (s.compileTokens ts').1.context.program ∧
    (∀ name : String,
      ((s.compileTokens ts).1.context.prototypes[name]?).map Prototype.unplaced =
        ((s.compileTokens ts').1.context.prototypes[name]?).map Prototype.unplaced) ∧
    (s.compileTokens ts).2.output = (s.compileTokens ts').2.output ∧
    (s.compileTokens ts).2.items.length = (s.compileTokens ts').2.items.length ∧
    ∀ (i : Nat) (r r' : ItemReport), (s.compileTokens ts).2.items[i]? = some r →
      (s.compileTokens ts').2.items[i]? = some r' → SameReport r r' := by
  have left := s.compileTokens_unplaced ts
  have right := s.compileTokens_unplaced ts'
  rw [h.map_unplaced] at left
  have hsession := left.session.symm.trans right.session
  have hsettings : (s.compileTokens ts).1.unplaced.settings =
      (s.compileTokens ts').1.unplaced.settings :=
    congrArg Session.settings hsession
  have hprogram : (s.compileTokens ts).1.unplaced.context.program =
      (s.compileTokens ts').1.unplaced.context.program :=
    congrArg (fun s => s.context.program) hsession
  have hitems := left.items.symm.trans right.items
  refine ⟨hsettings, hprogram, fun name => ?_,
    left.output.symm.trans right.output, ?_, fun i r r' hr hr' => ?_⟩
  · rw [← Context.getElem?_unplaced, ← Context.getElem?_unplaced]
    exact congrArg (fun s => s.context.prototypes[name]?) hsession
  · simpa only [List.length_map] using congrArg List.length hitems
  · have hi := congrArg (fun items => items[i]?) hitems
    simp only [List.getElem?_map, hr, hr', Option.map_some, Option.some.injEq] at hi
    exact .of_unplaced hi

/-- The tokens of a declaration and of a call of an unknown function. -/
def declareThenFail : List Token :=
  [{ kind := .kwExtern }, { kind := .identifier, text := some "f" }, { kind := .leftParen },
    { kind := .rightParen }, { kind := .identifier, text := some "g" }, { kind := .leftParen },
    { kind := .rightParen }]

/-- Tokens that all start a line. -/
def onLine (line : Nat) (ts : List Token) : List Token :=
  ts.map fun t => { t with location := some ⟨"source", line, 1⟩ }

/-- Where a compilation says that its items fail. -/
def failurePlaces (r : Report) : List (Option Location) :=
  r.items.filterMap fun i => i.problem?.map (·.diagnostic.location)

theorem compileTokens_layout_lines : SameTokens (onLine 1 declareThenFail) (onLine 2 declareThenFail) ∧
    failurePlaces ((start plainSettings).compileTokens (onLine 1 declareThenFail)).2 =
      [some ⟨"source", 1, 1⟩] ∧
    failurePlaces ((start plainSettings).compileTokens (onLine 2 declareThenFail)).2 =
      [some ⟨"source", 2, 1⟩] ∧
    ((start plainSettings).compileTokens (onLine 1 declareThenFail)).1.context.program =
      ((start plainSettings).compileTokens (onLine 2 declareThenFail)).1.context.program ∧
    ((start plainSettings).compileTokens (onLine 1 declareThenFail)).2.items.length =
      ((start plainSettings).compileTokens (onLine 2 declareThenFail)).2.items.length := by
  have hsame : SameTokens (onLine 1 declareThenFail) (onLine 2 declareThenFail) := by
    refine ⟨rfl, fun i t t' ht ht' => ?_⟩
    simp only [onLine, List.getElem?_map, Option.map_eq_some_iff] at ht ht'
    obtain ⟨u, hu, rfl⟩ := ht
    obtain ⟨u', hu', rfl⟩ := ht'
    cases hu.symm.trans hu'
    exact ⟨rfl, rfl, rfl⟩
  obtain ⟨-, hprogram, -, -, hlength, -⟩ := (start plainSettings).compileTokens_layout hsame
  exact ⟨hsame, by decide +kernel, by decide +kernel, hprogram, hlength⟩

end Session

end PoseLang
