import Mathlib.Data.List.Forall2
import PoseLang.Proofs.Session.Reported

/-!
# Building and running compile the same program

Whether expressions are run, and how long, is up to the settings. An expression is run behind its
lowering and before it is taken out of the program, so a run could in principle be seen by what follows
it. Sessions that start alike and differ in these settings only stay twins (`Session.Twins`): item by
item they have one context, and they report the same of each item up to what comes of running an
expression that both have lowered (`ItemReport.Agree`).
-/

namespace PoseLang

open Prototype (anonymousName)

/-- Whether an item is an expression. -/
def Item.IsExpression (i : Item) : Prop :=
  ∃ location body, i = .expression location body

/-- Reports on one item under two settings. They are the same, unless the item is an expression that
both have lowered, to the same routine of the same program. -/
inductive ItemReport.Agree (s s' : Settings) : ItemReport → ItemReport → Prop
  | unread {index : Nat} {summary : String} {e : ParseError} :
    Agree s s' ⟨index, summary, none, .error (.parse e)⟩ ⟨index, summary, none, .error (.parse e)⟩
  | named {index : Nat} {summary : String} {i : Item} {result : Except Problem Outcome}
    (hi : ¬ i.IsExpression) :
    Agree s s' ⟨index, summary, some i, result⟩ ⟨index, summary, some i, result⟩
  | refused {index : Nat} {summary : String} {i : Item} {e : LowerError} (hi : i.IsExpression) :
    Agree s s' ⟨index, summary, some i, .error (.lower e)⟩
      ⟨index, summary, some i, .error (.lower e)⟩
  | lowered {index : Nat} {summary : String} {i : Item} {p : Program} {routine : Routine}
    (hi : i.IsExpression) (here : p.get? anonymousName = some routine) :
    Agree s s' ⟨index, summary, some i, s.outcome p routine⟩
      ⟨index, summary, some i, s'.outcome p routine⟩

namespace ItemReport.Agree

variable {s s' : Settings} {r r' : ItemReport}

/-- The two reports are on the same item. -/
theorem item_eq (h : Agree s s' r r') :
    (r.index, r.summary, r.item) = (r'.index, r'.summary, r'.item) := by
  cases h <;> rfl

theorem items_eq {rs rs' : List ItemReport} (h : List.Forall₂ (Agree s s') rs rs') :
    rs.map (fun r => (r.index, r.summary, r.item)) =
      rs'.map (fun r => (r.index, r.summary, r.item)) := by
  induction h with
  | nil => rfl
  | cons first _ ih => rw [List.map_cons, List.map_cons, first.item_eq, ih]

/-- An item that fails without being run fails in any case. -/
theorem fails (h : Agree s s' r r') (hbuild : s.evaluate = false) (hfails : r.isOk = false) :
    r'.isOk = false := by
  cases h with
  | unread => rfl
  | named hi => exact hfails
  | refused hi => rfl
  | @lowered index summary i p routine hi here =>
    have hlowered : s.outcome p routine = .ok (.lowered routine) := by simp [Settings.outcome, hbuild]
    rw [hlowered] at hfails
    cases hfails

end ItemReport.Agree

namespace Session

variable {settings settings' : Settings} {s s' : Session}

/-- Sessions of two settings with one context. -/
structure Twins (settings settings' : Settings) (s s' : Session) : Prop where
  left : s.Settled settings
  right : s'.Settled settings'
  context_eq : s'.context = s.context

/-! ## One item -/

/-- An expression is lowered to the routine that has the reserved name. -/
theorem get?_anonymous {c c' : Context} {location : Option Location} {body : Expr} {r : Routine}
    (hc : c.Settled) (h : c.define (.anonymous location body) = .ok (r, c')) :
    c'.program.get? anonymousName = some r := by
  have hname := name_of_anonymous hc h
  obtain ⟨-, rfl, -⟩ := hc.define_ok h
  rw [Program.get?_define, if_pos hname]

/-- Dealing with one item leaves one context, and the two report the same of it. -/
theorem Twins.item (h : Twins settings settings' s s') (i : Item) (index : Nat) (summary : String) :
    (s'.item i).session.context = (s.item i).session.context ∧
      ItemReport.Agree settings settings' ⟨index, summary, some i, (s.item i).result⟩
        ⟨index, summary, some i, (s'.item i).result⟩ := by
  obtain ⟨source, hcompiled⟩ := h.left.compiled
  obtain ⟨after, result, hafter, hresult, dealt⟩ := s.dealt_item i
  obtain ⟨after', result', hafter', hresult', dealt'⟩ := s'.dealt_item i
  rw [hafter, hresult, hafter', hresult']
  cases dealt with
  | declared declares =>
    obtain ⟨rfl, rfl⟩ := (Dealt.declared (h.context_eq ▸ declares)).unique dealt'
    exact ⟨rfl, .named nofun⟩
  | undeclared fails =>
    obtain ⟨rfl, rfl⟩ := (Dealt.undeclared (h.context_eq ▸ fails)).unique dealt'
    exact ⟨h.context_eq, .named nofun⟩
  | defined defines =>
    obtain ⟨rfl, rfl⟩ := (Dealt.defined (h.context_eq ▸ defines)).unique dealt'
    exact ⟨rfl, .named nofun⟩
  | undefined fails =>
    obtain ⟨rfl, rfl⟩ := (Dealt.undefined (h.context_eq ▸ fails)).unique dealt'
    exact ⟨h.context_eq, .named nofun⟩
  | unexpressed fails =>
    obtain ⟨rfl, rfl⟩ := (Dealt.unexpressed (h.context_eq ▸ fails)).unique dealt'
    exact ⟨h.context_eq, .refused ⟨_, _, rfl⟩⟩
  | @expressed location body r c defines =>
    obtain ⟨rfl, rfl⟩ := (Dealt.expressed (h.context_eq ▸ defines)).unique dealt'
    refine ⟨rfl, ?_⟩
    rw [h.left.settings_eq, h.right.settings_eq]
    exact .lowered ⟨_, _, rfl⟩ (get?_anonymous hcompiled.settled defines)

theorem Twins.reading {d : Dialect} {ts : List Token} {r : Item.Reading}
    (h : Twins settings settings' s s') (hr : r ∈ Item.readings d ts) (index : Nat) :
    Twins settings settings' (s.reading index r).1 (s'.reading index r).1 ∧
      List.Forall₂ (ItemReport.Agree settings settings') (s.reading index r).2.items
        (s'.reading index r).2.items := by
  have left := h.left.reading hr index
  have right := h.right.reading hr index
  cases hitem : r.item with
  | error e =>
    obtain ⟨hsession, hitems, -⟩ := reading_of_error (s := s) hitem index
    obtain ⟨hsession', hitems', -⟩ := reading_of_error (s := s') hitem index
    refine ⟨⟨left, right, ?_⟩, ?_⟩
    · rw [hsession, hsession', h.context_eq]
    · rw [hitems, hitems']
      exact .cons .unread .nil
  | ok i =>
    obtain ⟨hsession, hitems, -⟩ := reading_of_ok (s := s) hitem index
    obtain ⟨hsession', hitems', -⟩ := reading_of_ok (s := s') hitem index
    obtain ⟨hcontext, hagree⟩ := h.item i index (itemSummary i)
    refine ⟨⟨left, right, ?_⟩, ?_⟩
    · rw [hsession, hsession', hcontext]
    · rw [hitems, hitems']
      exact .cons hagree .nil

/-! ## One item after another -/

theorem Twins.readings {d : Dialect} {ts : List Token} {rs : List Item.Reading}
    (h : Twins settings settings' s s') (hrs : ∀ r ∈ rs, r ∈ Item.readings d ts) (index : Nat) :
    Twins settings settings' (s.readings index rs).1 (s'.readings index rs).1 ∧
      List.Forall₂ (ItemReport.Agree settings settings') (s.readings index rs).2.items
        (s'.readings index rs).2.items := by
  induction rs generalizing s s' index with
  | nil => exact ⟨h, .nil⟩
  | cons r rs ih =>
    obtain ⟨twins, hfirst⟩ := h.reading (hrs r List.mem_cons_self) index
    obtain ⟨twins, hrest⟩ := ih twins (fun r' hr' => hrs r' (List.mem_cons_of_mem r hr')) (index + 1)
    exact ⟨twins, List.rel_append hfirst hrest⟩

theorem Twins.compileTokens (h : Twins settings settings' s s')
    (hdialect : settings'.dialect = settings.dialect) (ts : List Token) :
    Twins settings settings' (s.compileTokens ts).1 (s'.compileTokens ts).1 ∧
      List.Forall₂ (ItemReport.Agree settings settings') (s.compileTokens ts).2.items
        (s'.compileTokens ts).2.items := by
  have hreadings : Item.readings s'.dialect ts = Item.readings s.dialect ts := by
    rw [dialect, dialect, h.left.settings_eq, h.right.settings_eq, hdialect]
  have hmem : ∀ r ∈ Item.readings s.dialect ts, r ∈ Item.readings s.dialect ts := fun _ hr => hr
  have hreads := h.readings hmem 0
  unfold Session.compileTokens
  rw [hreadings]
  exact hreads

/-- Building and running compile the same program. Two settings that differ only in whether expressions
are run, and for how many steps, lead to the same routines and prototypes and to reports on the same
items. The reports agree on every item: only an expression that both have lowered has a result that
depends on these settings. So what fails when it is only built fails when it is run, too. -/
theorem compileTokens_same_program {evaluate : Bool} {maxSteps : Nat} {ts : List Token}
    {built run : Session} {report report' : Report}
    (hbuilt : (start settings).compileTokens ts = (built, report))
    (hrun : (start { settings with evaluate, maxSteps }).compileTokens ts = (run, report')) :
    run.context.program = built.context.program ∧
      run.context.prototypes = built.context.prototypes ∧
      report'.items.map (fun r => (r.index, r.summary, r.item)) =
        report.items.map (fun r => (r.index, r.summary, r.item)) ∧
      List.Forall₂ (ItemReport.Agree settings { settings with evaluate, maxSteps }) report.items
        report'.items ∧
      (settings.evaluate = false →
        List.Forall₂ (fun r r' => r.isOk = false → r'.isOk = false) report.items report'.items) := by
  have twins : Twins settings { settings with evaluate, maxSteps } (start settings)
      (start { settings with evaluate, maxSteps }) :=
    ⟨settled_start _, settled_start _, rfl⟩
  obtain ⟨⟨-, -, hcontext⟩, hagree⟩ := twins.compileTokens rfl ts
  rw [hbuilt, hrun] at hcontext hagree
  refine ⟨by rw [hcontext], by rw [hcontext], (ItemReport.Agree.items_eq hagree).symm, hagree, fun hbuild => ?_⟩
  exact hagree.imp fun _ _ h => h.fails hbuild

/-- Settings under which nothing is run. -/
def buildSettings : Settings :=
  { plainSettings with evaluate := false }

theorem compileTokens_same_program_call : ∃ built run report report',
    (start buildSettings).compileTokens declareAndCallTwice = (built, report) ∧
      (start { buildSettings with evaluate := true, maxSteps := 5 }).compileTokens
        declareAndCallTwice = (run, report') ∧
      report.failures.length = 1 ∧ report'.failures.length = 2 ∧
      run.context.program = built.context.program ∧ run.context.program.names = ["f"] ∧
      buildSettings.evaluate = false ∧
      List.Forall₂ (fun r r' => r.isOk = false → r'.isOk = false) report.items report'.items := by
  have hnames : ((start { buildSettings with evaluate := true, maxSteps := 5 }).compileTokens
      declareAndCallTwice).1.context.program.names = ["f"] := by decide +kernel
  obtain ⟨hprogram, -, -, -, hfails⟩ := compileTokens_same_program
    (Prod.eta ((start buildSettings).compileTokens declareAndCallTwice)).symm
    (Prod.eta ((start { buildSettings with evaluate := true, maxSteps := 5 }).compileTokens
      declareAndCallTwice)).symm
  exact ⟨_, _, _, _, (Prod.eta _).symm, (Prod.eta _).symm, by decide +kernel, by decide +kernel,
    hprogram, hnames, rfl, hfails rfl⟩

end Session

end PoseLang
