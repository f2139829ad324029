import PoseLang.Proofs.Item.Reading
import PoseLang.Proofs.Meaning.Sources
import PoseLang.Session.Basic

/-!
# Sessions that can be reached

What dealing with one item can lead to is said once (`Session.Dealt`), and so is what it preserves. A
session is reached from its start by compilations of one list of tokens after another
(`Session.Reached`). What holds all along, between the items of a compilation too, is that its context
is that of a compiled source and that the reserved name is free (`Session.Settled`). So an expression
is compiled into a program that does not have it yet, and taking it out again gives the program back:
an item that fails, and every expression, leaves the session as it was.
-/

namespace PoseLang

open Prototype (anonymousName)

/-- What comes of an expression that is lowered to a routine of a program: the result of its run, if the
settings say that it is run, and otherwise the routine. -/
def Settings.outcome (s : Settings) (p : Program) (routine : Routine) : Except Problem Outcome :=
  if s.evaluate then
    ((Machine.evaluate p s.maxSteps {} anonymousName []).1.map .evaluated).mapError .run
  else .ok (.lowered routine)

namespace Session

/-- What dealing with an item can lead to: the session behind it, and the result. -/
inductive Dealt (s : Session) : Item → Session → Except Problem Outcome → Prop
  | declared {p : Prototype} {sig : Signature} {c : Context}
    (declares : s.context.declare p = .ok (sig, c)) :
    Dealt s (.declaration p) { s with context := c } (.ok (.declared sig.name))
  | undeclared {p : Prototype} {e : LowerError} (fails : s.context.declare p = .error e) :
    Dealt s (.declaration p) s (.error (.lower e))
  | defined {d : Definition} {r : Routine} {c : Context} (defines : s.context.define d = .ok (r, c)) :
    Dealt s (.definition d) { s with context := c } (.ok (.defined r.name))
  | undefined {d : Definition} {e : LowerError} (fails : s.context.define d = .error e) :
    Dealt s (.definition d) s (.error (.lower e))
  | expressed {location : Option Location} {body : Expr} {r : Routine} {c : Context}
    (defines : s.context.define (.anonymous location body) = .ok (r, c)) :
    Dealt s (.expression location body) { s with context := dropAnonymous c }
      (s.settings.outcome c.program r)
  | unexpressed {location : Option Location} {body : Expr} {e : LowerError}
    (fails : s.context.define (.anonymous location body) = .error e) :
    Dealt s (.expression location body) s (.error (.lower e))

/-- The sessions after any number of compilations. -/
inductive Reached (settings : Settings) : Session → Prop
  | start : Reached settings (.start settings)
  | compile {s : Session} (before : Reached settings s) (ts : List Token) :
    Reached settings (s.compileTokens ts).1

/-- The context of a session is that of a compiled source, in which nothing has the reserved name. -/
structure Settled (settings : Settings) (s : Session) : Prop where
  settings_eq : s.settings = settings
  compiled : ∃ source, Compiled settings.registry source s.context
  unnamed : s.context.program.get? anonymousName = none

section

variable {settings : Settings} {s : Session} {location : Option Location} {body : Expr}

theorem settled_start (settings : Settings) : (start settings).Settled settings :=
  ⟨rfl, ⟨_, .start⟩, rfl⟩

/-! ## What one item can do -/

theorem evaluateAnonymous_fst (heval : s.settings.evaluate = true) (p : Program) (r : Routine) :
    (s.evaluateAnonymous p).1 = s.settings.outcome p r := by
  rw [Settings.outcome, if_pos heval]
  unfold evaluateAnonymous
  split
  next hrun => rw [hrun]; rfl
  next hrun => rw [hrun]; rfl

/-- Every item is dealt with in one of the ways of `Dealt`. -/
theorem dealt_item (s : Session) (i : Item) : ∃ after result, (s.item i).session = after ∧
    (s.item i).result = result ∧ Dealt s i after result := by
  refine ⟨_, _, rfl, rfl, ?_⟩
  cases i with
  | declaration p =>
    unfold Session.item Session.declare
    dsimp only
    split
    next hfails => exact .undeclared hfails
    next hdeclares => exact .declared hdeclares
  | definition d =>
    unfold Session.item Session.define
    dsimp only
    split
    next hfails => exact .undefined hfails
    next hdefines => exact .defined hdefines
  | expression location body =>
    unfold Session.item Session.express
    dsimp only
    split
    next hfails => exact .unexpressed hfails
    next r c hdefines =>
      have expressed := Dealt.expressed hdefines
      split
      next heval => exact evaluateAnonymous_fst heval c.program r ▸ expressed
      next hbuild => rwa [Settings.outcome, if_neg hbuild] at expressed

/-- An item is dealt with in one way only. -/
theorem Dealt.unique {i : Item} {after after' : Session} {result result' : Except Problem Outcome}
    (h : Dealt s i after result) (h' : Dealt s i after' result') :
    after' = after ∧ result' = result := by
  cases h <;> cases h' <;> simp_all

/-! ## Expressions -/

/-- An expression is lowered under the reserved name. -/
theorem name_of_anonymous {c c' : Context} {r : Routine} (hc : c.Settled)
    (h : c.define (.anonymous location body) = .ok (r, c')) : r.name = anonymousName :=
  (hc.routine_of_define h).1

/-- Taking out what an expression was compiled to gives the context back. -/
theorem dropAnonymous_define {c c' : Context} {r : Routine} (hc : c.Settled)
    (hfree : c.program.get? anonymousName = none)
    (h : c.define (.anonymous location body) = .ok (r, c')) : dropAnonymous c' = c := by
  have hname := name_of_anonymous hc h
  obtain ⟨-, rfl, -⟩ := hc.define_ok h
  have hprogram : ((c.program.define r).remove anonymousName).2 = c.program :=
    hname ▸ Program.remove_define (hname ▸ hfree)
  have hprototypes : (c.prototypes.insert anonymousName (.anonymous location)).erase anonymousName =
      c.prototypes := by
    apply Std.ExtTreeMap.ext_getElem?
    intro name
    rw [Std.ExtTreeMap.getElem?_erase, Std.ExtTreeMap.getElem?_insert]
    by_cases heq : anonymousName = name
    · simp [← heq, hc.known.mpr hfree]
    · simp [heq]
  change Context.mk _ _ = c
  cases c
  exact congr (congrArg Context.mk hprototypes) hprogram

/-- An expression leaves a session as it was, whatever becomes of it. -/
theorem Settled.express (h : s.Settled settings) : (s.express location body).session = s := by
  obtain ⟨source, hcompiled⟩ := h.compiled
  obtain ⟨after, result, hafter, -, dealt⟩ := s.dealt_item (.expression location body)
  refine hafter.trans ?_
  cases dealt with
  | expressed defines => rw [dropAnonymous_define hcompiled.settled h.unnamed defines]
  | unexpressed fails => rfl

/-! ## One item -/

theorem Settled.item {i : Item} (h : s.Settled settings)
    (hname : i.name = anonymousName → ∃ location body, i = .expression location body) :
    (s.item i).session.Settled settings := by
  obtain ⟨source, hcompiled⟩ := h.compiled
  obtain ⟨after, result, hafter, -, dealt⟩ := s.dealt_item i
  rw [hafter]
  cases dealt with
  | undeclared fails => exact h
  | undefined fails => exact h
  | unexpressed fails => exact h
  | expressed defines => rw [dropAnonymous_define hcompiled.settled h.unnamed defines]; exact h
  | @declared p sig c declares =>
    refine ⟨h.settings_eq, ⟨_, .declare hcompiled declares⟩, ?_⟩
    obtain ⟨-, rfl⟩ := Context.declare_ok declares
    rw [Program.get?_declare, if_neg]
    · exact h.unnamed
    · rintro ⟨hp, -⟩
      obtain ⟨_, _, hi⟩ := hname hp
      cases hi
  | @defined d r c defines =>
    refine ⟨h.settings_eq, ⟨_, .define hcompiled defines⟩, ?_⟩
    obtain ⟨-, rfl, b, result, -, rfl, -⟩ := hcompiled.settled.define_ok defines
    rw [Program.get?_define, if_neg]
    · exact h.unnamed
    · intro hd
      obtain ⟨_, _, hi⟩ := hname hd
      cases hi

theorem Settled.reading {d : Dialect} {ts : List Token} {r : Item.Reading} (h : s.Settled settings)
    (hr : r ∈ Item.readings d ts) (index : Nat) : (s.reading index r).1.Settled settings := by
  obtain ⟨rest, hparse⟩ := Item.parse_of_mem_readings hr
  unfold Session.reading
  split
  · exact h
  next i hi =>
    rw [hi] at hparse
    exact h.item (Item.parse_reserved hparse)

/-! ## One item after another -/

theorem Settled.readings {d : Dialect} {ts : List Token} {rs : List Item.Reading}
    (h : s.Settled settings) (hrs : ∀ r ∈ rs, r ∈ Item.readings d ts) (index : Nat) :
    (s.readings index rs).1.Settled settings := by
  induction rs generalizing s index with
  | nil => exact h
  | cons r rs ih =>
    refine ih (h.reading (hrs r List.mem_cons_self) index) (fun r' hr' => ?_) (index + 1)
    exact hrs r' (List.mem_cons_of_mem r hr')

theorem Reached.settled (h : Reached settings s) : s.Settled settings := by
  induction h with
  | start => exact settled_start settings
  | compile before ts ih => exact ih.readings (fun _ hr => hr) 0

/-- Between two items of a compilation the session is settled, too. -/
theorem Reached.settled_between {ts : List Token} {done left : List Item.Reading}
    (h : Reached settings s) (hsplit : Item.readings s.dialect ts = done ++ left) :
    (s.readings 0 done).1.Settled settings :=
  h.settled.readings (fun _ hr => hsplit ▸ List.mem_append_left left hr) 0

/-! ## Items that leave no trace -/

theorem Settled.item_failed {i : Item} {p : Problem} (h : s.Settled settings)
    (hfailed : (s.item i).result = .error p) : (s.item i).session = s := by
  obtain ⟨after, result, hafter, hresult, dealt⟩ := s.dealt_item i
  rw [hresult] at hfailed
  cases dealt with
  | declared declares => cases hfailed
  | defined defines => cases hfailed
  | expressed defines => exact h.express
  | undeclared fails => exact hafter
  | undefined fails => exact hafter
  | unexpressed fails => exact hafter

theorem reading_of_ok {r : Item.Reading} {i : Item} (hi : r.item = .ok i) (index : Nat) :
    (s.reading index r).1 = (s.item i).session ∧
      (s.reading index r).2.items = [⟨index, itemSummary i, some i, (s.item i).result⟩] ∧
      (s.reading index r).2.output = (s.item i).output := by
  unfold Session.reading
  rw [hi]
  exact ⟨rfl, rfl, rfl⟩

theorem reading_of_error {r : Item.Reading} {e : ParseError} (he : r.item = .error e) (index : Nat) :
    (s.reading index r).1 = s ∧
      (s.reading index r).2.items = [⟨index, firstSummary r.first, none, .error (.parse e)⟩] ∧
      (s.reading index r).2.output = "" := by
  unfold Session.reading
  rw [he]
  exact ⟨rfl, rfl, rfl⟩

theorem Settled.reading_failed {r : Item.Reading} (h : s.Settled settings) (index : Nat)
    (hfailed : (s.reading index r).2.hasFailures = true) : (s.reading index r).1 = s := by
  cases hi : r.item with
  | error e => exact (reading_of_error hi index).1
  | ok i =>
    obtain ⟨hsession, hitems, -⟩ := reading_of_ok (s := s) hi index
    cases hresult : (s.item i).result with
    | error p => exact hsession.trans (h.item_failed hresult)
    | ok outcome =>
      -- A report of one item that was dealt with has no failures.
      simp [Report.hasFailures, Report.failures, hitems, hresult, ItemReport.isOk] at hfailed

/-- An item that fails, be it for its text, its meaning or its run, leaves a session as it was, and so
does every expression. Nothing is ever left under the name that expressions are compiled under. -/
theorem Reached.leaves_no_trace {ts : List Token} {done left : List Item.Reading} {r : Item.Reading}
    {before after : Session} {report : Report} (h : Reached settings s)
    (hsplit : Item.readings s.dialect ts = done ++ r :: left)
    (hbefore : (s.readings 0 done).1 = before)
    (hreading : before.reading done.length r = (after, report))
    (hitem : report.hasFailures = true ∨ ∃ location body, r.item = .ok (.expression location body)) :
    after = before ∧ after.context.prototypes[anonymousName]? = none ∧
      anonymousName ∉ after.context.program.names := by
  have hsettled : before.Settled settings := hbefore ▸ h.settled_between hsplit
  have hsame : (before.reading done.length r).1 = before := by
    rcases hitem with hfailed | ⟨location, body, hr⟩
    · exact hsettled.reading_failed _ (by rw [hreading]; exact hfailed)
    · exact (reading_of_ok hr _).1.trans hsettled.express
  rw [hreading] at hsame
  obtain ⟨source, hcompiled⟩ := hsettled.compiled
  subst hsame
  exact ⟨rfl, hcompiled.settled.known.mpr hsettled.unnamed, Program.notMem_names hsettled.unnamed⟩

end

/-- Settings without operators and records, and with a small budget. -/
def plainSettings : Settings where
  operators := ∅
  records := []
  maxSteps := 9
  evaluate := true

/-- The tokens of a call without arguments. -/
def callTokens : List Token :=
  [{ kind := .identifier, text := some "f" }, { kind := .leftParen }, { kind := .rightParen }]

/-- A session in which a function is declared and not implemented anywhere. -/
def declaredSession : Session :=
  ((start plainSettings).compileTokens ({ kind := .kwExtern } :: callTokens)).1

theorem Reached.leaves_no_trace_call : ∃ r after report,
    Item.readings declaredSession.dialect callTokens = [r] ∧
      declaredSession.reading 0 r = (after, report) ∧ report.hasFailures = true ∧
      after.context.program.names = ["f"] ∧ after = declaredSession := by
  have hnames : declaredSession.context.program.names = ["f"] := by decide +kernel
  have hlength : (Item.readings declaredSession.dialect callTokens).length = 1 := by decide +kernel
  have hall : (Item.readings declaredSession.dialect callTokens).all
      (fun r => (declaredSession.reading 0 r).2.hasFailures) = true := by decide +kernel
  obtain ⟨r, hr⟩ := List.length_eq_one_iff.mp hlength
  have hfails := List.all_eq_true.mp hall r (hr ▸ List.mem_cons_self)
  have hreached : Reached plainSettings declaredSession := .compile .start _
  have hsplit : Item.readings declaredSession.dialect callTokens = [] ++ r :: [] := hr
  have hbefore : (declaredSession.readings 0 []).1 = declaredSession := rfl
  have hsame : (declaredSession.reading 0 r).1 = declaredSession :=
    (hreached.leaves_no_trace hsplit hbefore (Prod.eta _).symm (.inl hfails)).1
  exact ⟨r, _, _, hr, (Prod.eta _).symm, hfails, by rw [hsame]; exact hnames, hsame⟩

end Session

end PoseLang
