import PoseLang.Proofs.Lowering.Failures
import PoseLang.Proofs.Meaning.Filling
import PoseLang.Proofs.Session.Reached

/-!
# Records in sessions

A session reads its items with the records that its program has. So reading and lowering agree on
records: what has been read is never refused for storage that cannot be used or for a routine that has a
flaw. An expression that is a construction evaluates to the record with the values that its run computed
for the fields.
-/

namespace PoseLang

open Prototype (anonymousName)

namespace Settings

variable {s : Settings} {p : Program} {r : Routine}

theorem outcome_ne_lower (e : LowerError) : s.outcome p r ≠ .error (.lower e) := by
  intro h
  unfold outcome at h
  split at h
  · cases hrun : (Machine.evaluate p s.maxSteps {} anonymousName []).1 with
    | ok v => rw [hrun] at h; cases h
    | error err => rw [hrun] at h; cases h
  · cases h

theorem evaluate_of_outcome {v : Datum} (h : s.outcome p r = .ok (.evaluated v)) :
    ∃ m, Machine.evaluate p s.maxSteps {} anonymousName [] = (.ok v, m) := by
  unfold outcome at h
  split at h
  · cases hrun : (Machine.evaluate p s.maxSteps {} anonymousName []).1 with
    | ok w => rw [hrun] at h; cases h; exact ⟨_, Prod.ext hrun rfl⟩
    | error err => rw [hrun] at h; cases h
  · cases h

end Settings

theorem ItemReport.result_of_value? {r : ItemReport} {v : Datum} (h : r.value? = some v) :
    r.result = .ok (.evaluated v) := by
  unfold value? at h
  split at h
  next hr => cases h; exact hr
  next => cases h

namespace Session

variable {settings : Settings} {s : Session}

/-- An item whose parts fit the records is not refused for records or for the shape of its routine. -/
theorem Settled.item_blamesSource (h : s.Settled settings) {i : Item} {e : LowerError}
    (hfits : ∀ part ∈ i.parts, part.RecordFits settings.registry)
    (hfailed : (s.item i).result = .error (.lower e)) : e.cause.isInternal = false := by
  obtain ⟨source, hcompiled⟩ := h.compiled
  rw [← hcompiled.records_eq] at hfits
  obtain ⟨after, result, -, hresult, dealt⟩ := s.dealt_item i
  rw [hresult] at hfailed
  cases dealt with
  | declared declares => cases hfailed
  | defined defines => cases hfailed
  | expressed defines => exact absurd hfailed (Settings.outcome_ne_lower e)
  | undeclared fails => cases hfailed; exact Context.declare_blamesSource fails
  | undefined fails => cases hfailed; exact Context.define_blamesSource hfits fails
  | @unexpressed location body _ fails =>
    cases hfailed
    exact Context.define_blamesSource (d := .anonymous location body) hfits fails

/-- An expression that is a construction evaluates to the record that its run has filled. -/
theorem Settled.express_constructs (h : s.Settled settings) {location loc loc' : Option Location}
    {record : String} {layout : Layout} {fields : List (Nat × Expr)} {d : Datum}
    (hlayout : settings.registry[record]? = some layout)
    (hfields : fields.map Prod.fst = List.range layout.width)
    (hresult : (s.item (.expression location (.construct loc (.alloc loc' record) fields))).result =
      .ok (.evaluated d)) :
    ∃ routine c source ticks xs, s.context.define
        (.anonymous location (.construct loc (.alloc loc' record) fields)) = .ok (routine, c) ∧
      Compiled settings.registry source c ∧ d = .record record xs ∧
      Machine.Constructs c.program {} routine [] (source.run ticks ⟨anonymousName, 1, ∅⟩) record fields
        xs := by
  obtain ⟨source, hcompiled⟩ := h.compiled
  obtain ⟨after, result, -, hdealt, dealt⟩ :=
    s.dealt_item (.expression location (.construct loc (.alloc loc' record) fields))
  rw [hdealt] at hresult
  cases dealt with
  | unexpressed fails => cases hresult
  | @expressed _ _ routine c defines =>
    obtain ⟨m, hrun⟩ := Settings.evaluate_of_outcome hresult
    obtain ⟨xs, ticks, hd, hconstructs⟩ :=
      hcompiled.constructs defines rfl hlayout hfields (by rfl) hrun
    exact ⟨routine, c, _, ticks, xs, defines, hcompiled.define defines, hd, hconstructs⟩

/-- Reading and lowering agree on records. Between any two items of a compilation: the next item, if it
can be read, is not refused for storage or for a flaw of its routine; its constructions fill fresh storage
of records that the program has, one value for each field in order; and if it is a construction that
evaluates to something, then to the record with the values that its run computed for the fields. -/
theorem Reached.records_agree {ts : List Token} {done left : List Item.Reading} {r : Item.Reading}
    {i : Item} {before : Session} (h : Reached settings s)
    (hsplit : Item.readings s.dialect ts = done ++ r :: left)
    (hbefore : (s.readings 0 done).1 = before) (hitem : r.item = .ok i) :
    (∀ e, (before.item i).result = .error (.lower e) →
      (∀ problem, e.cause ≠ .allocationFailure problem) ∧
        ∀ name flaw, e.cause ≠ .invalidFunction name flaw) ∧
    (∀ part ∈ i.parts, part.RecordFits before.context.program.records) ∧
    ∀ location loc loc' record fields d,
      i = .expression location (.construct loc (.alloc loc' record) fields) →
      (before.item i).result = .ok (.evaluated d) →
      ∃ routine c source ticks xs, before.context.define
          (.anonymous location (.construct loc (.alloc loc' record) fields)) = .ok (routine, c) ∧
        Compiled settings.registry source c ∧ d = .record record xs ∧
        Machine.Constructs c.program {} routine [] (source.run ticks ⟨anonymousName, 1, ∅⟩) record
          fields xs := by
  have hsettled : before.Settled settings := hbefore ▸ h.settled_between hsplit
  obtain ⟨source, hcompiled⟩ := hsettled.compiled
  have hmem : r ∈ Item.readings s.dialect ts := hsplit ▸ by simp
  obtain ⟨rest, hparse⟩ := Item.parse_of_mem_readings hmem
  rw [hitem] at hparse
  have hfits : ∀ part ∈ i.parts, part.RecordFits settings.registry := by
    have hread := Item.recordFits_of_parse hparse
    rwa [dialect, h.settled.settings_eq] at hread
  refine ⟨fun e hfailed => ?_, hcompiled.records_eq.symm ▸ hfits, ?_⟩
  · have hcause := hsettled.item_blamesSource hfits hfailed
    refine ⟨fun problem heq => ?_, fun name flaw heq => ?_⟩
    · rw [heq] at hcause
      cases hcause
    · rw [heq] at hcause
      cases hcause
  · rintro location loc loc' record fields d rfl hresult
    obtain ⟨loc₁, record₁, layout, hstorage, hlayout, hfields⟩ :=
      hfits (.construct loc (.alloc loc' record) fields) (by simp [Item.parts, Expr.parts])
    cases hstorage
    exact hsettled.express_constructs hlayout hfields hresult

/-- The tokens of a construction in which an argument makes other records on its way. -/
def nestedRecords : List Token :=
  let i : Token := { kind := .identifier, text := some "i" }
  let pose : List Token := [{ kind := .identifier, text := some "Pose2D" }, { kind := .leftParen }]
  pose ++ [{ kind := .number, value := some 1 }, { kind := .comma }, { kind := .kwFor }, i,
    { kind := .equal }, { kind := .number, value := some 2 }, { kind := .comma },
    { kind := .number, value := some 0 }, { kind := .kwIn }] ++ pose ++
    [i, { kind := .comma }, i, { kind := .comma }, i, { kind := .rightParen }, { kind := .comma },
      { kind := .number, value := some 3 }, { kind := .rightParen }]

theorem Reached.records_agree_nested : ∃ r location loc loc' record fields d routine c source ticks xs,
    Item.readings (Session.start .standard).dialect nestedRecords = [r] ∧
      r.item = .ok (.expression location (.construct loc (.alloc loc' record) fields)) ∧
      ((Session.start .standard).item (.expression location
        (.construct loc (.alloc loc' record) fields))).result = .ok (.evaluated d) ∧
      d.text = "Pose2D \x7b 1, 0, 3 \x7d" ∧ d = .record record xs ∧
      Compiled Settings.standard.registry source c ∧
      Machine.Constructs c.program {} routine [] (source.run ticks ⟨anonymousName, 1, ∅⟩) record fields
        xs := by
  have hlength : (Item.readings (Session.start .standard).dialect nestedRecords).length = 1 := by
    decide +kernel
  have hall : (Item.readings (Session.start .standard).dialect nestedRecords).all (fun reading =>
      reading.expression?.any fun e => e.2.form = .construct ∧
        (ItemReport.value? ⟨0, "", none,
          ((Session.start .standard).item (.expression e.1 e.2)).result⟩).any fun d => d.text =
            "Pose2D \x7b 1, 0, 3 \x7d") = true := by decide +kernel
  obtain ⟨r, hreading⟩ := List.length_eq_one_iff.mp hlength
  have hsplit : Item.readings (Session.start .standard).dialect nestedRecords = [] ++ [r] := hreading
  obtain ⟨⟨location, body⟩, hexpression, hshown⟩ := (Option.any_eq_true _ _).mp
    (List.all_eq_true.mp hall r (hreading ▸ List.mem_cons_self))
  obtain ⟨hform, hshown⟩ := of_decide_eq_true hshown
  obtain ⟨d, hvalue, htext⟩ := (Option.any_eq_true _ _).mp hshown
  have hitem := Item.Reading.item_of_expression? hexpression
  have hresult := ItemReport.result_of_value? hvalue
  obtain ⟨-, hparts, hconstructs⟩ := Reached.start.records_agree hsplit rfl hitem
  cases body with
  | construct loc destination fields =>
    obtain ⟨loc', record, -, rfl, -, -⟩ :=
      hparts (.construct loc destination fields) (by simp [Item.parts, Expr.parts])
    obtain ⟨routine, c, source, ticks, xs, -, hcompiled, hd, hrun⟩ :=
      hconstructs location loc loc' record fields d rfl hresult
    exact ⟨r, location, loc, loc', record, fields, d, routine, c, source, ticks, xs, hreading, hitem,
      hresult, of_decide_eq_true htext, hd, hcompiled, hrun⟩
  | _ => cases hform

end Session

end PoseLang
