import PoseLang.Proofs.Item.Agreement
import PoseLang.Proofs.Item.Recovery
import PoseLang.Proofs.Session.Reached

/-!
# What a compilation reports

A compilation reports one item for each reading, in order and numbered: the item that was read, or the
syntax error where none could be read (`Reported`). No item fails for its syntax once it has been read.
So whatever becomes of the items later, a compilation reports the items that the strict reading takes,
and behind them the error that this one stops at.
-/

namespace PoseLang

namespace Session

variable {s : Session}

/-- The reports on some readings, numbered from some number on. -/
inductive Reported : Nat → List Item.Reading → List ItemReport → Prop
  | nil {index : Nat} : Reported index [] []
  | read {index : Nat} {r : Item.Reading} {rs : List Item.Reading} {reports : List ItemReport}
    {i : Item} {result : Except Problem Outcome} (hi : r.item = .ok i)
    (hresult : ∀ e, result ≠ .error (.parse e)) (rest : Reported (index + 1) rs reports) :
    Reported index (r :: rs) (⟨index, itemSummary i, some i, result⟩ :: reports)
  | failed {index : Nat} {r : Item.Reading} {rs : List Item.Reading} {reports : List ItemReport}
    {e : ParseError} (he : r.item = .error e) (rest : Reported (index + 1) rs reports) :
    Reported index (r :: rs) (⟨index, firstSummary r.first, none, .error (.parse e)⟩ :: reports)

/-- An item that has been read does not fail for its syntax. -/
theorem item_result_ne (s : Session) (i : Item) (e : ParseError) :
    (s.item i).result ≠ .error (.parse e) := by
  obtain ⟨after, result, -, hresult, dealt⟩ := s.dealt_item i
  rw [hresult]
  intro hparse
  cases dealt with
  | declared declares => cases hparse
  | undeclared fails => cases hparse
  | defined defines => cases hparse
  | undefined fails => cases hparse
  | unexpressed fails => cases hparse
  | @expressed location body r c defines =>
    unfold Settings.outcome at hparse
    split at hparse
    · -- The error of a run is a fault of the machine.
      cases hrun : (Machine.evaluate c.program s.settings.maxSteps {} Prototype.anonymousName []).1 with
      | ok v => rw [hrun] at hparse; cases hparse
      | error fault => rw [hrun] at hparse; cases hparse
    · cases hparse

theorem reported_readings (s : Session) (index : Nat) (rs : List Item.Reading) :
    Reported index rs (s.readings index rs).2.items := by
  induction rs generalizing s index with
  | nil => exact .nil
  | cons r rs ih =>
    have hrest := ih (s.reading index r).1 (index + 1)
    simp only [readings, Report.append]
    cases hr : r.item with
    | ok i =>
      rw [(reading_of_ok hr index).2.1]
      exact .read hr (item_result_ne s i) hrest
    | error e =>
      rw [(reading_of_error hr index).2.1]
      exact .failed hr hrest

theorem Reported.length_eq {index : Nat} {rs : List Item.Reading} {reports : List ItemReport}
    (h : Reported index rs reports) : reports.length = rs.length := by
  induction h with
  | nil => rfl
  | read _ _ _ ih => exact congrArg Nat.succ ih
  | failed _ _ ih => exact congrArg Nat.succ ih

theorem reported_compileTokens (s : Session) (ts : List Token) :
    Reported 0 (Item.readings s.dialect ts) (s.compileTokens ts).2.items :=
  reported_readings s 0 (Item.readings s.dialect ts)

/-- Where all readings are items, the reports are on these items. -/
theorem Reported.of_ok {index : Nat} {rs : List Item.Reading} {reports : List ItemReport}
    {items : List Item} (h : Reported index rs reports)
    (hitems : rs.map Item.Reading.item = items.map .ok) :
    reports.map ItemReport.item = items.map some ∧
      ∀ r ∈ reports, ∀ e, r.result ≠ .error (.parse e) := by
  induction h generalizing items with
  | nil =>
    cases items with
    | nil => exact ⟨rfl, by simp⟩
    | cons => cases hitems
  | @read index r rs reports i result hi hresult rest ih =>
    cases items with
    | nil => cases hitems
    | cons i' items =>
      obtain ⟨hfirst, hmore⟩ := List.cons.inj hitems
      cases hi.symm.trans hfirst
      obtain ⟨hsame, hresults⟩ := ih hmore
      refine ⟨by rw [List.map_cons, hsame, List.map_cons], ?_⟩
      intro r' hr'
      rcases List.mem_cons.mp hr' with rfl | hr'
      · exact hresult
      · exact hresults r' hr'
  | @failed index r rs reports e he rest ih =>
    cases items with
    | nil => cases hitems
    | cons i' items => cases he.symm.trans (List.cons.inj hitems).1

/-- The report on a reading that failed stands behind those on the readings in front of it. -/
theorem Reported.split {index : Nat} {before after : List Item.Reading} {r : Item.Reading}
    {reports : List ItemReport} {e : ParseError} (h : Reported index (before ++ r :: after) reports)
    (hr : r.item = .error e) : ∃ before' failed after', reports = before' ++ failed :: after' ∧
      Reported index before before' ∧ failed.item = none ∧ failed.result = .error (.parse e) := by
  induction before generalizing index reports with
  | nil =>
    cases h with
    | read hi => cases hi.symm.trans hr
    | failed he rest =>
      cases he.symm.trans hr
      exact ⟨[], _, _, rfl, .nil, rfl, rfl⟩
  | cons first before ih =>
    cases h with
    | read hi hresult rest =>
      obtain ⟨before', failed, after', rfl, hbefore, hfailed⟩ := ih rest
      exact ⟨_ :: before', failed, after', rfl, .read hi hresult hbefore, hfailed⟩
    | failed he rest =>
      obtain ⟨before', failed, after', rfl, hbefore, hfailed⟩ := ih rest
      exact ⟨_ :: before', failed, after', rfl, .failed he hbefore, hfailed⟩

section

variable {ts : List Token}

theorem compileTokens_of_parseAll_ok {items : List Item}
    (h : Item.parseAll s.dialect ts = .ok items) :
    (s.compileTokens ts).2.items.map ItemReport.item = items.map some ∧
      ∀ r ∈ (s.compileTokens ts).2.items, ∀ e, r.result ≠ .error (.parse e) :=
  (reported_compileTokens s ts).of_ok (Item.readings_of_parseAll_ok ts items h)

theorem compileTokens_of_parseAll_error {e : ParseError}
    (h : Item.parseAll s.dialect ts = .error e) : ∃ items before failed after,
      Item.FailsBehind s.dialect ts items e ∧
        (s.compileTokens ts).2.items = before ++ failed :: after ∧
        before.map ItemReport.item = items.map some ∧
        (∀ r ∈ before, ∀ e, r.result ≠ .error (.parse e)) ∧
        failed.item = none ∧ failed.result = .error (.parse e) := by
  obtain ⟨items, before, r, after, hfails, hreadings, hitems, hr⟩ :=
    Item.readings_of_parseAll_error h
  have hreported := reported_compileTokens s ts
  rw [hreadings] at hreported
  obtain ⟨before', failed, after', hreports, hbefore, hitem, hresult⟩ := hreported.split hr
  obtain ⟨hsame, hresults⟩ := hbefore.of_ok hitems
  exact ⟨items, before', failed, after', hfails, hreports, hsame, hresults, hitem, hresult⟩

end

/-- The strict and the recovering reading agree. If all items can be read strictly, a compilation
reports them in order and none of them fails for its syntax. If the strict reading fails, the first
report without an item carries its error, and the reports in front of it are on the items that the
strict reading had taken. And if every report has an item, the strict reading succeeds with these. -/
theorem compileTokens_parseAll (s : Session) (ts : List Token) :
    (∀ items, Item.parseAll s.dialect ts = .ok items →
      (s.compileTokens ts).2.items.map ItemReport.item = items.map some ∧
        ∀ r ∈ (s.compileTokens ts).2.items, ∀ e, r.result ≠ .error (.parse e)) ∧
    (∀ e, Item.parseAll s.dialect ts = .error e → ∃ items before failed after,
      Item.FailsBehind s.dialect ts items e ∧
        (s.compileTokens ts).2.items = before ++ failed :: after ∧
        before.map ItemReport.item = items.map some ∧
        (∀ r ∈ before, ∀ e, r.result ≠ .error (.parse e)) ∧
        failed.item = none ∧ failed.result = .error (.parse e)) ∧
    ((∀ r ∈ (s.compileTokens ts).2.items, r.item ≠ none) → ∃ items,
      Item.parseAll s.dialect ts = .ok items ∧
        (s.compileTokens ts).2.items.map ItemReport.item = items.map some) := by
  refine ⟨fun items h => compileTokens_of_parseAll_ok h,
    fun e h => compileTokens_of_parseAll_error h, fun hall => ?_⟩
  cases hparse : Item.parseAll s.dialect ts with
  | ok items => exact ⟨items, rfl, (compileTokens_of_parseAll_ok hparse).1⟩
  | error e =>
    obtain ⟨_, before, failed, after, -, hreports, -, -, hitem, -⟩ :=
      compileTokens_of_parseAll_error hparse
    exact absurd hitem (hall failed (by simp [hreports]))

/-- The tokens of a declaration, and of a call that has to fail when it is run. -/
def declareAndCall : List Token :=
  { kind := .kwExtern } :: callTokens ++ callTokens

/-- The same tokens, and behind a comma another call. -/
def declareAndCallTwice : List Token :=
  declareAndCall ++ { kind := .comma } :: callTokens

theorem compileTokens_parseAll_call :
    (∃ items, Item.parseAll (start plainSettings).dialect declareAndCall = .ok items ∧
      items.length = 2 ∧ ((start plainSettings).compileTokens declareAndCall).2.hasFailures = true ∧
      ((start plainSettings).compileTokens declareAndCall).2.items.map ItemReport.item =
        items.map some) ∧
    ∃ e items before failed after,
      Item.parseAll (start plainSettings).dialect declareAndCallTwice = .error e ∧
      Item.FailsBehind (start plainSettings).dialect declareAndCallTwice items e ∧
      ((start plainSettings).compileTokens declareAndCallTwice).2.items = before ++ failed :: after ∧
      before.map ItemReport.item = items.map some ∧ failed.result = .error (.parse e) := by
  constructor
  · obtain ⟨hok, -, hall⟩ := compileTokens_parseAll (start plainSettings) declareAndCall
    have hsome : ((start plainSettings).compileTokens declareAndCall).2.items.all
        (·.item.isSome) = true := by decide +kernel
    have hlength : ((start plainSettings).compileTokens declareAndCall).2.items.length = 2 := by
      decide +kernel
    obtain ⟨items, hparse, -⟩ :=
      hall fun r hr => Option.isSome_iff_ne_none.mp (List.all_eq_true.mp hsome r hr)
    have hsame := (hok items hparse).1
    refine ⟨items, hparse, ?_, by decide +kernel, hsame⟩
    rw [← hlength]
    simpa using (congrArg List.length hsame).symm
  · obtain ⟨-, herror, -⟩ := compileTokens_parseAll (start plainSettings) declareAndCallTwice
    have hfails : (Item.parseAll (start plainSettings).dialect declareAndCallTwice).isOk = false := by
      decide +kernel
    cases hparse : Item.parseAll (start plainSettings).dialect declareAndCallTwice with
    | ok items =>
      rw [hparse] at hfails
      cases hfails
    | error e =>
      obtain ⟨items, before, failed, after, hbehind, hreports, hsame, -, -, hresult⟩ := herror e hparse
      exact ⟨e, items, before, failed, after, rfl, hbehind, hreports, hsame, hresult⟩

/-! ## Recovery -/

/-- Recovery ends and loses no item, whatever the tokens are. Every rule advances. A compilation
reports on at most as many items as there are tokens; each starts at a token, and behind the one in
front of it. The items that start with a word that opens a definition or a declaration start at all
such words in front of the end of input, in order. -/
theorem compileTokens_recovers (s : Session) (ts : List Token) :
    (∀ d, Item.RulesAdvance d) ∧
    Reported 0 (Item.readings s.dialect ts) (s.compileTokens ts).2.items ∧
    (s.compileTokens ts).2.items.length ≤ ts.length ∧
    (∀ r ∈ Item.readings s.dialect ts,
      r.position ts < ts.length ∧ r.start = ts.drop (r.position ts)) ∧
    ((Item.readings s.dialect ts).map (·.position ts)).Pairwise (· < ·) ∧
    ((Item.readings s.dialect ts).filter (·.first.opensItem)).map (·.position ts) =
      (List.range (Token.inputLength ts)).filter (Token.opensAt ts) := by
  have hreported := reported_compileTokens s ts
  have hlength : (s.compileTokens ts).2.items.length ≤ ts.length := by
    rw [hreported.length_eq]
    exact (Item.covers_readings s.dialect ts).length_le
  exact ⟨Item.rulesAdvance, hreported, hlength, fun r hr => Item.start_eq_drop s.dialect ts hr,
    Item.position_pairwise s.dialect ts, Item.position_openings s.dialect ts⟩

/-- Tokens with no item that can be read: a number without a value, a definition without a name, a
declaration in front of a malformed number and of an operator of two characters, a definition whose
parameters do not end and one at a separator, and another word behind the end of input. -/
def brokenTokens : List Token :=
  [{ kind := .number }, { kind := .kwDef }, { kind := .number }, { kind := .kwExtern },
    { kind := .invalid }, { kind := .operator, text := some "<=" }, { kind := .kwDef },
    { kind := .identifier, text := some "f" }, { kind := .leftParen }, { kind := .kwDef },
    { kind := .operator, text := some ";" }, .endOfInput, { kind := .kwDef }]

theorem compileTokens_recovers_broken :
    (∃ r ∈ Item.readings (start plainSettings).dialect brokenTokens,
      r.start = brokenTokens.drop (r.position brokenTokens)) ∧
    ((Item.readings (start plainSettings).dialect brokenTokens).filter (·.first.opensItem)).map
      (·.position brokenTokens) = [1, 3, 6, 9] ∧
    ((start plainSettings).compileTokens brokenTokens).2.items.length = 5 := by
  obtain ⟨-, hreported, -, hstarts, -, hopenings⟩ :=
    compileTokens_recovers (start plainSettings) brokenTokens
  have hlength : ((start plainSettings).compileTokens brokenTokens).2.items.length = 5 := by
    decide +kernel
  have hpos : 0 < (Item.readings (start plainSettings).dialect brokenTokens).length := by
    rw [← hreported.length_eq, hlength]
    decide
  obtain ⟨r, hr⟩ := List.exists_mem_of_length_pos hpos
  exact ⟨⟨r, hr, (hstarts r hr).2⟩, hopenings.trans (by decide +kernel), hlength⟩

end Session

end PoseLang
