import PoseLang.Proofs.Item.Separator
import PoseLang.Proofs.Session.Reached

/-!
# Compilations that are cut at a separator

Compiling tokens with a separator among them does what compiling those in front of it and then those
behind it does: the same session, the same texts written, and the items of the two reports one behind
the other. An item that is not finished where the tokens are cut fails both times, once for the end of
input and once for the separator.
-/

namespace PoseLang

/-- The item with a number that is higher by some amount. -/
def ItemReport.shift (k : Nat) (r : ItemReport) : ItemReport :=
  { r with index := r.index + k }

/-- The items of some tokens, and what they are with a separator behind them: the same, but for the
token that the last one fails at. -/
inductive CutItems (t : Token) : List ItemReport → List ItemReport → Prop
  | same (items : List ItemReport) : CutItems t items items
  | missing (items : List ItemReport) (index : Nat) (summary : String) (wanted : Expectation) :
    CutItems t (items ++ [⟨index, summary, none, .error (.parse (.unexpected wanted .endOfInput))⟩])
      (items ++ [⟨index, summary, none, .error (.parse (.unexpected wanted t))⟩])

theorem CutItems.append {t : Token} {items items' : List ItemReport} (before : List ItemReport)
    (h : CutItems t items items') : CutItems t (before ++ items) (before ++ items') := by
  cases h with
  | same => exact .same _
  | missing items index summary wanted =>
    rw [← List.append_assoc, ← List.append_assoc]
    exact .missing (before ++ items) index summary wanted

theorem CutItems.length_eq {t : Token} {items items' : List ItemReport} (h : CutItems t items items') :
    items.length = items'.length := by
  cases h with
  | same => rfl
  | missing => rw [List.length_append, List.length_append]; rfl

namespace Session

variable {s : Session}

/-! ## Settings stay -/

theorem settings_item (i : Item) : (s.item i).session.settings = s.settings := by
  obtain ⟨after, result, hafter, -, dealt⟩ := s.dealt_item i
  rw [hafter]
  cases dealt <;> rfl

theorem settings_reading (index : Nat) (r : Item.Reading) :
    (s.reading index r).1.settings = s.settings := by
  cases hr : r.item with
  | error e => rw [(reading_of_error hr index).1]
  | ok i => rw [(reading_of_ok hr index).1, settings_item]

theorem settings_readings (index : Nat) (rs : List Item.Reading) :
    (s.readings index rs).1.settings = s.settings := by
  induction rs generalizing s index with
  | nil => rfl
  | cons r rs ih => exact (ih (index + 1)).trans (settings_reading index r)

/-! ## Numbers of items -/

theorem items_reading_length (index : Nat) (r : Item.Reading) :
    (s.reading index r).2.items.length = 1 := by
  cases hr : r.item with
  | error e => rw [(reading_of_error hr index).2.1]; rfl
  | ok i => rw [(reading_of_ok hr index).2.1]; rfl

theorem items_readings_length (index : Nat) (rs : List Item.Reading) :
    (s.readings index rs).2.items.length = rs.length := by
  induction rs generalizing s index with
  | nil => rfl
  | cons r rs ih =>
    simp only [readings, Report.append, List.length_append, items_reading_length, ih, List.length_cons,
      Nat.add_comm]

/-- Nothing but the numbers of the items depends on the number of the first. -/
theorem reading_shift (index k : Nat) (r : Item.Reading) :
    (s.reading (index + k) r).1 = (s.reading index r).1 ∧
      (s.reading (index + k) r).2.items = (s.reading index r).2.items.map (·.shift k) ∧
      (s.reading (index + k) r).2.output = (s.reading index r).2.output := by
  unfold reading
  cases r.item <;> exact ⟨rfl, rfl, rfl⟩

theorem readings_shift (index k : Nat) (rs : List Item.Reading) :
    (s.readings (index + k) rs).1 = (s.readings index rs).1 ∧
      (s.readings (index + k) rs).2.items = (s.readings index rs).2.items.map (·.shift k) ∧
      (s.readings (index + k) rs).2.output = (s.readings index rs).2.output := by
  induction rs generalizing s index with
  | nil => exact ⟨rfl, rfl, rfl⟩
  | cons r rs ih =>
    obtain ⟨hsession, hitems, houtput⟩ := reading_shift (s := s) index k r
    obtain ⟨hsession', hitems', houtput'⟩ := ih (s := (s.reading index r).1) (index + 1)
    have hnext : index + k + 1 = index + 1 + k := by omega
    simp only [readings, Report.append, hsession, hnext, hsession', hitems, hitems', houtput, houtput',
      List.map_append, and_self]

/-! ## One list of items behind another -/

theorem readings_append (index : Nat) (rs rs' : List Item.Reading) :
    (s.readings index (rs ++ rs')).1 =
        ((s.readings index rs).1.readings (index + rs.length) rs').1 ∧
      (s.readings index (rs ++ rs')).2.items = (s.readings index rs).2.items ++
        ((s.readings index rs).1.readings (index + rs.length) rs').2.items ∧
      (s.readings index (rs ++ rs')).2.output = (s.readings index rs).2.output ++
        ((s.readings index rs).1.readings (index + rs.length) rs').2.output := by
  induction rs generalizing s index with
  | nil => exact ⟨rfl, rfl, (String.empty_append).symm⟩
  | cons r rs ih =>
    obtain ⟨hsession, hitems, houtput⟩ := ih (s := (s.reading index r).1) (index + 1)
    have hnext : index + (rs.length + 1) = index + 1 + rs.length := by omega
    simp only [readings, Report.append, List.cons_append, List.length_cons, hnext, hsession, hitems,
      houtput, List.append_assoc, String.append_assoc, and_self]

/-- Items that are cut at a separator do what they do at the end of input. -/
theorem readings_cut {t : Token} {more : List Token} {rs rs' : List Item.Reading}
    (h : Item.CutReadings t more rs rs') (index : Nat) :
    (s.readings index rs').1 = (s.readings index rs).1 ∧
      CutItems t (s.readings index rs).2.items (s.readings index rs').2.items ∧
      (s.readings index rs').2.output = (s.readings index rs).2.output := by
  induction h generalizing s index with
  | nil => exact ⟨rfl, .same [], rfl⟩
  | @cons rs rs' start hne item rest ih =>
    obtain ⟨hsession, hitems, houtput⟩ := ih (s := (s.reading index ⟨start, item⟩).1) (index + 1)
    have hfirst : s.reading index ⟨start ++ t :: more, item⟩ = s.reading index ⟨start, item⟩ := by
      simp only [reading, Item.Reading.first, Token.current_append hne]
    simp only [readings, Report.append, hfirst, hsession, houtput, true_and, and_true]
    exact hitems.append _
  | @missing start hne wanted =>
    have hfirst : firstSummary (Token.current (start ++ t :: more)) =
        firstSummary (Token.current start) := by rw [Token.current_append hne]
    refine ⟨rfl, ?_, rfl⟩
    have hcut := CutItems.missing (t := t) [] index (firstSummary (Token.current start)) wanted
    simpa [readings, reading, Report.append, Item.Reading.first, hfirst] using hcut

theorem compileTokens_ok {ts : List Token} {s' : Session} {r : Report}
    (h : s.compileTokens ts = (s', r)) :
    (s.readings 0 (Item.readings s.dialect ts)).1 = s' ∧
      (s.readings 0 (Item.readings s.dialect ts)).2.items = r.items ∧
      (s.readings 0 (Item.readings s.dialect ts)).2.output = r.output := by
  cases h
  exact ⟨rfl, rfl, rfl⟩

/-- A separator is a hard boundary between items. Unless it is a binary operator, compiling tokens
with a separator among them, none in front of it being the end of input, leads to the session that
compiling the tokens in front of it and then those behind it leads to, writes what these write, and
reports their items, those of the second numbered on from the first. Only an item that is cut in its
middle fails at another token: at the separator, and not at the end of input. -/
theorem compileTokens_separator {s s₁ s₂ s₃ : Session} {r₁ r₂ r₃ : Report} {t : Token}
    {ts more : List Token} (ht : t.isSeparator = true)
    (hlow : ∀ p, s.dialect.operators[';']? = some p → ¬ 0 < p)
    (hts : ∀ t ∈ ts, t.kind ≠ .endOfInput) (hfirst : s.compileTokens ts = (s₁, r₁))
    (hsecond : s₁.compileTokens more = (s₂, r₂))
    (hboth : s.compileTokens (ts ++ t :: more) = (s₃, r₃)) :
    s₃ = s₂ ∧ r₃.output = r₁.output ++ r₂.output ∧
      ∃ items, CutItems t r₁.items items ∧
        r₃.items = items ++ r₂.items.map (·.shift r₁.items.length) := by
  obtain ⟨hs₁, hitems₁, houtput₁⟩ := compileTokens_ok hfirst
  obtain ⟨hs₂, hitems₂, houtput₂⟩ := compileTokens_ok hsecond
  obtain ⟨hs₃, hitems₃, houtput₃⟩ := compileTokens_ok hboth
  have hdialect : s₁.dialect = s.dialect := by
    rw [← hs₁, dialect, settings_readings, dialect]
  rw [hdialect] at hs₂ hitems₂ houtput₂
  -- The items in front of the separator, and then those behind it.
  obtain ⟨rs, hrs, hcuts⟩ := Item.readings_cut more ht (Token.stops_of_isSeparator ht hlow) hts
  obtain ⟨hsession, hcut, houtput⟩ := readings_cut (s := s) hcuts 0
  obtain ⟨hsession', hitems', houtput'⟩ := readings_append (s := s) 0 rs (Item.readings s.dialect more)
  obtain ⟨hshift, hshifted, hshiftOutput⟩ :=
    readings_shift (s := s₁) 0 rs.length (Item.readings s.dialect more)
  rw [hrs] at hs₃ hitems₃ houtput₃
  rw [hsession, hs₁] at hsession' hitems' houtput'
  have hlength : r₁.items.length = rs.length := by
    rw [← hitems₁, hcut.length_eq, items_readings_length]
  refine ⟨?_, ?_, (s.readings 0 rs).2.items, hitems₁ ▸ hcut, ?_⟩
  · rw [← hs₃, hsession', hshift, hs₂]
  · rw [← houtput₃, houtput', hshiftOutput, houtput, houtput₁, houtput₂]
  · rw [← hitems₃, hitems', hshifted, hitems₂, hlength]

/-- The separator. -/
def semicolon : Token :=
  { kind := .operator, text := some ";" }

/-- The tokens of a sum that lacks its second operand. -/
def halfSum : List Token :=
  [{ kind := .number, value := some 1 }, { kind := .operator, text := some "+" }]

/-- The tokens of a number. -/
def numberTokens : List Token :=
  [{ kind := .number, value := some 2 }]

theorem compileTokens_separator_halfSum : ∃ s₁ r₁ s₂ r₂ s₃ r₃ items,
    (start .standard).compileTokens halfSum = (s₁, r₁) ∧ r₁.hasFailures = true ∧
      s₁.compileTokens numberTokens = (s₂, r₂) ∧ r₂.items.length = 1 ∧
      (start .standard).compileTokens (halfSum ++ semicolon :: numberTokens) = (s₃, r₃) ∧ s₃ = s₂ ∧
      CutItems semicolon r₁.items items ∧
      r₃.items = items ++ r₂.items.map (·.shift r₁.items.length) := by
  have hlow : ∀ p, (start .standard).dialect.operators[';']? = some p → ¬ 0 < p := by
    have hnone : (start .standard).dialect.operators[';']? = none := by decide +kernel
    intro p hp
    cases hnone.symm.trans hp
  obtain ⟨hsame, -, items, hcut, hitems⟩ := compileTokens_separator (t := semicolon) (by decide) hlow
    (by decide) (Prod.eta ((start .standard).compileTokens halfSum)).symm
    (Prod.eta (((start .standard).compileTokens halfSum).1.compileTokens numberTokens)).symm
    (Prod.eta ((start .standard).compileTokens (halfSum ++ semicolon :: numberTokens))).symm
  exact ⟨_, _, _, _, _, _, items, (Prod.eta _).symm, by decide +kernel, (Prod.eta _).symm,
    by decide +kernel, (Prod.eta _).symm, hsame, hcut, hitems⟩

end Session

end PoseLang
