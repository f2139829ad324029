import PoseLang.Item.Reading
import PoseLang.Proofs.Expr.Ends

/-!
# Separators cut the tokens

No rule of the grammar reads past a separator: what it makes of some tokens it also makes of these
tokens with a separator and anything else behind them (`Cut`), except that a rule that wants more than
there is finds the end of input in the one case and the separator in the other. So the items of a list
of tokens that is cut at a separator are those in front of it and those behind it
(`Item.readings_cut`).
-/

namespace PoseLang

/-! ## Tokens that end every rule -/

/-- No rule asks for the token, and it is no binary operator. -/
structure Token.Stops (d : Dialect) (t : Token) : Prop where
  kind : t.kind = .operator ∨ t.kind = .endOfInput
  lone : d.operators.binary? t = none

theorem Token.stops_endOfInput (d : Dialect) : Token.endOfInput.Stops d :=
  ⟨.inr rfl, rfl⟩

theorem Token.symbol?_of_isSeparator {t : Token} (h : t.isSeparator = true) : t.symbol? = some ';' :=
  eq_of_beq h

theorem Token.kind_of_isSeparator {t : Token} (h : t.isSeparator = true) : t.kind = .operator := by
  have hsymbol := symbol?_of_isSeparator h
  unfold symbol? at hsymbol
  split at hsymbol
  next hkind _ => exact hkind
  next => cases hsymbol

/-- A separator ends every rule, unless it is a binary operator of the dialect. -/
theorem Token.stops_of_isSeparator {d : Dialect} {t : Token} (h : t.isSeparator = true)
    (hlow : ∀ p, d.operators[';']? = some p → ¬ 0 < p) : t.Stops d := by
  refine ⟨.inl (kind_of_isSeparator h), ?_⟩
  simp only [Operators.binary?, symbol?_of_isSeparator h]
  split
  next => rfl
  next p hp => exact if_neg (hlow p hp)

theorem Token.Stops.ends {d : Dialect} {t : Token} (h : t.Stops d) : t.Ends d :=
  ⟨h.kind.imp_right .inl, h.lone⟩

theorem Token.Stops.kind_ne {d : Dialect} {t : Token} (h : t.Stops d) {kind : Token.Kind}
    (hkind : kind ≠ .operator ∧ kind ≠ .endOfInput) : t.kind ≠ kind := by
  rintro rfl
  exact h.kind.elim hkind.1 hkind.2

/-! ## Expressions -/

/-- What a rule makes of some tokens, and of these tokens with others behind them, of which the first
is a separator: the same, or what is missing at the end is missing at the separator. -/
inductive Cut {α : Type} (t : Token) (more : List Token) :
    Except ParseError α × List Token → Except ParseError α × List Token → Prop
  | same (result : Except ParseError α) (rest : List Token) :
    Cut t more (result, rest) (result, rest ++ t :: more)
  | missing (wanted : Expectation) :
    Cut t more (.error (.unexpected wanted .endOfInput), []) (.error (.unexpected wanted t), t :: more)

section

variable {d : Dialect} {t : Token} {more : List Token}

/-- Both succeed, or both fail and so does every rule that goes on from there. -/
theorem Cut.split {α : Type} {x y : Except ParseError α × List Token} (h : Cut t more x y) :
    (∃ a rest, x = (.ok a, rest) ∧ y = (.ok a, rest ++ t :: more)) ∨
      ∃ err rest err' rest', x = (.error err, rest) ∧ y = (.error err', rest') ∧
        ∀ β : Type, Cut t more (.error err, rest) ((.error err', rest') : Except ParseError β × _) := by
  cases h with
  | missing wanted => exact .inr ⟨_, _, _, _, rfl, rfl, fun _ => .missing wanted⟩
  | same result rest =>
    cases result with
    | error err => exact .inr ⟨_, _, _, _, rfl, rfl, fun _ => .same (.error err) rest⟩
    | ok a => exact .inl ⟨a, rest, rfl, rfl⟩

theorem Expr.parseFrom_cut (ht : t.Stops d) (phase : Phase) (stack : List Frame) (ts : List Token) :
    Cut t more (parseFrom d phase stack ts) (parseFrom d phase stack (ts ++ t :: more)) := by
  induction ts generalizing phase stack with
  | nil =>
    rw [List.nil_append, parseFrom, parseFrom]
    rcases halts_move phase stack with ⟨e, he⟩ | ⟨wanted, hwanted⟩
    · rw [he _ (Token.stops_endOfInput d).ends, he t ht.ends]
      exact .same (.ok e) []
    · rw [hwanted _ (Token.stops_endOfInput d).ends, hwanted t ht.ends]
      exact .missing wanted
  | cons t' ts ih =>
    rw [List.cons_append, parseFrom, parseFrom]
    cases move d phase stack t' with
    | shift phase stack => exact ih phase stack
    | done e => exact .same (.ok e) (t' :: ts)
    | refuse err => exact .same (.error err) (t' :: ts)
    | reject err => exact .same (.error err) ts

theorem Expr.parse_cut (ht : t.Stops d) (ts : List Token) :
    Cut t more (parse d ts) (parse d (ts ++ t :: more)) :=
  parseFrom_cut ht .operand [] ts

/-! ## Items -/

theorem Token.expect_cut (ht : t.Stops d) (kind : Token.Kind)
    (hkind : kind ≠ .operator ∧ kind ≠ .endOfInput) (wanted : Expectation) (ts : List Token) :
    Cut t more (expect kind wanted ts) (expect kind wanted (ts ++ t :: more)) := by
  cases ts with
  | nil =>
    rw [List.nil_append, expect, expect, if_neg (ht.kind_ne hkind)]
    exact .missing wanted
  | cons t' ts =>
    rw [List.cons_append, expect, expect]
    split
    · exact .same (.ok t') ts
    · exact .same _ (t' :: ts)

theorem Prototype.parseParams_cut (ht : t.Stops d) (ts : List Token) :
    Cut t more (parseParams ts) (parseParams (ts ++ t :: more)) := by
  induction ts with
  | nil =>
    rw [List.nil_append, parseParams, parseParams, if_neg (ht.kind_ne (by decide)),
      if_neg (ht.kind_ne (by decide))]
    exact .missing .parametersClose
  | cons t' ts ih =>
    rw [List.cons_append, parseParams, parseParams]
    split
    · rcases ih.split with ⟨names, rest, hx, hy⟩ | ⟨_, _, _, _, hx, hy, hfailed⟩ <;> rw [hx, hy]
      · exact .same (.ok (t'.name :: names)) rest
      · exact hfailed _
    · split
      · exact .same (.ok []) ts
      · exact .same _ (t' :: ts)

theorem Prototype.parse_cut (ht : t.Stops d) (ts : List Token) :
    Cut t more (parse ts) (parse (ts ++ t :: more)) := by
  unfold parse
  rcases (Token.expect_cut ht .identifier (by decide) .functionName ts).split with
    ⟨name, rest, hx, hy⟩ | ⟨_, _, _, _, hx, hy, hfailed⟩ <;> rw [hx, hy]
  · dsimp only
    split
    · exact .same _ rest
    · rcases (Token.expect_cut ht .leftParen (by decide) .parametersOpen rest).split with
        ⟨_, rest, hx, hy⟩ | ⟨_, _, _, _, hx, hy, hfailed⟩ <;> rw [hx, hy]
      · dsimp only
        rcases (parseParams_cut ht rest).split with
          ⟨params, rest, hx, hy⟩ | ⟨_, _, _, _, hx, hy, hfailed⟩ <;> rw [hx, hy]
        · exact .same (.ok _) rest
        · exact hfailed _
      · exact hfailed _
  · exact hfailed _

theorem Definition.parse_cut (ht : t.Stops d) (ts : List Token) :
    Cut t more (parse d ts) (parse d (ts ++ t :: more)) := by
  unfold parse
  rcases (Token.expect_cut ht .kwDef (by decide) .defWord ts).split with
    ⟨_, rest, hx, hy⟩ | ⟨_, _, _, _, hx, hy, hfailed⟩ <;> rw [hx, hy]
  · dsimp only
    rcases (Prototype.parse_cut ht rest).split with
      ⟨proto, rest, hx, hy⟩ | ⟨_, _, _, _, hx, hy, hfailed⟩ <;> rw [hx, hy]
    · dsimp only
      rcases (Expr.parse_cut ht rest).split with
        ⟨body, rest, hx, hy⟩ | ⟨_, _, _, _, hx, hy, hfailed⟩ <;> rw [hx, hy]
      · exact .same (.ok _) rest
      · exact hfailed _
    · exact hfailed _
  · exact hfailed _

theorem Prototype.parseDeclaration_cut (ht : t.Stops d) (ts : List Token) :
    Cut t more (parseDeclaration ts) (parseDeclaration (ts ++ t :: more)) := by
  unfold parseDeclaration
  rcases (Token.expect_cut ht .kwExtern (by decide) .externWord ts).split with
    ⟨_, rest, hx, hy⟩ | ⟨_, _, _, _, hx, hy, hfailed⟩ <;> rw [hx, hy]
  · exact Prototype.parse_cut ht rest
  · exact hfailed _

theorem Token.current_append {ts : List Token} (hne : ts ≠ []) (more : List Token) :
    current (ts ++ more) = current ts := by
  cases ts with
  | nil => exact absurd rfl hne
  | cons t ts => rfl

theorem Item.parse_cut (ht : t.Stops d) {ts : List Token} (hne : ts ≠ []) :
    Cut t more (parse d ts) (parse d (ts ++ t :: more)) := by
  unfold parse
  rw [Token.current_append hne]
  split
  · rcases (Definition.parse_cut ht ts).split with
      ⟨f, rest, hx, hy⟩ | ⟨_, _, _, _, hx, hy, hfailed⟩ <;> rw [hx, hy]
    · exact .same (.ok _) rest
    · exact hfailed _
  · rcases (Prototype.parseDeclaration_cut ht ts).split with
      ⟨p, rest, hx, hy⟩ | ⟨_, _, _, _, hx, hy, hfailed⟩ <;> rw [hx, hy]
    · exact .same (.ok _) rest
    · exact hfailed _
  · unfold parseExpression
    rw [Token.current_append hne]
    rcases (Expr.parse_cut ht ts).split with
      ⟨body, rest, hx, hy⟩ | ⟨_, _, _, _, hx, hy, hfailed⟩ <;> rw [hx, hy]
    · exact .same (.ok _) rest
    · exact hfailed _

/-! ## One item after another -/

theorem Token.resume_suffix {start rest : List Token} (h : rest <:+ start) :
    resume start rest <:+ start := by
  refine (List.dropWhile_suffix _).trans ?_
  split
  · exact (List.tail_suffix rest).trans h
  · exact h

theorem Token.resume_nil (start : List Token) : resume start [] = [] := by
  unfold resume
  split <;> rfl

theorem Token.isBoundary_of_isSeparator (ht : t.isSeparator = true) : t.isBoundary = true := by
  rw [isBoundary, ht, Bool.or_true]

/-- Reading goes on in front of a boundary that is there already. -/
theorem Token.resume_append {start : List Token} (hne : start ≠ []) (rest : List Token)
    (ht : t.isBoundary = true) :
    resume (start ++ t :: more) (rest ++ t :: more) = resume start rest ++ t :: more := by
  have hdrop : ∀ ts : List Token, (ts ++ t :: more).dropWhile (!·.isBoundary) =
      ts.dropWhile (!·.isBoundary) ++ t :: more := by
    intro ts
    rw [List.dropWhile_append]
    split
    next h => rw [List.isEmpty_iff.mp h, List.dropWhile_cons_of_neg (by simp [ht]), List.nil_append]
    next => rfl
  unfold resume
  simp only [List.length_append, Nat.add_right_cancel_iff]
  split
  next hlen =>
    have hrest : rest ≠ [] := by
      rintro rfl
      exact hne (List.length_eq_zero_iff.mp hlen.symm)
    rw [List.tail_append_of_ne_nil hrest, hdrop]
  next => rw [hdrop]

theorem Token.skipSeparators_append {ts : List Token} (hne : skipSeparators ts ≠ []) :
    skipSeparators (ts ++ more) = skipSeparators ts ++ more := by
  unfold skipSeparators at hne ⊢
  rw [List.dropWhile_append, if_neg (by simpa using hne)]

theorem Token.skipSeparators_append_nil {ts : List Token} (hnil : skipSeparators ts = [])
    (ht : t.isSeparator = true) : skipSeparators (ts ++ t :: more) = skipSeparators more := by
  unfold skipSeparators at hnil ⊢
  rw [List.dropWhile_append, hnil, if_pos List.isEmpty_nil, List.dropWhile_cons_of_pos ht]

/-- Where no token is the end of input, the input ends behind the last one. -/
theorem Token.eq_nil_of_atEnd {ts : List Token} (h : atEnd ts = true)
    (hts : ∀ t ∈ ts, t.kind ≠ .endOfInput) : ts = [] := by
  cases ts with
  | nil => rfl
  | cons t ts => exact absurd (eq_of_beq h) (hts t List.mem_cons_self)

theorem Token.atEnd_append {ts : List Token} (hne : ts ≠ []) (more : List Token) :
    atEnd (ts ++ more) = atEnd ts := by
  rw [atEnd, current_append hne, atEnd]

namespace Item

theorem readings_eq (d : Dialect) (ts : List Token) :
    readings d ts =
      if Token.atEnd (Token.skipSeparators ts) then []
      else
        match parse d (Token.skipSeparators ts) with
        | (.error err, rest) => ⟨Token.skipSeparators ts, .error err⟩ ::
          readings d (Token.resume (Token.skipSeparators ts) rest)
        | (.ok i, rest) => ⟨Token.skipSeparators ts, .ok i⟩ :: readings d rest := by
  rw [readings]
  split
  · rfl
  · split
    next h => simp only [h]
    next h => simp only [h]

/-- More tokens behind the first item are read by the rule that reads the item. -/
theorem readings_append {ts : List Token} (hne : Token.skipSeparators ts ≠ [])
    (hend : ¬ Token.atEnd (Token.skipSeparators ts) = true) (more : List Token) :
    readings d (ts ++ more) =
      match parse d (Token.skipSeparators ts ++ more) with
      | (.error err, rest) => ⟨Token.skipSeparators ts ++ more, .error err⟩ ::
        readings d (Token.resume (Token.skipSeparators ts ++ more) rest)
      | (.ok i, rest) => ⟨Token.skipSeparators ts ++ more, .ok i⟩ :: readings d rest := by
  rw [readings_eq, Token.skipSeparators_append hne, Token.atEnd_append hne, if_neg hend]

theorem suffix_of_parse {ts rest : List Token} {result : Except ParseError Item}
    (h : parse d ts = (result, rest)) : rest <:+ ts := by
  have hsuffix := parse_suffix d ts
  rw [h] at hsuffix
  exact hsuffix

/-- The readings of some tokens, and of these tokens with others behind them, of which the first is a
separator: the same, except for what the last one misses. -/
inductive CutReadings (t : Token) (more : List Token) : List Reading → List Reading → Prop
  | nil : CutReadings t more [] []
  | cons {rs rs' : List Reading} {start : List Token} (hne : start ≠ [])
    (item : Except ParseError Item) (rest : CutReadings t more rs rs') :
    CutReadings t more (⟨start, item⟩ :: rs) (⟨start ++ t :: more, item⟩ :: rs')
  | missing {start : List Token} (hne : start ≠ []) (wanted : Expectation) :
    CutReadings t more [⟨start, .error (.unexpected wanted .endOfInput)⟩]
      [⟨start ++ t :: more, .error (.unexpected wanted t)⟩]

/-- Tokens that are cut at a separator read as what is in front of it and what is behind it. -/
theorem readings_cut {ts : List Token} (more : List Token) (ht : t.isSeparator = true)
    (hstops : t.Stops d) (hts : ∀ t ∈ ts, t.kind ≠ .endOfInput) :
    ∃ rs, readings d (ts ++ t :: more) = rs ++ readings d more ∧
      CutReadings t more (readings d ts) rs := by
  have hbehind : ∀ ts, Token.skipSeparators ts = [] →
      readings d (ts ++ t :: more) = readings d more := fun ts hnil => by
    rw [readings_eq, readings_eq d more, Token.skipSeparators_append_nil hnil ht]
  fun_induction readings d ts with
  | case1 ts start hend =>
    have hnil := Token.eq_nil_of_atEnd hend fun t h => hts t ((List.dropWhile_suffix _).subset h)
    exact ⟨[], hbehind ts hnil, .nil⟩
  | case2 ts start hend err rest hparse hlt ih =>
    have hne : start ≠ [] := fun hnil => hend (hnil ▸ rfl)
    have hcut : Cut t more (parse d start) (parse d (start ++ t :: more)) := parse_cut hstops hne
    rw [hparse] at hcut
    rw [readings_append hne hend]
    generalize parse d (start ++ t :: more) = y at hcut
    cases hcut with
    | same =>
      have hresume := (Token.resume_suffix (suffix_of_parse hparse)).trans (List.dropWhile_suffix _)
      obtain ⟨rs, hrs, hcuts⟩ := ih fun t h => hts t (hresume.subset h)
      refine ⟨⟨start ++ t :: more, .error err⟩ :: rs, ?_, .cons hne (.error err) hcuts⟩
      dsimp only
      rw [Token.resume_append hne rest (Token.isBoundary_of_isSeparator ht), hrs]
      rfl
    | missing wanted =>
      -- All tokens are taken, and reading goes on at the separator.
      have hresume : Token.resume (start ++ t :: more) (t :: more) = t :: more :=
        (Token.resume_append hne [] (Token.isBoundary_of_isSeparator ht)).trans
          (congrArg (· ++ t :: more) (Token.resume_nil start))
      refine ⟨[⟨start ++ t :: more, .error (.unexpected wanted t)⟩], ?_, ?_⟩
      · exact congrArg (_ :: ·) ((congrArg (readings d) hresume).trans (hbehind [] rfl))
      · rw [Token.resume_nil, readings_eq]
        exact .missing hne wanted
  | case3 ts start hend i rest hparse hlt ih =>
    have hne : start ≠ [] := fun hnil => hend (hnil ▸ rfl)
    have hcut : Cut t more (parse d start) (parse d (start ++ t :: more)) := parse_cut hstops hne
    rw [hparse] at hcut
    rw [readings_append hne hend]
    generalize parse d (start ++ t :: more) = y at hcut
    cases hcut with
    | same =>
      have hrest := (suffix_of_parse hparse).trans (List.dropWhile_suffix _)
      obtain ⟨rs, hrs, hcuts⟩ := ih fun t h => hts t (hrest.subset h)
      refine ⟨⟨start ++ t :: more, .ok i⟩ :: rs, ?_, .cons hne (.ok i) hcuts⟩
      dsimp only
      rw [hrs]
      rfl

end Item

end

end PoseLang
