import PoseLang.Proofs.Item.Reading
import PoseLang.Proofs.Item.Separator

/-!
# Recovery loses no item

After a failure reading goes on at the next place where an item may start. Two facts make this safe.
Every rule moves forward through the tokens, and by at least one of them where it succeeds
(`Item.RulesAdvance`). And behind the first token of an item no rule and no recovery steps over a word
that opens an item, or over the end of input (`Passes`), so that the readings cover the tokens
(`Item.Covers`): each such word up to the end of input is where one of them starts.
-/

namespace PoseLang

/-! ## Every rule advances -/

/-- A rule leaves the tokens from some position on, and not all of them where it succeeds. -/
def Token.Advances {α : Type} (rule : List Token → Except ParseError α × List Token) : Prop :=
  ∀ ts, ∃ n ≤ ts.length, (rule ts).2 = ts.drop n ∧ ((rule ts).1.isOk = true → 0 < n)

theorem Token.Advances.of_suffix {α : Type} {rule : List Token → Except ParseError α × List Token}
    (hsuffix : ∀ ts, (rule ts).2 <:+ ts)
    (hlt : ∀ ts a rest, rule ts = (.ok a, rest) → rest.length < ts.length) : Advances rule := by
  intro ts
  refine ⟨ts.length - (rule ts).2.length, Nat.sub_le _ _,
    List.suffix_iff_eq_drop.mp (hsuffix ts), fun hok => ?_⟩
  cases hrule : rule ts with
  | mk result rest =>
    rw [hrule] at hok
    cases result with
    | error => cases hok
    | ok a => exact Nat.sub_pos_of_lt (hlt ts a rest hrule)

theorem Prototype.parseParams_length_lt {ts rest : List Token} {names : List String}
    (h : parseParams ts = (.ok names, rest)) : rest.length < ts.length := by
  cases ts with
  | nil => cases h
  | cons t ts =>
    have hle := (parseParams_suffix ts).length_le
    rw [parseParams] at h
    split at h
    · split at h
      next hrest =>
        cases h
        rw [hrest] at hle
        exact Nat.lt_succ_of_le hle
      next => cases h
    · split at h
      · cases h
        exact Nat.lt_succ_self _
      · cases h

theorem Prototype.parse_length_lt {ts rest : List Token} {p : Prototype}
    (h : parse ts = (.ok p, rest)) : rest.length < ts.length := by
  unfold parse at h
  split at h
  · cases h
  next rest₁ hname =>
    split at h
    · cases h
    · split at h
      · cases h
      next rest₂ hopen =>
        split at h
        · cases h
        next hparams =>
          cases h
          calc rest.length
            _ < rest₂.length := parseParams_length_lt hparams
            _ < rest₁.length := Token.expect_length_lt hopen
            _ < ts.length := Token.expect_length_lt hname

namespace Item

/-- The rules of the grammar advance. Inside an expression each operand does; what is read behind one
may be nothing, but never goes back. -/
structure RulesAdvance (d : Dialect) : Prop where
  inside : ∀ phase stack ts, (Expr.parseFrom d phase stack ts).2 <:+ ts
  operand : ∀ stack, Token.Advances (Expr.parseFrom d .operand stack)
  expression : Token.Advances (Expr.parse d)
  parameters : Token.Advances Prototype.parseParams
  prototype : Token.Advances Prototype.parse
  definition : Token.Advances (Definition.parse d)
  declaration : Token.Advances Prototype.parseDeclaration
  expressionItem : Token.Advances (parseExpression d)
  item : Token.Advances (parse d)

theorem rulesAdvance (d : Dialect) : RulesAdvance d where
  inside := Expr.parseFrom_suffix d
  operand stack := .of_suffix (Expr.parseFrom_suffix d .operand stack) fun _ _ _ h =>
    Expr.parseFrom_operand_length_lt h
  expression := .of_suffix (Expr.parse_suffix d) fun _ _ _ h => Expr.parse_length_lt h
  parameters := .of_suffix Prototype.parseParams_suffix fun _ _ _ h =>
    Prototype.parseParams_length_lt h
  prototype := .of_suffix Prototype.parse_suffix fun _ _ _ h => Prototype.parse_length_lt h
  definition := .of_suffix (Definition.parse_suffix d) fun _ _ _ h => Definition.parse_length_lt h
  declaration := .of_suffix Prototype.parseDeclaration_suffix fun _ _ _ h =>
    Prototype.parseDeclaration_length_lt h
  expressionItem := .of_suffix (fun ts => parseExpression_rest d ts ▸ Expr.parse_suffix d ts)
    fun _ _ _ h => parseExpression_length_lt h
  item := .of_suffix (parse_suffix d) fun _ _ _ h => parse_length_lt h

end Item

/-! ## No rule steps over an opening word -/

/-- Whether the token is a word that opens a definition or a declaration. -/
def Token.opensItem (t : Token) : Bool :=
  t.kind == .kwDef || t.kind == .kwExtern

/-- A token that opens no item and does not end the input. -/
structure Token.Plain (t : Token) : Prop where
  closed : t.opensItem = false
  inner : t.kind ≠ .endOfInput

theorem Token.plain_of_kind {t : Token} {kind : Token.Kind} (ht : t.kind = kind)
    (hkind : kind ∉ [.kwDef, .kwExtern, .endOfInput]) : t.Plain := by
  subst ht
  constructor
  · unfold opensItem
    grind
  · grind

theorem Token.plain_of_isSeparator {t : Token} (ht : t.isSeparator = true) : t.Plain :=
  plain_of_kind (kind_of_isSeparator ht) (by decide)

theorem Token.plain_of_not_isBoundary {t : Token} (ht : (!t.isBoundary) = true) : t.Plain := by
  unfold isBoundary at ht
  constructor
  · unfold opensItem
    grind
  · grind

/-- No expression takes a token that is not plain. -/
theorem Token.ends_of_not_plain {t : Token} (d : Dialect) (ht : ¬ t.Plain) : t.Ends d := by
  have hkind : t.kind = .endOfInput ∨ t.kind = .kwDef ∨ t.kind = .kwExtern := by
    apply Classical.byContradiction
    intro hnone
    exact ht (plain_of_kind rfl (by grind))
  refine ⟨.inr hkind, Operators.binary?_eq_none ?_⟩
  rcases hkind with h | h | h <;> rw [h] <;> decide

/-- The second tokens are what is left of the first ones when some plain tokens are taken. -/
inductive Passes : List Token → List Token → Prop
  | refl (ts : List Token) : Passes ts ts
  | cons {t : Token} {ts rest : List Token} (ht : t.Plain) (h : Passes ts rest) :
    Passes (t :: ts) rest

namespace Passes

variable {ts rest : List Token}

theorem trans {last : List Token} (h : Passes ts rest) (h' : Passes rest last) : Passes ts last := by
  induction h with
  | refl => exact h'
  | cons ht _ ih => exact .cons ht (ih h')

theorem suffix (h : Passes ts rest) : rest <:+ ts := by
  induction h with
  | refl => exact List.suffix_refl _
  | cons _ _ ih => exact ih.trans (List.suffix_cons _ _)

theorem dropWhile {p : Token → Bool} (hp : ∀ t, p t = true → t.Plain) (ts : List Token) :
    Passes ts (ts.dropWhile p) := by
  induction ts with
  | nil => exact .refl []
  | cons t ts ih =>
    rw [List.dropWhile_cons]
    split
    next ht => exact .cons (hp t ht) ih
    next => exact .refl _

end Passes

section

variable {d : Dialect}

theorem Expr.parseFrom_passes (phase : Phase) (stack : List Frame) (ts : List Token) :
    Passes ts (parseFrom d phase stack ts).2 := by
  induction ts generalizing phase stack with
  | nil =>
    rw [List.eq_nil_of_suffix_nil (parseFrom_suffix d phase stack [])]
    exact .refl []
  | cons t ts ih =>
    by_cases ht : t.Plain
    · rw [parseFrom]
      split
      · exact .cons ht (ih _ _)
      · exact .refl _
      · exact .refl _
      · exact .cons ht (.refl ts)
    · -- No move shifts or rejects such a token: it is left where it stands.
      have hends := Token.ends_of_not_plain d ht
      rw [parseFrom]
      rcases halts_move phase stack with ⟨e, he⟩ | ⟨wanted, hwanted⟩
      · rw [he t hends]
        exact .refl _
      · rw [hwanted t hends]
        exact .refl _

theorem Token.expect_passes (kind : Token.Kind) (hkind : kind ∉ [.kwDef, .kwExtern, .endOfInput])
    (wanted : Expectation) (ts : List Token) : Passes ts (expect kind wanted ts).2 := by
  cases ts with
  | nil => exact .refl []
  | cons t ts =>
    rw [expect]
    split
    next ht => exact .cons (plain_of_kind ht hkind) (.refl ts)
    next => exact .refl _

theorem Prototype.parseParams_passes (ts : List Token) : Passes ts (parseParams ts).2 := by
  induction ts with
  | nil => exact .refl []
  | cons t ts ih =>
    rw [parseParams]
    split
    next ht =>
      have hmore := Passes.cons (Token.plain_of_kind ht (by decide)) ih
      split
      next h => rw [h] at hmore; exact hmore
      next h => rw [h] at hmore; exact hmore
    next =>
      split
      next ht => exact .cons (Token.plain_of_kind ht (by decide)) (.refl ts)
      next => exact .refl _

theorem Prototype.parse_passes (ts : List Token) : Passes ts (parse ts).2 := by
  have hname := Token.expect_passes .identifier (by decide) .functionName ts
  unfold parse
  split
  next h => rw [h] at hname; exact hname
  next t rest h =>
    rw [h] at hname
    split
    · exact hname
    · have hopen := Token.expect_passes .leftParen (by decide) .parametersOpen rest
      split
      next h' => rw [h'] at hopen; exact hname.trans hopen
      next rest' h' =>
        rw [h'] at hopen
        have hparams := parseParams_passes rest'
        split
        next h'' => rw [h''] at hparams; exact hname.trans (hopen.trans hparams)
        next h'' => rw [h''] at hparams; exact hname.trans (hopen.trans hparams)

/-- Behind its opening word a definition takes plain tokens. -/
theorem Definition.parse_passes {t : Token} (ht : t.kind = .kwDef) (ts : List Token) :
    Passes ts (parse d (t :: ts)).2 := by
  have hproto := Prototype.parse_passes ts
  rw [parse, Token.expect, if_pos ht]
  dsimp only
  split
  next h => rw [h] at hproto; exact hproto
  next rest h =>
    rw [h] at hproto
    have hbody : Passes rest (Expr.parse d rest).2 := Expr.parseFrom_passes .operand [] rest
    split
    next h' => rw [h'] at hbody; exact hproto.trans hbody
    next h' => rw [h'] at hbody; exact hproto.trans hbody

theorem Prototype.parseDeclaration_passes {t : Token} (ht : t.kind = .kwExtern) (ts : List Token) :
    Passes ts (parseDeclaration (t :: ts)).2 := by
  rw [parseDeclaration, Token.expect, if_pos ht]
  exact parse_passes ts

namespace Item

/-- Behind its first token an item takes plain tokens, unless it does not even take the first. -/
theorem parse_passes (t : Token) (ts : List Token) :
    (parse d (t :: ts)).2 = t :: ts ∨ Passes ts (parse d (t :: ts)).2 := by
  unfold parse
  split
  next ht =>
    have h : Passes ts (Definition.parse d (t :: ts)).2 := Definition.parse_passes ht ts
    split
    next he => rw [he] at h; exact .inr h
    next he => rw [he] at h; exact .inr h
  next ht =>
    have h : Passes ts (Prototype.parseDeclaration (t :: ts)).2 :=
      Prototype.parseDeclaration_passes ht ts
    split
    next he => rw [he] at h; exact .inr h
    next he => rw [he] at h; exact .inr h
  next =>
    have h : Passes (t :: ts) (Expr.parse d (t :: ts)).2 := Expr.parseFrom_passes .operand [] _
    rw [parseExpression_rest]
    generalize (Expr.parse d (t :: ts)).2 = rest at h
    cases h with
    | refl => exact .inl rfl
    | cons _ h => exact .inr h

theorem passes_of_ok {t : Token} {ts rest : List Token} {i : Item}
    (h : parse d (t :: ts) = (.ok i, rest)) : Passes ts rest := by
  have hpasses := parse_passes (d := d) t ts
  rw [h] at hpasses
  rcases hpasses with heq | hpasses
  · have hlt := parse_length_lt h
    rw [show rest = t :: ts from heq] at hlt
    exact absurd hlt (Nat.lt_irrefl _)
  · exact hpasses

/-- Recovery skips the first token of an item that has failed, and behind it plain tokens. -/
theorem passes_resume {t : Token} {ts rest : List Token} {err : ParseError}
    (h : parse d (t :: ts) = (.error err, rest)) : Passes ts (Token.resume (t :: ts) rest) := by
  have hskip := Passes.dropWhile (p := (!·.isBoundary)) fun _ => Token.plain_of_not_isBoundary
  have hpasses := parse_passes (d := d) t ts
  rw [h] at hpasses
  unfold Token.resume
  rcases hpasses with heq | hpasses
  · -- Nothing was taken, and it is recovery that skips the first token.
    have hrest : rest = t :: ts := heq
    rw [hrest, if_pos rfl]
    exact hskip ts
  · have hle := hpasses.suffix.length_le
    have hne : rest.length ≠ (t :: ts).length := Nat.ne_of_lt (Nat.lt_succ_of_le hle)
    rw [if_neg hne]
    exact hpasses.trans (hskip rest)

end Item

/-! ## The opening words -/

/-- The number of tokens in front of the end of input. -/
def Token.inputLength (ts : List Token) : Nat :=
  ts.findIdx (·.kind == .endOfInput)

/-- Whether a word that opens an item stands at a position. -/
def Token.opensAt (ts : List Token) (n : Nat) : Bool :=
  (Token.current (ts.drop n)).opensItem

/-- The tokens from each opening word on, of those in front of the end of input. -/
def Token.openings (ts : List Token) : List (List Token) :=
  ((List.range (Token.inputLength ts)).filter (Token.opensAt ts)).map ts.drop

theorem Token.openings_of_atEnd {ts : List Token} (h : atEnd ts = true) : openings ts = [] := by
  cases ts with
  | nil => rfl
  | cons t ts =>
    have hend : (t.kind == .endOfInput) = true := h
    have hlength : inputLength (t :: ts) = 0 := by
      rw [inputLength, List.findIdx_cons, hend]
      rfl
    rw [openings, hlength]
    rfl

theorem Token.openings_cons {t : Token} (ht : t.kind ≠ .endOfInput) (ts : List Token) :
    openings (t :: ts) = if t.opensItem then (t :: ts) :: openings ts else openings ts := by
  have hend : (t.kind == .endOfInput) = false := beq_false_of_ne ht
  have hlength : inputLength (t :: ts) = inputLength ts + 1 := by
    rw [inputLength, List.findIdx_cons, hend]
    rfl
  have hmore : (((List.range (inputLength ts)).map Nat.succ).filter (opensAt (t :: ts))).map
      (t :: ts).drop = openings ts := by
    rw [List.filter_map, List.map_map]
    rfl
  rw [openings, hlength, List.range_succ_eq_map, List.filter_cons]
  split
  next h => rw [List.map_cons, hmore, if_pos (show t.opensItem = true from h)]; rfl
  next h => rw [hmore, if_neg (show ¬ t.opensItem = true from h)]

theorem Passes.openings {ts rest : List Token} (h : Passes ts rest) :
    Token.openings ts = Token.openings rest := by
  induction h with
  | refl => rfl
  | cons ht _ ih =>
    rw [Token.openings_cons ht.inner, ht.closed, ← ih]
    rfl

/-! ## The readings cover the tokens -/

namespace Item

/-- Readings that cover some tokens: plain tokens, then the first token of a reading, then plain tokens
again and so on, until the input ends. -/
inductive Covers : List Token → List Reading → Prop
  | nil {ts rest : List Token} (hskip : Passes ts rest) (hend : Token.atEnd rest = true) : Covers ts []
  | cons {t : Token} {ts rest next : List Token} {rs : List Reading} (hskip : Passes ts (t :: rest))
    (ht : t.kind ≠ .endOfInput) (item : Except ParseError Item) (hpast : Passes rest next)
    (more : Covers next rs) : Covers ts (⟨t :: rest, item⟩ :: rs)

theorem Covers.step {ts start next : List Token} {rs : List Reading} (hskip : Passes ts start)
    (hend : ¬ Token.atEnd start = true) (item : Except ParseError Item)
    (hpast : ∀ t rest, start = t :: rest → Passes rest next) (more : Covers next rs) :
    Covers ts (⟨start, item⟩ :: rs) := by
  cases start with
  | nil => exact absurd rfl hend
  | cons t rest =>
    have ht : t.kind ≠ .endOfInput := fun heq => hend (beq_iff_eq.mpr heq)
    exact .cons hskip ht item (hpast t rest rfl) more

theorem covers_readings (d : Dialect) (ts : List Token) : Covers ts (readings d ts) := by
  have hskip := Passes.dropWhile fun _ => Token.plain_of_isSeparator
  fun_induction readings d ts with
  | case1 ts start hend => exact .nil (hskip ts) hend
  | case2 ts start hend err rest hparse hlt ih =>
    have hfirst : Passes ts start := hskip ts
    refine .step hfirst hend (.error err) (fun t rest' hstart => ?_) ih
    rw [hstart] at hparse ⊢
    exact passes_resume hparse
  | case3 ts start hend i rest hparse hlt ih =>
    have hfirst : Passes ts start := hskip ts
    refine .step hfirst hend (.ok i) (fun t rest' hstart => ?_) ih
    rw [hstart] at hparse
    exact passes_of_ok hparse

namespace Covers

variable {ts : List Token} {rs : List Reading}

/-- Every reading starts at some token. -/
theorem start_suffix (h : Covers ts rs) : ∀ r ∈ rs, r.start <:+ ts ∧ r.start ≠ [] := by
  induction h with
  | nil => simp
  | cons hskip _ _ hpast _ ih =>
    intro r hr
    rcases List.mem_cons.mp hr with rfl | hr
    · exact ⟨hskip.suffix, List.cons_ne_nil _ _⟩
    · obtain ⟨hsuffix, hne⟩ := ih r hr
      exact ⟨hsuffix.trans (hpast.suffix.trans ((List.suffix_cons _ _).trans hskip.suffix)), hne⟩

/-- Every reading starts behind the first token of the one in front of it. -/
theorem start_pairwise (h : Covers ts rs) :
    rs.Pairwise fun r r' => r'.start.length < r.start.length := by
  induction h with
  | nil => exact .nil
  | cons _ _ _ hpast more ih =>
    refine .cons (fun r hr => ?_) ih
    have hle := ((more.start_suffix r hr).1.trans hpast.suffix).length_le
    exact Nat.lt_succ_of_le hle

/-- There are at most as many readings as tokens. -/
theorem length_le (h : Covers ts rs) : rs.length ≤ ts.length := by
  induction h with
  | nil => exact Nat.zero_le _
  | @cons t ts rest next rs hskip _ _ hpast _ ih =>
    calc rs.length + 1
      _ ≤ next.length + 1 := Nat.succ_le_succ ih
      _ ≤ rest.length + 1 := Nat.succ_le_succ hpast.suffix.length_le
      _ ≤ ts.length := hskip.suffix.length_le

/-- The readings that start with an opening word start at these words, each at its own. -/
theorem openings (h : Covers ts rs) :
    (rs.filter (·.first.opensItem)).map Reading.start = Token.openings ts := by
  induction h with
  | nil hskip hend =>
    rw [hskip.openings, Token.openings_of_atEnd hend]
    rfl
  | @cons t ts rest next rs hskip ht item hpast more ih =>
    rw [hskip.openings, Token.openings_cons ht, hpast.openings, ← ih, List.filter_cons]
    have hfirst : (Reading.mk (t :: rest) item).first = t := rfl
    rw [hfirst]
    split <;> rfl

end Covers

/-- The position of the first token of a reading among all tokens. -/
def Reading.position (ts : List Token) (r : Reading) : Nat :=
  ts.length - r.start.length

section

variable (d : Dialect) (ts : List Token)

/-- Each reading starts at its position. -/
theorem start_eq_drop {r : Reading} (hr : r ∈ readings d ts) :
    r.position ts < ts.length ∧ r.start = ts.drop (r.position ts) := by
  obtain ⟨hsuffix, hne⟩ := (covers_readings d ts).start_suffix r hr
  have hle := hsuffix.length_le
  have hpos := List.length_pos_iff.mpr hne
  exact ⟨by unfold Reading.position; omega, List.suffix_iff_eq_drop.mp hsuffix⟩

theorem position_pairwise :
    ((readings d ts).map (Reading.position ts)).Pairwise (· < ·) := by
  rw [List.pairwise_map]
  refine (covers_readings d ts).start_pairwise.imp_of_mem ?_
  intro r r' hr hr' hlt
  have hle := ((covers_readings d ts).start_suffix r hr).1.length_le
  unfold Reading.position
  omega

/-- The opening words in front of the end of input are the first tokens of readings, each of one. -/
theorem position_openings :
    ((readings d ts).filter (·.first.opensItem)).map (Reading.position ts) =
      (List.range (Token.inputLength ts)).filter (Token.opensAt ts) := by
  have hstarts := congrArg (List.map fun start => ts.length - start.length)
    (covers_readings d ts).openings
  rw [List.map_map, Token.openings, List.map_map] at hstarts
  refine hstarts.trans ?_
  refine (List.map_congr_left fun n hn => ?_).trans (List.map_id _)
  have hlt := List.mem_range.mp (List.mem_filter.mp hn).1
  have hle : Token.inputLength ts ≤ ts.length := List.findIdx_le_length
  simp only [Function.comp_apply, List.length_drop, id_eq]
  omega

end

end Item

end

end PoseLang
