import PoseLang.Item.Parser

/-!
# Sequences of items, read strictly or with recovery

Items follow each other, with any number of semicolons before, between and behind them, up to the
end of input. The strict reading takes all items or stops at the first failure; the recovering one
reports a failure and goes on at the next semicolon or at the next word that opens a definition or a
declaration. Both end because an item takes at least one token, and so does what is skipped after a
failure.
-/

namespace PoseLang

/-- The operator that separates items. -/
def Token.isSeparator (t : Token) : Bool :=
  t.isOperator ';'

/-- The tokens behind the separators in front. -/
def Token.skipSeparators (ts : List Token) : List Token :=
  ts.dropWhile Token.isSeparator

/-- Whether the input ends here. -/
def Token.atEnd (ts : List Token) : Bool :=
  (Token.current ts).kind == .endOfInput

/-- A token at which reading goes on after a failure. -/
def Token.isBoundary (t : Token) : Bool :=
  t.kind == .endOfInput || t.kind == .kwDef || t.kind == .kwExtern || t.isSeparator

/-- The tokens at which reading goes on after an item has failed, given the tokens from its first on
and those that were left: at least the first is skipped. -/
def Token.resume (start rest : List Token) : List Token :=
  let rest := if rest.length = start.length then rest.tail else rest
  rest.dropWhile (!·.isBoundary)

/-! ## Every rule leaves an end of its tokens -/

theorem Token.expect_suffix (kind : Token.Kind) (wanted : Expectation) (ts : List Token) :
    (Token.expect kind wanted ts).2 <:+ ts := by
  cases ts with
  | nil => exact List.suffix_refl []
  | cons t ts =>
    rw [Token.expect]
    split
    · exact List.suffix_cons t ts
    · exact List.suffix_refl _

theorem Token.expect_length_lt {kind : Token.Kind} {wanted : Expectation} {ts rest : List Token}
    {t : Token} (h : Token.expect kind wanted ts = (.ok t, rest)) : rest.length < ts.length := by
  cases ts with
  | nil => cases h
  | cons t ts =>
    rw [Token.expect] at h
    split at h
    · cases h
      exact Nat.lt_succ_self _
    · cases h

theorem Prototype.parseParams_suffix (ts : List Token) : (Prototype.parseParams ts).2 <:+ ts := by
  induction ts with
  | nil => exact List.suffix_refl []
  | cons t ts ih =>
    rw [Prototype.parseParams]
    split
    · split
      next hp => rw [hp] at ih; exact ih.trans (List.suffix_cons t ts)
      next hp => rw [hp] at ih; exact ih.trans (List.suffix_cons t ts)
    · split
      · exact List.suffix_cons t ts
      · exact List.suffix_refl _

theorem Prototype.parse_suffix (ts : List Token) : (Prototype.parse ts).2 <:+ ts := by
  have hname := Token.expect_suffix .identifier .functionName ts
  unfold Prototype.parse
  split
  next h => rw [h] at hname; exact hname
  next t rest h =>
    rw [h] at hname
    split
    · exact hname
    · have hopen := Token.expect_suffix .leftParen .parametersOpen rest
      split
      next h' => rw [h'] at hopen; exact hopen.trans hname
      next rest' h' =>
        rw [h'] at hopen
        have hparams := Prototype.parseParams_suffix rest'
        split
        next h'' => rw [h''] at hparams; exact (hparams.trans hopen).trans hname
        next h'' => rw [h''] at hparams; exact (hparams.trans hopen).trans hname

theorem Definition.parse_suffix (d : Dialect) (ts : List Token) :
    (Definition.parse d ts).2 <:+ ts := by
  have hword := Token.expect_suffix .kwDef .defWord ts
  unfold Definition.parse
  split
  next h => rw [h] at hword; exact hword
  next rest h =>
    rw [h] at hword
    have hproto := Prototype.parse_suffix rest
    split
    next h' => rw [h'] at hproto; exact hproto.trans hword
    next rest' h' =>
      rw [h'] at hproto
      have hbody := Expr.parse_suffix d rest'
      split
      next h'' => rw [h''] at hbody; exact (hbody.trans hproto).trans hword
      next h'' => rw [h''] at hbody; exact (hbody.trans hproto).trans hword

theorem Prototype.parseDeclaration_suffix (ts : List Token) :
    (Prototype.parseDeclaration ts).2 <:+ ts := by
  have hword := Token.expect_suffix .kwExtern .externWord ts
  unfold Prototype.parseDeclaration
  split
  next h => rw [h] at hword; exact hword
  next rest h => rw [h] at hword; exact (Prototype.parse_suffix rest).trans hword

/-- An expression as an item leaves what the expression leaves. -/
theorem Item.parseExpression_rest (d : Dialect) (ts : List Token) :
    (Item.parseExpression d ts).2 = (Expr.parse d ts).2 := by
  unfold Item.parseExpression
  split
  next h => rw [h]
  next h => rw [h]

theorem Item.parse_suffix (d : Dialect) (ts : List Token) : (Item.parse d ts).2 <:+ ts := by
  unfold Item.parse
  split
  · have h := Definition.parse_suffix d ts
    split
    next he => rw [he] at h; exact h
    next he => rw [he] at h; exact h
  · have h := Prototype.parseDeclaration_suffix ts
    split
    next he => rw [he] at h; exact h
    next he => rw [he] at h; exact h
  · rw [Item.parseExpression_rest]
    exact Expr.parse_suffix d ts

/-! ## Every item takes a token -/

/-- The word that opens an item is taken, so what is left is shorter. -/
theorem Definition.parse_length_lt {d : Dialect} {ts rest : List Token} {f : Definition}
    (h : Definition.parse d ts = (.ok f, rest)) : rest.length < ts.length := by
  unfold Definition.parse at h
  split at h
  · cases h
  next rest₁ hword =>
    have hlt := Token.expect_length_lt hword
    have hproto := (Prototype.parse_suffix rest₁).length_le
    split at h
    · cases h
    next rest₂ hp =>
      rw [hp] at hproto
      have hbody := (Expr.parse_suffix d rest₂).length_le
      split at h
      · cases h
      next hb =>
        rw [hb] at hbody
        cases h
        exact Nat.lt_of_le_of_lt (Nat.le_trans hbody hproto) hlt

theorem Prototype.parseDeclaration_length_lt {ts rest : List Token} {p : Prototype}
    (h : Prototype.parseDeclaration ts = (.ok p, rest)) : rest.length < ts.length := by
  unfold Prototype.parseDeclaration at h
  split at h
  · cases h
  next rest₁ hword =>
    have hproto := (Prototype.parse_suffix rest₁).length_le
    rw [h] at hproto
    exact Nat.lt_of_le_of_lt hproto (Token.expect_length_lt hword)

theorem Item.parseExpression_length_lt {d : Dialect} {ts rest : List Token} {i : Item}
    (h : Item.parseExpression d ts = (.ok i, rest)) : rest.length < ts.length := by
  unfold Item.parseExpression at h
  split at h
  · cases h
  next he => cases h; exact Expr.parse_length_lt he

theorem Item.parse_length_lt {d : Dialect} {ts rest : List Token} {i : Item}
    (h : Item.parse d ts = (.ok i, rest)) : rest.length < ts.length := by
  unfold Item.parse at h
  split at h
  · split at h
    · cases h
    next hf => cases h; exact Definition.parse_length_lt hf
  · split at h
    · cases h
    next hp => cases h; exact Prototype.parseDeclaration_length_lt hp
  · exact Item.parseExpression_length_lt h

theorem Token.length_dropWhile_le (p : Token → Bool) (ts : List Token) :
    (ts.dropWhile p).length ≤ ts.length :=
  (List.dropWhile_sublist p).length_le

/-- After a failure at least one token is skipped. -/
theorem Token.resume_length_lt {start rest : List Token} (hne : Token.atEnd start = false)
    (h : rest <:+ start) : (Token.resume start rest).length < start.length := by
  have hpos : 0 < start.length := by
    cases start with
    | nil => cases hne
    | cons => exact Nat.zero_lt_succ _
  refine Nat.lt_of_le_of_lt (Token.length_dropWhile_le _ _) ?_
  split
  · rw [List.length_tail]; omega
  · exact Nat.lt_of_le_of_ne h.length_le ‹_›

theorem Item.parse_resume_length_lt {d : Dialect} {start rest : List Token}
    {r : Except ParseError Item} (h : Item.parse d start = (r, rest))
    (hne : Token.atEnd start = false) : (Token.resume start rest).length < start.length := by
  have hs := Item.parse_suffix d start
  rw [h] at hs
  exact Token.resume_length_lt hne hs

/-! ## The two readings -/

namespace Item

/-- Reads all items, up to the first failure. -/
def parseAll (d : Dialect) (ts : List Token) : Except ParseError (List Item) :=
  let start := Token.skipSeparators ts
  if Token.atEnd start then .ok []
  else
    match h : parse d start with
    | (.error err, _) => .error err
    | (.ok i, rest) =>
      have := Nat.lt_of_lt_of_le (parse_length_lt h) (Token.length_dropWhile_le _ ts)
      match parseAll d rest with
      | .ok items => .ok (i :: items)
      | .error err => .error err
termination_by ts.length

/-- What stands where an item should: the tokens from its first on, and the item or why there is
none. -/
structure Reading where
  start : List Token
  item : Except ParseError Item

/-- The first token of a reading. -/
def Reading.first (r : Reading) : Token :=
  Token.current r.start

/-- Reads items one by one, going on after failures. -/
def readings (d : Dialect) (ts : List Token) : List Reading :=
  let start := Token.skipSeparators ts
  if hend : Token.atEnd start then []
  else
    match h : parse d start with
    | (.error err, rest) =>
      have := Nat.lt_of_lt_of_le (parse_resume_length_lt h (Bool.eq_false_iff.mpr hend))
        (Token.length_dropWhile_le _ ts)
      ⟨start, .error err⟩ :: readings d (Token.resume start rest)
    | (.ok i, rest) =>
      have := Nat.lt_of_lt_of_le (parse_length_lt h) (Token.length_dropWhile_le _ ts)
      ⟨start, .ok i⟩ :: readings d rest
termination_by ts.length

end Item

end PoseLang
