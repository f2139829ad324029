import PoseLang.Item.Parser

/-!
# One token ahead

What a rule of the grammar does is decided by the tokens that it takes and by the first one that it
leaves (`Token.OneAhead`): with other tokens behind that one it takes the same tokens and comes to the
same result, be it a failure or not. Rules in sequence look no further than the last of them, because
what the first one leaves begins with what the second one takes or looks at (`Token.Decided.andThen`).
So every rule is of this kind, and for an item that is read at a position of the tokens it makes no
difference what is in front of that position, nor what is behind the one where reading stops
(`Item.parseAt_lookahead`).
-/

namespace PoseLang

/-! ## Rules that look one token ahead -/

namespace Token

/-- A rule of the grammar: what it makes of the tokens in front, and the tokens that it leaves. -/
abbrev Rule (α : Type) :=
  List Token → Except ParseError α × List Token

section

variable {α β : Type}

/-- Of some tokens a rule takes a few, and it does the same wherever it finds these and behind them the
first of those that it leaves here. -/
def Decided (rule : Rule α) (ts : List Token) : Prop :=
  ∃ used, ts = used ++ (rule ts).2 ∧
    ∀ rest, rest.head? = (rule ts).2.head? → rule (used ++ rest) = ((rule ts).1, rest)

/-- A rule looks at the first token that it leaves, and at none behind it. -/
def OneAhead (rule : Rule α) : Prop :=
  ∀ ts, Decided rule ts

/-- A rule, and behind it another one that may depend on what the first one reads. -/
def andThen (first : Rule α) (next : α → Rule β) : Rule β := fun ts =>
  match first ts with
  | (.error err, rest) => (.error err, rest)
  | (.ok a, rest) => next a rest

/-- What is seen in front is seen also behind some tokens that are put before it. -/
theorem head?_append_congr {rest rest' : List Token} (h : rest'.head? = rest.head?)
    (used : List Token) : (used ++ rest').head? = (used ++ rest).head? := by
  rw [List.head?_append, List.head?_append, h]

/-- A rule that takes no token and looks at none. -/
theorem oneAhead_const (result : Except ParseError α) : OneAhead fun ts => (result, ts) :=
  fun _ => ⟨[], rfl, fun _ _ => rfl⟩

namespace Decided

variable {rule : Rule α} {t : Token} {ts : List Token}

theorem nil (h : (rule []).2 = []) : Decided rule [] := by
  refine ⟨[], h.symm, fun rest hrest => ?_⟩
  rw [h] at hrest
  obtain rfl := List.head?_eq_none_iff.mp hrest
  exact Prod.ext rfl h

/-- The token in front is taken, and another rule goes on. -/
theorem shift {next : Rule α} (h : ∀ more, rule (t :: more) = next more) (hnext : Decided next ts) :
    Decided rule (t :: ts) := by
  obtain ⟨used, hts, hdecided⟩ := hnext
  refine ⟨t :: used, ?_, fun rest hrest => ?_⟩
  · rw [h, List.cons_append, ← hts]
  · rw [h] at hrest ⊢
    exact (h (used ++ rest)).trans (hdecided rest hrest)

/-- The token in front is taken, and that is all. -/
theorem take {result : Except ParseError α} (h : ∀ more, rule (t :: more) = (result, more)) :
    Decided rule (t :: ts) :=
  shift h (oneAhead_const result ts)

/-- The token in front decides, and is left. -/
theorem leave {result : Except ParseError α} (h : ∀ more, rule (t :: more) = (result, t :: more)) :
    Decided rule (t :: ts) := by
  refine ⟨[], by rw [h, List.nil_append], fun rest hrest => ?_⟩
  rw [h] at hrest ⊢
  obtain ⟨more, rfl⟩ := List.head?_eq_some_iff.mp hrest
  exact h more

theorem andThen {next : α → Rule β} (h : Decided rule ts) (hnext : ∀ a, OneAhead (next a)) :
    Decided (Token.andThen rule next) ts := by
  obtain ⟨used, hts, hdecided⟩ := h
  unfold Decided Token.andThen
  cases hrule : rule ts with
  | mk result rest =>
    rw [hrule] at hts hdecided
    cases result with
    | error err =>
      refine ⟨used, hts, fun rest' hrest' => ?_⟩
      rw [hdecided rest' hrest']
    | ok a =>
      obtain ⟨used', hrest, hdecided'⟩ := hnext a rest
      refine ⟨used ++ used', ?_, fun rest' hrest' => ?_⟩
      · rw [List.append_assoc, ← hrest]
        exact hts
      · -- The first rule sees what the second one takes, or what that one looks at.
        have hseen : (used' ++ rest').head? = rest.head? := by
          rw [head?_append_congr hrest' used', ← hrest]
        rw [List.append_assoc, hdecided _ hseen]
        exact hdecided' rest' hrest'

end Decided

theorem OneAhead.andThen {rule : Rule α} {next : α → Rule β} (h : OneAhead rule)
    (hnext : ∀ a, OneAhead (next a)) : OneAhead (Token.andThen rule next) :=
  fun ts => (h ts).andThen hnext

/-- A rule that is chosen by the token in front. -/
theorem OneAhead.choose {rule : Token → Rule α} (h : ∀ t, OneAhead (rule t)) :
    OneAhead fun ts => rule (current ts) ts := by
  intro ts
  obtain ⟨used, hts, hdecided⟩ := h (current ts) ts
  refine ⟨used, hts, fun rest' hrest' => ?_⟩
  have hcurrent : current (used ++ rest') = current ts := by
    rw [current, List.headD_eq_head?_getD, head?_append_congr hrest' used, ← hts,
      ← List.headD_eq_head?_getD, current]
  dsimp only
  rw [hcurrent]
  exact hdecided rest' hrest'

end

theorem oneAhead_expect (kind : Kind) (wanted : Expectation) : OneAhead (expect kind wanted) := by
  intro ts
  cases ts with
  | nil => exact .nil rfl
  | cons t ts =>
    by_cases ht : t.kind = kind
    · exact .take fun more => by rw [expect, if_pos ht]
    · exact .leave fun more => by rw [expect, if_neg ht]

end Token

open Token (OneAhead andThen)

/-! ## The rules of the grammar -/

theorem Expr.oneAhead_parseFrom (d : Dialect) (phase : Phase) (stack : List Frame) :
    OneAhead (parseFrom d phase stack) := by
  intro ts
  induction ts generalizing phase stack with
  | nil => exact .nil (List.eq_nil_of_suffix_nil (parseFrom_suffix d phase stack []))
  | cons t ts ih =>
    cases hmove : move d phase stack t with
    | shift phase' stack' => exact .shift (fun more => by rw [parseFrom, hmove]) (ih phase' stack')
    | done e => exact .leave fun more => by rw [parseFrom, hmove]
    | refuse err => exact .leave fun more => by rw [parseFrom, hmove]
    | reject err => exact .take fun more => by rw [parseFrom, hmove]

theorem Expr.oneAhead_parse (d : Dialect) : OneAhead (parse d) :=
  oneAhead_parseFrom d .operand []

namespace Prototype

/-- Behind a parameter the other ones are read. -/
theorem parseParams_cons {t : Token} (ht : t.kind = .identifier) (ts : List Token) :
    parseParams (t :: ts) =
      andThen parseParams (fun names ts => (.ok (t.name :: names), ts)) ts := by
  rw [parseParams, if_pos ht, andThen]
  grind

theorem oneAhead_parseParams : OneAhead parseParams := by
  intro ts
  induction ts with
  | nil => exact .nil rfl
  | cons t ts ih =>
    by_cases hname : t.kind = .identifier
    · exact .shift (parseParams_cons hname) (ih.andThen fun _ => Token.oneAhead_const _)
    · by_cases hclose : t.kind = .rightParen
      · exact .take fun more => by rw [parseParams, if_neg hname, if_pos hclose]
      · exact .leave fun more => by rw [parseParams, if_neg hname, if_neg hclose]

/-- The rules of a prototype, one after the other. -/
theorem parse_eq : parse = andThen (Token.expect .identifier .functionName) fun t =>
    if t.name = anonymousName then fun ts => (.error (.reservedName t.location), ts)
    else andThen (Token.expect .leftParen .parametersOpen) fun _ =>
      andThen parseParams fun params ts => (.ok ⟨t.name, params, t.location⟩, ts) := by
  funext ts
  grind [parse, andThen]

theorem oneAhead_parse : OneAhead parse := by
  rw [parse_eq]
  refine (Token.oneAhead_expect _ _).andThen fun t => ?_
  split
  · exact Token.oneAhead_const _
  · refine (Token.oneAhead_expect _ _).andThen fun _ => ?_
    exact oneAhead_parseParams.andThen fun _ => Token.oneAhead_const _

theorem parseDeclaration_eq :
    parseDeclaration = andThen (Token.expect .kwExtern .externWord) fun _ => parse := by
  funext ts
  grind [parseDeclaration, andThen]

theorem oneAhead_parseDeclaration : OneAhead parseDeclaration := by
  rw [parseDeclaration_eq]
  exact (Token.oneAhead_expect _ _).andThen fun _ => oneAhead_parse

end Prototype

namespace Definition

theorem parse_eq (d : Dialect) : parse d = andThen (Token.expect .kwDef .defWord) fun _ =>
    andThen Prototype.parse fun proto =>
      andThen (Expr.parse d) fun body ts => (.ok ⟨proto, body⟩, ts) := by
  funext ts
  grind [parse, andThen]

theorem oneAhead_parse (d : Dialect) : OneAhead (parse d) := by
  rw [parse_eq]
  refine (Token.oneAhead_expect _ _).andThen fun _ => ?_
  refine Prototype.oneAhead_parse.andThen fun proto => ?_
  exact (Expr.oneAhead_parse d).andThen fun _ => Token.oneAhead_const _

end Definition

namespace Item

/-- The rule of an item whose first token is known. -/
def parseBy (d : Dialect) (t : Token) : Token.Rule Item :=
  if t.kind = .kwDef then andThen (Definition.parse d) fun f ts => (.ok (.definition f), ts)
  else if t.kind = .kwExtern then
    andThen Prototype.parseDeclaration fun p ts => (.ok (.declaration p), ts)
  else andThen (Expr.parse d) fun body ts => (.ok (.expression t.location body), ts)

theorem parse_eq (d : Dialect) : parse d = fun ts => parseBy d (Token.current ts) ts := by
  funext ts
  unfold parse parseBy
  split
  next hdef =>
    rw [if_pos hdef]
    grind [andThen]
  next hdeclared =>
    rw [if_neg (by rw [hdeclared]; decide), if_pos hdeclared]
    grind [andThen]
  next hdef hdeclared =>
    rw [if_neg hdef, if_neg hdeclared]
    grind [andThen, parseExpression]

theorem oneAhead_parse (d : Dialect) : OneAhead (parse d) := by
  rw [parse_eq]
  refine .choose fun t => ?_
  unfold parseBy
  split
  · exact (Definition.oneAhead_parse d).andThen fun _ => Token.oneAhead_const _
  · split
    · exact Prototype.oneAhead_parseDeclaration.andThen fun _ => Token.oneAhead_const _
    · exact (Expr.oneAhead_parse d).andThen fun _ => Token.oneAhead_const _

/-! ## Positions -/

/-- Reads an item at a position of the tokens, and gives the position at which reading stops. -/
def parseAt (d : Dialect) (ts : List Token) (start : Nat) : Except ParseError Item × Nat :=
  let (result, rest) := parse d (ts.drop start)
  (result, start + ((ts.drop start).length - rest.length))

end Item

/-- Tokens that agree with others on those that are taken at a position. -/
theorem Token.drop_eq_append {ts us used rest : List Token} {start : Nat}
    (h : ts.drop start = used ++ rest)
    (hagree : ∀ i, start ≤ i → i < start + used.length → us[i]? = ts[i]?) :
    us.drop start = used ++ us.drop (start + used.length) := by
  have htaken : (us.drop start).take used.length = used := by
    apply List.ext_getElem?
    intro i
    rw [List.getElem?_take]
    split
    next hi =>
      have hsame : us[start + i]? = ts[start + i]? := hagree _ (by omega) (by omega)
      rw [List.getElem?_drop, hsame, ← List.getElem?_drop, h, List.getElem?_append_left hi]
    next hi => rw [List.getElem?_eq_none (Nat.le_of_not_lt hi)]
  calc us.drop start
    _ = (us.drop start).take used.length ++ (us.drop start).drop used.length :=
      (List.take_append_drop _ _).symm
    _ = used ++ us.drop (start + used.length) := by rw [htaken, List.drop_drop]

namespace Item

/-- Reading stops behind the tokens that are taken. -/
theorem parseAt_eq {d : Dialect} {ts used rest : List Token} {start : Nat}
    {result : Except ParseError Item} (hts : ts.drop start = used ++ rest)
    (h : parse d (used ++ rest) = (result, rest)) :
    parseAt d ts start = (result, start + used.length) := by
  rw [parseAt, hts, h]
  simp

/-- An item is read one token ahead: on tokens that agree with others from where reading starts up to and
with where it stops, or end there as they do, the same item is read or the same failure found, and reading
stops at the same position, whatever is in front and whatever is behind. -/
theorem parseAt_lookahead {d : Dialect} {ts us : List Token} {start stop : Nat}
    {result : Except ParseError Item} (h : parseAt d ts start = (result, stop))
    (hagree : ∀ i, start ≤ i → i ≤ stop → us[i]? = ts[i]?) :
    parseAt d us start = (result, stop) := by
  obtain ⟨used, hts, hdecided⟩ := oneAhead_parse d (ts.drop start)
  have hread := hdecided _ rfl
  have hstop := (parseAt_eq hts hread).symm.trans h
  cases hstop
  have hus := Token.drop_eq_append hts fun i hle hlt => hagree i hle (Nat.le_of_lt hlt)
  have hrest : ts.drop (start + used.length) = (parse d (ts.drop start)).2 := by
    rw [← List.drop_drop]
    exact (congrArg (List.drop used.length) hts).trans List.drop_left
  -- Where reading stops, both have the same token in front, or none.
  have hahead : (us.drop (start + used.length)).head? = (parse d (ts.drop start)).2.head? := by
    rw [← hrest, List.head?_drop, List.head?_drop]
    exact hagree _ (Nat.le_add_right _ _) (Nat.le_refl _)
  exact parseAt_eq hus (hdecided _ hahead)

/-- An argument with a definition right behind it, among other tokens. -/
def unclosedCall (front behind : List Token) : List Token :=
  front ++ { kind := .leftParen } :: { kind := .identifier, text := some "f" } ::
    { kind := .leftParen } :: { kind := .number, value := some 1 } :: { kind := .kwDef } :: behind

theorem parseAt_lookahead_unclosedCall :
    let failure := ParseError.unexpected .argumentEnd { kind := .kwDef }
    parseAt .standard (unclosedCall [{ kind := .kwIn }] [{ kind := .comma }]) 1 =
        (.error failure, 5) ∧
      parseAt .standard (unclosedCall [{ kind := .kwElse }] []) 1 = (.error failure, 5) := by
  have hread : parseAt .standard (unclosedCall [{ kind := .kwIn }] [{ kind := .comma }]) 1 =
      (.error (.unexpected .argumentEnd { kind := .kwDef }), 5) := rfl
  refine ⟨hread, parseAt_lookahead hread fun i hle hge => ?_⟩
  obtain rfl | rfl | rfl | rfl | rfl : i = 1 ∨ i = 2 ∨ i = 3 ∨ i = 4 ∨ i = 5 := by omega
  all_goals rfl

end Item

end PoseLang
