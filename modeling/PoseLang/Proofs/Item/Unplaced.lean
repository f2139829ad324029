import PoseLang.Proofs.Expr.Unplaced
import PoseLang.Proofs.Item.Reading

/-!
# Reading items without places

No rule for items looks at a place either, and neither does what goes on after a failure. So the readings
of tokens without places are the readings of the tokens, without their places.
-/

namespace PoseLang

open Token (unplacedReading)

/-- A prototype without its place. -/
def Prototype.unplaced (p : Prototype) : Prototype :=
  { p with location := none }

/-- A definition without places. -/
def Definition.unplaced (d : Definition) : Definition :=
  ⟨d.proto.unplaced, d.body.unplaced⟩

/-- An item without places. -/
def Item.unplaced : Item → Item
  | .definition d => .definition d.unplaced
  | .declaration p => .declaration p.unplaced
  | .expression _ body => .expression none body.unplaced

/-- A reading without places. -/
def Item.Reading.unplaced (r : Item.Reading) : Item.Reading :=
  ⟨r.start.map Token.unplaced, (r.item.map Item.unplaced).mapError ParseError.unplaced⟩

@[simp] theorem Token.current_unplaced (ts : List Token) :
    Token.current (ts.map Token.unplaced) = (Token.current ts).unplaced := by
  cases ts <;> rfl

/-! ## One item -/

theorem Token.expect_unplaced (kind : Token.Kind) (wanted : Expectation) (ts : List Token) :
    Token.expect kind wanted (ts.map Token.unplaced) =
      unplacedReading Token.unplaced (Token.expect kind wanted ts) := by
  cases ts with
  | nil => rfl
  | cons t ts =>
    rw [List.map_cons, Token.expect, Token.expect, Token.kind_unplaced]
    by_cases hkind : t.kind = kind
    · rw [if_pos hkind, if_pos hkind]
      rfl
    · rw [if_neg hkind, if_neg hkind]
      rfl

theorem Prototype.parseParams_unplaced (ts : List Token) :
    Prototype.parseParams (ts.map Token.unplaced) =
      unplacedReading id (Prototype.parseParams ts) := by
  induction ts with
  | nil => rfl
  | cons t ts ih =>
    rw [List.map_cons, parseParams, parseParams, ih, Token.kind_unplaced]
    split
    · rcases parseParams ts with ⟨names | err, rest⟩ <;> rfl
    · split <;> rfl

theorem Prototype.parse_unplaced (ts : List Token) :
    Prototype.parse (ts.map Token.unplaced) =
      unplacedReading Prototype.unplaced (Prototype.parse ts) := by
  rw [parse, parse, Token.expect_unplaced]
  rcases Token.expect .identifier .functionName ts with ⟨err | t, rest⟩
  · rfl
  · dsimp only [unplacedReading, Except.map, mapError_ok]
    rw [Token.name_unplaced, Token.expect_unplaced]
    split
    · rfl
    · rcases Token.expect .leftParen .parametersOpen rest with ⟨err | _, rest⟩
      · rfl
      · dsimp only [unplacedReading, Except.map, mapError_ok]
        rw [parseParams_unplaced]
        rcases parseParams rest with ⟨err | params, rest⟩ <;> rfl

theorem Definition.parse_unplaced (d : Dialect) (ts : List Token) :
    Definition.parse d (ts.map Token.unplaced) =
      unplacedReading Definition.unplaced (Definition.parse d ts) := by
  rw [parse, parse, Token.expect_unplaced]
  rcases Token.expect .kwDef .defWord ts with ⟨err | _, rest⟩
  · rfl
  · dsimp only [unplacedReading, Except.map, mapError_ok]
    rw [Prototype.parse_unplaced]
    rcases Prototype.parse rest with ⟨err | proto, rest⟩
    · rfl
    · dsimp only [unplacedReading, Except.map, mapError_ok]
      rw [Expr.parse_unplaced]
      rcases Expr.parse d rest with ⟨err | body, rest⟩ <;> rfl

theorem Prototype.parseDeclaration_unplaced (ts : List Token) :
    Prototype.parseDeclaration (ts.map Token.unplaced) =
      unplacedReading Prototype.unplaced (Prototype.parseDeclaration ts) := by
  rw [parseDeclaration, parseDeclaration, Token.expect_unplaced]
  rcases Token.expect .kwExtern .externWord ts with ⟨err | _, rest⟩
  · rfl
  · exact Prototype.parse_unplaced rest

theorem Item.parseExpression_unplaced (d : Dialect) (ts : List Token) :
    Item.parseExpression d (ts.map Token.unplaced) =
      unplacedReading Item.unplaced (Item.parseExpression d ts) := by
  rw [parseExpression, parseExpression, Expr.parse_unplaced, Token.current_unplaced]
  rcases Expr.parse d ts with ⟨err | body, rest⟩ <;> rfl

theorem Item.parse_unplaced (d : Dialect) (ts : List Token) :
    Item.parse d (ts.map Token.unplaced) = unplacedReading Item.unplaced (Item.parse d ts) := by
  rw [parse, parse, Token.current_unplaced, Token.kind_unplaced]
  split
  · rw [Definition.parse_unplaced]
    rcases Definition.parse d ts with ⟨err | f, rest⟩ <;> rfl
  · rw [Prototype.parseDeclaration_unplaced]
    rcases Prototype.parseDeclaration ts with ⟨err | p, rest⟩ <;> rfl
  · exact Item.parseExpression_unplaced d ts

/-! ## One item after another -/

namespace Token

variable (ts : List Token)

theorem skipSeparators_unplaced :
    skipSeparators (ts.map unplaced) = (skipSeparators ts).map unplaced :=
  List.dropWhile_map

theorem atEnd_unplaced : atEnd (ts.map unplaced) = atEnd ts := by
  rw [atEnd, atEnd, current_unplaced, kind_unplaced]

theorem resume_unplaced (rest : List Token) :
    resume (ts.map unplaced) (rest.map unplaced) = (resume ts rest).map unplaced := by
  unfold resume
  rw [List.length_map, List.length_map]
  dsimp only
  split
  · rw [← List.map_tail]
    exact List.dropWhile_map
  · exact List.dropWhile_map

end Token

theorem Item.readings_unplaced (d : Dialect) (ts : List Token) :
    Item.readings d (ts.map Token.unplaced) = (Item.readings d ts).map Item.Reading.unplaced := by
  fun_induction Item.readings d ts with
  | case1 ts start hend =>
    refine Item.readings_of_atEnd ?_
    rw [Token.skipSeparators_unplaced, Token.atEnd_unplaced]
    exact hend
  | case2 ts start hend err rest hparse hlt ih =>
    have hread := Item.parse_unplaced d start
    rw [hparse, ← Token.skipSeparators_unplaced] at hread
    rw [Item.readings_of_error ?_ hread, List.map_cons, ← ih, Token.skipSeparators_unplaced,
      Token.resume_unplaced]
    · rfl
    · rw [Token.skipSeparators_unplaced, Token.atEnd_unplaced]
      exact hend
  | case3 ts start hend i rest hparse hlt ih =>
    have hread := Item.parse_unplaced d start
    rw [hparse, ← Token.skipSeparators_unplaced] at hread
    rw [Item.readings_of_ok ?_ hread, List.map_cons, ← ih, Token.skipSeparators_unplaced]
    · rfl
    · rw [Token.skipSeparators_unplaced, Token.atEnd_unplaced]
      exact hend

end PoseLang
