import PoseLang.Dialect
import PoseLang.Expr.Basic

/-!
# Sentences and their trees

The grammar of expressions as a relation between tokens and trees, apart from any parser. An expression
is a chain of primaries with binary operators between them. Its tree lists primaries and operators in
the order of the tokens; of two operators the looser one is nearer to the root, and among equal ones the
later one. Parentheses leave nothing in the tree.

A conditional and a loop end with an expression, and the operators behind them belong to it. So they
stand last in their chain, which is what `Ending` keeps apart.
-/

namespace PoseLang

/-! ## Operators among the tokens -/

theorem Operators.binary?_eq_none {ops : Operators} {t : Token} (h : t.kind ≠ .operator) :
    ops.binary? t = none := by
  have hsymbol : t.symbol? = none := by
    unfold Token.symbol?
    split
    next hkind _ => exact absurd hkind h
    next => rfl
  rw [Operators.binary?, hsymbol]

theorem Operators.kind_of_binary? {ops : Operators} {t : Token} {op : Char} {p : Int32}
    (h : ops.binary? t = some (op, p)) : t.kind = .operator := by
  apply Decidable.byContradiction
  intro hkind
  rw [binary?_eq_none hkind] at h
  cases h

namespace Expr

/-! ## The grammar -/

/-- How a primary or a chain ends. -/
inductive Ending where
  /-- With a token of its own, behind which an operator may follow. -/
  | closed
  /-- With an expression that takes in the operators behind it. -/
  | trailing
deriving DecidableEq

mutual

/-- The tokens of a primary, and its tree. -/
inductive Primary (d : Dialect) : Ending → List Token → Expr → Prop
  | num {t : Token} {x : Float} (ht : t.kind = .number) (hx : t.value = some x) :
    Primary d .closed [t] (.num t.location x)
  | var {t : Token} (ht : t.kind = .identifier) :
    Primary d .closed [t] (.var t.location t.name)
  | call {t l r : Token} {cs : List Token} {es : List Expr} (ht : t.kind = .identifier)
    (hl : l.kind = .leftParen) (hargs : Arguments d cs es) (hr : r.kind = .rightParen)
    (hplain : d.records[t.name]? = none) :
    Primary d .closed (t :: l :: cs ++ [r]) (.call t.location t.name es)
  /-- A call of a record's name gives each of its fields a value, in order. -/
  | record {t l r : Token} {cs : List Token} {es : List Expr} {layout : Layout}
    (ht : t.kind = .identifier) (hl : l.kind = .leftParen) (hargs : Arguments d cs es)
    (hr : r.kind = .rightParen) (hrecord : d.records[t.name]? = some layout)
    (hwidth : es.length = layout.width) :
    Primary d .closed (t :: l :: cs ++ [r])
      (.construct t.location (.alloc t.location t.name) ((List.range layout.width).zip es))
  | group {l r : Token} {cs : List Token} {ending : Ending} {ps : List Int32} {e : Expr}
    (hl : l.kind = .leftParen) (he : Chain d ending cs ps e) (hr : r.kind = .rightParen) :
    Primary d .closed (l :: cs ++ [r]) e
  | cond {i t f : Token} {cs ts fs : List Token} {ec et ef : Ending} {pc pt pf : List Int32}
    {c th el : Expr} (hi : i.kind = .kwIf) (hc : Chain d ec cs pc c) (ht : t.kind = .kwThen)
    (hth : Chain d et ts pt th) (hf : f.kind = .kwElse) (hel : Chain d ef fs pf el) :
    Primary d .trailing (i :: cs ++ t :: ts ++ f :: fs) (.cond i.location c th el)
  | loop {f x q c n : Token} {ss ts us bs : List Token} {es et eb : Ending}
    {ps pt pb : List Int32} {s test b : Expr} {step : Option Expr} (hf : f.kind = .kwFor)
    (hx : x.kind = .identifier) (hq : q.kind = .equal) (hs : Chain d es ss ps s)
    (hc : c.kind = .comma) (htest : Chain d et ts pt test) (hstep : StepPart d us step)
    (hn : n.kind = .kwIn) (hb : Chain d eb bs pb b) :
    Primary d .trailing (f :: x :: q :: ss ++ c :: ts ++ us ++ n :: bs)
      (.loop f.location x.name s test step b)

/-- The tokens of a chain, the precedences of its operators in order, and its tree. The operators on
the left of one bind at least as tightly as it does, and those on the right of it more tightly. -/
inductive Chain (d : Dialect) : Ending → List Token → List Int32 → Expr → Prop
  | single {ending : Ending} {cs : List Token} {e : Expr} (he : Primary d ending cs e) :
    Chain d ending cs [] e
  | link {ending : Ending} {ls rs : List Token} {t : Token} {ps qs : List Int32} {op : Char}
    {p : Int32} {l r : Expr} (hl : Chain d .closed ls ps l)
    (ht : d.operators.binary? t = some (op, p)) (hr : Chain d ending rs qs r)
    (hleft : ∀ q ∈ ps, p ≤ q) (hright : ∀ q ∈ qs, p < q) :
    Chain d ending (ls ++ t :: rs) (ps ++ p :: qs) (.binary t.location op l r)

/-- The tokens between the parentheses of a call, and the arguments. -/
inductive Arguments (d : Dialect) : List Token → List Expr → Prop
  | none : Arguments d [] []
  | some {cs us : List Token} {es : List Expr} {ending : Ending} {ps : List Int32} {e : Expr}
    (hcs : Leading d cs es) (he : Chain d ending us ps e) : Arguments d (cs ++ us) (es ++ [e])

/-- The tokens of arguments that each have a comma behind them. -/
inductive Leading (d : Dialect) : List Token → List Expr → Prop
  | nil : Leading d [] []
  | snoc {cs us : List Token} {es : List Expr} {ending : Ending} {ps : List Int32} {e : Expr}
    {c : Token} (hcs : Leading d cs es) (he : Chain d ending us ps e) (hc : c.kind = .comma) :
    Leading d (cs ++ us ++ [c]) (es ++ [e])

/-- The tokens of a loop's step with the comma in front of it, or none if it has no step. -/
inductive StepPart (d : Dialect) : List Token → Option Expr → Prop
  | none : StepPart d [] none
  | some {c : Token} {us : List Token} {ending : Ending} {ps : List Int32} {e : Expr}
    (hc : c.kind = .comma) (he : Chain d ending us ps e) : StepPart d (c :: us) (some e)

end

/-- The tokens of an expression, and its tree. -/
def Sentence (d : Dialect) (cs : List Token) (e : Expr) : Prop :=
  ∃ ending ps, Chain d ending cs ps e

/-- The operators of a chain bind at least as tightly as the one at its root. -/
theorem le_of_mem_link {ps qs : List Int32} {p : Int32} (hleft : ∀ q ∈ ps, p ≤ q)
    (hright : ∀ q ∈ qs, p < q) : ∀ q ∈ ps ++ p :: qs, p ≤ q := by
  intro q hq
  rcases List.mem_append.mp hq with hq | hq
  · exact hleft q hq
  · rcases List.mem_cons.mp hq with rfl | hq
    · exact Int32.le_refl q
    · exact Int32.le_of_lt (hright q hq)

end Expr

end PoseLang
