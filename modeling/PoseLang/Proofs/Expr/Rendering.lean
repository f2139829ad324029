import PoseLang.Proofs.Expr.Complete

/-!
# Reading undoes writing

A tree is written as tokens with parentheses at least where the grouping of operators needs them, and
with any others (`Renders`). Every way of writing a tree is a sentence of the grammar with this tree, up
to places, so the parser gives the tree back.
-/

namespace PoseLang

/-- The precedence of a character, zero if it is no operator. -/
def Dialect.precedence (d : Dialect) (op : Char) : Int32 :=
  d.operators[op]?.getD 0

theorem Dialect.operators_of_precedence {d : Dialect} {op : Char} (h : 0 < d.precedence op) :
    d.operators[op]? = some (d.precedence op) := by
  unfold precedence at h ⊢
  cases hop : d.operators[op]? with
  | none =>
    rw [hop] at h
    exact absurd h (by decide)
  | some p => rfl

theorem Operators.binary?_of_symbol? {ops : Operators} {t : Token} {op : Char} {p : Int32}
    (ht : t.symbol? = some op) (hop : ops[op]? = some p) (hp : 0 < p) :
    ops.binary? t = some (op, p) := by
  simp only [Operators.binary?, ht, hop, if_pos hp]

namespace Expr

variable {d : Dialect}

/-! ## Trees without places -/

mutual

/-- A tree without the places in it. -/
def unplaced : Expr → Expr
  | .num _ x => .num none x
  | .var _ name => .var none name
  | .binary _ op l r => .binary none op l.unplaced r.unplaced
  | .call _ f args => .call none f (unplacedArgs args)
  | .cond _ c t e => .cond none c.unplaced t.unplaced e.unplaced
  | .loop _ v s t st b => .loop none v s.unplaced t.unplaced (unplacedStep st) b.unplaced
  | .alloc _ r => .alloc none r
  | .construct _ dest fs => .construct none dest.unplaced (unplacedFields fs)

/-- Arguments without places. -/
def unplacedArgs : List Expr → List Expr
  | [] => []
  | e :: es => e.unplaced :: unplacedArgs es

/-- A step without places. -/
def unplacedStep : Option Expr → Option Expr
  | none => none
  | some e => some e.unplaced

/-- Field values without places. -/
def unplacedFields : List (Nat × Expr) → List (Nat × Expr)
  | [] => []
  | (i, e) :: fs => (i, e.unplaced) :: unplacedFields fs

end

theorem unplacedArgs_eq (es : List Expr) : unplacedArgs es = es.map unplaced := by
  induction es with
  | nil => rfl
  | cons e es ih => rw [unplacedArgs, ih, List.map_cons]

theorem unplacedFields_zip (is : List Nat) (es : List Expr) :
    unplacedFields (is.zip es) = is.zip (es.map unplaced) := by
  induction is generalizing es with
  | nil => rfl
  | cons i is ih =>
    cases es with
    | nil => rfl
    | cons e es => rw [List.zip_cons_cons, unplacedFields, ih, List.map_cons, List.zip_cons_cons]

theorem map_snd_range_zip {n : Nat} {es : List Expr} (h : es.length = n) :
    ((List.range n).zip es).map Prod.snd = es :=
  List.map_snd_zip (Nat.le_of_eq (h.trans List.length_range.symm))

/-! ## Trees that can be written -/

/-- The trees that have a written form: every operator is in use, no function that is called has the
name of a record, and records are built in fresh storage from a value for each field, in order. -/
inductive Writable (d : Dialect) : Expr → Prop
  | num {loc : Option Location} {x : Float} : Writable d (.num loc x)
  | var {loc : Option Location} {name : String} : Writable d (.var loc name)
  | binary {loc : Option Location} {op : Char} {l r : Expr} (hop : 0 < d.precedence op)
    (hl : Writable d l) (hr : Writable d r) : Writable d (.binary loc op l r)
  | call {loc : Option Location} {callee : String} {es : List Expr}
    (hplain : d.records[callee]? = none) (hes : ∀ e ∈ es, Writable d e) :
    Writable d (.call loc callee es)
  | cond {loc : Option Location} {c t e : Expr} (hc : Writable d c) (ht : Writable d t)
    (he : Writable d e) : Writable d (.cond loc c t e)
  | loop {loc : Option Location} {v : String} {s t b : Expr} {step : Option Expr}
    (hs : Writable d s) (ht : Writable d t) (hstep : ∀ e ∈ step, Writable d e)
    (hb : Writable d b) : Writable d (.loop loc v s t step b)
  | record {loc loc' : Option Location} {name : String} {layout : Layout} {es : List Expr}
    (hrecord : d.records[name]? = some layout) (hwidth : es.length = layout.width)
    (hes : ∀ e ∈ es, Writable d e) :
    Writable d (.construct loc (.alloc loc' name) ((List.range layout.width).zip es))

/-- Trees that end with an expression, and would take in the operators behind it. -/
def Trails : Expr → Prop
  | .cond .. | .loop .. => True
  | _ => False

/-- An operand that has to stand in parentheses: it ends with an expression, or it is a binary
operation whose precedence is too loose. -/
def NeedsGroup (d : Dialect) (loose : Int32 → Prop) (e : Expr) : Prop :=
  e.Trails ∨ ∃ loc op l r, e = .binary loc op l r ∧ loose (d.precedence op)

mutual

/-- A tree written as tokens, and whether all of it stands in parentheses. -/
inductive Renders (d : Dialect) : Bool → Expr → List Token → Prop
  | group {l r : Token} {grouped : Bool} {e : Expr} {cs : List Token} (hl : l.kind = .leftParen)
    (he : Renders d grouped e cs) (hr : r.kind = .rightParen) : Renders d true e (l :: cs ++ [r])
  | num {loc : Option Location} {x : Float} {t : Token} (ht : t.kind = .number)
    (hx : t.value = some x) : Renders d false (.num loc x) [t]
  | var {loc : Option Location} {t : Token} (ht : t.kind = .identifier) :
    Renders d false (.var loc t.name) [t]
  | binary {loc : Option Location} {op : Char} {l r : Expr} {gl gr : Bool} {ls rs : List Token}
    {t : Token} (hl : Renders d gl l ls) (hgl : NeedsGroup d (· < d.precedence op) l → gl = true)
    (ht : t.symbol? = some op) (hr : Renders d gr r rs)
    (hgr : NeedsGroup d (· ≤ d.precedence op) r → gr = true) :
    Renders d false (.binary loc op l r) (ls ++ t :: rs)
  | call {loc : Option Location} {es : List Expr} {t l r : Token} {cs : List Token}
    (ht : t.kind = .identifier) (hl : l.kind = .leftParen) (hes : RendersArgs d es cs)
    (hr : r.kind = .rightParen) : Renders d false (.call loc t.name es) (t :: l :: cs ++ [r])
  | record {loc loc' : Option Location} {fields : List (Nat × Expr)} {t l r : Token}
    {cs : List Token} (ht : t.kind = .identifier) (hl : l.kind = .leftParen)
    (hes : RendersArgs d (fields.map Prod.snd) cs) (hr : r.kind = .rightParen) :
    Renders d false (.construct loc (.alloc loc' t.name) fields) (t :: l :: cs ++ [r])
  | cond {loc : Option Location} {c th el : Expr} {gc gt ge : Bool} {i t f : Token}
    {cs ts fs : List Token} (hi : i.kind = .kwIf) (hc : Renders d gc c cs) (ht : t.kind = .kwThen)
    (hth : Renders d gt th ts) (hf : f.kind = .kwElse) (hel : Renders d ge el fs) :
    Renders d false (.cond loc c th el) (i :: cs ++ t :: ts ++ f :: fs)
  | loop {loc : Option Location} {s test b : Expr} {step : Option Expr} {gs gt gb : Bool}
    {f x q c n : Token} {ss ts us bs : List Token} (hf : f.kind = .kwFor)
    (hx : x.kind = .identifier) (hq : q.kind = .equal) (hs : Renders d gs s ss)
    (hc : c.kind = .comma) (htest : Renders d gt test ts) (hstep : RendersStep d step us)
    (hn : n.kind = .kwIn) (hb : Renders d gb b bs) :
    Renders d false (.loop loc x.name s test step b)
      (f :: x :: q :: ss ++ c :: ts ++ us ++ n :: bs)

/-- Arguments written with commas between them. -/
inductive RendersArgs (d : Dialect) : List Expr → List Token → Prop
  | none : RendersArgs d [] []
  | some {es : List Expr} {e : Expr} {grouped : Bool} {cs us : List Token}
    (hes : RendersLeading d es cs) (he : Renders d grouped e us) :
    RendersArgs d (es ++ [e]) (cs ++ us)

/-- Arguments written with a comma behind each of them. -/
inductive RendersLeading (d : Dialect) : List Expr → List Token → Prop
  | nil : RendersLeading d [] []
  | snoc {es : List Expr} {e : Expr} {grouped : Bool} {cs us : List Token} {c : Token}
    (hes : RendersLeading d es cs) (he : Renders d grouped e us) (hc : c.kind = .comma) :
    RendersLeading d (es ++ [e]) (cs ++ us ++ [c])

/-- A step written with a comma in front of it, if there is one. -/
inductive RendersStep (d : Dialect) : Option Expr → List Token → Prop
  | none : RendersStep d none []
  | some {e : Expr} {grouped : Bool} {c : Token} {us : List Token} (hc : c.kind = .comma)
    (he : Renders d grouped e us) : RendersStep d (some e) (c :: us)

end

/-! ## Written trees are sentences -/

/-- The tokens of a written tree are a chain with the same tree up to places. The chain has operators
only if the tree is a binary operation that does not stand in parentheses. -/
structure Written (d : Dialect) (grouped : Bool) (e : Expr) (ending : Ending) (cs : List Token)
    (ps : List Int32) (e' : Expr) : Prop where
  chain : Chain d ending cs ps e'
  same : e'.unplaced = e.unplaced
  operators : ∀ q ∈ ps, grouped = false ∧ ∃ loc op l r,
    e = .binary loc op l r ∧ d.precedence op ≤ q
  trailing : ending = .trailing → grouped = false ∧ e.Trails

section

variable {ending : Ending} {cs : List Token} {ps : List Int32} {e e' : Expr} {grouped : Bool}

theorem Written.of_closed (h : Primary d .closed cs e') (hsame : e'.unplaced = e.unplaced)
    (grouped : Bool) : Written d grouped e .closed cs [] e' :=
  ⟨.single h, hsame, by simp, nofun⟩

theorem Written.of_trailing (h : Primary d .trailing cs e') (hsame : e'.unplaced = e.unplaced)
    (htrails : e.Trails) : Written d false e .trailing cs [] e' :=
  ⟨.single h, hsame, by simp, fun _ => ⟨rfl, htrails⟩⟩

/-- An operand that stands in parentheses where it needs them is closed, and its operators are not
too loose. -/
theorem Written.operand {loose : Int32 → Prop} (h : Written d grouped e ending cs ps e')
    (hgrouped : NeedsGroup d loose e → grouped = true) :
    Chain d .closed cs ps e' ∧ ∀ q ∈ ps, ∃ p, ¬ loose p ∧ p ≤ q := by
  have hbare : grouped = false → ¬ NeedsGroup d loose e := by
    rintro rfl hneeds
    cases hgrouped hneeds
  have hclosed : ending = .closed := by
    cases ending with
    | closed => rfl
    | trailing =>
      obtain ⟨hfalse, htrails⟩ := h.trailing rfl
      exact absurd (.inl htrails) (hbare hfalse)
  subst hclosed
  refine ⟨h.chain, fun q hq => ?_⟩
  obtain ⟨hfalse, loc, op, l, r, he, hle⟩ := h.operators q hq
  refine ⟨d.precedence op, fun hloose => ?_, hle⟩
  exact hbare hfalse (.inr ⟨loc, op, l, r, he, hloose⟩)

theorem Written.binary {loc : Option Location} {op : Char} {l r l' r' : Expr} {el er : Ending}
    {gl gr : Bool} {ls rs : List Token} {pl pr : List Int32} {t : Token}
    (hl : Written d gl l el ls pl l') (hgl : NeedsGroup d (· < d.precedence op) l → gl = true)
    (ht : t.symbol? = some op) (hop : 0 < d.precedence op) (hr : Written d gr r er rs pr r')
    (hgr : NeedsGroup d (· ≤ d.precedence op) r → gr = true) :
    Written d false (.binary loc op l r) .closed (ls ++ t :: rs) (pl ++ d.precedence op :: pr)
      (.binary t.location op l' r') := by
  obtain ⟨hleft, hpl⟩ := hl.operand hgl
  obtain ⟨hright, hpr⟩ := hr.operand hgr
  have hpl' : ∀ q ∈ pl, d.precedence op ≤ q := by
    intro q hq
    obtain ⟨p, hp, hle⟩ := hpl q hq
    exact Int32.le_trans (Int32.not_lt.mp hp) hle
  have hpr' : ∀ q ∈ pr, d.precedence op < q := by
    intro q hq
    obtain ⟨p, hp, hle⟩ := hpr q hq
    exact Int32.lt_of_lt_of_le (Int32.not_le.mp hp) hle
  have hbinary := Operators.binary?_of_symbol? ht (Dialect.operators_of_precedence hop) hop
  refine ⟨.link hleft hbinary hright hpl' hpr', ?_, ?_, nofun⟩
  · rw [unplaced, unplaced, hl.same, hr.same]
  · intro q hq
    exact ⟨rfl, loc, op, l, r, rfl, le_of_mem_link hpl' hpr' q hq⟩

theorem Written.record {loc loc' : Option Location} {layout : Layout} {es es' : List Expr}
    {t l r : Token} (ht : t.kind = .identifier) (hl : l.kind = .leftParen)
    (hargs : Arguments d cs es') (hr : r.kind = .rightParen)
    (hrecord : d.records[t.name]? = some layout) (hwidth : es.length = layout.width)
    (hsame : es'.map unplaced = es.map unplaced) :
    Written d false (.construct loc (.alloc loc' t.name) ((List.range layout.width).zip es)) .closed
      (t :: l :: cs ++ [r]) []
      (.construct t.location (.alloc t.location t.name) ((List.range layout.width).zip es')) := by
  have hlength : es'.length = es.length := by
    simpa only [List.length_map] using congrArg List.length hsame
  refine .of_closed (.record ht hl hargs hr hrecord (hlength.trans hwidth)) ?_ false
  simp only [unplaced, unplacedFields_zip, hsame]

end

mutual

theorem Renders.written : ∀ {grouped : Bool} {e : Expr} {cs : List Token},
    Renders d grouped e cs → Writable d e → ∃ ending ps e', Written d grouped e ending cs ps e'
  | _, _, _, .group hl he hr, hw => by
    obtain ⟨ending, ps, e', h⟩ := he.written hw
    exact ⟨_, _, e', .of_closed (.group hl h.chain hr) h.same true⟩
  | _, _, _, .num ht hx, _ => ⟨_, _, _, .of_closed (.num ht hx) (by rfl) false⟩
  | _, _, _, .var ht, _ => ⟨_, _, _, .of_closed (.var ht) (by rfl) false⟩
  | _, _, _, .binary hl hgl ht hr hgr, .binary hop hwl hwr => by
    obtain ⟨el, pl, l', hl'⟩ := hl.written hwl
    obtain ⟨er, pr, r', hr'⟩ := hr.written hwr
    exact ⟨_, _, _, hl'.binary hgl ht hop hr' hgr⟩
  | _, _, _, .call ht hl hes hr, .call hplain hw => by
    obtain ⟨es', hargs, hsame⟩ := hes.written hw
    refine ⟨_, _, _, .of_closed (.call ht hl hargs hr hplain) ?_ false⟩
    simp only [unplaced, unplacedArgs_eq, hsame]
  | _, _, _, .record ht hl hes hr, .record hrecord hwidth hw => by
    have hsnd := map_snd_range_zip hwidth
    obtain ⟨es', hargs, hsame⟩ := hes.written (by rw [hsnd]; exact hw)
    rw [hsnd] at hsame
    exact ⟨_, _, _, .record ht hl hargs hr hrecord hwidth hsame⟩
  | _, _, _, .cond hi hc ht hth hf hel, .cond hwc hwt hwe => by
    obtain ⟨_, _, c', hc'⟩ := hc.written hwc
    obtain ⟨_, _, t', ht'⟩ := hth.written hwt
    obtain ⟨_, _, e', he'⟩ := hel.written hwe
    refine ⟨_, _, _, .of_trailing (.cond hi hc'.chain ht ht'.chain hf he'.chain) ?_ trivial⟩
    simp only [unplaced, hc'.same, ht'.same, he'.same]
  | _, _, _, .loop hf hx hq hs hc htest hstep hn hb, .loop hws hwt hwstep hwb => by
    obtain ⟨_, _, s', hs'⟩ := hs.written hws
    obtain ⟨_, _, t', ht'⟩ := htest.written hwt
    obtain ⟨step', hstep', hsame⟩ := hstep.written hwstep
    obtain ⟨_, _, b', hb'⟩ := hb.written hwb
    refine ⟨_, _, _, .of_trailing
      (.loop hf hx hq hs'.chain hc ht'.chain hstep' hn hb'.chain) ?_ trivial⟩
    simp only [unplaced, hs'.same, ht'.same, hsame, hb'.same]

theorem RendersArgs.written : ∀ {es : List Expr} {cs : List Token}, RendersArgs d es cs →
    (∀ e ∈ es, Writable d e) → ∃ es', Arguments d cs es' ∧ es'.map unplaced = es.map unplaced
  | _, _, .none, _ => ⟨[], .none, rfl⟩
  | _, _, .some hes he, hw => by
    obtain ⟨es', hes', hsame⟩ := hes.written fun e h => hw e (by simp [h])
    obtain ⟨_, _, e', he'⟩ := he.written (hw _ (by simp))
    exact ⟨es' ++ [e'], .some hes' he'.chain, by simp [hsame, he'.same]⟩

theorem RendersLeading.written : ∀ {es : List Expr} {cs : List Token}, RendersLeading d es cs →
    (∀ e ∈ es, Writable d e) → ∃ es', Leading d cs es' ∧ es'.map unplaced = es.map unplaced
  | _, _, .nil, _ => ⟨[], .nil, rfl⟩
  | _, _, .snoc hes he hc, hw => by
    obtain ⟨es', hes', hsame⟩ := hes.written fun e h => hw e (by simp [h])
    obtain ⟨_, _, e', he'⟩ := he.written (hw _ (by simp))
    exact ⟨es' ++ [e'], .snoc hes' he'.chain hc, by simp [hsame, he'.same]⟩

theorem RendersStep.written : ∀ {step : Option Expr} {us : List Token}, RendersStep d step us →
    (∀ e ∈ step, Writable d e) →
    ∃ step', StepPart d us step' ∧ unplacedStep step' = unplacedStep step
  | _, _, .none, _ => ⟨none, .none, rfl⟩
  | _, _, .some hc he, hw => by
    obtain ⟨_, _, e', he'⟩ := he.written (hw _ rfl)
    exact ⟨some e', .some hc he'.chain, by rw [unplacedStep, unplacedStep, he'.same]⟩

end

/-- Reading undoes writing: whichever way a tree is written, with parentheses where its operators need
them and any others, and whatever stands behind it that neither is a binary operator nor opens an
argument list, the parser gives the tree back, up to places, and leaves what stands behind. -/
theorem parse_renders {grouped : Bool} {e : Expr} {cs rest : List Token} (hwritable : Writable d e)
    (hcs : Renders d grouped e cs) (hnone : d.operators.binary? (Token.current rest) = none)
    (hkind : (Token.current rest).kind ≠ .leftParen) :
    ∃ e', parse d (cs ++ rest) = (.ok e', rest) ∧ e'.unplaced = e.unplaced := by
  obtain ⟨ending, ps, e', h⟩ := hcs.written hwritable
  exact ⟨e', parse_of_sentence ⟨ending, ps, h.chain⟩ hkind hnone, h.same⟩

/-- A name as a token. -/
def nameToken (name : String) : Token :=
  { kind := .identifier, text := some name }

/-- An operator as a token. -/
def operatorToken (op : String) : Token :=
  { kind := .operator, text := some op }

/-- The tree of a conditional. -/
def choiceTree : Expr :=
  .cond none (.var none "x") (.var none "y") (.var none "z")

/-- The conditional in parentheses. -/
def choiceTokens : List Token :=
  [{ kind := .leftParen }, { kind := .kwIf }, nameToken "x", { kind := .kwThen }, nameToken "y",
    { kind := .kwElse }, nameToken "z", { kind := .rightParen }]

/-- The tree of `a - b * (if x then y else z)`. -/
def differenceTree : Expr :=
  .binary none '-' (.var none "a") (.binary none '*' (.var none "b") choiceTree)

/-- The tokens of this tree, with the parentheses that it needs and no others. -/
def writtenDifference : List Token :=
  [nameToken "a"] ++ operatorToken "-" :: ([nameToken "b"] ++ operatorToken "*" :: choiceTokens)

theorem parse_renders_difference :
    Writable .standard differenceTree ∧ Renders .standard false differenceTree writtenDifference ∧
      ∃ e', parse .standard (writtenDifference ++ [{ kind := .rightParen }]) =
          (.ok e', [{ kind := .rightParen }]) ∧ e'.unplaced = differenceTree := by
  have hminus : (0 : Int32) < Dialect.standard.precedence '-' := by decide +kernel
  have htimes : (0 : Int32) < Dialect.standard.precedence '*' := by decide +kernel
  have htighter : ¬ Dialect.standard.precedence '*' ≤ Dialect.standard.precedence '-' := by
    decide +kernel
  have hname : ∀ (loose : Int32 → Prop) (name : String) (b : Bool),
      NeedsGroup .standard loose (.var none name) → b = true := by
    rintro loose name b (h | ⟨_, _, _, _, h, _⟩)
    · exact h.elim
    · cases h
  have hwritable : Writable .standard differenceTree :=
    .binary hminus .var (.binary htimes .var (.cond .var .var .var))
  have hchoice : Renders .standard true choiceTree choiceTokens :=
    .group rfl (.cond (i := { kind := .kwIf }) (t := { kind := .kwThen }) (f := { kind := .kwElse })
      rfl (.var (t := nameToken "x") rfl) rfl (.var (t := nameToken "y") rfl) rfl
      (.var (t := nameToken "z") rfl)) rfl
  have hrenders : Renders .standard false differenceTree writtenDifference := by
    refine .binary (.var (t := nameToken "a") rfl) (hname _ _ _) rfl
      (.binary (.var (t := nameToken "b") rfl) (hname _ _ _) rfl hchoice fun _ => rfl) ?_
    rintro (h | ⟨_, _, _, _, h, hle⟩)
    · exact h.elim
    · cases h
      exact absurd hle htighter
  exact ⟨hwritable, hrenders, parse_renders hwritable hrenders (by decide +kernel) (by decide)⟩

end Expr

end PoseLang
