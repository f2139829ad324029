import PoseLang.Item.Parser
import PoseLang.Proofs.Expr.Pending

/-!
# Every sentence is read

The parser reads each sentence of the grammar to its end and gives its tree, whatever it has begun
before and whatever stands behind, as long as that does not continue the sentence (`Follows`). The
statement for a chain is about any stack on which no tighter operator waits (`Reads`): the parser comes
to the state in which the chain is one complete operand.
-/

namespace PoseLang

namespace Expr

variable {d : Dialect}

/-- The tokens behind a chain do not continue it: the first of them opens no argument list, and if it
is an operator then it binds no tighter than those of the chain, and the chain is closed. -/
structure Follows (d : Dialect) (ending : Ending) (ps : List Int32) (rest : List Token) : Prop where
  noCall : (Token.current rest).kind ≠ .leftParen
  looser : ∀ op p, d.operators.binary? (Token.current rest) = some (op, p) →
    ending = .closed ∧ ∀ q ∈ ps, p ≤ q

/-- A token that is neither an operator nor an opening parenthesis continues nothing. -/
theorem Follows.of_kind {t : Token} {kind : Token.Kind} (ht : t.kind = kind)
    (hkind : kind ≠ .operator ∧ kind ≠ .leftParen) (ending : Ending) (ps : List Int32)
    (rest : List Token) : Follows d ending ps (t :: rest) := by
  subst ht
  refine ⟨hkind.2, fun op p h => ?_⟩
  exact absurd (Operators.kind_of_binary? h) hkind.1

/-- No operator stands behind a chain that ends with an expression. -/
theorem Follows.trailing {ps : List Int32} {rest : List Token} (h : Follows d .trailing ps rest) :
    d.operators.binary? (Token.current rest) = none := by
  cases hbinary : d.operators.binary? (Token.current rest) with
  | none => rfl
  | some found => cases (h.looser found.1 found.2 hbinary).1

/-- Where no operator stands, no chain is continued. -/
theorem Follows.of_none {rest : List Token} (hkind : (Token.current rest).kind ≠ .leftParen)
    (hnone : d.operators.binary? (Token.current rest) = none) (ending : Ending) (ps : List Int32) :
    Follows d ending ps rest := by
  refine ⟨hkind, fun op p h => ?_⟩
  rw [hnone] at h
  cases h

/-- The parser reads some tokens as one operand, and is behind them as if the operand were a single
token. -/
def Reads (d : Dialect) (ending : Ending) (cs : List Token) (ps : List Int32) (e : Expr) : Prop :=
  ∀ stack rest, (∀ q ∈ ps, Tighter q stack) → Follows d ending ps rest →
    parseFrom d .operand stack (cs ++ rest) = parseFrom d (.operandDone e) stack rest

/-! ## One move, and states that move alike -/

theorem parseFrom_shift {phase phase' : Phase} {stack stack' : List Frame} {t : Token}
    (h : move d phase stack t = .shift phase' stack') (ts : List Token) :
    parseFrom d phase stack (t :: ts) = parseFrom d phase' stack' ts := by
  rw [parseFrom, h]

/-- Only the next token matters for what a state does. -/
theorem parseFrom_congr {phase phase' : Phase} {stack stack' : List Frame} {ts : List Token}
    (h : move d phase stack (Token.current ts) = move d phase' stack' (Token.current ts)) :
    parseFrom d phase stack ts = parseFrom d phase' stack' ts := by
  cases ts with
  | nil =>
    have h' : move d phase stack .endOfInput = move d phase' stack' .endOfInput := h
    rw [parseFrom, parseFrom, h']
  | cons t ts =>
    have h' : move d phase stack t = move d phase' stack' t := h
    rw [parseFrom, parseFrom, h']

/-- Behind an operand, a token that is no operator settles what waits for the operand. -/
theorem move_operandDone {t : Token} (h : d.operators.binary? t = none) (e : Expr)
    (stack : List Frame) : move d (.operandDone e) stack t = settle d.records t e stack := by
  rw [move, afterOperand, h]

/-- The same by the kind of the token. -/
theorem parseFrom_settle {e : Expr} {phase : Phase} {stack stack' : List Frame} {t : Token}
    {kind : Token.Kind} (ht : t.kind = kind) (hkind : kind ≠ .operator)
    (h : settle d.records t e stack = .shift phase stack') (ts : List Token) :
    parseFrom d (.operandDone e) stack (t :: ts) = parseFrom d phase stack' ts := by
  apply parseFrom_shift
  rw [move_operandDone (Operators.binary?_eq_none (ht ▸ hkind)), h]

/-! ## First tokens -/

/-- The first of some tokens does not close a call. -/
def Opens (cs : List Token) : Prop :=
  ∃ t ts, cs = t :: ts ∧ t.kind ≠ .rightParen

theorem Opens.append {cs : List Token} (h : Opens cs) (us : List Token) : Opens (cs ++ us) := by
  obtain ⟨t, ts, rfl, ht⟩ := h
  exact ⟨t, ts ++ us, rfl, ht⟩

theorem Opens.of_kind {t : Token} {kind : Token.Kind} (ht : t.kind = kind)
    (hkind : kind ≠ .rightParen) (ts : List Token) : Opens (t :: ts) :=
  ⟨t, ts, rfl, ht ▸ hkind⟩

theorem Primary.opens {ending : Ending} {cs : List Token} {e : Expr} (h : Primary d ending cs e) :
    Opens cs := by
  cases h with
  | num ht _ => exact .of_kind ht (by decide) _
  | var ht => exact .of_kind ht (by decide) _
  | call ht => exact .of_kind ht (by decide) _
  | record ht => exact .of_kind ht (by decide) _
  | group hl => exact .of_kind hl (by decide) _
  | cond hi => exact .of_kind hi (by decide) _
  | loop hf => exact .of_kind hf (by decide) _

theorem Chain.opens : ∀ {ending : Ending} {cs : List Token} {ps : List Int32} {e : Expr},
    Chain d ending cs ps e → Opens cs
  | _, _, _, _, .single he => he.opens
  | _, _, _, _, .link hl _ _ _ _ => hl.opens.append _

theorem Leading.opens {us : List Token} (hus : Opens us) : ∀ {cs : List Token} {es : List Expr},
    Leading d cs es → Opens (cs ++ us)
  | _, _, .nil => hus
  | _, _, .snoc hcs he _ => by
    rw [List.append_assoc]
    exact (Leading.opens he.opens hcs).append _

/-! ## One rule of the grammar after the other -/

namespace Reads

variable {ending : Ending} {cs : List Token} {ps : List Int32} {e : Expr}

theorem num {t : Token} {x : Float} (ht : t.kind = .number) (hx : t.value = some x) :
    Reads d .closed [t] [] (.num t.location x) := by
  intro stack rest _ _
  apply parseFrom_shift
  simp only [move, startOperand, ht, hx]

theorem var {t : Token} (ht : t.kind = .identifier) :
    Reads d .closed [t] [] (.var t.location t.name) := by
  intro stack rest _ hfollows
  calc parseFrom d .operand stack (t :: rest)
    _ = parseFrom d (.named t.location t.name) stack rest := by
      apply parseFrom_shift
      simp only [move, startOperand, ht]
    _ = parseFrom d (.operandDone (.var t.location t.name)) stack rest := by
      apply parseFrom_congr
      exact if_neg hfollows.noCall

theorem group {l r : Token} (hl : l.kind = .leftParen) (he : Reads d ending cs ps e)
    (hr : r.kind = .rightParen) : Reads d .closed (l :: cs ++ [r]) [] e := by
  intro stack rest _ _
  calc parseFrom d .operand stack (l :: cs ++ [r] ++ rest)
    _ = parseFrom d .operand (.group :: stack) (cs ++ r :: rest) := by
      rw [List.append_assoc]
      apply parseFrom_shift
      simp only [move, startOperand, hl]
    _ = parseFrom d (.operandDone e) (.group :: stack) (r :: rest) :=
      he _ _ (fun _ _ => trivial) (.of_kind hr (by decide) ..)
    _ = parseFrom d (.operandDone e) stack rest := by
      apply parseFrom_settle hr (by decide)
      rw [settle, if_pos hr]

theorem cond {i t f : Token} {ts fs : List Token} {et ef : Ending} {pt pf : List Int32}
    {c th el : Expr} (hi : i.kind = .kwIf) (hc : Reads d ending cs ps c) (ht : t.kind = .kwThen)
    (hth : Reads d et ts pt th) (hf : f.kind = .kwElse) (hel : Reads d ef fs pf el) :
    Reads d .trailing (i :: cs ++ t :: ts ++ f :: fs) [] (.cond i.location c th el) := by
  intro stack rest _ hfollows
  have hnone : d.operators.binary? (Token.current rest) = none := hfollows.trailing
  calc parseFrom d .operand stack (i :: cs ++ t :: ts ++ f :: fs ++ rest)
    _ = parseFrom d .operand (.condition i.location :: stack) (cs ++ t :: (ts ++ f :: (fs ++ rest))) := by
      simp only [List.append_assoc, List.cons_append]
      apply parseFrom_shift
      simp only [move, startOperand, hi]
    _ = parseFrom d (.operandDone c) (.condition i.location :: stack)
        (t :: (ts ++ f :: (fs ++ rest))) :=
      hc _ _ (fun _ _ => trivial) (.of_kind ht (by decide) ..)
    _ = parseFrom d .operand (.thenBranch i.location c :: stack) (ts ++ f :: (fs ++ rest)) := by
      apply parseFrom_settle ht (by decide)
      rw [settle, if_pos ht]
    _ = parseFrom d (.operandDone th) (.thenBranch i.location c :: stack) (f :: (fs ++ rest)) :=
      hth _ _ (fun _ _ => trivial) (.of_kind hf (by decide) ..)
    _ = parseFrom d .operand (.elseBranch i.location c th :: stack) (fs ++ rest) := by
      apply parseFrom_settle hf (by decide)
      rw [settle, if_pos hf]
    _ = parseFrom d (.operandDone el) (.elseBranch i.location c th :: stack) rest :=
      hel _ _ (fun _ _ => trivial) (.of_none hfollows.noCall hnone ..)
    _ = parseFrom d (.operandDone (.cond i.location c th el)) stack rest := by
      apply parseFrom_congr
      rw [move_operandDone hnone, move_operandDone hnone, settle]

/-- A chain behind an operator is its right operand, and both together are one operand: an operator
that follows is no tighter, and takes them in. -/
theorem link {ls rs : List Token} {t : Token} {ps qs : List Int32} {op : Char} {p : Int32}
    {l r : Expr} (hl : Reads d .closed ls ps l) (ht : d.operators.binary? t = some (op, p))
    (hr : Reads d ending rs qs r) (hleft : ∀ q ∈ ps, p ≤ q) (hright : ∀ q ∈ qs, p < q) :
    Reads d ending (ls ++ t :: rs) (ps ++ p :: qs) (.binary t.location op l r) := by
  intro stack rest htight hfollows
  have hp : Tighter p stack := htight p (by simp)
  have hbefore : Follows d .closed ps (t :: (rs ++ rest)) := by
    refine ⟨?_, ?_⟩
    · show t.kind ≠ .leftParen
      rw [Operators.kind_of_binary? ht]
      decide
    · intro op' p' h
      cases ht.symm.trans h
      exact ⟨rfl, hleft⟩
  have hbehind : Follows d ending qs rest := by
    refine ⟨hfollows.noCall, ?_⟩
    intro op' p' h
    obtain ⟨hending, hle⟩ := hfollows.looser op' p' h
    exact ⟨hending, fun q hq => hle q (by simp [hq])⟩
  calc parseFrom d .operand stack (ls ++ t :: rs ++ rest)
    _ = parseFrom d (.operandDone l) stack (t :: (rs ++ rest)) := by
      rw [List.append_assoc]
      exact hl stack _ (fun q hq => htight q (by simp [hq])) hbefore
    _ = parseFrom d .operand (.operator t.location op p l :: stack) (rs ++ rest) := by
      apply parseFrom_shift
      simp only [move, afterOperand, ht, reduce_of_tighter hp]
    _ = parseFrom d (.operandDone r) (.operator t.location op p l :: stack) rest :=
      hr _ rest hright hbehind
    _ = parseFrom d (.operandDone (.binary t.location op l r)) stack rest := by
      apply parseFrom_congr
      cases hnext : d.operators.binary? (Token.current rest) with
      | none => rw [move_operandDone hnext, move_operandDone hnext, settle]
      | some found =>
        have hle : found.2 ≤ p := (hfollows.looser found.1 found.2 hnext).2 p (by simp)
        simp only [move, afterOperand, hnext, reduce, if_neg (Int32.not_lt.mpr hle)]

end Reads

/-- The parser reads the tokens between the parentheses of a call, and the closing one. -/
def ReadsArguments (d : Dialect) (cs : List Token) (es : List Expr) : Prop :=
  ∀ (loc : Option Location) (callee : String) (stack : List Frame) (r : Token) (rest : List Token)
    (e : Expr), r.kind = .rightParen → ofCall d.records loc callee es = .ok e →
    parseFrom d (.callOpened loc callee) stack (cs ++ r :: rest) = parseFrom d (.operandDone e) stack rest

/-- The parser reads arguments with commas behind them. -/
def ReadsLeading (d : Dialect) (cs : List Token) (es : List Expr) : Prop :=
  ∀ (loc : Option Location) (callee : String) (stack : List Frame) (rest : List Token),
    parseFrom d .operand (.argument loc callee [] :: stack) (cs ++ rest) =
      parseFrom d .operand (.argument loc callee es.reverse :: stack) rest

/-- The parser reads the step of a loop, if there is one, and the word in front of the body. -/
def ReadsStep (d : Dialect) (us : List Token) (step : Option Expr) : Prop :=
  ∀ (loc : Option Location) (v : String) (s test : Expr) (stack : List Frame) (n : Token)
    (rest : List Token), n.kind = .kwIn →
    parseFrom d (.operandDone test) (.loopTest loc v s :: stack) (us ++ n :: rest) =
      parseFrom d .operand (.loopBody loc v s test step :: stack) rest

section

variable {ending : Ending} {cs us : List Token} {ps : List Int32} {e : Expr} {es : List Expr}

theorem ReadsStep.none : ReadsStep d [] none := by
  intro loc v s test stack n rest hn
  apply parseFrom_settle hn (by decide)
  rw [settle, if_neg (by rw [hn]; decide), if_pos hn]

theorem ReadsStep.some {c : Token} (hc : c.kind = .comma) (he : Reads d ending us ps e) :
    ReadsStep d (c :: us) (some e) := by
  intro loc v s test stack n rest hn
  calc parseFrom d (.operandDone test) (.loopTest loc v s :: stack) (c :: us ++ n :: rest)
    _ = parseFrom d .operand (.loopStep loc v s test :: stack) (us ++ n :: rest) := by
      apply parseFrom_settle hc (by decide)
      rw [settle, if_pos hc]
    _ = parseFrom d (.operandDone e) (.loopStep loc v s test :: stack) (n :: rest) :=
      he _ _ (fun _ _ => trivial) (.of_kind hn (by decide) ..)
    _ = parseFrom d .operand (.loopBody loc v s test (.some e) :: stack) rest := by
      apply parseFrom_settle hn (by decide)
      rw [settle, if_pos hn]

theorem Reads.loop {f x q c n : Token} {ss ts bs : List Token} {eS et eb : Ending}
    {pt pb : List Int32} {s test b : Expr} {step : Option Expr} (hf : f.kind = .kwFor)
    (hx : x.kind = .identifier) (hq : q.kind = .equal) (hs : Reads d eS ss ps s)
    (hc : c.kind = .comma) (htest : Reads d et ts pt test) (hpart : StepPart d us step)
    (hstep : ReadsStep d us step) (hn : n.kind = .kwIn) (hb : Reads d eb bs pb b) :
    Reads d .trailing (f :: x :: q :: ss ++ c :: ts ++ us ++ n :: bs) []
      (.loop f.location x.name s test step b) := by
  intro stack rest _ hfollows
  have hnone := hfollows.trailing
  have hbehind : Follows d et pt (us ++ n :: (bs ++ rest)) := by
    cases hpart with
    | none => exact .of_kind hn (by decide) ..
    | some hcomma _ => exact .of_kind hcomma (by decide) ..
  calc parseFrom d .operand stack (f :: x :: q :: ss ++ c :: ts ++ us ++ n :: bs ++ rest)
    _ = parseFrom d (.loopVariable f.location) stack
        (x :: q :: (ss ++ c :: (ts ++ (us ++ n :: (bs ++ rest))))) := by
      simp only [List.append_assoc, List.cons_append]
      apply parseFrom_shift
      simp only [move, startOperand, hf]
    _ = parseFrom d (.loopEquals f.location x.name) stack
        (q :: (ss ++ c :: (ts ++ (us ++ n :: (bs ++ rest))))) := by
      apply parseFrom_shift
      rw [move, if_pos hx]
    _ = parseFrom d .operand (.loopStart f.location x.name :: stack)
        (ss ++ c :: (ts ++ (us ++ n :: (bs ++ rest)))) := by
      apply parseFrom_shift
      rw [move, if_pos hq]
    _ = parseFrom d (.operandDone s) (.loopStart f.location x.name :: stack)
        (c :: (ts ++ (us ++ n :: (bs ++ rest)))) :=
      hs _ _ (fun _ _ => trivial) (.of_kind hc (by decide) ..)
    _ = parseFrom d .operand (.loopTest f.location x.name s :: stack)
        (ts ++ (us ++ n :: (bs ++ rest))) := by
      apply parseFrom_settle hc (by decide)
      rw [settle, if_pos hc]
    _ = parseFrom d (.operandDone test) (.loopTest f.location x.name s :: stack)
        (us ++ n :: (bs ++ rest)) :=
      htest _ _ (fun _ _ => trivial) hbehind
    _ = parseFrom d .operand (.loopBody f.location x.name s test step :: stack) (bs ++ rest) :=
      hstep _ _ _ _ _ _ _ hn
    _ = parseFrom d (.operandDone b) (.loopBody f.location x.name s test step :: stack) rest :=
      hb _ _ (fun _ _ => trivial) (.of_none hfollows.noCall hnone ..)
    _ = parseFrom d (.operandDone (.loop f.location x.name s test step b)) stack rest := by
      apply parseFrom_congr
      rw [move_operandDone hnone, move_operandDone hnone, settle]

theorem ReadsLeading.nil : ReadsLeading d [] [] :=
  fun _ _ _ _ => rfl

theorem ReadsLeading.snoc {c : Token} (hcs : ReadsLeading d cs es) (he : Reads d ending us ps e)
    (hc : c.kind = .comma) : ReadsLeading d (cs ++ us ++ [c]) (es ++ [e]) := by
  intro loc callee stack rest
  calc parseFrom d .operand (.argument loc callee [] :: stack) (cs ++ us ++ [c] ++ rest)
    _ = parseFrom d .operand (.argument loc callee es.reverse :: stack) (us ++ c :: rest) := by
      simpa using hcs loc callee stack (us ++ c :: rest)
    _ = parseFrom d (.operandDone e) (.argument loc callee es.reverse :: stack) (c :: rest) :=
      he _ _ (fun _ _ => trivial) (.of_kind hc (by decide) ..)
    _ = parseFrom d .operand (.argument loc callee (es ++ [e]).reverse :: stack) rest := by
      rw [List.reverse_append]
      apply parseFrom_settle hc (by decide)
      rw [settle, if_neg (by rw [hc]; decide), if_pos hc]
      rfl

theorem ReadsArguments.none : ReadsArguments d [] [] := by
  intro loc callee stack r rest e hr hcall
  apply parseFrom_shift
  rw [move, if_pos hr, closeCall, hcall]

theorem ReadsArguments.some (hcs : ReadsLeading d cs es) (he : Reads d ending us ps e)
    (hopens : Opens (cs ++ us)) : ReadsArguments d (cs ++ us) (es ++ [e]) := by
  intro loc callee stack r rest made hr hcall
  obtain ⟨t, ts, hfirst, hkind⟩ := hopens
  calc parseFrom d (.callOpened loc callee) stack (cs ++ us ++ r :: rest)
    _ = parseFrom d .operand (.argument loc callee [] :: stack) (cs ++ us ++ r :: rest) := by
      apply parseFrom_congr
      rw [hfirst]
      exact if_neg hkind
    _ = parseFrom d .operand (.argument loc callee es.reverse :: stack) (us ++ r :: rest) := by
      rw [List.append_assoc]
      exact hcs loc callee stack (us ++ r :: rest)
    _ = parseFrom d (.operandDone e) (.argument loc callee es.reverse :: stack) (r :: rest) :=
      he _ _ (fun _ _ => trivial) (.of_kind hr (by decide) ..)
    _ = parseFrom d (.operandDone made) stack rest := by
      apply parseFrom_settle hr (by decide)
      rw [settle, if_pos hr, closeCall, List.reverse_cons, List.reverse_reverse, hcall]

theorem Reads.call {t l r : Token} (ht : t.kind = .identifier) (hl : l.kind = .leftParen)
    (hargs : ReadsArguments d cs es) (hr : r.kind = .rightParen)
    (hcall : ofCall d.records t.location t.name es = .ok e) :
    Reads d .closed (t :: l :: cs ++ [r]) [] e := by
  intro stack rest _ _
  calc parseFrom d .operand stack (t :: l :: cs ++ [r] ++ rest)
    _ = parseFrom d (.named t.location t.name) stack (l :: (cs ++ r :: rest)) := by
      simp only [List.append_assoc, List.cons_append, List.nil_append]
      apply parseFrom_shift
      simp only [move, startOperand, ht]
    _ = parseFrom d (.callOpened t.location t.name) stack (cs ++ r :: rest) := by
      apply parseFrom_shift
      rw [move, if_pos hl]
    _ = parseFrom d (.operandDone e) stack rest := hargs _ _ _ _ _ _ hr hcall

end

/-! ## All sentences -/

mutual

theorem Primary.reads : ∀ {ending : Ending} {cs : List Token} {e : Expr},
    Primary d ending cs e → Reads d ending cs [] e
  | _, _, _, .num ht hx => .num ht hx
  | _, _, _, .var ht => .var ht
  | _, _, _, .call ht hl hargs hr hplain =>
    .call ht hl hargs.reads hr (ofCall_eq_ok.mpr (.inl ⟨hplain, rfl⟩))
  | _, _, _, .record ht hl hargs hr hrecord hwidth =>
    .call ht hl hargs.reads hr (ofCall_eq_ok.mpr (.inr ⟨_, hrecord, hwidth, rfl⟩))
  | _, _, _, .group hl he hr => .group hl he.reads hr
  | _, _, _, .cond hi hc ht hth hf hel => .cond hi hc.reads ht hth.reads hf hel.reads
  | _, _, _, .loop hf hx hq hs hc htest hstep hn hb =>
    .loop hf hx hq hs.reads hc htest.reads hstep hstep.reads hn hb.reads

theorem Chain.reads : ∀ {ending : Ending} {cs : List Token} {ps : List Int32} {e : Expr},
    Chain d ending cs ps e → Reads d ending cs ps e
  | _, _, _, _, .single he => he.reads
  | _, _, _, _, .link hl ht hr hleft hright => .link hl.reads ht hr.reads hleft hright

theorem Arguments.reads : ∀ {cs : List Token} {es : List Expr},
    Arguments d cs es → ReadsArguments d cs es
  | _, _, .none => .none
  | _, _, .some hcs he => .some hcs.reads he.reads (Leading.opens he.opens hcs)

theorem Leading.reads : ∀ {cs : List Token} {es : List Expr}, Leading d cs es → ReadsLeading d cs es
  | _, _, .nil => .nil
  | _, _, .snoc hcs he hc => .snoc hcs.reads he.reads hc

theorem StepPart.reads : ∀ {us : List Token} {step : Option Expr},
    StepPart d us step → ReadsStep d us step
  | _, _, .none => .none
  | _, _, .some hc he => .some hc he.reads

end

/-- A sentence is read to its end, if it is not continued behind it. -/
theorem parse_of_sentence {cs rest : List Token} {e : Expr} (h : Sentence d cs e)
    (hkind : (Token.current rest).kind ≠ .leftParen)
    (hnone : d.operators.binary? (Token.current rest) = none) :
    parse d (cs ++ rest) = (.ok e, rest) := by
  obtain ⟨ending, ps, hchain⟩ := h
  rw [parse, hchain.reads [] rest (fun _ _ => trivial) (.of_none hkind hnone ..)]
  have hmove : move d (.operandDone e) [] (Token.current rest) = .done e := by
    rw [move_operandDone hnone, settle]
  cases rest with
  | nil =>
    rw [parseFrom]
    simp only [show move d (.operandDone e) [] .endOfInput = .done e from hmove]
  | cons t rest =>
    rw [parseFrom]
    simp only [show move d (.operandDone e) [] t = .done e from hmove]

end Expr

end PoseLang
