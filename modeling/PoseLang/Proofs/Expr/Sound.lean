import PoseLang.Item.Parser
import PoseLang.Proofs.Expr.Pending

/-!
# What the parser reads is a sentence

Every move keeps what the stack and the phase say about the tokens read so far (`move_sound`), so the
tokens of an expression that is read are a sentence and its tree is the one of the grammar.
-/

namespace PoseLang

namespace Expr

variable {d : Dialect}

/-- What a move has to respect, given the tokens read so far and the next one. -/
def Move.Sound (d : Dialect) (cs : List Token) (t : Token) : Move → Prop
  | .shift phase stack => Read d (cs ++ [t]) phase stack
  | .done e => Sentence d cs e ∧ d.operators.binary? t = none
  | .refuse _ => True
  | .reject _ => True

/-- The next token completes a frame, and an operand has to follow. -/
theorem Pending.shift {us os cs : List Token} {ps : List Int32} {frame : Frame} {stack : List Frame}
    {t : Token} (h : Pending d us stack) (hframe : frame.Spelled d os ps)
    (hps : ∀ q ∈ ps, Tighter q stack) (heq : cs ++ [t] = us ++ os) :
    (Move.shift .operand (frame :: stack)).Sound d cs t :=
  ⟨us ++ os, [], by rw [heq, List.append_nil], h.cons hframe hps, .operand⟩

/-! ## Calls -/

theorem ofCall_sound {t l r : Token} {cs : List Token} {es : List Expr} {e : Expr}
    (ht : t.kind = .identifier) (hl : l.kind = .leftParen) (hargs : Arguments d cs es)
    (hr : r.kind = .rightParen) (h : ofCall d.records t.location t.name es = .ok e) :
    Primary d .closed (t :: l :: cs ++ [r]) e := by
  rcases ofCall_eq_ok.mp h with ⟨hplain, rfl⟩ | ⟨layout, hrecord, hwidth, rfl⟩
  · exact .call ht hl hargs hr hplain
  · exact .record ht hl hargs hr hrecord hwidth

theorem closeCall_sound {us cs : List Token} {stack : List Frame} {t l r : Token} {es : List Expr}
    (h : Pending d us stack) (ht : t.kind = .identifier) (hl : l.kind = .leftParen)
    (hargs : Arguments d cs es) (hr : r.kind = .rightParen) :
    (closeCall d.records t.location t.name es stack).Sound d (us ++ t :: l :: cs) r := by
  unfold closeCall
  split
  next e hcall =>
    refine ⟨us, t :: l :: cs ++ [r], by simp, h, .operandDone ?_⟩
    exact ofCall_sound ht hl hargs hr hcall
  next => trivial

/-! ## One move -/

theorem startOperand_sound {us : List Token} {stack : List Frame} (h : Pending d us stack)
    (t : Token) : (startOperand stack t).Sound d us t := by
  unfold startOperand
  split
  next ht => exact ⟨us, [t], rfl, h, .named ht⟩
  next ht =>
    split
    next x hx => exact ⟨us, [t], rfl, h, .operandDone (.num ht hx)⟩
    next => trivial
  next ht => exact h.shift (.group ht) (by simp) rfl
  next ht => exact h.shift (.condition ht) (by simp) rfl
  next ht => exact ⟨us, [t], rfl, h, .loopVariable ht⟩
  next => trivial
  next => trivial

/-- Behind a complete operand and in front of no operator. The induction is on the stack: operators,
second branches and bodies of loops are complete here too and leave their result to the frame below. -/
theorem settle_sound {us os : List Token} {qs : List Int32} {ending : Ending} {e : Expr}
    {stack : List Frame} {t : Token} (h : Pending d us stack) (he : Chain d ending os qs e)
    (habove : ∀ q ∈ qs, Tighter q stack) (ht : d.operators.binary? t = none) :
    (settle d.records t e stack).Sound d (us ++ os) t := by
  induction h generalizing os qs ending e with
  | nil => exact ⟨⟨ending, qs, he⟩, ht⟩
  | @cons cs os₁ ps frame stack below hframe hps ih =>
    cases hframe with
    | @operator ls ps l o op p hl ho hleft =>
      rw [settle]
      have hright : ∀ q ∈ qs, p < q := habove
      have hp : Tighter p stack := hps p (by simp)
      have hsound := ih (.link hl ho he hleft hright)
        fun q hq => hp.trans (le_of_mem_link hleft hright q hq)
      simpa using hsound
    | @group l hl =>
      rw [settle]
      split
      next hr => exact ⟨cs, l :: os ++ [t], by simp, below, .operandDone (.group hl he hr)⟩
      next => trivial
    | @argument f l as es hf hl has =>
      rw [settle]
      split
      next hr =>
        have hsound := closeCall_sound below hf hl (.some has he) hr
        simpa using hsound
      next =>
        split
        next hc =>
          have hframe := Frame.Spelled.argument hf hl (.snoc has he hc)
          rw [List.reverse_append] at hframe
          exact below.shift hframe (by simp) (by simp)
        next => trivial
    | @condition i hi =>
      rw [settle]
      split
      next ht =>
        exact below.shift (.thenBranch hi he ht) (by simp) (by simp)
      next => trivial
    | @thenBranch i th cs₁ ec pc c hi hc hth =>
      rw [settle]
      split
      next ht =>
        exact below.shift (.elseBranch hi hc hth he ht) (by simp) (by simp)
      next => trivial
    | @elseBranch i th f cs₁ ts ec et pc pt c e₁ hi hc hth he₁ hf =>
      rw [settle]
      have hsound := ih (.single (.cond hi hc hth he₁ hf he)) (by simp)
      simpa using hsound
    | @loopStart f x q hf hx hq =>
      rw [settle]
      split
      next hc =>
        exact below.shift (.loopTest hf hx hq he hc) (by simp) (by simp)
      next => trivial
    | @loopTest f x q c ss es ps s hf hx hq hs hc =>
      rw [settle]
      split
      next hc' =>
        exact below.shift (.loopStep hf hx hq hs hc he hc') (by simp) (by simp)
      next =>
        split
        next hn =>
          exact below.shift (.loopBody hf hx hq hs hc he .none hn) (by simp) (by simp)
        next => trivial
    | @loopStep f x q c c' ss ts es et ps pt s test hf hx hq hs hc htest hc' =>
      rw [settle]
      split
      next hn =>
        exact below.shift (.loopBody hf hx hq hs hc htest (.some hc' he) hn) (by simp) (by simp)
      next => trivial
    | @loopBody f x q c n ss ts us es et ps pt s test step hf hx hq hs hc htest hstep hn =>
      rw [settle]
      have hsound := ih (.single (.loop hf hx hq hs hc htest hstep hn he)) (by simp)
      simpa using hsound

theorem afterOperand_sound {us os : List Token} {e : Expr} {stack : List Frame}
    (h : Pending d us stack) (he : Primary d .closed os e) (t : Token) :
    (afterOperand d e stack t).Sound d (us ++ os) t := by
  unfold afterOperand
  split
  next op p ht =>
    obtain ⟨us', os', qs, heq, hpending, hchain, hqs, htight⟩ :=
      h.reduce (.single he) (by simp) (by simp) (Prod.eta (reduce p e stack)).symm
    exact hpending.shift (.operator hchain ht hqs) htight (by simp [heq])
  next ht => exact settle_sound h (.single he) (by simp) ht

/-- One move from what has been read. -/
theorem move_sound {cs : List Token} {phase : Phase} {stack : List Frame}
    (h : Read d cs phase stack) (t : Token) : (move d phase stack t).Sound d cs t := by
  obtain ⟨us, os, rfl, hpending, hphase⟩ := h
  cases hphase with
  | operand =>
    rw [List.append_nil]
    exact startOperand_sound hpending t
  | operandDone he => exact afterOperand_sound hpending he t
  | @named f hf =>
    rw [move]
    split
    next hl => exact ⟨us, [f, t], by simp, hpending, .callOpened hf hl⟩
    next => exact afterOperand_sound hpending (.var hf) t
  | @callOpened f l hf hl =>
    rw [move]
    split
    next hr => exact closeCall_sound hpending hf hl .none hr
    next =>
      have hbegun := hpending.cons (.argument hf hl .nil) (by simp)
      exact startOperand_sound hbegun t
  | @loopVariable f hf =>
    rw [move]
    split
    next hx => exact ⟨us, [f, t], by simp, hpending, .loopEquals hf hx⟩
    next => trivial
  | @loopEquals f x hf hx =>
    rw [move]
    split
    next hq => exact hpending.shift (.loopStart hf hx hq) (by simp) (by simp)
    next => trivial

/-! ## All moves -/

/-- The states that the parser comes through on some tokens: the phase, the stack and what is left. -/
inductive Visits (d : Dialect) (ts : List Token) : Phase → List Frame → List Token → Prop
  | start : Visits d ts .operand [] ts
  | shift {phase phase' : Phase} {stack stack' : List Frame} {t : Token} {rest : List Token}
    (before : Visits d ts phase stack (t :: rest))
    (hmove : move d phase stack t = .shift phase' stack') : Visits d ts phase' stack' rest

theorem Visits.read {ts rest : List Token} {phase : Phase} {stack : List Frame}
    (h : Visits d ts phase stack rest) : ∃ cs, ts = cs ++ rest ∧ Read d cs phase stack := by
  induction h with
  | start => exact ⟨[], rfl, .start⟩
  | @shift phase phase' stack stack' t rest before hmove ih =>
    obtain ⟨cs, hts, hread⟩ := ih
    have hsound := move_sound hread t
    rw [hmove] at hsound
    exact ⟨cs ++ [t], by simpa using hts, hsound⟩

/-- An expression that is read is complete in the last state. -/
theorem Visits.last {ts left rest : List Token} {phase : Phase} {stack : List Frame} {e : Expr}
    (h : Visits d ts phase stack left) (hparse : parseFrom d phase stack left = (.ok e, rest)) :
    ∃ phase stack, Visits d ts phase stack rest ∧ move d phase stack (Token.current rest) = .done e := by
  induction left generalizing phase stack with
  | nil =>
    rw [parseFrom] at hparse
    split at hparse
    next hmove =>
      cases hparse
      exact ⟨phase, stack, h, hmove⟩
    all_goals cases hparse
  | cons t left ih =>
    rw [parseFrom] at hparse
    split at hparse
    next hmove => exact ih (h.shift hmove) hparse
    next hmove =>
      cases hparse
      exact ⟨phase, stack, h, hmove⟩
    all_goals cases hparse

/-- What is read is a sentence, and no binary operator stands behind it. -/
theorem sentence_of_parse {ts rest : List Token} {e : Expr} (h : parse d ts = (.ok e, rest)) :
    ∃ cs, ts = cs ++ rest ∧ Sentence d cs e ∧ d.operators.binary? (Token.current rest) = none := by
  obtain ⟨phase, stack, hvisits, hmove⟩ := Visits.start.last h
  obtain ⟨cs, hts, hread⟩ := hvisits.read
  have hsound := move_sound hread (Token.current rest)
  rw [hmove] at hsound
  exact ⟨cs, hts, hsound⟩

/-! ## Precedences on the way -/

/-- The operators that wait directly above another one have to reach its precedence plus one. This
sum stays in range, and they do reach it. -/
def Climbs : List Frame → Prop
  | .operator _ _ q _ :: .operator loc op p l :: stack =>
    (p + 1).toInt = p.toInt + 1 ∧ p + 1 ≤ q ∧ Climbs (.operator loc op p l :: stack)
  | _ :: stack => Climbs stack
  | [] => True

/-- Below another precedence there is room for one more. -/
theorem add_one_of_lt {p q : Int32} (h : p < q) : (p + 1).toInt = p.toInt + 1 ∧ p + 1 ≤ q := by
  have hlt := Int32.lt_iff_toInt_lt.mp h
  have hq := Int32.toInt_lt q
  have hp := Int32.le_toInt p
  have hsum : (p + 1).toInt = p.toInt + 1 := by
    rw [Int32.toInt_add, Int32.toInt_one, Int.bmod_eq_of_le] <;> omega
  exact ⟨hsum, Int32.le_iff_toInt_le.mpr (by omega)⟩

theorem Pending.climbs {cs : List Token} {stack : List Frame} (h : Pending d cs stack) :
    Climbs stack := by
  induction h with
  | nil => trivial
  | @cons cs os ps frame stack below hframe hps ih =>
    cases hframe with
    | @operator ls ps l t op q hl ht hleft =>
      have hq : Tighter q stack := hps q (by simp)
      unfold Climbs
      split
      next heq =>
        cases heq
        obtain ⟨hsum, hle⟩ := add_one_of_lt hq
        exact ⟨hsum, hle, ih⟩
      next heq =>
        cases heq
        exact ih
      next heq => cases heq
    | _ => exact ih

/-- An expression is read soundly from any position among the tokens: it takes at least one of them,
those that it takes are a sentence with the tree that is returned, and no operator in use stands
behind them. On the way, whether the expression can be read or not, no precedence is too high to
be raised by one where a tighter operator follows. -/
theorem parse_sound (d : Dialect) (ts : List Token) (i : Nat) :
    (∀ e rest, parse d (ts.drop i) = (.ok e, rest) → ∃ j, i < j ∧ j ≤ ts.length ∧
      rest = ts.drop j ∧ Sentence d (ts.extract i j) e ∧
      ¬ 0 < d.operators.tokenPrecedence (Token.current (ts.drop j))) ∧
    ∀ phase stack rest, Visits d (ts.drop i) phase stack rest → Climbs stack := by
  constructor
  · intro e rest h
    obtain ⟨cs, hts, hsentence, hlast⟩ := sentence_of_parse h
    have hlt := parse_length_lt h
    have hlength : ts.length - i = cs.length + rest.length := by
      rw [← List.length_drop, hts, List.length_append]
    rw [List.length_drop] at hlt
    have hrest : rest = ts.drop (i + cs.length) := by
      rw [← List.drop_drop, hts, List.drop_left]
    refine ⟨i + cs.length, by omega, by omega, hrest, ?_, ?_⟩
    · have hcs : ts.extract i (i + cs.length) = cs := by
        rw [List.extract_eq_take_drop, hts, Nat.add_sub_cancel_left, List.take_left]
      rw [hcs]
      exact hsentence
    · rw [← hrest, Operators.tokenPrecedence, hlast]
      decide
  · intro phase stack rest h
    obtain ⟨cs, -, us, os, -, hpending, -⟩ := h.read
    exact hpending.climbs

/-- A dialect in which products bind as tightly as an operator can. -/
def tightProducts : Dialect :=
  ⟨.ofPairs [('-', 1), ('*', Int32.maxValue)], .builtin⟩

/-- The tokens of `a - b * f(c)`, behind a parenthesis that closes nothing. -/
def differenceTokens : List Token :=
  [{ kind := .rightParen }, { kind := .identifier, text := some "a" },
    { kind := .operator, text := some "-" }, { kind := .identifier, text := some "b" },
    { kind := .operator, text := some "*" }, { kind := .identifier, text := some "f" },
    { kind := .leftParen }, { kind := .identifier, text := some "c" }, { kind := .rightParen }]

theorem parse_sound_difference :
    (∃ e rest j, parse tightProducts (differenceTokens.drop 1) = (.ok e, rest) ∧
      e.text = "(- a (* b (call f c)))" ∧ 1 < j ∧ rest = differenceTokens.drop j ∧
      Sentence tightProducts (differenceTokens.extract 1 j) e) ∧
    ∃ stack rest, stack.length = 2 ∧
      Visits tightProducts (differenceTokens.drop 1) .operand stack rest ∧ Climbs stack := by
  obtain ⟨hsound, hclimbs⟩ := parse_sound tightProducts differenceTokens 1
  constructor
  · have htext : (parse tightProducts (differenceTokens.drop 1)).1.toOption.map text =
        some "(- a (* b (call f c)))" := by decide +kernel
    cases hparse : parse tightProducts (differenceTokens.drop 1) with
    | mk result rest =>
      rw [hparse] at htext
      cases result with
      | error err => cases htext
      | ok e =>
        obtain ⟨j, hlt, -, hrest, hsentence, -⟩ := hsound e rest hparse
        exact ⟨e, rest, j, rfl, Option.some.inj htext, hlt, hrest, hsentence⟩
  · -- The state in front of the call: the product waits above the difference.
    have hstart : Visits tightProducts (differenceTokens.drop 1) .operand []
        (differenceTokens.drop 1) := .start
    have hvisits := (((hstart.shift rfl).shift rfl).shift rfl).shift rfl
    exact ⟨_, _, rfl, hvisits, hclimbs _ _ _ hvisits⟩

end Expr

end PoseLang
