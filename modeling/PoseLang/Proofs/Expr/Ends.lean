import PoseLang.Expr.Parser
import PoseLang.Proofs.Expr.Grammar

/-!
# Tokens that end every expression

The end of input, the words that open an item and the operators that are not in use have no place in an
expression. The parser treats them all alike: in front of each of them the expression is complete, or
the same thing is missing. It consumes none of them.
-/

namespace PoseLang

/-- No rule of expressions asks for the token, and it is no binary operator. -/
structure Token.Ends (d : Dialect) (t : Token) : Prop where
  kind : t.kind = .operator ∨ t.kind = .endOfInput ∨ t.kind = .kwDef ∨ t.kind = .kwExtern
  lone : d.operators.binary? t = none

theorem Token.Ends.kind_ne {d : Dialect} {t : Token} (h : t.Ends d) {kind : Token.Kind}
    (hkind : kind ∉ [.operator, .endOfInput, .kwDef, .kwExtern]) : t.kind ≠ kind := by
  rintro rfl
  exact hkind (by simpa using h.kind)

namespace Expr

variable {d : Dialect}

/-- All tokens that end every expression are treated alike: the expression is complete before them, or
the same thing is missing. -/
def Halts (d : Dialect) (onToken : Token → Move) : Prop :=
  (∃ e, ∀ t : Token, t.Ends d → onToken t = .done e) ∨
    ∃ wanted, ∀ t : Token, t.Ends d → onToken t = .unexpected wanted t

theorem Halts.of_eq {onToken onToken' : Token → Move} (h : Halts d onToken)
    (heq : ∀ t : Token, t.Ends d → onToken' t = onToken t) : Halts d onToken' := by
  rcases h with ⟨e, he⟩ | ⟨wanted, hwanted⟩
  · exact .inl ⟨e, fun t ht => (heq t ht).trans (he t ht)⟩
  · exact .inr ⟨wanted, fun t ht => (heq t ht).trans (hwanted t ht)⟩

theorem halts_startOperand (stack : List Frame) : Halts d (startOperand stack) := by
  refine .inr ⟨.operand, fun t ht => ?_⟩
  unfold startOperand
  rcases ht.kind with h | h | h | h <;> rw [h]

theorem halts_settle (records : Registry) (e : Expr) (stack : List Frame) :
    Halts d fun t => settle records t e stack := by
  induction stack generalizing e with
  | nil => exact .inl ⟨e, fun _ _ => by simp only [settle]⟩
  | cons frame stack ih =>
    cases frame with
    | operator => exact ih _
    | elseBranch => exact ih _
    | loopBody => exact ih _
    | group => exact .inr ⟨.closingParen, fun t ht => if_neg (ht.kind_ne (by decide))⟩
    | condition => exact .inr ⟨.thenWord, fun t ht => if_neg (ht.kind_ne (by decide))⟩
    | thenBranch => exact .inr ⟨.elseWord, fun t ht => if_neg (ht.kind_ne (by decide))⟩
    | loopStart => exact .inr ⟨.loopComma, fun t ht => if_neg (ht.kind_ne (by decide))⟩
    | loopStep => exact .inr ⟨.inWord, fun t ht => if_neg (ht.kind_ne (by decide))⟩
    | argument =>
      exact .inr ⟨.argumentEnd, fun t ht =>
        (if_neg (ht.kind_ne (by decide))).trans (if_neg (ht.kind_ne (by decide)))⟩
    | loopTest =>
      exact .inr ⟨.inWord, fun t ht =>
        (if_neg (ht.kind_ne (by decide))).trans (if_neg (ht.kind_ne (by decide)))⟩

theorem halts_afterOperand (e : Expr) (stack : List Frame) : Halts d (afterOperand d e stack) := by
  refine (halts_settle d.records e stack).of_eq fun t ht => ?_
  rw [afterOperand, ht.lone]

theorem halts_move (phase : Phase) (stack : List Frame) : Halts d (move d phase stack) := by
  cases phase with
  | operand => exact halts_startOperand stack
  | operandDone e => exact halts_afterOperand e stack
  | named loc name =>
    exact (halts_afterOperand (.var loc name) stack).of_eq fun t ht => if_neg (ht.kind_ne (by decide))
  | callOpened loc callee =>
    exact (halts_startOperand (.argument loc callee [] :: stack)).of_eq fun t ht =>
      if_neg (ht.kind_ne (by decide))
  | loopVariable => exact .inr ⟨.loopVariable, fun t ht => if_neg (ht.kind_ne (by decide))⟩
  | loopEquals => exact .inr ⟨.loopEquals, fun t ht => if_neg (ht.kind_ne (by decide))⟩

end Expr

end PoseLang
