import PoseLang.Proofs.Expr.Rendering

/-!
# Reading expressions without places

A token knows where it stands, and whatever is made from it keeps the place: every node of a tree, and
every error. No rule of the grammar looks at a place. So taking the places away commutes with reading:
what is read from tokens without places is what is read from the tokens, without its places.
-/

namespace PoseLang

section

variable {α ε ε' : Type} (f : ε → ε')

@[simp] theorem mapError_ok (a : α) : (Except.ok a : Except ε α).mapError f = .ok a := rfl

@[simp] theorem mapError_error (e : ε) :
    (Except.error e : Except ε α).mapError f = .error (f e) := rfl

end

/-! ## Taking places away -/

/-- A token without its place. -/
def Token.unplaced (t : Token) : Token :=
  { t with location := none }

/-- An error without its place. -/
def ParseError.unplaced : ParseError → ParseError
  | .unexpected wanted found => .unexpected wanted found.unplaced
  | .rejected message issuer _ => .rejected message issuer none

/-- What a rule has read and the tokens that it has left, without places. -/
def Token.unplacedReading {α : Type} (f : α → α) (r : Except ParseError α × List Token) :
    Except ParseError α × List Token :=
  ((r.1.map f).mapError ParseError.unplaced, r.2.map Token.unplaced)

namespace Token

variable (t : Token)

@[simp] theorem kind_unplaced : t.unplaced.kind = t.kind := rfl

@[simp] theorem value_unplaced : t.unplaced.value = t.value := rfl

@[simp] theorem name_unplaced : t.unplaced.name = t.name := rfl

@[simp] theorem unplaced_endOfInput : endOfInput.unplaced = endOfInput := rfl

/-- Tokens agree up to their places if they have the same kind, number and text. -/
theorem unplaced_eq_iff {t t' : Token} :
    t.unplaced = t'.unplaced ↔ t.kind = t'.kind ∧ t.value = t'.value ∧ t.text = t'.text := by
  cases t
  cases t'
  simp [unplaced]

end Token

@[simp] theorem Operators.binary?_unplaced (ops : Operators) (t : Token) :
    ops.binary? t.unplaced = ops.binary? t := rfl

namespace Expr

/-- An expression that has been begun, without places. -/
def Frame.unplaced : Frame → Frame
  | .operator _ op p left => .operator none op p left.unplaced
  | .group => .group
  | .argument _ callee done => .argument none callee (done.map Expr.unplaced)
  | .condition _ => .condition none
  | .thenBranch _ c => .thenBranch none c.unplaced
  | .elseBranch _ c t => .elseBranch none c.unplaced t.unplaced
  | .loopStart _ v => .loopStart none v
  | .loopTest _ v s => .loopTest none v s.unplaced
  | .loopStep _ v s t => .loopStep none v s.unplaced t.unplaced
  | .loopBody _ v s t st => .loopBody none v s.unplaced t.unplaced (unplacedStep st)

/-- What the next token is for, without places. -/
def Phase.unplaced : Phase → Phase
  | .operand => .operand
  | .operandDone e => .operandDone e.unplaced
  | .named _ name => .named none name
  | .callOpened _ callee => .callOpened none callee
  | .loopVariable _ => .loopVariable none
  | .loopEquals _ v => .loopEquals none v

/-- A move without places. -/
def Move.unplaced : Move → Move
  | .shift phase stack => .shift phase.unplaced (stack.map Frame.unplaced)
  | .done e => .done e.unplaced
  | .refuse err => .refuse err.unplaced
  | .reject err => .reject err.unplaced

theorem Move.unplaced_ite (c : Prop) [Decidable c] (a b : Move) :
    (if c then a else b).unplaced = if c then a.unplaced else b.unplaced :=
  apply_ite Move.unplaced c a b

theorem form_unplaced (e : Expr) : e.unplaced.form = e.form := by
  cases e <;> rfl

theorem location_unplaced (e : Expr) : e.unplaced.location = none := by
  cases e <;> rfl

mutual

/-- The text of a tree does not show places. -/
theorem text_unplaced : ∀ e : Expr, e.unplaced.text = e.text
  | .num _ _ => rfl
  | .var _ _ => rfl
  | .binary _ op l r => by simp only [unplaced, text, text_unplaced l, text_unplaced r]
  | .call _ f args => by simp only [unplaced, text, textArgs_unplaced args]
  | .cond _ c t e => by
    simp only [unplaced, text, text_unplaced c, text_unplaced t, text_unplaced e]
  | .loop _ v s t st b => by
    simp only [unplaced, text, text_unplaced s, text_unplaced t, textStep_unplaced st,
      text_unplaced b]
  | .alloc _ _ => rfl
  | .construct _ d fs => by simp only [unplaced, text, text_unplaced d, textFields_unplaced fs]

theorem textArgs_unplaced : ∀ es : List Expr, textArgs (unplacedArgs es) = textArgs es
  | [] => rfl
  | e :: es => by simp only [unplacedArgs, textArgs, text_unplaced e, textArgs_unplaced es]

theorem textStep_unplaced : ∀ st : Option Expr, textStep (unplacedStep st) = textStep st
  | none => rfl
  | some e => by simp only [unplacedStep, textStep, text_unplaced e]

theorem textFields_unplaced : ∀ fs : List (Nat × Expr), textFields (unplacedFields fs) = textFields fs
  | [] => rfl
  | (i, e) :: fs => by
    simp only [unplacedFields, textFields, text_unplaced e, textFields_unplaced fs]

end

/-! ## One move -/

theorem unplacedFields_zipIdx (args : List Expr) (first : Nat) :
    unplacedFields ((args.zipIdx first).map fun p => (p.2, p.1)) =
      ((args.map unplaced).zipIdx first).map fun p => (p.2, p.1) := by
  induction args generalizing first with
  | nil => rfl
  | cons e args ih =>
    simp only [List.map_cons, List.zipIdx_cons, unplacedFields, ih]

theorem ofCall_unplaced (records : Registry) (loc : Option Location) (callee : String)
    (args : List Expr) : ofCall records none callee (args.map unplaced) =
      ((ofCall records loc callee args).map unplaced).mapError ParseError.unplaced := by
  unfold ofCall
  cases records[callee]? with
  | none => simp only [Except.map, mapError_ok, unplaced, unplacedArgs_eq]
  | some layout =>
    dsimp only
    rw [List.length_map]
    split
    · simp only [Except.map, mapError_ok, unplaced, unplacedFields_zipIdx]
    · rfl

theorem closeCall_unplaced (records : Registry) (loc : Option Location) (callee : String)
    (args : List Expr) (stack : List Frame) :
    closeCall records none callee (args.map unplaced) (stack.map Frame.unplaced) =
      (closeCall records loc callee args stack).unplaced := by
  rw [closeCall, closeCall, ofCall_unplaced records loc]
  cases ofCall records loc callee args <;> rfl

theorem startOperand_unplaced (stack : List Frame) (t : Token) :
    startOperand (stack.map Frame.unplaced) t.unplaced = (startOperand stack t).unplaced := by
  unfold startOperand
  rw [Token.kind_unplaced, Token.value_unplaced]
  cases t.kind with
  | number => cases t.value <;> rfl
  | _ => rfl

theorem reduce_unplaced (p : Int32) (e : Expr) (stack : List Frame) :
    reduce p e.unplaced (stack.map Frame.unplaced) =
      ((reduce p e stack).1.unplaced, (reduce p e stack).2.map Frame.unplaced) := by
  induction stack generalizing e with
  | nil => rfl
  | cons frame stack ih =>
    cases frame with
    | operator loc op q left =>
      simp only [List.map_cons, Frame.unplaced, reduce]
      split
      · rfl
      · exact ih (.binary loc op left e)
    | _ => rfl

theorem settle_unplaced (records : Registry) (t : Token) (e : Expr) (stack : List Frame) :
    settle records t.unplaced e.unplaced (stack.map Frame.unplaced) =
      (settle records t e stack).unplaced := by
  induction stack generalizing e with
  | nil => rfl
  | cons frame stack ih =>
    cases frame with
    | operator loc op q left => exact ih (.binary loc op left e)
    | group =>
      simp only [List.map_cons, Frame.unplaced, settle, Token.kind_unplaced, Move.unplaced_ite]
      rfl
    | argument loc callee done =>
      simp only [List.map_cons, Frame.unplaced, settle, Token.kind_unplaced, Move.unplaced_ite,
        ← closeCall_unplaced, List.map_reverse]
      rfl
    | condition loc =>
      simp only [List.map_cons, Frame.unplaced, settle, Token.kind_unplaced, Move.unplaced_ite]
      rfl
    | thenBranch loc c =>
      simp only [List.map_cons, Frame.unplaced, settle, Token.kind_unplaced, Move.unplaced_ite]
      rfl
    | elseBranch loc c th => exact ih (.cond loc c th e)
    | loopStart loc v =>
      simp only [List.map_cons, Frame.unplaced, settle, Token.kind_unplaced, Move.unplaced_ite]
      rfl
    | loopTest loc v s =>
      simp only [List.map_cons, Frame.unplaced, settle, Token.kind_unplaced, Move.unplaced_ite]
      rfl
    | loopStep loc v s test =>
      simp only [List.map_cons, Frame.unplaced, settle, Token.kind_unplaced, Move.unplaced_ite]
      rfl
    | loopBody loc v s test step => exact ih (.loop loc v s test step e)

theorem afterOperand_unplaced (d : Dialect) (e : Expr) (stack : List Frame) (t : Token) :
    afterOperand d e.unplaced (stack.map Frame.unplaced) t.unplaced =
      (afterOperand d e stack t).unplaced := by
  unfold afterOperand
  rw [Operators.binary?_unplaced]
  cases d.operators.binary? t with
  | none => exact settle_unplaced d.records t e stack
  | some found =>
    simp only [reduce_unplaced]
    rfl

/-- A move on tokens and stacks without places is the move without places. -/
theorem move_unplaced (d : Dialect) (phase : Phase) (stack : List Frame) (t : Token) :
    move d phase.unplaced (stack.map Frame.unplaced) t.unplaced = (move d phase stack t).unplaced := by
  cases phase with
  | operand => exact startOperand_unplaced stack t
  | operandDone e => exact afterOperand_unplaced d e stack t
  | named loc name =>
    simp only [Phase.unplaced, move, Token.kind_unplaced, Move.unplaced_ite,
      ← afterOperand_unplaced]
    rfl
  | callOpened loc callee =>
    simp only [Phase.unplaced, move, Token.kind_unplaced, Move.unplaced_ite, ← closeCall_unplaced,
      ← startOperand_unplaced]
    rfl
  | loopVariable loc =>
    simp only [Phase.unplaced, move, Token.kind_unplaced, Move.unplaced_ite]
    rfl
  | loopEquals loc v =>
    simp only [Phase.unplaced, move, Token.kind_unplaced, Move.unplaced_ite]
    rfl

/-! ## One move after another -/

theorem parseFrom_unplaced (d : Dialect) (phase : Phase) (stack : List Frame) (ts : List Token) :
    parseFrom d phase.unplaced (stack.map Frame.unplaced) (ts.map Token.unplaced) =
      Token.unplacedReading unplaced (parseFrom d phase stack ts) := by
  induction ts generalizing phase stack with
  | nil =>
    have hmove := move_unplaced d phase stack .endOfInput
    rw [Token.unplaced_endOfInput] at hmove
    rw [List.map_nil, parseFrom, parseFrom, hmove]
    cases move d phase stack .endOfInput <;> rfl
  | cons t ts ih =>
    rw [List.map_cons, parseFrom, parseFrom, move_unplaced]
    cases move d phase stack t with
    | shift phase stack => exact ih phase stack
    | done e => rfl
    | refuse err => rfl
    | reject err => rfl

theorem parse_unplaced (d : Dialect) (ts : List Token) :
    parse d (ts.map Token.unplaced) = Token.unplacedReading unplaced (parse d ts) :=
  parseFrom_unplaced d .operand [] ts

end Expr

end PoseLang
