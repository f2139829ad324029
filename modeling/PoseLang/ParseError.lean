import PoseLang.Diagnostic
import PoseLang.Token.Basic

/-!
# Failures of the grammar

Either a rule finds a token that it cannot use, or it rejects something that is complete and wrong.
-/

namespace PoseLang

/-- What a rule of the grammar asks for: how it puts it, the tokens that it would take, and the
rule's name. -/
structure Expectation where
  message : String
  accepted : List String
  issuer : String
deriving Repr, DecidableEq

/-- A failure of the grammar. -/
inductive ParseError where
  | unexpected (wanted : Expectation) (found : Token)
  | rejected (message issuer : String) (location : Option Location)

namespace ParseError

/-- The rule's own words. -/
def rule : ParseError → String
  | .unexpected w _ => w.message
  | .rejected m _ _ => m

/-- The token that the rule could not use. -/
def token? : ParseError → Option Token
  | .unexpected _ t => some t
  | .rejected _ _ _ => none

/-- The tokens that the rule would have taken. -/
def accepted : ParseError → List String
  | .unexpected w _ => w.accepted
  | .rejected _ _ _ => []

/-- The rule's words, with the token that it found. -/
def message : ParseError → String
  | .unexpected w t => w.message ++ ", found " ++ t.shown
  | .rejected m _ _ => m

/-- The place of the failure: where the token stands, or what the rule says. -/
def location : ParseError → Option Location
  | .unexpected _ t => t.location
  | .rejected _ _ l => l

/-- The name of the rule that failed. -/
def issuer : ParseError → String
  | .unexpected w _ => w.issuer
  | .rejected _ i _ => i

/-- The failure as a diagnostic. -/
def diagnostic (e : ParseError) : Diagnostic :=
  ⟨.error, e.issuer, e.location, e.message⟩

end ParseError

end PoseLang
