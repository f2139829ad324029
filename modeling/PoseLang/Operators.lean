import Std.Data.ExtTreeMap
import PoseLang.Token.Basic

/-!
# Binary operators and their precedences

Which characters are binary operators, and how tightly each of them binds, is data: a table from
characters to precedences. A precedence that is not positive takes an operator out of use.
-/

namespace PoseLang

open Std (ExtTreeMap)

/-- The precedences of operator characters; a higher one binds tighter. -/
abbrev Operators :=
  ExtTreeMap Char Int32

namespace Operators

/-- The table of some precedences, the later ones winning. -/
def ofPairs (ps : List (Char × Int32)) : Operators :=
  ps.foldl (fun t p => t.insert p.1 p.2) ∅

/-- Comparisons bind loosest, then sums, then products. -/
def standard : Operators :=
  ofPairs [('<', 10), ('>', 10), ('+', 20), ('-', 20), ('*', 40), ('/', 40)]

/-- The character and the precedence of a token that is a binary operator. -/
def binary? (ops : Operators) (t : Token) : Option (Char × Int32) :=
  match t.symbol? with
  | none => none
  | some c =>
    match ops[c]? with
    | none => none
    | some p => if 0 < p then some (c, p) else none

/-- The precedence that stands for no binary operator. -/
def noPrecedence : Int32 :=
  -1

/-- The precedence of a token, or the one that stands for no binary operator. -/
def tokenPrecedence (ops : Operators) (t : Token) : Int32 :=
  ((ops.binary? t).map Prod.snd).getD noPrecedence

end Operators

end PoseLang
