import PoseLang.Text.Opening

/-!
# Widths of texts

The number of columns that a text takes on a terminal. The text is measured from its end: each
character takes the columns that it takes before what follows it, which is its own width unless the
two are drawn as one. A selector says how the character before it is drawn.
-/

namespace PoseLang.Text

/-- How a selector asks for the character before it to be drawn. -/
inductive Selector where
  | text
  | picture
  /-- A quotation mark in a square of its own. -/
  | square
deriving Repr, DecidableEq

/-- The selector that a character is. -/
def Selector.ofChar? (c : Char) : Option Selector :=
  match c.toNat with
  | 0xfe01 => some .square
  | 0xfe0e => some .text
  | 0xfe0f => some .picture
  | _ => none

/-- Whether a character is a curved quotation mark. -/
def isCurvedQuote (c : Char) : Bool :=
  Ranges.holds [(0x2018, 0x2019), (0x201c, 0x201d)] c

/-- Whether a selector changes how a character is drawn. -/
def Selector.appliesTo (s : Selector) (c : Char) : Bool :=
  match s with
  | .text => isNarrowable c
  | .picture => isSelectable c
  | .square => isCurvedQuote c

/-- What follows a character: selectors, the nearest first, and what the text behind them opens
with. -/
structure Following where
  selectors : List Selector
  opening : Opening
deriving Repr, DecidableEq

namespace Following

/-- An opening without a selector. -/
def of (o : Opening) : Following :=
  ⟨[], o⟩

/-- Whether a selector before an opening keeps it in reach: letters join across selectors. -/
def reachesAcross : Opening → Bool
  | .alef | .letter _ _ => true
  | _ => false

/-- Whether a picture before an opening becomes one with it. -/
def joinsPicture : Opening → Bool
  | .joined .nothing | .joined .keycap => true
  | _ => false

/-- The opening that is in reach of a character to which no selector applies. -/
def reached (f : Following) : Opening :=
  if f.selectors.isEmpty || reachesAcross f.opening then f.opening else .plain

/-- What follows the character before a selector. Before a letter in reach, selectors add up, but
that of pictures has to be the nearest; elsewhere the nearest alone counts. -/
def select (f : Following) (s : Selector) : Following :=
  let o := f.reached
  if reachesAcross o then ⟨s :: f.selectors.filter fun r => r != .picture && r != s, o⟩
  else if s == .picture && joinsPicture o then ⟨[s], o⟩
  else ⟨[s], .plain⟩

/-- The columns of a character that a selector applies to, and what the whole opens with. -/
def selected? (f : Following) (c : Char) : Option (Int × Opening) :=
  (f.selectors.find? (·.appliesTo c)).map fun
    | .picture => (if joinsPicture f.opening then 0 else 2, .emoji)
    | .text => (1, .plain)
    | .square => (2, .plain)

/-- The columns of a character before what follows it, and what the whole opens with. -/
def before (f : Following) (c : Char) : Int × Following :=
  match Selector.ofChar? c with
  | some s => (0, f.select s)
  | none =>
    match f.selected? c <|> f.reached.join? c with
    | some (w, o) => (w, of o)
    | none => (charWidth c, of (Opening.ofChar c))

end Following

/-- The columns of characters, and what they open with. -/
def measure (cs : List Char) : Int × Following :=
  cs.foldr (fun c r => let (w, f) := r.2.before c; (r.1 + w, f)) (0, Following.of .plain)

/-- The number of columns that a text takes. -/
def width (s : String) : Nat :=
  (measure s.toList).1.toNat

end PoseLang.Text
