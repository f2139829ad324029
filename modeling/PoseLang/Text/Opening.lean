import PoseLang.Text.CharWidth
import PoseLang.Text.Emoji

/-!
# What a text opens with

Some characters are drawn as one with those behind them: letters of some scripts join into
ligatures, and pictures into one picture. An `Opening` is what the text behind a character begins
with, as far as such joins hang on it, and `Opening.join?` tells which characters join with it. A
character that joins takes fewer columns than by itself, so that the whole has the columns of what
is drawn.
-/

namespace PoseLang.Text

/-- Letters that join with what stands before them. -/
inductive Letter where
  /-- A Hebrew lamed, which joins with an alef. -/
  | lamed
  /-- A Buginese ya, which joins with an a that carries an i. -/
  | ya
  /-- A Buginese i, a joiner and a ya. -/
  | vowelYa
  /-- A Tifinagh consonant, which joins with another one. -/
  | consonant
  /-- The Tifinagh sign that joins two consonants, and the second of them. -/
  | signConsonant
  /-- A Lisu tone letter that comes second in a pair. -/
  | tone
  /-- An Orkhon i, which joins with an ec. -/
  | orkhonI
  /-- A Khmer letter that can stand below the one before it. -/
  | below
deriving Repr, DecidableEq

/-- What stands before a joiner and a picture. -/
inductive Joined where
  | nothing
  | keycap
  | indicator
  | evenIndicators
  | oddIndicators
  /-- The end of a flag's tags, and a number of letters before it. -/
  | tagLetters (count : Nat)
  /-- The end of a flag's tags, with letters perhaps, and a number of digits before it. -/
  | tagDigits (count : Nat)
deriving Repr, DecidableEq

/-- What a text opens with. -/
inductive Opening where
  | plain
  /-- An Arabic alef, which joins with a lam. -/
  | alef
  /-- A letter, behind a joiner or not. -/
  | letter (l : Letter) (behindJoiner : Bool)
  /-- A Kirat Rai vowel sign e, a part of other vowel signs. -/
  | vowelE
  /-- A Kirat Rai vowel sign ai, or the two signs e that it consists of. -/
  | vowelAi
  | modifier
  | indicator
  | indicators
  | emoji
  /-- A joiner and a picture, and what stands before them. -/
  | joined (j : Joined)
deriving Repr, DecidableEq

/-! ## Letters -/

/-- The character that asks its neighbours to join. -/
def joiner : Char :=
  '\u200d'

/-- Whether a letter is an Arabic alef. -/
def isAlef (c : Char) : Bool :=
  Ranges.holds [(0x622, 0x623), (0x625, 0x625), (0x627, 0x627), (0x671, 0x673), (0x675, 0x675),
    (0x773, 0x774), (0x870, 0x882)] c

/-- Whether a letter is an Arabic lam. -/
def isLam (c : Char) : Bool :=
  Ranges.holds [(0x644, 0x644), (0x6b5, 0x6b8), (0x76a, 0x76a), (0x8a6, 0x8a6), (0x8c7, 0x8c7)] c

/-- Whether a letter is a Tifinagh consonant that joins. -/
def isJoiningConsonant (c : Char) : Bool :=
  Ranges.holds [(0x2d31, 0x2d65), (0x2d6f, 0x2d6f)] c

/-- Whether a letter is a Khmer one that can stand below another. -/
def isBelow (c : Char) : Bool :=
  Ranges.holds [(0x1780, 0x1782), (0x1784, 0x1787), (0x1789, 0x178c), (0x178e, 0x1793),
    (0x1795, 0x1798), (0x179b, 0x179d), (0x17a0, 0x17a0), (0x17a2, 0x17a2), (0x17a7, 0x17a7),
    (0x17ab, 0x17ac), (0x17af, 0x17af)] c

/-- The numbers of characters without a column that part two Arabic letters. -/
def partingRanges : Ranges :=
  [(0x605, 0x605), (0x890, 0x891), (0x8e2, 0x8e2), (0x9be, 0x9be), (0x9d7, 0x9d7), (0xb3e, 0xb3e),
    (0xb57, 0xb57), (0xbbe, 0xbbe), (0xbd7, 0xbd7), (0xcc0, 0xcc0), (0xcc2, 0xcc2), (0xcc7, 0xcc8),
    (0xcca, 0xccb), (0xcd5, 0xcd6), (0xd3e, 0xd3e), (0xd4e, 0xd4e), (0xd57, 0xd57), (0xdcf, 0xdcf),
    (0xddf, 0xddf), (0x1160, 0x11ff), (0x1715, 0x1715), (0x1734, 0x1734), (0x180e, 0x180e),
    (0x1b35, 0x1b35), (0x1b3b, 0x1b3b), (0x1b3d, 0x1b3d), (0x1b43, 0x1b44), (0x1baa, 0x1baa),
    (0x1bf2, 0x1bf3), (0x200c, 0x200d), (0x2065, 0x2069), (0x302e, 0x302f), (0x3164, 0x3164),
    (0xa8fa, 0xa8fa), (0xa953, 0xa953), (0xa9c0, 0xa9c0), (0xd7b0, 0xd7c6), (0xd7cb, 0xd7fb),
    (0xffa0, 0xffa0), (0xfff0, 0xfff8), (0x111c0, 0x111c0), (0x111c2, 0x111c3), (0x11235, 0x11235),
    (0x1133e, 0x1133e), (0x1134d, 0x1134d), (0x11357, 0x11357), (0x113b8, 0x113b8),
    (0x113c2, 0x113c2), (0x113c5, 0x113c5), (0x113c7, 0x113c9), (0x113cf, 0x113cf),
    (0x113d1, 0x113d1), (0x114b0, 0x114b0), (0x114bd, 0x114bd), (0x115af, 0x115af),
    (0x116b6, 0x116b6), (0x11930, 0x11930), (0x1193d, 0x1193d), (0x1193f, 0x1193f),
    (0x11941, 0x11941), (0x11a84, 0x11a89), (0x11d46, 0x11d46), (0x11f02, 0x11f02),
    (0x11f41, 0x11f41), (0x16ff0, 0x16ff1), (0x1d165, 0x1d166), (0x1d16d, 0x1d172),
    (0x1d250, 0x1d252), (0x1d280, 0x1d281), (0xe0000, 0xe0000), (0xe0002, 0xe001f),
    (0xe0080, 0xe00ff), (0xe01f0, 0xe0fff)]

/-- Whether Arabic letters join across a character. -/
def isTransparent (c : Char) : Bool :=
  charWidth c == 0 && !partingRanges.holds c

/-- Whether the letters of other scripts join across a character: it is a mark that is ignored. -/
def isIgnoredMark (c : Char) : Bool :=
  Ranges.holds [(0x34f, 0x34f), (0x17b4, 0x17b5), (0x180b, 0x180d), (0x180f, 0x180f),
    (0xfe00, 0xfe0f), (0xe0100, 0xe01ef)] c

/-- The columns of a character that is drawn as one with a letter behind it, and what the whole
opens with. -/
def Letter.ligature? (l : Letter) (behindJoiner : Bool) (c : Char) : Option (Int × Opening) :=
  match l with
  | .lamed => if behindJoiner && c.toNat = 0x5d0 then some (0, .plain) else none
  | .ya => if behindJoiner && c.toNat = 0x1a17 then some (0, .letter .vowelYa true) else none
  | .vowelYa => if c.toNat = 0x1a15 then some (0, .plain) else none
  | .consonant =>
    if c.toNat = 0x2d7f then some (1, .letter .signConsonant true)
    else if behindJoiner && isJoiningConsonant c then some (0, .plain)
    else none
  | .signConsonant => if isJoiningConsonant c then some (-1, .plain) else none
  | .tone => if 0xa4f8 ≤ c.toNat && c.toNat ≤ 0xa4fb then some (0, .plain) else none
  | .orkhonI => if behindJoiner && c.toNat = 0x10c32 then some (0, .plain) else none
  | .below => if c.toNat = 0x17d2 then some (-1, .plain) else none

/-- The columns of a character that joins with a letter behind it, and what the whole opens with. A
joiner and marks that are ignored keep the letter in reach. -/
def Letter.join? (l : Letter) (behindJoiner : Bool) (c : Char) : Option (Int × Opening) :=
  if c = joiner then some (0, .letter l true)
  else if isIgnoredMark c then some (0, .letter l behindJoiner)
  else l.ligature? behindJoiner c

/-! ## Pictures -/

/-- Whether a character is a letter among the tags of a flag. -/
def isTagLetter (c : Char) : Bool :=
  0xe0061 ≤ c.toNat && c.toNat ≤ 0xe007a

/-- Whether a character is a digit among the tags of a flag. -/
def isTagDigit (c : Char) : Bool :=
  0xe0030 ≤ c.toNat && c.toNat ≤ 0xe0039

/-- Whether a character is the flag that tags may follow. -/
def isTaggedFlag (c : Char) : Bool :=
  c.toNat = 0x1f3f4

/-- The columns of a character that joins with a joiner and a picture behind it, and what the whole
opens with. Letters of flags count in pairs: a pair takes no columns, a single one takes one. -/
def Joined.join? (j : Joined) (c : Char) : Option (Int × Opening) :=
  match j with
  | .nothing =>
    if c.toNat = 0x20e3 then some (0, .joined .keycap)
    else if isIndicator c then some (1, .joined .indicator)
    else if isModifier c then some (0, .modifier)
    else if c.toNat = 0xe007f then some (0, .joined (.tagLetters 0))
    else if isEmoji c then some (0, .emoji)
    else none
  | .keycap => none
  | .indicator => if isIndicator c then some (-1, .joined .evenIndicators) else none
  | .evenIndicators =>
    if isIndicator c then some (3, .joined .oddIndicators)
    else if c = joiner then some (0, .joined .nothing)
    else none
  | .oddIndicators =>
    if isIndicator c then some (-1, .joined .evenIndicators)
    else if c = joiner then some (0, .joined .nothing)
    else none
  | .tagLetters n =>
    if isTagLetter c && n < 6 then some (0, .joined (.tagLetters (n + 1)))
    else if isTagDigit c && n < 5 then some (0, .joined (.tagDigits 1))
    else if isTaggedFlag c && 3 ≤ n then some (0, .emoji)
    else none
  | .tagDigits n =>
    if isTagDigit c && n < 3 then some (0, .joined (.tagDigits (n + 1)))
    else if isTaggedFlag c && n = 3 then some (0, .emoji)
    else none

/-! ## Openings -/

namespace Opening

/-- What a text opens with that starts with a character which joins with nothing behind it. -/
def ofChar (c : Char) : Opening :=
  if isAlef c then .alef
  else if isBelow c then .letter .below false
  else if isJoiningConsonant c then .letter .consonant false
  else if isIndicator c then .indicator
  else if isModifier c then .modifier
  else if isEmoji c then .emoji
  else
    match c.toNat with
    | 0x5dc => .letter .lamed false
    | 0x1a10 => .letter .ya false
    | 0xa4fc | 0xa4fd => .letter .tone false
    | 0x10c03 => .letter .orkhonI false
    | 0x16d67 => .vowelE
    | 0x16d68 => .vowelAi
    | _ => .plain

/-- The columns of a character that joins with what the text behind it opens with, and what the
whole opens with. -/
def join? (o : Opening) (c : Char) : Option (Int × Opening) :=
  match o with
  | .plain => none
  | .alef =>
    if isLam c then some (0, .plain) else if isTransparent c then some (0, .alef) else none
  | .letter l behindJoiner => l.join? behindJoiner c
  | .vowelE =>
    match c.toNat with
    | 0x16d63 | 0x16d69 => some (0, .plain)
    | 0x16d67 => some (0, .vowelAi)
    | 0x16d68 => some (1, .vowelE)
    | _ => none
  | .vowelAi => if c.toNat = 0x16d63 then some (0, .plain) else none
  | .modifier =>
    if isModifierBase c then some (0, .emoji)
    else if c = joiner then some (0, .joined .nothing)
    else none
  | .indicator => if isIndicator c then some (1, .indicators) else none
  | .indicators =>
    if isIndicator c then some (1, .indicators)
    else if c = joiner then some (0, .joined .nothing)
    else none
  | .emoji => if c = joiner then some (0, .joined .nothing) else none
  | .joined j => j.join? c

end Opening

end PoseLang.Text
