import PoseLang.Token.Lexer

/-!
# Lexemes and the gaps between them

What the tokens of a text are, apart from any scanner. A text is cut into lexemes with gaps between them:
a gap consists of blank characters and comments, and a lexeme is a word or a numeral that goes on as long
as it can, or a single character (`Lexeme`). Each lexeme is one token, placed by the lines and the
characters in front of it (`Location.behind`), and behind the last gap stands the end of input. `Lexed`
says this of the part of a text that starts behind some other part.

The scanner reads one character after another and knows neither. What it keeps is stated with the text
that is still to come (`Scanned`): whatever tokens the open lexeme and the coming text have, the whole text
has those that were read so far and then these. One character keeps this, so the whole text does. And a
text can be cut in one way only, so the tokens that it gives are the only ones that it has.
-/

namespace PoseLang

/-- The place behind a text that a file starts with. -/
def Location.behind (file : String) (before : List Char) : Location where
  file := file
  line := 1 + before.count '\n'
  column := 1 + (before.reverse.takeWhile (· != '\n')).length

theorem Location.behind_concat (file : String) (before : List Char) (c : Char) :
    behind file (before ++ [c]) = (behind file before).after c := by
  unfold after behind
  by_cases hc : c = '\n'
  · simp [hc, Nat.add_assoc]
  · simp [hc]
    omega

namespace Token

/-! ## The lexemes of a text -/

/-- No character of a class stands in front. -/
def NotAhead (p : Char → Bool) (rest : List Char) : Prop :=
  ∀ c ∈ rest.head?, p c = false

/-- A word: a letter, and letters, digits and underscores behind it. -/
def IsWord (name : String) : Prop :=
  ∃ c cs, name.toList = c :: cs ∧ c.isAlpha = true ∧ ∀ x ∈ cs, isWordChar x = true

/-- A character that is not the end of a line. -/
def isInLine (c : Char) : Bool :=
  c != '\n'

/-- A text of blank characters and comments in front of a rest. A comment runs to the end of its line or
of the whole text. -/
inductive Gap (rest : List Char) : List Char → Prop
  | nil : Gap rest []
  | blank {c : Char} {gap : List Char} (hc : Text.isBlank c = true) (hgap : Gap rest gap) :
    Gap rest (c :: gap)
  | comment {cs gap : List Char} (hcs : ∀ c ∈ cs, isInLine c = true)
    (hstop : NotAhead isInLine (gap ++ rest)) (hgap : Gap rest gap) : Gap rest ('#' :: cs ++ gap)

/-- A lexeme in front of a rest, and its token without a place. A word and a numeral are as long as they
can be, and every other character that is neither blank nor opens a comment is a lexeme by itself. -/
inductive Lexeme (rest : List Char) : List Char → Token → Prop
  | keyword {c : Char} {cs : List Char} {kind : Kind} (hc : c.isAlpha = true)
    (hcs : ∀ x ∈ cs, isWordChar x = true) (hstop : NotAhead isWordChar rest)
    (hkind : Kind.ofKeyword? (String.ofList (c :: cs)) = some kind) : Lexeme rest (c :: cs) { kind }
  | identifier {c : Char} {cs : List Char} (hc : c.isAlpha = true)
    (hcs : ∀ x ∈ cs, isWordChar x = true) (hstop : NotAhead isWordChar rest)
    (hkind : Kind.ofKeyword? (String.ofList (c :: cs)) = none) :
    Lexeme rest (c :: cs) { kind := .identifier, text := some (String.ofList (c :: cs)) }
  | number {c : Char} {cs : List Char} {x : Float} (hcs : ∀ x ∈ c :: cs, isNumeralChar x = true)
    (hstop : NotAhead isNumeralChar rest) (hx : Decimal.read? (String.ofList (c :: cs)) = some x) :
    Lexeme rest (c :: cs) { kind := .number, value := some x }
  | invalid {c : Char} {cs : List Char} (hcs : ∀ x ∈ c :: cs, isNumeralChar x = true)
    (hstop : NotAhead isNumeralChar rest) (hx : Decimal.read? (String.ofList (c :: cs)) = none) :
    Lexeme rest (c :: cs) { kind := .invalid, text := some (String.ofList (c :: cs)) }
  | leftParen : Lexeme rest ['('] { kind := .leftParen }
  | rightParen : Lexeme rest [')'] { kind := .rightParen }
  | comma : Lexeme rest [','] { kind := .comma }
  | equal : Lexeme rest ['='] { kind := .equal }
  | operator {c : Char} (hblank : Text.isBlank c = false) (halpha : c.isAlpha = false)
    (hnumeral : isNumeralChar c = false) (hmark : c ∉ ['#', '(', ')', ',', '=']) :
    Lexeme rest [c] { kind := .operator, text := some c.toString }

/-- The tokens of a text that stands behind another one in a file. -/
inductive Lexed (file : String) : List Char → List Char → List Token → Prop
  | finish {before gap : List Char} (hgap : Gap [] gap) :
    Lexed file before gap [endOfInput.placed (.behind file (before ++ gap))]
  | token {before gap lexeme rest : List Char} {t : Token} {ts : List Token}
    (hgap : Gap (lexeme ++ rest) gap) (hlexeme : Lexeme rest lexeme t)
    (hrest : Lexed file (before ++ gap ++ lexeme) rest ts) :
    Lexed file before (gap ++ lexeme ++ rest) (t.placed (.behind file (before ++ gap)) :: ts)

/-! ### The three classes of lexemes -/

section

variable {rest : List Char}

theorem lexeme_ofWord {c : Char} {cs : List Char} (hc : c.isAlpha = true)
    (hcs : ∀ x ∈ cs, isWordChar x = true) (hstop : NotAhead isWordChar rest) :
    Lexeme rest (c :: cs) (ofWord (String.ofList (c :: cs))) := by
  unfold ofWord
  split
  next hkind => exact .keyword hc hcs hstop hkind
  next hkind => exact .identifier hc hcs hstop hkind

theorem lexeme_ofNumeral {c : Char} {cs : List Char} (hcs : ∀ x ∈ c :: cs, isNumeralChar x = true)
    (hstop : NotAhead isNumeralChar rest) :
    Lexeme rest (c :: cs) (ofNumeral (String.ofList (c :: cs))) := by
  unfold ofNumeral
  split
  next hx => exact .number hcs hstop hx
  next hx => exact .invalid hcs hstop hx

theorem lexeme_ofChar {c : Char} (hblank : Text.isBlank c = false) (hcomment : c ≠ '#')
    (halpha : c.isAlpha = false) (hnumeral : isNumeralChar c = false) :
    Lexeme rest [c] (ofChar c) := by
  unfold ofChar
  split
  · exact .leftParen
  · exact .rightParen
  · exact .comma
  · exact .equal
  next hleft hright hcomma hequal =>
    refine .operator hblank halpha hnumeral ?_
    simp only [List.mem_cons, List.not_mem_nil, or_false, not_or]
    exact ⟨hcomment, hleft, hright, hcomma, hequal⟩

end

/-! ### More text in front -/

section

variable {file : String} {before rest : List Char} {ts : List Token}

/-- A text in front that makes longer gaps of the gaps behind it leaves the tokens as they are. -/
theorem Lexed.skip {skipped : List Char}
    (hskip : ∀ gap behind, gap ++ behind = rest → Gap behind gap → Gap behind (skipped ++ gap))
    (h : Lexed file (before ++ skipped) rest ts) : Lexed file before (skipped ++ rest) ts := by
  cases h with
  | finish hgap =>
    rw [List.append_assoc]
    exact .finish (hskip _ _ (List.append_nil _) hgap)
  | @token _ gap lexeme rest t ts hgap hlexeme hrest =>
    have htext : skipped ++ (gap ++ lexeme ++ rest) = skipped ++ gap ++ lexeme ++ rest := by
      simp only [List.append_assoc]
    rw [htext, List.append_assoc before]
    refine .token (hskip _ _ (List.append_assoc ..).symm hgap) hlexeme ?_
    rwa [List.append_assoc before] at hrest

theorem Lexed.blank {c : Char} (hc : Text.isBlank c = true) (h : Lexed file (before ++ [c]) rest ts) :
    Lexed file before (c :: rest) ts :=
  .skip (fun _ _ _ hgap => .blank hc hgap) h

theorem Lexed.comment {cs : List Char} (hcs : ∀ c ∈ cs, isInLine c = true) (hstop : NotAhead isInLine rest)
    (h : Lexed file (before ++ '#' :: cs) rest ts) : Lexed file before ('#' :: cs ++ rest) ts :=
  .skip (fun _ _ hrest hgap => .comment hcs (hrest ▸ hstop) hgap) h

theorem Lexed.lexeme {lexeme : List Char} {t : Token} (hlexeme : Lexeme rest lexeme t)
    (h : Lexed file (before ++ lexeme) rest ts) :
    Lexed file before (lexeme ++ rest) (t.placed (.behind file before) :: ts) := by
  have htoken := @Lexed.token file before [] lexeme rest t ts .nil hlexeme (by rwa [List.append_nil])
  rwa [List.append_nil] at htoken

end

/-! ## What the scanner keeps -/

theorem Scanner.close_mode (s : Scanner) : s.close.mode = .between := by
  unfold close
  split <;> rfl

theorem Scanner.close_here (s : Scanner) : s.close.here = s.here := by
  unfold close
  split <;> rfl

/-- The lexeme or the comment that a mode has begun, behind some text. -/
inductive Begun (file : String) (before : List Char) : Scanner.Mode → List Char → Prop
  | between : Begun file before .between []
  | comment {cs : List Char} (hcs : ∀ c ∈ cs, isInLine c = true) :
    Begun file before .comment ('#' :: cs)
  | word {c : Char} {cs : List Char} (hc : c.isAlpha = true) (hcs : ∀ x ∈ cs, isWordChar x = true) :
    Begun file before (.word (.behind file before) (c :: cs).reverse) (c :: cs)
  | numeral {c : Char} {cs : List Char} (hcs : ∀ x ∈ c :: cs, isNumeralChar x = true) :
    Begun file before (.numeral (.behind file before) (c :: cs).reverse) (c :: cs)

/-- What a mode has begun does not go on in the text that comes next. -/
def Scanner.Mode.Ends (rest : List Char) : Scanner.Mode → Prop
  | .between => True
  | .comment => NotAhead isInLine rest
  | .word _ _ => NotAhead isWordChar rest
  | .numeral _ _ => NotAhead isNumeralChar rest

theorem Scanner.Mode.ends_nil (mode : Scanner.Mode) : mode.Ends [] := by
  have hstops (p : Char → Bool) : NotAhead p [] := fun c hc => by cases hc
  cases mode with
  | between => trivial
  | comment => exact hstops isInLine
  | word _ _ => exact hstops isWordChar
  | numeral _ _ => exact hstops isNumeralChar

/-- A scanner that has read one part of a text and has the other one to read. Whatever tokens there are
from what it has begun onwards, the whole text has the tokens read so far and then these. -/
structure Scanned (file : String) (done rest : List Char) (s : Scanner) : Prop where
  here : s.here = .behind file done
  tokens : ∃ before begun, done = before ++ begun ∧ Begun file before s.mode begun ∧
    ∀ ts, Lexed file before (begun ++ rest) ts →
      Lexed file [] (done ++ rest) (s.tokens.reverse ++ ts)

namespace Scanned

variable {file : String} {done rest : List Char} {s : Scanner}

theorem start (file source : String) : Scanned file [] source.toList (Scanner.start file) where
  here := rfl
  tokens := ⟨[], [], rfl, .between, fun _ h => h⟩

/-- Between lexemes, the tokens of the rest are those of the text behind what is read. -/
theorem of_between (hhere : s.here = .behind file done) (hmode : s.mode = .between)
    (htokens : ∀ ts, Lexed file done rest ts → Lexed file [] (done ++ rest) (s.tokens.reverse ++ ts)) :
    Scanned file done rest s :=
  ⟨hhere, done, [], (List.append_nil done).symm, hmode ▸ .between, htokens⟩

theorem lexed_of_between (h : Scanned file done rest s) (hmode : s.mode = .between) {ts : List Token}
    (hts : Lexed file done rest ts) : Lexed file [] (done ++ rest) (s.tokens.reverse ++ ts) := by
  obtain ⟨before, begun, rfl, hbegun, htokens⟩ := h.tokens
  rw [hmode] at hbegun
  cases hbegun
  exact htokens ts (by rwa [List.append_nil] at hts)

theorem close (h : Scanned file done rest s) (hends : s.mode.Ends rest) :
    Scanned file done rest s.close := by
  obtain ⟨mode, here, tokens⟩ := s
  obtain ⟨hhere, before, begun, rfl, hbegun, htokens⟩ := h
  cases hbegun with
  | between =>
    refine .of_between hhere rfl fun ts hts => htokens ts ?_
    rwa [List.append_nil] at hts
  | comment hcs => exact .of_between hhere rfl fun ts hts => htokens ts (.comment hcs hends hts)
  | word hc hcs =>
    refine .of_between hhere rfl fun ts hts => ?_
    have hlexed := htokens _ (.lexeme (lexeme_ofWord hc hcs hends) hts)
    simpa [Scanner.close] using hlexed
  | numeral hcs =>
    refine .of_between hhere rfl fun ts hts => ?_
    have hlexed := htokens _ (.lexeme (lexeme_ofNumeral hcs hends) hts)
    simpa [Scanner.close] using hlexed

/-- A character that continues nothing, read between lexemes. -/
theorem openAt {c : Char} (h : Scanned file done (c :: rest) s) (hmode : s.mode = .between) :
    Scanned file (done ++ [c]) rest { s.openAt c with here := s.here.after c } := by
  have hlexed {ts : List Token} (hts : Lexed file done (c :: rest) ts) :
      Lexed file [] (done ++ [c] ++ rest) (s.tokens.reverse ++ ts) := by
    rw [List.append_assoc]
    exact h.lexed_of_between hmode hts
  have hhere : s.here.after c = .behind file (done ++ [c]) := by
    rw [Location.behind_concat, h.here]
  unfold Scanner.openAt
  split
  next hblank => exact .of_between hhere hmode fun ts hts => hlexed (.blank hblank hts)
  next hblank =>
    split
    next hcomment =>
      subst hcomment
      exact ⟨hhere, done, ['#'], rfl, .comment (by simp), fun ts hts => hlexed hts⟩
    next hcomment =>
      split
      next halpha =>
        refine ⟨hhere, done, [c], rfl, ?_, fun ts hts => hlexed hts⟩
        rw [h.here]
        exact @Begun.word file done c [] halpha (by simp)
      next halpha =>
        split
        next hnumeral =>
          refine ⟨hhere, done, [c], rfl, ?_, fun ts hts => hlexed hts⟩
          rw [h.here]
          exact @Begun.numeral file done c [] (by simpa using hnumeral)
        next hnumeral =>
          simp only [Bool.not_eq_true] at hblank halpha hnumeral
          refine .of_between hhere hmode fun ts hts => ?_
          have htoken := hlexed (.lexeme (lexeme_ofChar hblank hcomment halpha hnumeral) hts)
          simpa [h.here] using htoken

theorem read {c : Char} (h : Scanned file done (c :: rest) s) :
    Scanned file (done ++ [c]) rest (s.read c) := by
  have hclosed (hends : s.mode.Ends (c :: rest)) :
      Scanned file (done ++ [c]) rest { s.close.openAt c with here := s.here.after c } := by
    rw [← s.close_here]
    exact (h.close hends).openAt s.close_mode
  obtain ⟨mode, here, tokens⟩ := s
  obtain ⟨hhere, before, begun, rfl, hbegun, htokens⟩ := id h
  have hlonger {mode' : Scanner.Mode} (hbegun' : Begun file before mode' (begun ++ [c])) :
      Scanned file (before ++ begun ++ [c]) rest ⟨mode', here.after c, tokens⟩ := by
    refine ⟨?_, before, begun ++ [c], List.append_assoc .., hbegun', fun ts hts => ?_⟩
    · rw [Location.behind_concat, ← hhere]
    · rw [List.append_assoc] at hts ⊢
      exact htokens ts hts
  unfold Scanner.read Scanner.take
  cases hbegun with
  | between => exact h.openAt rfl
  | comment hcs =>
    dsimp only
    split
    next hc =>
      subst hc
      exact hclosed fun _ hc => by cases hc; rfl
    next hc =>
      have hin : isInLine c = true := bne_iff_ne.mpr hc
      exact hlonger (.comment (List.forall_mem_append.mpr ⟨hcs, List.forall_mem_singleton.mpr hin⟩))
  | @word x cs hx hcs =>
    dsimp only
    split
    next hc =>
      rw [← List.reverse_concat]
      exact hlonger (@Begun.word file before x (cs ++ [c]) hx
        (List.forall_mem_append.mpr ⟨hcs, List.forall_mem_singleton.mpr hc⟩))
    next hc => exact hclosed fun _ hstop => by cases hstop; exact Bool.eq_false_iff.mpr hc
  | @numeral x cs hcs =>
    dsimp only
    split
    next hc =>
      rw [← List.reverse_concat]
      exact hlonger (@Begun.numeral file before x (cs ++ [c])
        (List.forall_mem_append.mpr ⟨hcs, List.forall_mem_singleton.mpr hc⟩))
    next hc => exact hclosed fun _ hstop => by cases hstop; exact Bool.eq_false_iff.mpr hc

theorem foldl (h : Scanned file done rest s) :
    Scanned file (done ++ rest) [] (rest.foldl Scanner.read s) := by
  induction rest generalizing done s with
  | nil => rwa [List.append_nil]
  | cons c rest ih =>
    have hrest := ih h.read
    rwa [List.append_assoc] at hrest

theorem finish (h : Scanned file done [] s) : Lexed file [] done s.finish := by
  have hlexed := (h.close s.mode.ends_nil).lexed_of_between s.close_mode (.finish .nil)
  simpa [Scanner.finish, h.here] using hlexed

end Scanned

theorem lexed_tokenize (file source : String) : Lexed file [] source.toList (tokenize file source) :=
  (Scanned.start file source).foldl.finish

/-! ## A text is cut in one way -/

theorem NotAhead.takeWhile {p : Char → Bool} {rest : List Char} (h : NotAhead p rest) :
    rest.takeWhile p = [] := by
  cases rest with
  | nil => rfl
  | cons c rest => simp [h c rfl]

/-- Where the characters of a class end is the same for one text. -/
theorem NotAhead.append_inj {p : Char → Bool} {xs ys xs' ys' : List Char} (hys : NotAhead p ys)
    (hys' : NotAhead p ys') (hxs : ∀ x ∈ xs, p x = true) (hxs' : ∀ x ∈ xs', p x = true)
    (h : xs ++ ys = xs' ++ ys') : xs = xs' ∧ ys = ys' := by
  have htake := congrArg (List.takeWhile p) h
  rw [List.takeWhile_append_of_pos hxs, List.takeWhile_append_of_pos hxs', hys.takeWhile,
    hys'.takeWhile, List.append_nil, List.append_nil] at htake
  subst htake
  exact ⟨rfl, List.append_cancel_left h⟩

/-- A character that opens a gap. -/
def isGapChar (c : Char) : Bool :=
  Text.isBlank c || c == '#'

section

variable {c : Char}

theorem isAlpha_iff_toNat :
    c.isAlpha = true ↔ 65 ≤ c.toNat ∧ c.toNat ≤ 90 ∨ 97 ≤ c.toNat ∧ c.toNat ≤ 122 := by
  have hranges : c.isAlpha = (decide ('A'.val ≤ c.val ∧ c.val ≤ 'Z'.val) ||
      (decide ('a'.val ≤ c.val) && decide (c.val ≤ 'z'.val))) := rfl
  simp [hranges, UInt32.le_iff_toNat_le]

theorem isNumeralChar_iff_toNat :
    isNumeralChar c = true ↔ 48 ≤ c.toNat ∧ c.toNat ≤ 57 ∨ c.toNat = 46 := by
  simp [isNumeralChar, Char.isDigit_iff_toNat, ← Char.toNat_inj]

theorem toNat_of_isGapChar (h : isGapChar c = true) :
    c.toNat ≤ 32 ∨ c.toNat = 35 ∨ 133 ≤ c.toNat := by
  simp only [isGapChar, Text.isBlank, Bool.or_eq_true, Bool.and_eq_true, decide_eq_true_eq,
    beq_iff_eq, ← Char.toNat_inj, Char.reduceToNat] at h
  omega

theorem isGapChar_eq_false_of_isAlpha (h : c.isAlpha = true) : isGapChar c = false := by
  have hc := isAlpha_iff_toNat.mp h
  refine Bool.eq_false_iff.mpr fun hgap => ?_
  have := toNat_of_isGapChar hgap
  omega

theorem isGapChar_eq_false_of_isNumeralChar (h : isNumeralChar c = true) : isGapChar c = false := by
  have hc := isNumeralChar_iff_toNat.mp h
  refine Bool.eq_false_iff.mpr fun hgap => ?_
  have := toNat_of_isGapChar hgap
  omega

theorem isNumeralChar_eq_false_of_isAlpha (h : c.isAlpha = true) : isNumeralChar c = false := by
  have hc := isAlpha_iff_toNat.mp h
  refine Bool.eq_false_iff.mpr fun hnumeral => ?_
  have := isNumeralChar_iff_toNat.mp hnumeral
  omega

end

theorem Gap.nil_or_opens {gap rest : List Char} (h : Gap rest gap) :
    gap = [] ∨ ∃ c cs, gap = c :: cs ∧ isGapChar c = true := by
  cases h with
  | nil => exact .inl rfl
  | blank hc _ => exact .inr ⟨_, _, rfl, by rw [isGapChar, hc]; rfl⟩
  | comment _ _ _ => exact .inr ⟨_, _, rfl, by decide⟩

/-- Where a gap ends is the same for one text. -/
theorem Gap.append_inj {gap rest gap' rest' : List Char} (h : Gap rest gap) (h' : Gap rest' gap')
    (hrest : NotAhead isGapChar rest) (hrest' : NotAhead isGapChar rest')
    (heq : gap ++ rest = gap' ++ rest') :
    gap = gap' ∧ rest = rest' := by
  induction h generalizing gap' with
  | nil =>
    rcases h'.nil_or_opens with rfl | ⟨c, cs, rfl, hc⟩
    · exact ⟨rfl, heq⟩
    · subst heq
      exact absurd (hrest c rfl) (by simp [hc])
  | @blank c gap hc hgap ih =>
    cases h' with
    | nil =>
      subst heq
      exact absurd (hrest' c rfl) (by simp [isGapChar, hc])
    | blank hc' hgap' =>
      obtain ⟨rfl, htail⟩ := List.cons.inj heq
      obtain ⟨rfl, rfl⟩ := ih hgap' htail
      exact ⟨rfl, rfl⟩
    | comment _ _ _ =>
      obtain ⟨rfl, -⟩ := List.cons.inj heq
      cases hc
  | @comment cs gap hcs hstop hgap ih =>
    cases h' with
    | nil =>
      subst heq
      exact absurd (hrest' _ rfl) (by decide)
    | blank hc' hgap' =>
      obtain ⟨rfl, -⟩ := List.cons.inj heq
      cases hc'
    | comment hcs' hstop' hgap' =>
      simp only [List.cons_append, List.append_assoc, List.cons.injEq, true_and] at heq
      obtain ⟨rfl, htail⟩ := hstop.append_inj hstop' hcs hcs' heq
      obtain ⟨rfl, rfl⟩ := ih hgap' htail
      exact ⟨rfl, rfl⟩

/-- The characters that a lexeme may go on with, by its first one. -/
def goesOn (first : Char) : Char → Bool :=
  if first.isAlpha then isWordChar
  else if isNumeralChar first then isNumeralChar
  else fun _ => false

/-- The token of a lexeme, by its first character. -/
def ofLexeme (first : Char) (lexeme : List Char) : Token :=
  if first.isAlpha then ofWord (String.ofList lexeme)
  else if isNumeralChar first then ofNumeral (String.ofList lexeme)
  else ofChar first

/-- The first character of a lexeme tells where it ends and which token it is. -/
theorem Lexeme.of_first {lexeme rest : List Char} {t : Token} (h : Lexeme rest lexeme t) :
    ∃ c cs, lexeme = c :: cs ∧ isGapChar c = false ∧ (∀ x ∈ cs, goesOn c x = true) ∧
      NotAhead (goesOn c) rest ∧ t = ofLexeme c lexeme := by
  have hsingle {c : Char} (hgap : isGapChar c = false) (halpha : c.isAlpha = false)
      (hnumeral : isNumeralChar c = false) : ∃ c' cs, [c] = c' :: cs ∧ isGapChar c' = false ∧
        (∀ x ∈ cs, goesOn c' x = true) ∧ NotAhead (goesOn c') rest ∧ ofChar c = ofLexeme c' [c] :=
    ⟨c, [], rfl, hgap, by simp, by simp [NotAhead, goesOn, halpha, hnumeral],
      by simp [ofLexeme, halpha, hnumeral]⟩
  cases h with
  | keyword hc hcs hstop hkind | identifier hc hcs hstop hkind =>
    have hgoesOn := show goesOn _ = isWordChar from if_pos hc
    refine ⟨_, _, rfl, isGapChar_eq_false_of_isAlpha hc, ?_, ?_, ?_⟩
    · rwa [hgoesOn]
    · rwa [hgoesOn]
    · rw [ofLexeme, if_pos hc, ofWord, hkind]
  | @number c cs _ hcs hstop hx | @invalid c cs hcs hstop hx =>
    have hc : isNumeralChar c = true := hcs c List.mem_cons_self
    have halpha : c.isAlpha ≠ true := fun halpha => by
      rw [isNumeralChar_eq_false_of_isAlpha halpha] at hc
      cases hc
    have hgoesOn : goesOn c = isNumeralChar := by rw [goesOn, if_neg halpha, if_pos hc]
    refine ⟨_, _, rfl, isGapChar_eq_false_of_isNumeralChar hc, ?_, ?_, ?_⟩
    · rw [hgoesOn]
      exact fun x hx => hcs x (List.mem_cons_of_mem c hx)
    · rwa [hgoesOn]
    · rw [ofLexeme, if_neg halpha, if_pos hc, ofNumeral, hx]
  | leftParen | rightParen | comma | equal => exact hsingle (by decide) (by decide) (by decide)
  | @operator c hblank halpha hnumeral hmark =>
    simp only [List.mem_cons, List.not_mem_nil, or_false, not_or] at hmark
    obtain ⟨hcomment, hleft, hright, hcomma, hequal⟩ := hmark
    have hchar : ofChar c = { kind := .operator, text := some c.toString } := by
      unfold ofChar
      split <;> first | contradiction | rfl
    rw [← hchar]
    exact hsingle (by simp [isGapChar, hblank, hcomment]) halpha hnumeral

/-- No lexeme opens like a gap. -/
theorem Lexeme.notAhead {lexeme rest : List Char} {t : Token} (h : Lexeme rest lexeme t) :
    NotAhead isGapChar (lexeme ++ rest) := by
  obtain ⟨c, cs, rfl, hc, -⟩ := h.of_first
  intro _ heq
  cases heq
  exact hc

/-- The lexeme in front of a text, and its token, are the same for one text. -/
theorem Lexeme.append_inj {lexeme rest lexeme' rest' : List Char} {t t' : Token}
    (h : Lexeme rest lexeme t) (h' : Lexeme rest' lexeme' t')
    (heq : lexeme ++ rest = lexeme' ++ rest') : lexeme = lexeme' ∧ rest = rest' ∧ t = t' := by
  obtain ⟨c, cs, rfl, -, hcs, hstop, rfl⟩ := h.of_first
  obtain ⟨c', cs', rfl, -, hcs', hstop', rfl⟩ := h'.of_first
  obtain ⟨rfl, htail⟩ := List.cons.inj heq
  obtain ⟨rfl, rfl⟩ := hstop.append_inj hstop' hcs hcs' htail
  exact ⟨rfl, rfl, rfl⟩

theorem Lexed.unique {file : String} {before text text' : List Char} {ts ts' : List Token}
    (h : Lexed file before text ts) (h' : Lexed file before text' ts') (htext : text = text') :
    ts = ts' := by
  have hnil : NotAhead isGapChar [] := fun _ hc => by cases hc
  induction h generalizing text' ts' with
  | @finish before gap hgap =>
    cases h' with
    | finish hgap' => rw [htext]
    | token hgap' hlexeme' hrest' =>
      rw [List.append_assoc, ← List.append_nil gap] at htext
      obtain ⟨-, hempty⟩ := hgap.append_inj hgap' hnil hlexeme'.notAhead htext
      obtain ⟨c, cs, rfl, -⟩ := hlexeme'.of_first
      cases hempty
  | token hgap hlexeme hrest ih =>
    rw [List.append_assoc] at htext
    cases h' with
    | finish hgap' =>
      rw [← List.append_nil text'] at htext
      obtain ⟨-, hempty⟩ := hgap.append_inj hgap' hlexeme.notAhead hnil htext
      obtain ⟨c, cs, rfl, -⟩ := hlexeme.of_first
      cases hempty
    | token hgap' hlexeme' hrest' =>
      rw [List.append_assoc] at htext
      obtain ⟨rfl, hbehind⟩ := hgap.append_inj hgap' hlexeme.notAhead hlexeme'.notAhead htext
      obtain ⟨rfl, rfl, rfl⟩ := hlexeme.append_inj hlexeme' hbehind
      rw [ih hrest' rfl]

/-- The tokens of a text are those that its lexemes give. -/
theorem tokenize_eq_of_lexed {file source : String} {ts : List Token}
    (h : Lexed file [] source.toList ts) : tokenize file source = ts :=
  (lexed_tokenize file source).unique h rfl

theorem Lexeme.kind_ne {rest lexeme : List Char} {t : Token} (h : Lexeme rest lexeme t) :
    t.kind ≠ .endOfInput := by
  cases h with
  | keyword _ _ _ hkind =>
    unfold Kind.ofKeyword? at hkind
    split at hkind <;> cases hkind <;> decide
  | _ => exact fun h => by cases h

theorem Lexed.ends {file : String} {before text : List Char} {ts : List Token}
    (h : Lexed file before text ts) : ∃ front last, ts = front ++ [last] ∧
      last.kind = .endOfInput ∧ ∀ t ∈ front, t.kind ≠ .endOfInput := by
  induction h with
  | finish _ => exact ⟨[], _, rfl, rfl, by simp⟩
  | token _ hlexeme _ ih =>
    obtain ⟨front, last, rfl, hlast, hfront⟩ := ih
    exact ⟨_ :: front, last, rfl, hlast, List.forall_mem_cons.mpr ⟨hlexeme.kind_ne, hfront⟩⟩

/-- The tokens of a source are those of its lexemes in order, placed where these stand, and the end of
input, which stands nowhere but behind them. -/
theorem tokenize_exact (file source : String) :
    (∀ ts, tokenize file source = ts ↔ Lexed file [] source.toList ts) ∧
    ∃ front last, tokenize file source = front ++ [last] ∧ last.kind = .endOfInput ∧
      ∀ t ∈ front, t.kind ≠ .endOfInput := by
  have hlexed := lexed_tokenize file source
  refine ⟨fun ts => ⟨fun h => ?_, tokenize_eq_of_lexed⟩, hlexed.ends⟩
  rwa [h] at hlexed

end Token

end PoseLang
