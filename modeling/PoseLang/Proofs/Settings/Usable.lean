import PoseLang.Settings.Basic
import PoseLang.Proofs.Expr.Rendering
import PoseLang.Proofs.Token.Lexemes

/-!
# Operators that settings define

Settings without a flaw have operators of one character each, and with a positive precedence. An operator
can be used if its character is a token by itself, which the check of the settings is there to see to: it
turns down the characters that mean something else. One of them passes, the point, which opens a numeral:
a name and a point behind it are two items, and the operator is out of reach.
-/

namespace PoseLang

namespace Token

/-! ## A lexeme between two names -/

/-- A text that is an identifier: a word that is not reserved. -/
structure IsIdentifier (name : String) : Prop where
  word : IsWord name
  free : Kind.ofKeyword? name = none

theorem IsIdentifier.lexeme {name : String} (h : IsIdentifier name) {rest : List Char}
    (hstop : NotAhead isWordChar rest) :
    Lexeme rest name.toList { kind := .identifier, text := some name } := by
  obtain ⟨⟨c, cs, hname, hc, hcs⟩, hfree⟩ := h
  rw [← String.ofList_toList (s := name), hname] at hfree ⊢
  rw [String.toList_ofList]
  exact .identifier hc hcs hstop hfree

/-- The tokens of two names with a lexeme between them. -/
theorem tokenize_between (file : String) {a b : String} (ha : IsIdentifier a) (hb : IsIdentifier b)
    {lexeme : String} {t : Token} (hlexeme : Lexeme (' ' :: b.toList) lexeme.toList t) :
    ∃ la lt lb lend, tokenize file (a ++ " " ++ lexeme ++ " " ++ b) =
      [{ kind := .identifier, text := some a, location := some la }, t.placed lt,
        { kind := .identifier, text := some b, location := some lb }, endOfInput.placed lend] := by
  have htext : (a ++ " " ++ lexeme ++ " " ++ b).toList =
      a.toList ++ ' ' :: (lexeme.toList ++ ' ' :: b.toList) := by simp
  have hblank {rest : List Char} : NotAhead isWordChar (' ' :: rest) := fun _ hc => by cases hc; rfl
  have hnil : NotAhead isWordChar [] := fun _ hc => by cases hc
  have hright (before : List Char) : Lexed file before b.toList
      [{ kind := .identifier, text := some b, location := some (.behind file before) },
        endOfInput.placed (.behind file (before ++ b.toList))] := by
    have hend := Lexed.lexeme (hb.lexeme hnil) (@Lexed.finish file (before ++ b.toList) [] .nil)
    rwa [List.append_nil, List.append_nil] at hend
  have hlexed := @Lexed.lexeme file [] _ _ _ _ (ha.lexeme hblank)
    (.blank (by decide) (.lexeme hlexeme (.blank (by decide) (hright _))))
  rw [← htext] at hlexed
  exact ⟨_, _, _, _, tokenize_eq_of_lexed hlexed⟩

end Token

namespace Expr

/-- Two names with an operator in use between them. -/
theorem parse_infix {d : Dialect} {left t right last : Token} {c : Char} {p : Int32}
    (hleft : left.kind = .identifier) (ht : d.operators.binary? t = some (c, p))
    (hright : right.kind = .identifier) (hlast : last.kind = .endOfInput) :
    parse d [left, t, right, last] = (.ok (.binary t.location c (.var left.location left.name)
      (.var right.location right.name)), [last]) := by
  have hsentence : Sentence d ([left] ++ t :: [right]) _ := ⟨.closed, _,
    .link (.single (.var hleft)) ht (.single (.var hright)) (by simp) (by simp)⟩
  refine parse_of_sentence hsentence ?_ (Operators.binary?_eq_none ?_)
  · simp [Token.current, hlast]
  · simp [Token.current, hlast]

/-- A name is all there is to an expression in front of a numeral that spells no number. -/
theorem parse_name {d : Dialect} {left t : Token} {rest : List Token} (hleft : left.kind = .identifier)
    (ht : t.kind = .invalid) :
    parse d (left :: t :: rest) = (.ok (.var left.location left.name), t :: rest) := by
  have hsentence : Sentence d [left] _ := ⟨.closed, _, .single (.var hleft)⟩
  refine parse_of_sentence hsentence ?_ (Operators.binary?_eq_none ?_)
  · simp [Token.current, ht]
  · simp [Token.current, ht]

end Expr

namespace Settings

variable {s : Settings} {symbol : String} {p : Int32}

/-! ## What the check promises -/

theorem operatorFlaw?_eq_none (h : operatorFlaw? symbol p = none) :
    ∃ c, symbol = c.toString ∧ isReserved c = false ∧ 0 < p := by
  unfold operatorFlaw? at h
  split at h
  next c hsymbol =>
    split at h
    · cases h
    next hreserved =>
      split at h
      · cases h
      next hp =>
        refine ⟨c, ?_, Bool.eq_false_iff.mpr hreserved, Int32.not_le.mp hp⟩
        rw [← String.ofList_toList (s := symbol), hsymbol]
        rfl
  next => cases h

/-- Every operator of settings without a flaw passes. -/
theorem operator_of_flaw? (hs : s.flaw? = none) {entry : String × Int32}
    (hentry : entry ∈ s.operators.toList) :
    ∃ c, entry.1 = c.toString ∧ isReserved c = false ∧ 0 < entry.2 := by
  refine operatorFlaw?_eq_none ?_
  unfold flaw? at hs
  rw [Option.orElse_eq_orElse, Option.orElse_eq_or] at hs
  exact List.findSome?_eq_none_iff.mp (Option.or_eq_none_iff.mp hs).1 entry hentry

/-! ## The operator table -/

/-- Adds an operator to a table, by the first character of its text. -/
def addOperator (table : Operators) (entry : String × Int32) : Operators :=
  match entry.1.toList with
  | c :: _ => table.insert c entry.2
  | [] => table

theorem operatorTable_eq (s : Settings) : s.operatorTable = s.operators.toList.foldl addOperator ∅ :=
  rfl

theorem addOperator_toString (table : Operators) (c : Char) (p : Int32) :
    addOperator table (c.toString, p) = table.insert c p := by
  have hchars : c.toString.toList = [c] := by simp [Char.toString]
  simp only [addOperator, hchars]

/-- Operators with other characters do not change what a character means. -/
theorem getElem?_foldl_addOperator {entries : List (String × Int32)} {c : Char}
    (hentries : ∀ entry ∈ entries, ∃ c' : Char, entry.1 = c'.toString ∧ c' ≠ c) (table : Operators) :
    (entries.foldl addOperator table)[c]? = table[c]? := by
  induction entries generalizing table with
  | nil => rfl
  | cons entry entries ih =>
    obtain ⟨⟨c', hentry, hne⟩, hrest⟩ := List.forall_mem_cons.mp hentries
    obtain ⟨symbol, q⟩ := entry
    subst hentry
    rw [List.foldl_cons, addOperator_toString, ih hrest, Std.ExtTreeMap.getElem?_insert, if_neg]
    rwa [Std.LawfulEqCmp.compare_eq_iff_eq]

/-- The table knows each operator by its character. -/
theorem operatorTable_getElem? (hs : s.flaw? = none) {c : Char} (hop : s.operators[c.toString]? = some p) :
    s.operatorTable[c]? = some p := by
  have hmem := Std.ExtTreeMap.mem_toList_iff_getElem?_eq_some.mpr hop
  obtain ⟨front, behind, hentries⟩ := List.append_of_mem hmem
  have hdistinct := s.operators.distinct_keys_toList
  rw [hentries, List.pairwise_append, List.pairwise_cons] at hdistinct
  have hbehind : ∀ entry ∈ behind, ∃ c' : Char, entry.1 = c'.toString ∧ c' ≠ c := by
    intro entry hentry
    have hin : entry ∈ s.operators.toList := by simp [hentries, hentry]
    obtain ⟨c', hc', -⟩ := operator_of_flaw? hs hin
    refine ⟨c', hc', fun heq => hdistinct.2.1.1 entry hentry ?_⟩
    rw [hc', heq, Std.LawfulEqCmp.compare_eq_iff_eq]
  rw [operatorTable_eq, hentries, List.foldl_append, List.foldl_cons, addOperator_toString,
    getElem?_foldl_addOperator hbehind, Std.ExtTreeMap.getElem?_insert_self]

/-! ## An operator between two names -/

/-- The characters of operators are tokens by themselves, the point apart. -/
theorem lexeme_of_isReserved {c : Char} (hc : isReserved c = false) (hpoint : c ≠ '.')
    (rest : List Char) :
    Token.Lexeme rest [c] { kind := .operator, text := some c.toString } := by
  simp only [isReserved, Char.isAlphanum, Bool.or_eq_false_iff] at hc
  obtain ⟨⟨⟨halpha, hdigit⟩, hblank⟩, hmark⟩ := hc
  refine .operator hblank halpha ?_ fun hmem => ?_
  · rw [Token.isNumeralChar, hdigit, Bool.false_or]
    exact beq_false_of_ne hpoint
  · have hin : c ∈ "(),=;#".toList := by
      simp only [List.mem_cons, List.not_mem_nil, or_false] at hmem
      rcases hmem with rfl | rfl | rfl | rfl | rfl <;> decide
    rw [List.contains_iff_mem.mpr hin] at hmark
    cases hmark

/-- Two names with an operator of the settings between them are read as its application to them, and the
table has it with its precedence. The operator of a point is the exception: the point is taken for a
numeral that spells no number, and the expression ends before it. -/
theorem operator_usable (hs : s.flaw? = none) (hop : s.operators[symbol]? = some p) (file : String)
    {a b : String} (ha : Token.IsIdentifier a) (hb : Token.IsIdentifier b) :
    ∃ c : Char, symbol = c.toString ∧ s.operatorTable[c]? = some p ∧
      (c ≠ '.' → ∃ loc la lb last, last.kind = .endOfInput ∧
        Expr.parse s.dialect (Token.tokenize file (a ++ " " ++ symbol ++ " " ++ b)) =
          (.ok (.binary loc c (.var la a) (.var lb b)), [last])) ∧
      (c = '.' → ∃ la point right last, point.kind = .invalid ∧
        Expr.parse s.dialect (Token.tokenize file (a ++ " " ++ symbol ++ " " ++ b)) =
          (.ok (.var la a), [point, right, last])) := by
  have hmem := Std.ExtTreeMap.mem_toList_iff_getElem?_eq_some.mpr hop
  obtain ⟨c, rfl, hreserved, hp⟩ := operator_of_flaw? hs hmem
  have hchars : c.toString.toList = [c] := by simp [Char.toString]
  have htable := operatorTable_getElem? hs hop
  refine ⟨c, rfl, htable, fun hpoint => ?_, fun hpoint => ?_⟩
  · have hlexeme := lexeme_of_isReserved hreserved hpoint (' ' :: b.toList)
    rw [← hchars] at hlexeme
    obtain ⟨la, lc, lb, lend, htokens⟩ := Token.tokenize_between file ha hb hlexeme
    have hbinary : s.dialect.operators.binary?
        (Token.placed { kind := .operator, text := some c.toString } lc) = some (c, p) :=
      Operators.binary?_of_symbol? (by simp only [Token.symbol?, Token.placed, Option.map_some, hchars])
        htable hp
    rw [htokens]
    exact ⟨_, _, _, _, rfl, Expr.parse_infix rfl hbinary rfl rfl⟩
  · subst hpoint
    have hlexeme : Token.Lexeme (' ' :: b.toList) ['.'] { kind := .invalid, text := some "." } :=
      .invalid (List.all_eq_true.mp rfl) (fun _ hc => by cases hc; rfl) (by decide)
    obtain ⟨la, lc, lb, lend, htokens⟩ := Token.tokenize_between file ha hb (hchars ▸ hlexeme)
    rw [htokens]
    exact ⟨_, _, _, _, rfl, Expr.parse_name rfl rfl⟩

/-- Settings with two operators, one of which is the point. -/
def pointed : Settings :=
  { standard with operators := (∅ : Std.ExtTreeMap String Int32).insert "." 10 |>.insert "∘" 60 }

theorem operator_usable_composition :
    pointed.flaw? = none ∧ pointed.operators["∘"]? = some 60 ∧ pointed.operatorTable['∘']? = some 60 ∧
      ∃ loc la lb last, last.kind = .endOfInput ∧
        Expr.parse pointed.dialect (Token.tokenize "t.pk" "turn ∘ in_2") =
          (.ok (.binary loc '∘' (.var la "turn") (.var lb "in_2")), [last]) := by
  have hflaw : pointed.flaw? = none := by decide +kernel
  have hop : pointed.operators["∘"]? = some 60 := by decide +kernel
  have hturn : Token.IsIdentifier "turn" := ⟨⟨'t', ['u', 'r', 'n'], rfl, rfl, List.all_eq_true.mp rfl⟩, rfl⟩
  have hin : Token.IsIdentifier "in_2" := ⟨⟨'i', ['n', '_', '2'], rfl, rfl, List.all_eq_true.mp rfl⟩, rfl⟩
  obtain ⟨c, hc, htable, husable, -⟩ := operator_usable hflaw hop "t.pk" hturn hin
  have hcircle : c = '∘' := by
    have hchars := congrArg String.toList hc
    simpa [Char.toString] using hchars.symm
  subst hcircle
  exact ⟨hflaw, hop, htable, husable (by decide)⟩

/-- The operator of a point passes the check and cannot be used. -/
theorem point_not_usable :
    pointed.flaw? = none ∧ pointed.operators["."]? = some 10 ∧ pointed.operatorTable['.']? = some 10 ∧
      Token.IsIdentifier "a" ∧ Token.IsIdentifier "b" ∧
      ¬ ∃ loc la lb last, Expr.parse pointed.dialect (Token.tokenize "t.pk" "a . b") =
        (.ok (.binary loc '.' (.var la "a") (.var lb "b")), [last]) := by
  refine ⟨by decide +kernel, by decide +kernel, by decide +kernel,
    ⟨⟨'a', [], rfl, by decide, by simp⟩, rfl⟩, ⟨⟨'b', [], rfl, by decide, by simp⟩, rfl⟩, ?_⟩
  rintro ⟨loc, la, lb, last, hparse⟩
  have hleft : (Expr.parse pointed.dialect (Token.tokenize "t.pk" "a . b")).2.length = 3 := by
    decide +kernel
  rw [hparse] at hleft
  cases hleft

end Settings

end PoseLang
