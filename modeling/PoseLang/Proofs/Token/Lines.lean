import PoseLang.Proofs.Token.Lexemes

/-!
# Reading a text line by line

No lexeme and no comment goes on behind the end of a line, and there the columns start again. So a text
may be cut at any end of a line: its tokens are those of the part in front, without the end of input, and
those of the part behind, moved down by the lines in front of it.
-/

namespace PoseLang

/-- A place some lines further down. -/
def Location.down (n : Nat) (l : Location) : Location :=
  { l with line := l.line + n }

/-- Of the lines above a text, its places know only the number. -/
theorem Location.behind_newline (file : String) (above before : List Char) :
    behind file (above ++ '\n' :: before) = (behind file before).down (above.count '\n' + 1) := by
  have hcolumn : (above ++ '\n' :: before).reverse.takeWhile (· != '\n') =
      before.reverse.takeWhile (· != '\n') := by
    rw [List.reverse_append, List.reverse_cons, List.append_assoc, List.takeWhile_append]
    split
    next hall =>
      rw [(List.takeWhile_prefix _).eq_of_length hall]
      exact List.append_nil _
    next => rfl
  have hline : (above ++ '\n' :: before).count '\n' = before.count '\n' + (above.count '\n' + 1) := by
    rw [List.count_append, List.count_cons_self]
    omega
  rw [behind, hcolumn, hline, ← Nat.add_assoc]
  rfl

namespace Token

/-- A token some lines further down. -/
def down (n : Nat) (t : Token) : Token :=
  { t with location := t.location.map (.down n) }

section

variable {file : String} {before text below : List Char} {ts us : List Token}

/-- Lines above a text move its tokens down. -/
theorem Lexed.moved (above : List Char) (h : Lexed file before text ts) :
    Lexed file (above ++ '\n' :: before) text (ts.map (down (above.count '\n' + 1))) := by
  have hplaced (t : Token) (before gap : List Char) :
      (t.placed (.behind file (before ++ gap))).down (above.count '\n' + 1) =
        t.placed (.behind file (above ++ '\n' :: before ++ gap)) := by
    rw [List.append_assoc, List.cons_append, Location.behind_newline]
    rfl
  induction h with
  | finish hgap =>
    rw [List.map_singleton, hplaced]
    exact .finish hgap
  | token hgap hlexeme hrest ih =>
    rw [List.map_cons, hplaced]
    refine .token hgap hlexeme ?_
    simpa only [List.append_assoc, List.cons_append] using ih

/-! ## Nothing goes on behind the end of a line -/

theorem NotAhead.append_newline {p : Char → Bool} {rest : List Char} (hp : p '\n' = false)
    (h : NotAhead p rest) (below : List Char) : NotAhead p (rest ++ '\n' :: below) := by
  cases rest with
  | nil =>
    intro _ hc
    cases hc
    exact hp
  | cons c rest => exact h

theorem Gap.append_newline {gap rest : List Char} (h : Gap rest gap) (below : List Char) :
    Gap (rest ++ '\n' :: below) gap := by
  induction h with
  | nil => exact .nil
  | blank hc _ ih => exact .blank hc ih
  | comment hcs hstop _ ih =>
    refine .comment hcs ?_ ih
    rw [← List.append_assoc]
    exact hstop.append_newline rfl below

theorem Lexeme.append_newline {rest lexeme : List Char} {t : Token} (h : Lexeme rest lexeme t)
    (below : List Char) : Lexeme (rest ++ '\n' :: below) lexeme t := by
  cases h with
  | keyword hc hcs hstop hkind => exact .keyword hc hcs (hstop.append_newline rfl below) hkind
  | identifier hc hcs hstop hkind => exact .identifier hc hcs (hstop.append_newline rfl below) hkind
  | number hcs hstop hx => exact .number hcs (hstop.append_newline rfl below) hx
  | invalid hcs hstop hx => exact .invalid hcs (hstop.append_newline rfl below) hx
  | leftParen => exact .leftParen
  | rightParen => exact .rightParen
  | comma => exact .comma
  | equal => exact .equal
  | operator hblank halpha hnumeral hmark => exact .operator hblank halpha hnumeral hmark

theorem Gap.append {gap gap' rest : List Char} (h : Gap (gap' ++ rest) gap) (h' : Gap rest gap') :
    Gap rest (gap ++ gap') := by
  induction h with
  | nil => exact h'
  | blank hc _ ih => exact .blank hc ih
  | comment hcs hstop _ ih =>
    rw [List.append_assoc]
    refine .comment hcs ?_ ih
    rwa [List.append_assoc]

/-- A text with more text below it, behind the end of a line. -/
theorem Lexed.above (h : Lexed file before text ts)
    (hbelow : Lexed file (before ++ text ++ ['\n']) below us) :
    ∃ front last, ts = front ++ [last] ∧ last.kind = .endOfInput ∧
      Lexed file before (text ++ '\n' :: below) (front ++ us) := by
  induction h with
  | finish hgap =>
    refine ⟨[], _, rfl, rfl, .skip (fun gap rest hrest hgap' => ?_) (.blank (by decide) hbelow)⟩
    refine .append ?_ hgap'
    rw [hrest]
    exact hgap.append_newline below
  | token hgap hlexeme hrest ih =>
    obtain ⟨front, last, rfl, hlast, hlexed⟩ := ih (by simpa only [List.append_assoc] using hbelow)
    refine ⟨_ :: front, last, rfl, hlast, ?_⟩
    rw [List.append_assoc]
    refine .token ?_ (hlexeme.append_newline below) hlexed
    rw [← List.append_assoc]
    exact hgap.append_newline below

end

/-- A text with an end of line in it has the tokens of the part in front, its end of input apart, and
those of the part behind, as many lines down as stand in front. -/
theorem tokenize_append_newline (file above below : String) :
    ∃ front last, tokenize file above = front ++ [last] ∧ last.kind = .endOfInput ∧
      tokenize file (above ++ "\n" ++ below) =
        front ++ (tokenize file below).map (down (above.toList.count '\n' + 1)) := by
  have hbelow := (lexed_tokenize file below).moved above.toList
  obtain ⟨front, last, htokens, hlast, hlexed⟩ := (lexed_tokenize file above).above hbelow
  refine ⟨front, last, htokens, hlast, tokenize_eq_of_lexed ?_⟩
  have htext : (above ++ "\n" ++ below).toList = above.toList ++ '\n' :: below.toList := by simp
  rwa [htext]

end Token

end PoseLang
