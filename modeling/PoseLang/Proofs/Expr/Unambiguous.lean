import PoseLang.Proofs.Decimal.RoundTrip
import PoseLang.Proofs.Expr.Parts
import PoseLang.Proofs.Expr.Unplaced
import PoseLang.Proofs.Token.Lexemes

/-!
# Texts of trees are unambiguous

The text of a tree says what the tree is. A tree that is read from a source has words for names and
numbers without a sign (`Expr.Legible`), so its text starts in a way that tells its form, every part of it
ends where a blank or a parenthesis follows, and the parts can be told apart one after the other
(`Expr.Readable`). An infinite number is the exception: it is written as a word.
-/

namespace PoseLang

namespace Token

/-- What the scanner promises of a token: a name is a word, and a number has no sign. -/
structure Legible (t : Token) : Prop where
  word : t.kind = .identifier → IsWord t.name
  unsigned : ∀ x, t.value = some x → Decimal.isNegative x = false

theorem Lexeme.legible {rest lexeme : List Char} {t : Token} (h : Lexeme rest lexeme t) : t.Legible := by
  cases h with
  | identifier hc hcs _ _ =>
    exact ⟨fun _ => ⟨_, _, String.toList_ofList, hc, hcs⟩, fun _ hx => (by cases hx)⟩
  | number hcs _ hread =>
    refine ⟨fun h => (by cases h), fun x hx => ?_⟩
    cases hx
    refine Decimal.isNegative_of_read? hread fun hminus => ?_
    rw [String.toList_ofList] at hminus
    exact absurd (hcs _ hminus) (by decide)
  | keyword _ _ _ hkind =>
    refine ⟨fun h => ?_, fun _ hx => (by cases hx)⟩
    unfold Kind.ofKeyword? at hkind
    split at hkind <;> cases hkind <;> cases h
  | _ => exact ⟨fun h => (by cases h), fun _ hx => (by cases hx)⟩

theorem Lexed.legible {file : String} {before text : List Char} {ts : List Token}
    (h : Lexed file before text ts) : ∀ t ∈ ts, t.Legible := by
  induction h with
  | finish _ =>
    intro t ht
    rw [List.mem_singleton.mp ht]
    exact ⟨fun h => (by cases h), fun _ hx => (by cases hx)⟩
  | token _ hlexeme _ ih =>
    refine List.forall_mem_cons.mpr ⟨?_, ih⟩
    exact ⟨hlexeme.legible.word, hlexeme.legible.unsigned⟩

end Token

namespace Expr

/-! ## Legible trees -/

/-- What makes the text of a node legible: a name is a word, and a number is finite and has no sign. -/
def Legible : Expr → Prop
  | .num _ x => x.isFinite = true ∧ Decimal.isNegative x = false
  | .var _ name | .call _ name _ | .loop _ name _ _ _ _ | .alloc _ name => Token.IsWord name
  | .binary .. | .cond .. | .construct .. => True

/-- A number is the same as itself if it is finite. -/
theorem same_num {loc loc' : Option Location} {x : Float} (hx : x.isFinite = true) :
    (Expr.num loc x).same (.num loc' x) = true := by
  have hnan : x ≠ Float.nan := by
    rintro rfl
    cases hx
  rw [same, Float.beq_self_iff.mpr hnan]

theorem mem_parts_self (e : Expr) : e ∈ e.parts := by
  cases e <;> simp [parts]

/-- A tree that is read is legible, up to numbers that are too large. -/
theorem holdsOfNodes_legible {d : Dialect} :
    HoldsOfNodes d Token.Legible fun e => (∀ loc x, e = .num loc x → x.isFinite = true) → e.Legible where
  num ht hx hfinite := ⟨hfinite _ _ rfl, ht.unsigned _ hx⟩
  var ht hkind _ := ht.word hkind
  binary _ _ _ _ _ := trivial
  call ht hkind _ _ := ht.word hkind
  cond _ _ _ _ _ := trivial
  loop hx hkind _ _ _ _ _ _ := hx.word hkind
  alloc ht hkind _ _ := ht.word hkind
  construct _ _ _ _ := trivial

/-! ## The form of a text -/

/-- The form of the tree whose text goes on like this behind its parenthesis. -/
def openForm : List Char → Form
  | _ :: ' ' :: _ => .binary
  | 'c' :: _ => .call
  | 'i' :: _ => .cond
  | 'f' :: _ => .loop
  | 'a' :: _ => .alloc
  | _ => .construct

/-- The form of the tree whose text starts like this. -/
def leadForm : List Char → Form
  | [] => .num
  | c :: cs => if c = '(' then openForm cs else if c.isAlpha then .var else .num

theorem leadForm_text {e : Expr} (h : e.Legible) (rest : List Char) :
    leadForm (e.text.toList ++ rest) = e.form := by
  cases e with
  | num loc x =>
    obtain ⟨⟨c, cs, hcs, hc⟩, -⟩ := Decimal.text_numeral h.1 h.2
    have hparen : c ≠ '(' := by
      rintro rfl
      exact absurd hc (by decide)
    have halpha : c.isAlpha = false := by
      refine Bool.eq_false_iff.mpr fun halpha => ?_
      have hnumeral := Token.isNumeralChar_eq_false_of_isAlpha halpha
      rw [Token.isNumeralChar, hc] at hnumeral
      cases hnumeral
    rw [text, hcs, List.cons_append, leadForm, if_neg hparen, halpha]
    rfl
  | var loc name =>
    obtain ⟨c, cs, hcs, hc, -⟩ := h
    have hparen : c ≠ '(' := by
      rintro rfl
      exact absurd hc (by decide)
    rw [text, hcs, List.cons_append, leadForm, if_neg hparen, if_pos hc]
    rfl
  | binary loc op l r => simp [text, leadForm, openForm, form]
  | call loc f args => simp [text, leadForm, openForm, form]
  | cond loc c t e => simp [text, leadForm, openForm, form]
  | loop loc v s t st b => simp [text, leadForm, openForm, form]
  | alloc loc r => simp [text, leadForm, openForm, form]
  | construct loc d fs => simp [text, leadForm, openForm, form]

/-- Legible trees with one text have one form. -/
theorem form_eq {e e' : Expr} {rest rest' : List Char}
    (h : e.text.toList ++ rest = e'.text.toList ++ rest') (he : e.Legible) (he' : e'.Legible) :
    e.form = e'.form := by
  rw [← leadForm_text he rest, h, leadForm_text he' rest']

/-! ## The end of a text -/

/-- What may follow the text of a tree. -/
def Closes (rest : List Char) : Prop :=
  ∀ c ∈ rest.head?, c = ' ' ∨ c = ')'

theorem Closes.blank (rest : List Char) : Closes (' ' :: rest) := by
  rintro _ ⟨⟩
  exact .inl rfl

theorem Closes.paren (rest : List Char) : Closes (')' :: rest) := by
  rintro _ ⟨⟩
  exact .inr rfl

theorem Closes.notAhead {p : Char → Bool} {rest : List Char} (h : Closes rest) (hblank : p ' ' = false)
    (hparen : p ')' = false) : Token.NotAhead p rest := by
  intro c hc
  rcases h c hc with rfl | rfl
  · exact hblank
  · exact hparen

theorem word_inj {a b : String} {rest rest' : List Char} (ha : Token.IsWord a) (hb : Token.IsWord b)
    (hrest : Closes rest) (hrest' : Closes rest') (h : a.toList ++ rest = b.toList ++ rest') :
    a = b ∧ rest = rest' := by
  have hword {name : String} (hname : Token.IsWord name) :
      ∀ x ∈ name.toList, Token.isWordChar x = true := by
    obtain ⟨c, cs, hcs, hc, hall⟩ := hname
    rw [hcs]
    refine List.forall_mem_cons.mpr ⟨?_, hall⟩
    simp [Token.isWordChar, Char.isAlphanum, hc]
  obtain ⟨hname, hrest⟩ := Token.NotAhead.append_inj (hrest.notAhead rfl rfl) (hrest'.notAhead rfl rfl)
    (hword ha) (hword hb) h
  exact ⟨String.toList_inj.mp hname, hrest⟩

theorem numeral_inj {x y : Float} {rest rest' : List Char} (hx : x.isFinite = true)
    (hx' : Decimal.isNegative x = false) (hy : y.isFinite = true) (hy' : Decimal.isNegative y = false)
    (hrest : Closes rest) (hrest' : Closes rest')
    (h : (Decimal.plain.text x).toList ++ rest = (Decimal.plain.text y).toList ++ rest') :
    x = y ∧ rest = rest' := by
  have hnumeral {z : Float} (hz : z.isFinite = true) (hz' : Decimal.isNegative z = false) :
      ∀ c ∈ (Decimal.plain.text z).toList, Token.isNumeralChar c = true := by
    intro c hc
    rcases (Decimal.text_numeral hz hz').2 c hc with hc | rfl
    · simp [Token.isNumeralChar, hc]
    · rfl
  obtain ⟨htext, hrest⟩ := Token.NotAhead.append_inj (hrest.notAhead rfl rfl) (hrest'.notAhead rfl rfl)
    (hnumeral hx hx') (hnumeral hy hy') h
  exact ⟨Decimal.text_inj hx hy (String.toList_inj.mp htext), hrest⟩

theorem index_inj {i j : Nat} {rest rest' : List Char}
    (h : (toString i).toList ++ ']' :: '=' :: rest = (toString j).toList ++ ']' :: '=' :: rest') :
    i = j ∧ rest = rest' := by
  have hstops (rest : List Char) : Token.NotAhead Char.isDigit (']' :: '=' :: rest) := by
    rintro _ ⟨⟩
    rfl
  have hdigits {n : Nat} : ∀ c ∈ (toString n).toList, c.isDigit = true := by
    rw [Nat.toString_eq_repr, Nat.toList_repr]
    exact fun c hc => Nat.isDigit_of_mem_toDigits (by decide) (by decide) hc
  obtain ⟨htext, hrest⟩ := Token.NotAhead.append_inj (hstops rest) (hstops rest') hdigits hdigits h
  refine ⟨?_, List.tail_eq_of_cons_eq (List.tail_eq_of_cons_eq hrest)⟩
  simp only [Nat.toString_eq_repr, Nat.toList_repr] at htext
  rw [← Decimal.digitsValue_toDigits i, htext, Decimal.digitsValue_toDigits]

/-! ## Readable trees -/

/-- Two trees agree up to their places. -/
structure Agree (e e' : Expr) : Prop where
  same : e.same e' = true
  unplaced : e.unplaced = e'.unplaced

/-- The text of a tree tells the tree, and where it ends, in whatever text it stands in front. -/
def Readable (e : Expr) : Prop :=
  ∀ ⦃e' : Expr⦄ ⦃rest rest' : List Char⦄, (∀ part ∈ e'.parts, part.Legible) → Closes rest → Closes rest' →
    e.text.toList ++ rest = e'.text.toList ++ rest' → Agree e e' ∧ rest = rest'

theorem Readable.split {e e' : Expr} (he : Readable e) (he' : ∀ part ∈ e'.parts, part.Legible) {c : Char}
    (hc : c = ' ' ∨ c = ')') {rest rest' : List Char}
    (h : e.text.toList ++ c :: rest = e'.text.toList ++ c :: rest') : Agree e e' ∧ rest = rest' := by
  have hcloses (rest : List Char) : Closes (c :: rest) := by
    rintro _ ⟨⟩
    exact hc
  obtain ⟨hagree, hrest⟩ := he he' (hcloses rest) (hcloses rest') h
  exact ⟨hagree, List.tail_eq_of_cons_eq hrest⟩

section

variable {loc : Option Location}

theorem readable_num {x : Float} (hx : x.isFinite = true) (hsign : Decimal.isNegative x = false) :
    Readable (.num loc x) := by
  intro e' rest rest' he' hrest hrest' h
  have hform := form_eq h ⟨hx, hsign⟩ (he' e' (mem_parts_self e'))
  cases e' with
  | num loc' y =>
    obtain ⟨hy, hsign'⟩ := he' _ (mem_parts_self _)
    rw [text, text] at h
    obtain ⟨rfl, rfl⟩ := numeral_inj hx hsign hy hsign' hrest hrest' h
    exact ⟨⟨same_num hx, rfl⟩, rfl⟩
  | _ => cases hform

theorem readable_var {name : String} (hname : Token.IsWord name) : Readable (.var loc name) := by
  intro e' rest rest' he' hrest hrest' h
  have hform := form_eq h hname (he' e' (mem_parts_self e'))
  cases e' with
  | var loc' name' =>
    rw [text, text] at h
    obtain ⟨rfl, rfl⟩ := word_inj hname (he' _ (mem_parts_self _)) hrest hrest' h
    exact ⟨⟨by simp [same], rfl⟩, rfl⟩
  | _ => cases hform

theorem readable_binary {op : Char} {l r : Expr} (hl : Readable l) (hr : Readable r) :
    Readable (.binary loc op l r) := by
  intro e' rest rest' he' hrest hrest' htext
  have hform := form_eq htext trivial (he' e' (mem_parts_self e'))
  cases e' with
  | binary loc' op' l' r' =>
    simp only [parts, List.forall_mem_cons, List.forall_mem_append] at he'
    obtain ⟨rfl, h⟩ : op = op' ∧ l.text.toList ++ ' ' :: (r.text.toList ++ ')' :: rest) =
        l'.text.toList ++ ' ' :: (r'.text.toList ++ ')' :: rest') := by
      simpa [text] using htext
    obtain ⟨hl, h⟩ := hl.split he'.2.1 (.inl rfl) h
    obtain ⟨hr, h⟩ := hr.split he'.2.2 (.inr rfl) h
    exact ⟨⟨by simp [same, hl.same, hr.same], by simp [unplaced, hl.unplaced, hr.unplaced]⟩, h⟩
  | _ => cases hform

theorem closes_args (es : List Expr) (rest : List Char) :
    Closes ((textArgs es).toList ++ ')' :: rest) := by
  cases es with
  | nil => exact .paren rest
  | cons e es =>
    rw [textArgs, String.append_assoc, String.toList_append]
    exact .blank _

/-- Arguments are told apart one by one, and end at the parenthesis. -/
theorem readable_args {es es' : List Expr} {rest rest' : List Char} (hes : ∀ e ∈ es, Readable e)
    (hes' : ∀ part ∈ partsArgs es', part.Legible)
    (h : (textArgs es).toList ++ ')' :: rest = (textArgs es').toList ++ ')' :: rest') :
    sameArgs es es' = true ∧ unplacedArgs es = unplacedArgs es' ∧ rest = rest' := by
  induction es generalizing es' with
  | nil =>
    cases es' with
    | nil => exact ⟨rfl, rfl, by simpa [textArgs] using h⟩
    | cons e' es' => simp [textArgs] at h
  | cons e es ih =>
    cases es' with
    | nil => simp [textArgs] at h
    | cons e' es' =>
      simp only [partsArgs, List.forall_mem_append] at hes'
      rw [List.forall_mem_cons] at hes
      have h : e.text.toList ++ ((textArgs es).toList ++ ')' :: rest) =
          e'.text.toList ++ ((textArgs es').toList ++ ')' :: rest') := by
        simpa [textArgs] using h
      obtain ⟨he, h⟩ := hes.1 hes'.1 (closes_args _ _) (closes_args _ _) h
      obtain ⟨hsame, hunplaced, h⟩ := ih hes.2 hes'.2 h
      exact ⟨by simp [sameArgs, he.same, hsame], by simp [unplacedArgs, he.unplaced, hunplaced], h⟩

theorem readable_call {f : String} {args : List Expr} (hf : Token.IsWord f)
    (hargs : ∀ e ∈ args, Readable e) : Readable (.call loc f args) := by
  intro e' rest rest' he' hrest hrest' htext
  have hform := form_eq htext hf (he' e' (mem_parts_self e'))
  cases e' with
  | call loc' f' args' =>
    simp only [parts, List.forall_mem_cons] at he'
    have h : f.toList ++ ((textArgs args).toList ++ ')' :: rest) =
        f'.toList ++ ((textArgs args').toList ++ ')' :: rest') := by
      simpa [text] using htext
    obtain ⟨rfl, hargs'⟩ := word_inj hf he'.1 (closes_args _ _) (closes_args _ _) h
    obtain ⟨hsame, hunplaced, hrest⟩ := readable_args hargs he'.2 hargs'
    exact ⟨⟨by simp [same, hsame], by simp [unplaced, hunplaced]⟩, hrest⟩
  | _ => cases hform

theorem readable_cond {c t e : Expr} (hc : Readable c) (ht : Readable t) (he : Readable e) :
    Readable (.cond loc c t e) := by
  intro e' rest rest' he' hrest hrest' htext
  have hform := form_eq htext trivial (he' e' (mem_parts_self e'))
  cases e' with
  | cond loc' c' t' e' =>
    simp only [parts, List.forall_mem_cons, List.forall_mem_append] at he'
    have h : c.text.toList ++ ' ' :: (t.text.toList ++ ' ' :: (e.text.toList ++ ')' :: rest)) =
        c'.text.toList ++ ' ' :: (t'.text.toList ++ ' ' :: (e'.text.toList ++ ')' :: rest')) := by
      simpa [text] using htext
    obtain ⟨hc, h⟩ := hc.split he'.2.1.1 (.inl rfl) h
    obtain ⟨ht, h⟩ := ht.split he'.2.1.2 (.inl rfl) h
    obtain ⟨he, h⟩ := he.split he'.2.2 (.inr rfl) h
    exact ⟨⟨by simp [same, hc.same, ht.same, he.same],
      by simp [unplaced, hc.unplaced, ht.unplaced, he.unplaced]⟩, h⟩
  | _ => cases hform

/-- What follows the test of a loop: a step if there is one, and the body. Whether there is a step is told
by how many texts follow. -/
theorem readable_step {st st' : Option Expr} {b b' : Expr} {rest rest' : List Char}
    (hst : ∀ e ∈ st, Readable e) (hst' : ∀ part ∈ partsStep st', part.Legible) (hb : Readable b)
    (hb' : ∀ part ∈ b'.parts, part.Legible)
    (h : (textStep st).toList ++ ' ' :: (b.text.toList ++ ')' :: rest) =
      (textStep st').toList ++ ' ' :: (b'.text.toList ++ ')' :: rest')) :
    sameStep st st' = true ∧ unplacedStep st = unplacedStep st' ∧ Agree b b' ∧ rest = rest' := by
  cases st with
  | none =>
    cases st' with
    | none =>
      obtain ⟨hb, h⟩ := hb.split hb' (.inr rfl) (List.tail_eq_of_cons_eq h)
      exact ⟨rfl, rfl, hb, h⟩
    | some e' =>
      have h : b.text.toList ++ ')' :: rest =
          e'.text.toList ++ ' ' :: (b'.text.toList ++ ')' :: rest') := by
        simpa [textStep] using h
      cases (hb hst' (.paren _) (.blank _) h).2
  | some e =>
    have he := hst e rfl
    cases st' with
    | none =>
      have h : e.text.toList ++ ' ' :: (b.text.toList ++ ')' :: rest) =
          b'.text.toList ++ ')' :: rest' := by
        simpa [textStep] using h
      cases (he hb' (.blank _) (.paren _) h).2
    | some e' =>
      have h : e.text.toList ++ ' ' :: (b.text.toList ++ ')' :: rest) =
          e'.text.toList ++ ' ' :: (b'.text.toList ++ ')' :: rest') := by
        simpa [textStep] using h
      obtain ⟨he, h⟩ := he.split hst' (.inl rfl) h
      obtain ⟨hb, h⟩ := hb.split hb' (.inr rfl) h
      exact ⟨he.same, by rw [unplacedStep, unplacedStep, he.unplaced], hb, h⟩

theorem closes_step (st : Option Expr) (rest : List Char) :
    Closes ((textStep st).toList ++ ' ' :: rest) := by
  cases st with
  | none => exact .blank rest
  | some e =>
    rw [textStep, String.toList_append]
    exact .blank _

theorem readable_loop {v : String} {s t b : Expr} {st : Option Expr} (hv : Token.IsWord v)
    (hs : Readable s) (ht : Readable t) (hst : ∀ e ∈ st, Readable e) (hb : Readable b) :
    Readable (.loop loc v s t st b) := by
  intro e' rest rest' he' hrest hrest' htext
  have hform := form_eq htext hv (he' e' (mem_parts_self e'))
  cases e' with
  | loop loc' v' s' t' st' b' =>
    simp only [parts, List.forall_mem_cons, List.forall_mem_append] at he'
    obtain ⟨hv', ⟨⟨hs', ht'⟩, hst'⟩, hb'⟩ := he'
    have h : v.toList ++ ' ' :: (s.text.toList ++ ' ' :: (t.text.toList ++ ((textStep st).toList ++
        ' ' :: (b.text.toList ++ ')' :: rest)))) = v'.toList ++ ' ' :: (s'.text.toList ++ ' ' ::
        (t'.text.toList ++ ((textStep st').toList ++ ' ' :: (b'.text.toList ++ ')' :: rest')))) := by
      simpa [text] using htext
    obtain ⟨rfl, hparts⟩ := word_inj hv hv' (.blank _) (.blank _) h
    obtain ⟨hs, h⟩ := hs.split hs' (.inl rfl) (List.tail_eq_of_cons_eq hparts)
    obtain ⟨ht, h⟩ := ht ht' (closes_step _ _) (closes_step _ _) h
    obtain ⟨hsame, hunplaced, hb, h⟩ := readable_step hst hst' hb hb' h
    exact ⟨⟨by simp [same, hs.same, ht.same, hsame, hb.same],
      by simp [unplaced, hs.unplaced, ht.unplaced, hunplaced, hb.unplaced]⟩, h⟩
  | _ => cases hform

theorem readable_alloc {r : String} (hr : Token.IsWord r) : Readable (.alloc loc r) := by
  intro e' rest rest' he' hrest hrest' htext
  have hform := form_eq htext hr (he' e' (mem_parts_self e'))
  cases e' with
  | alloc loc' r' =>
    have h : r.toList ++ ')' :: rest = r'.toList ++ ')' :: rest' := by
      simpa [text] using htext
    obtain ⟨rfl, hparen⟩ := word_inj hr (he' _ (mem_parts_self _)) (.paren _) (.paren _) h
    exact ⟨⟨by simp [same], rfl⟩, List.tail_eq_of_cons_eq hparen⟩
  | _ => cases hform

theorem closes_fields (fs : List (Nat × Expr)) (rest : List Char) :
    Closes ((textFields fs).toList ++ ')' :: rest) := by
  cases fs with
  | nil => exact .paren rest
  | cons f fs =>
    simp only [textFields, String.append_assoc, String.toList_append]
    exact .blank _

/-- Field values are told apart one by one, and end at the parenthesis. -/
theorem readable_fields {fs fs' : List (Nat × Expr)} {rest rest' : List Char}
    (hfs : ∀ f ∈ fs, Readable f.2) (hfs' : ∀ part ∈ partsFields fs', part.Legible)
    (h : (textFields fs).toList ++ ')' :: rest = (textFields fs').toList ++ ')' :: rest') :
    sameFields fs fs' = true ∧ unplacedFields fs = unplacedFields fs' ∧ rest = rest' := by
  induction fs generalizing fs' with
  | nil =>
    cases fs' with
    | nil => exact ⟨rfl, rfl, by simpa [textFields] using h⟩
    | cons f' fs' => simp [textFields] at h
  | cons f fs ih =>
    cases fs' with
    | nil => simp [textFields] at h
    | cons f' fs' =>
      obtain ⟨i, e⟩ := f
      obtain ⟨i', e'⟩ := f'
      simp only [partsFields, List.forall_mem_append] at hfs'
      rw [List.forall_mem_cons] at hfs
      have h : (toString i).toList ++ ']' :: '=' :: (e.text.toList ++
          ((textFields fs).toList ++ ')' :: rest)) = (toString i').toList ++ ']' :: '=' ::
          (e'.text.toList ++ ((textFields fs').toList ++ ')' :: rest')) := by
        simpa [textFields] using h
      obtain ⟨rfl, hvalue⟩ := index_inj h
      obtain ⟨he, h⟩ := hfs.1 hfs'.1 (closes_fields _ _) (closes_fields _ _) hvalue
      obtain ⟨hsame, hunplaced, h⟩ := ih hfs.2 hfs'.2 h
      exact ⟨by simp [sameFields, he.same, hsame], by simp [unplacedFields, he.unplaced, hunplaced], h⟩

theorem readable_construct {d : Expr} {fs : List (Nat × Expr)} (hd : Readable d)
    (hfs : ∀ f ∈ fs, Readable f.2) : Readable (.construct loc d fs) := by
  intro e' rest rest' he' hrest hrest' htext
  have hform := form_eq htext trivial (he' e' (mem_parts_self e'))
  cases e' with
  | construct loc' d' fs' =>
    simp only [parts, List.forall_mem_cons, List.forall_mem_append] at he'
    have h : d.text.toList ++ ((textFields fs).toList ++ ')' :: rest) =
        d'.text.toList ++ ((textFields fs').toList ++ ')' :: rest') := by
      simpa [text] using htext
    obtain ⟨hd, h⟩ := hd he'.2.1 (closes_fields _ _) (closes_fields _ _) h
    obtain ⟨hsame, hunplaced, h⟩ := readable_fields hfs he'.2.2 h
    exact ⟨⟨by simp [same, hd.same, hsame], by simp [unplaced, hd.unplaced, hunplaced]⟩, h⟩
  | _ => cases hform

end

/-! ## Trees that are read -/

mutual

theorem readable_of_legible : ∀ {e : Expr}, (∀ part ∈ e.parts, part.Legible) → Readable e
  | .num _ _, h => readable_num (h _ (mem_parts_self _)).1 (h _ (mem_parts_self _)).2
  | .var _ _, h => readable_var (h _ (mem_parts_self _))
  | .binary _ _ _ _, h => by
    simp only [parts, List.forall_mem_cons, List.forall_mem_append] at h
    exact readable_binary (readable_of_legible h.2.1) (readable_of_legible h.2.2)
  | .call _ _ _, h => by
    simp only [parts, List.forall_mem_cons] at h
    exact readable_call h.1 (readableArgs_of_legible h.2)
  | .cond _ _ _ _, h => by
    simp only [parts, List.forall_mem_cons, List.forall_mem_append] at h
    exact readable_cond (readable_of_legible h.2.1.1) (readable_of_legible h.2.1.2)
      (readable_of_legible h.2.2)
  | .loop _ _ _ _ _ _, h => by
    simp only [parts, List.forall_mem_cons, List.forall_mem_append] at h
    obtain ⟨hv, ⟨⟨hs, ht⟩, hst⟩, hb⟩ := h
    exact readable_loop hv (readable_of_legible hs) (readable_of_legible ht) (readableStep_of_legible hst)
      (readable_of_legible hb)
  | .alloc _ _, h => readable_alloc (h _ (mem_parts_self _))
  | .construct _ _ _, h => by
    simp only [parts, List.forall_mem_cons, List.forall_mem_append] at h
    exact readable_construct (readable_of_legible h.2.1) (readableFields_of_legible h.2.2)

theorem readableArgs_of_legible : ∀ {es : List Expr}, (∀ part ∈ partsArgs es, part.Legible) →
    ∀ e ∈ es, Readable e
  | [], _ => by simp
  | _ :: _, h => by
    simp only [partsArgs, List.forall_mem_append] at h
    exact List.forall_mem_cons.mpr ⟨readable_of_legible h.1, readableArgs_of_legible h.2⟩

theorem readableStep_of_legible : ∀ {st : Option Expr}, (∀ part ∈ partsStep st, part.Legible) →
    ∀ e ∈ st, Readable e
  | none, _ => by simp
  | some _, h => fun _ he => Option.some.inj he ▸ readable_of_legible h

theorem readableFields_of_legible : ∀ {fs : List (Nat × Expr)}, (∀ part ∈ partsFields fs, part.Legible) →
    ∀ f ∈ fs, Readable f.2
  | [], _ => by simp
  | (_, _) :: _, h => by
    simp only [partsFields, List.forall_mem_append] at h
    exact List.forall_mem_cons.mpr ⟨readable_of_legible h.1, readableFields_of_legible h.2⟩

end

/-- A tree that is read anywhere in a source is legible, if its numbers are finite. -/
theorem legible_of_parse {d : Dialect} {file source : String} {ts rest : List Token} {e : Expr}
    (hts : ts <:+ Token.tokenize file source) (h : parse d ts = (.ok e, rest))
    (hfinite : ∀ loc x, .num loc x ∈ e.parts → x.isFinite = true) : ∀ part ∈ e.parts, part.Legible := by
  have hlegible := (Token.lexed_tokenize file source).legible
  intro part hpart
  refine forall_parts_of_parse holdsOfNodes_legible h ?_ part hpart ?_
  · exact fun t ht => hlegible t (hts.subset ht)
  · rintro loc x rfl
    exact hfinite loc x hpart

/-- Two trees with one text agree up to their places, from whatever sources and in whatever dialects they
are read, as long as their numbers are finite. -/
theorem text_unambiguous {d d' : Dialect} {file source file' source' : String}
    {ts rest ts' rest' : List Token} {e e' : Expr} (hts : ts <:+ Token.tokenize file source)
    (he : parse d ts = (.ok e, rest))
    (hts' : ts' <:+ Token.tokenize file' source') (he' : parse d' ts' = (.ok e', rest'))
    (hfinite : ∀ loc x, .num loc x ∈ e.parts → x.isFinite = true)
    (hfinite' : ∀ loc x, .num loc x ∈ e'.parts → x.isFinite = true) (htext : e.text = e'.text) :
    e.same e' = true ∧ e.unplaced = e'.unplaced := by
  have hreadable := readable_of_legible (legible_of_parse hts he hfinite)
  have hclosed : Closes [] := by
    rintro _ ⟨⟩
  obtain ⟨hagree, -⟩ := hreadable (legible_of_parse hts' he' hfinite') hclosed hclosed
    (congrArg (·.toList ++ []) htext)
  exact ⟨hagree.same, hagree.unplaced⟩

/-- A sum of a name and a multiple of another one. -/
def scaledSum (l₁ l₂ l₃ l₄ l₅ : Option Location) : Expr :=
  .binary l₁ '+' (.var l₂ "n") (.binary l₃ '*' (.num l₄ 2.5) (.var l₅ "k"))

theorem text_unambiguous_layout :
    ∃ e e' rest rest', parse .standard (Token.tokenize "a.pk" "n + 2.50 * k") = (.ok e, rest) ∧
      parse .standard (Token.tokenize "b.pk" "n + (2.5*k) # twice") = (.ok e', rest') ∧
      e.text = "(+ n (* 2.5 k))" ∧ e'.text = "(+ n (* 2.5 k))" ∧
      e.same e' = true ∧ e.unplaced = e'.unplaced := by
  obtain ⟨l₁, l₂, l₃, l₄, l₅, rest, he⟩ : ∃ l₁ l₂ l₃ l₄ l₅ rest,
      parse .standard (Token.tokenize "a.pk" "n + 2.50 * k") =
        (.ok (scaledSum l₁ l₂ l₃ l₄ l₅), rest) := ⟨_, _, _, _, _, _, rfl⟩
  obtain ⟨l₁', l₂', l₃', l₄', l₅', rest', he'⟩ : ∃ l₁ l₂ l₃ l₄ l₅ rest,
      parse .standard (Token.tokenize "b.pk" "n + (2.5*k) # twice") =
        (.ok (scaledSum l₁ l₂ l₃ l₄ l₅), rest) := ⟨_, _, _, _, _, _, rfl⟩
  have hfinite (l₁ l₂ l₃ l₄ l₅ : Option Location) :
      ∀ loc x, .num loc x ∈ (scaledSum l₁ l₂ l₃ l₄ l₅).parts → x.isFinite = true := by
    intro loc x hx
    have hx : loc = l₄ ∧ x = 2.5 := by simpa [scaledSum, parts] using hx
    rw [hx.2]
    decide
  have htext (l₁ l₂ l₃ l₄ l₅ : Option Location) :
      (scaledSum l₁ l₂ l₃ l₄ l₅).text = "(+ n (* 2.5 k))" := by
    have hnumber : Decimal.plain.text 2.5 = "2.5" := by decide +kernel
    simp only [scaledSum, text, hnumber]
    rfl
  have hone := (htext l₁ l₂ l₃ l₄ l₅).trans (htext l₁' l₂' l₃' l₄' l₅').symm
  exact ⟨_, _, _, _, he, he', htext _ _ _ _ _, htext _ _ _ _ _, text_unambiguous List.suffix_rfl he
    List.suffix_rfl he' (hfinite _ _ _ _ _) (hfinite _ _ _ _ _) hone⟩

end Expr

end PoseLang
