import PoseLang.Proofs.Lowering.Accepted

/-!
# The labels of blocks

A label that is asked for again is given with a number behind it. That does not make the labels of
blocks distinct: the entry has its label without being asked for, and a label with a number may be asked
for as it is. These are the only ways in which two blocks come to the same label
(`Builder.nodup_appendBlocks_iff`): the numbers behind one label differ, and labels that differ in
more than their numbers are different, since what stands in front in a numeral is a smaller numeral.
-/

namespace PoseLang

open Std (ExtTreeMap)

namespace Builder

/-! ## Labels with numbers -/

/-- The label that is given where a label has been asked for a number of times before. -/
def numbered (label : String) : Nat → String
  | 0 => label
  | n + 1 => label ++ toString (n + 1)

/-- The characters of the number behind a label. -/
def numeral : Nat → List Char
  | 0 => []
  | n + 1 => Nat.toDigits 10 (n + 1)

theorem toList_append_toString (label : String) (n : Nat) :
    (label ++ toString n).toList = label.toList ++ Nat.toDigits 10 n := by
  rw [String.toList_append, Nat.toString_eq_repr, Nat.toList_repr]

theorem toList_numbered (label : String) (n : Nat) :
    (numbered label n).toList = label.toList ++ numeral n := by
  cases n with
  | zero => exact (List.append_nil _).symm
  | succ n => exact toList_append_toString label (n + 1)

theorem numbered_of_pos {n : Nat} (h : 0 < n) (label : String) :
    numbered label n = label ++ toString n := by
  cases n with
  | zero => cases h
  | succ n => rfl

theorem numeral_of_pos {n : Nat} (h : 0 < n) : numeral n = Nat.toDigits 10 n := by
  cases n with
  | zero => cases h
  | succ n => rfl

theorem numeral_inj {n m : Nat} (h : numeral n = numeral m) : n = m := by
  cases n with
  | zero =>
    cases m with
    | zero => rfl
    | succ m => exact absurd h.symm Nat.toDigits_ne_nil
  | succ n =>
    cases m with
    | zero => exact absurd h Nat.toDigits_ne_nil
    | succ m =>
      have hvalue := congrArg (fun digits => Nat.ofDigitChars 10 digits 0) h
      simpa only [numeral, Nat.ofDigitChars_ten_toDigits] using hvalue

/-- One label with different numbers is given as different labels. -/
theorem numbered_inj {label : String} {n m : Nat} (h : numbered label n = numbered label m) :
    n = m := by
  have hlist := congrArg String.toList h
  rw [toList_numbered, toList_numbered] at hlist
  exact numeral_inj (List.append_cancel_left hlist)

/-- What stands in front in a numeral is the numeral of a number that is not greater. -/
theorem toDigits_of_append (n : Nat) : ∀ front back : List Char,
    Nat.toDigits 10 n = front ++ back → front ≠ [] → 0 < n →
      ∃ m, 0 < m ∧ m ≤ n ∧ front = Nat.toDigits 10 m := by
  induction n using Nat.strongRecOn with
  | ind n ih =>
    intro front back h hfront hn
    rcases List.eq_nil_or_concat back with rfl | ⟨back, c, rfl⟩
    · exact ⟨n, hn, Nat.le_refl n, by rw [h, List.append_nil]⟩
    · rw [List.concat_eq_append] at h
      rcases Nat.lt_or_ge n 10 with hlt | hge
      · -- A numeral of one digit has nothing behind its front.
        have hlength := congrArg List.length h
        rw [Nat.toDigits_of_lt_base hlt] at hlength
        have hpos := List.length_pos_iff.mpr hfront
        simp only [List.length_singleton, List.length_append] at hlength
        omega
      · rw [Nat.toDigits_of_base_le (by decide) hge, ← List.append_assoc] at h
        obtain ⟨hfewer, -⟩ := List.append_inj' h rfl
        obtain ⟨m, hm, hle, hdigits⟩ := ih (n / 10) (by omega) front back hfewer hfront (by omega)
        exact ⟨m, hm, by omega, hdigits⟩

/-- A label that is another one with something of a number behind it is that one with a number. -/
theorem eq_append_toString {label label' : String} {more back : List Char} {n : Nat}
    (hlabel : label'.toList = label.toList ++ more) (hne : label ≠ label')
    (hnumeral : numeral n = more ++ back) : ∃ m, 0 < m ∧ m ≤ n ∧ label' = label ++ toString m := by
  have hmore : more ≠ [] := by
    rintro rfl
    exact hne (String.toList_inj.mp (hlabel.trans (List.append_nil _))).symm
  have hn : 0 < n := by
    cases n with
    | zero => exact absurd (List.append_eq_nil_iff.mp hnumeral.symm).1 hmore
    | succ n => exact Nat.succ_pos n
  rw [numeral_of_pos hn] at hnumeral
  obtain ⟨m, hm, hle, rfl⟩ := toDigits_of_append n more back hnumeral hmore hn
  exact ⟨m, hm, hle, String.toList_inj.mp (hlabel.trans (toList_append_toString label m).symm)⟩

/-- Where two labels are given as the same one, one of them is the other with a number behind it, and
that number is not greater than the one with which the other is given. -/
theorem numbered_eq {label label' : String} {n n' : Nat} (hne : label ≠ label')
    (h : numbered label n = numbered label' n') :
    (∃ m, 0 < m ∧ m ≤ n ∧ label' = label ++ toString m) ∨
      ∃ m, 0 < m ∧ m ≤ n' ∧ label = label' ++ toString m := by
  have hlist := congrArg String.toList h
  rw [toList_numbered, toList_numbered] at hlist
  rcases List.append_eq_append_iff.mp hlist with ⟨more, hlabel, hnumeral⟩ | ⟨more, hlabel, hnumeral⟩
  · exact .inl (eq_append_toString hlabel hne hnumeral)
  · exact .inr (eq_append_toString hlabel hne.symm hnumeral)

/-! ## Labels that are asked for -/

/-- The label is that of the entry, or one of those that are asked for is given as it. -/
def Given (asked : List String) (given : String) : Prop :=
  given = "entry" ∨ ∃ label n, n < asked.count label ∧ given = numbered label n

/-- Neither the label of the entry is asked for, nor one that another label is given as when it is asked
for again. -/
def Apart (asked : List String) : Prop :=
  "entry" ∉ asked ∧
    ∀ label ∈ asked, ∀ n < asked.count label, 0 < n → label ++ toString n ∉ asked

instance (asked : List String) : Decidable (Apart asked) :=
  inferInstanceAs (Decidable (_ ∧ _))

/-- Whether a label ends in a digit. -/
def endsInDigit (label : String) : Bool :=
  label.toList.getLast?.any Char.isDigit

theorem endsInDigit_append_toString (label : String) (n : Nat) :
    endsInDigit (label ++ toString n) = true := by
  have hne : Nat.toDigits 10 n ≠ [] := Nat.toDigits_ne_nil
  rw [endsInDigit, toList_append_toString, List.getLast?_append, List.getLast?_eq_some_getLast hne]
  exact Nat.isDigit_of_mem_toDigits (by decide) (by decide) (List.getLast_mem hne)

/-- Numbers behind labels do not make the label of the entry. -/
theorem numbered_eq_entry {label : String} {n : Nat} (h : numbered label n = "entry") :
    label = "entry" := by
  cases n with
  | zero => exact h
  | succ n =>
    have hdigit := endsInDigit_append_toString label (n + 1)
    rw [show label ++ toString (n + 1) = "entry" from h] at hdigit
    exact absurd hdigit (by decide)

section

variable {asked : List String} {label : String}

theorem count_concat_self : (asked ++ [label]).count label = asked.count label + 1 := by
  rw [List.count_append, List.count_singleton_self]

theorem count_concat_of_ne {other : String} (h : label ≠ other) :
    (asked ++ [label]).count other = asked.count other := by
  have hnone : [label].count other = 0 :=
    List.count_eq_zero.mpr fun hmem => h (List.mem_singleton.mp hmem).symm
  rw [List.count_append, hnone, Nat.add_zero]

theorem count_le_concat (other : String) : asked.count other ≤ (asked ++ [label]).count other :=
  (List.sublist_append_left asked [label]).count_le other

/-- A label is asked for once more only if it is the last one. -/
theorem lt_count_concat {other : String} {n : Nat} (h : n < (asked ++ [label]).count other) :
    n < asked.count other ∨ label = other ∧ n = asked.count other := by
  by_cases heq : label = other
  · subst heq
    rw [count_concat_self] at h
    rcases Nat.lt_succ_iff_lt_or_eq.mp h with hlt | hlast
    · exact .inl hlt
    · exact .inr ⟨rfl, hlast⟩
  · exact .inl (count_concat_of_ne heq ▸ h)

/-- What is told apart is so without the last label, and this one is given as none of the others. -/
theorem Apart.of_concat (h : Apart (asked ++ [label])) :
    Apart asked ∧ ¬ Given asked (numbered label (asked.count label)) := by
  obtain ⟨hentry, hnumbers⟩ := h
  have old {other : String} (hmem : other ∈ asked) : other ∈ asked ++ [label] :=
    List.mem_append_left _ hmem
  have hlast : label ∈ asked ++ [label] := List.mem_append_right _ (List.mem_singleton_self label)
  refine ⟨⟨fun hmem => hentry (old hmem), fun other hother n hn hpos hmem => ?_⟩, ?_⟩
  · exact hnumbers other (old hother) n (Nat.lt_of_lt_of_le hn (count_le_concat other)) hpos (old hmem)
  · rintro (heq | ⟨other, n, hn, heq⟩)
    · exact hentry (numbered_eq_entry heq ▸ hlast)
    · have hother : other ∈ asked := List.count_pos_iff.mp (Nat.zero_lt_of_lt hn)
      by_cases hsame : label = other
      · subst hsame
        exact Nat.ne_of_gt hn (numbered_inj heq)
      · rcases numbered_eq hsame heq with ⟨m, hpos, hle, rfl⟩ | ⟨m, hpos, hle, rfl⟩
        · exact hnumbers label hlast m (by rw [count_concat_self]; omega) hpos (old hother)
        · have hm : m < asked.count other := Nat.lt_of_le_of_lt hle hn
          exact hnumbers other (old hother) m (Nat.lt_of_lt_of_le hm (count_le_concat other)) hpos hlast

/-- A label that is given as none of the others keeps them apart. -/
theorem Apart.concat (h : Apart asked) (hnew : ¬ Given asked (numbered label (asked.count label))) :
    Apart (asked ++ [label]) := by
  obtain ⟨hentry, hnumbers⟩ := h
  constructor
  · intro hmem
    rcases List.mem_append.mp hmem with hold | hlast
    · exact hentry hold
    · obtain rfl := List.mem_singleton.mp hlast
      exact hnew (.inl (by rw [List.count_eq_zero.mpr hentry, numbered]))
  · intro other hother n hn hpos hmem
    rcases lt_count_concat hn with hless | ⟨rfl, rfl⟩
    · -- The other label was given with this number before, and now it is asked for as it is.
      have hfresh : other ++ toString n ∉ asked :=
        hnumbers other (List.count_pos_iff.mp (Nat.zero_lt_of_lt hless)) n hless hpos
      obtain rfl : other ++ toString n = label :=
        List.mem_singleton.mp ((List.mem_append.mp hmem).resolve_left hfresh)
      refine hnew (.inr ⟨other, n, hless, ?_⟩)
      rw [List.count_eq_zero.mpr hfresh, numbered, numbered_of_pos hpos]
    · -- It is the label itself that is given with this number.
      rcases List.mem_append.mp hmem with hold | hlast
      · refine hnew (.inr ⟨label ++ toString (asked.count label), 0, List.count_pos_iff.mpr hold, ?_⟩)
        exact numbered_of_pos hpos label
      · have hself : numbered label (asked.count label) = numbered label 0 :=
          (numbered_of_pos hpos label).trans (List.mem_singleton.mp hlast)
        exact Nat.ne_of_gt hpos (numbered_inj hself)

end

/-! ## What a builder knows of labels -/

/-- The labels of blocks in order, and how often each label has been asked for. -/
structure Labelling where
  labels : List String
  counts : ExtTreeMap String Nat

/-- The labels of blocks. -/
def labels (b : Builder) : List String :=
  b.blocks.map Block.label

/-- What a builder knows of labels. -/
def labelling (b : Builder) : Labelling :=
  ⟨b.labels, b.labelCounts⟩

namespace Labelling

/-- Gives a label for one that is asked for. -/
def ask (s : Labelling) (label : String) : Labelling where
  labels := s.labels ++ [numbered label (s.counts[label]?.getD 0)]
  counts := s.counts.insert label (s.counts[label]?.getD 0 + 1)

/-- The labels of a builder that has been asked for some, and what decides whether they are distinct. -/
structure Records (asked : List String) (s : Labelling) : Prop where
  counts : ∀ label, s.counts[label]?.getD 0 = asked.count label
  mem : ∀ given, given ∈ s.labels ↔ Given asked given
  nodup : s.labels.Nodup ↔ Apart asked

/-- One label more. -/
theorem Records.ask {asked : List String} {s : Labelling} (h : Records asked s) (label : String) :
    Records (asked ++ [label]) (s.ask label) := by
  refine ⟨fun other => ?_, fun given => ?_, ?_⟩
  · simp only [Labelling.ask, Std.ExtTreeMap.getElem?_insert, h.counts,
      Std.LawfulEqCmp.compare_eq_iff_eq]
    split
    next heq =>
      subst heq
      exact count_concat_self.symm
    next hne => rw [h.counts, count_concat_of_ne hne]
  · rw [Labelling.ask, List.mem_append, h.mem, List.mem_singleton, h.counts]
    constructor
    · rintro ((rfl | ⟨other, n, hn, rfl⟩) | rfl)
      · exact .inl rfl
      · exact .inr ⟨other, n, Nat.lt_of_lt_of_le hn (count_le_concat other), rfl⟩
      · exact .inr ⟨label, _, by rw [count_concat_self]; exact Nat.lt_succ_self _, rfl⟩
    · rintro (rfl | ⟨other, n, hn, rfl⟩)
      · exact .inl (.inl rfl)
      · rcases lt_count_concat hn with hless | ⟨rfl, rfl⟩
        · exact .inl (.inr ⟨other, n, hless, rfl⟩)
        · exact .inr rfl
  · rw [Labelling.ask, h.counts]
    constructor
    · intro hnodup
      obtain ⟨hold, -, hnew⟩ := List.nodup_append.mp hnodup
      refine (h.nodup.mp hold).concat fun hgiven => ?_
      exact hnew _ ((h.mem _).mpr hgiven) _ (List.mem_singleton_self _) rfl
    · intro hapart
      obtain ⟨hold, hnew⟩ := hapart.of_concat
      refine List.nodup_append.mpr ⟨h.nodup.mpr hold, List.pairwise_singleton _ _, ?_⟩
      rintro given hgiven _ hlast rfl
      exact hnew (List.mem_singleton.mp hlast ▸ (h.mem given).mp hgiven)

/-- All labels, one after the other. -/
theorem Records.foldl {done : List String} {s : Labelling} (h : Records done s) (asked : List String) :
    Records (done ++ asked) (asked.foldl Labelling.ask s) := by
  induction asked generalizing done s with
  | nil => rwa [List.append_nil]
  | cons label asked ih =>
    rw [List.append_cons]
    exact ih (h.ask label)

end Labelling

theorem records_start : Labelling.Records [] start.labelling := by
  refine ⟨fun label => rfl, fun given => ?_, ?_⟩
  · constructor
    · intro hgiven
      exact .inl (List.mem_singleton.mp hgiven)
    · rintro (rfl | ⟨label, n, hn, -⟩)
      · exact List.mem_singleton_self _
      · cases hn
  · exact iff_of_true (by decide) (by decide)

theorem freshLabel_eq (b : Builder) (label : String) :
    b.freshLabel label = numbered label (b.labelCounts[label]?.getD 0) := by
  unfold freshLabel
  split
  next hcount => rw [hcount, numbered]
  next hcount => exact (numbered_of_pos (Nat.pos_of_ne_zero hcount) label).symm

theorem labelling_appendBlock (b : Builder) (label : String) :
    (b.appendBlock label).2.labelling = b.labelling.ask label := by
  simp only [labelling, labels, Labelling.ask, appendBlock, freshLabel_eq, List.map_append, List.map_cons,
    List.map_nil]

/-- Adds blocks for which labels are asked, one after the other. -/
def appendBlocks (b : Builder) (asked : List String) : Builder :=
  asked.foldl (fun b label => (b.appendBlock label).2) b

theorem labelling_appendBlocks (b : Builder) (asked : List String) :
    (b.appendBlocks asked).labelling = asked.foldl Labelling.ask b.labelling := by
  induction asked generalizing b with
  | nil => rfl
  | cons label asked ih =>
    rw [List.foldl_cons, ← labelling_appendBlock]
    exact ih (b.appendBlock label).2

/-! ## Labels that lowering asks for -/

/-- A step asks for labels of conditionals and loops at most. -/
def Asks (b b' : Builder) : Prop :=
  ∃ asked : List String, (∀ label ∈ asked, label ∈ loweredLabels) ∧
    b'.labelling = asked.foldl Labelling.ask b.labelling

/-- A block that is changed keeps its label. -/
theorem map_label_modify {f : Block → Block} (hf : ∀ block, (f block).label = block.label)
    (blocks : List Block) (i : Nat) :
    (blocks.modify i f).map Block.label = blocks.map Block.label := by
  apply List.ext_getElem?
  intro k
  rw [List.getElem?_map, List.getElem?_map, List.getElem?_modify]
  cases blocks[k]? with
  | none => rfl
  | some block =>
    split
    · exact congrArg some (hf block)
    · rfl

section

variable (b : Builder)

theorem labelling_emit (op : Op) : (b.emit op).labelling = b.labelling :=
  congrArg (Labelling.mk · b.labelCounts)
    (map_label_modify (f := (·.push op)) (fun _ => rfl) b.blocks b.current)

theorem labelling_addPhiEdge (block dest : Nat) (edge : Nat × Nat) :
    (b.addPhiEdge block dest edge).labelling = b.labelling :=
  congrArg (Labelling.mk · b.labelCounts)
    (map_label_modify (f := fun bl => { bl with ops := addEdge dest edge bl.ops }) (fun _ => rfl)
      b.blocks block)

theorem labelling_restore (v : String) (shadowed : Option Nat) :
    (b.restore v shadowed).labelling = b.labelling := by
  cases shadowed <;> rfl

theorem labelling_need (t : Target) : (b.need t).labelling = b.labelling := by
  cases t with
  | routine s => rfl
  | prototype s =>
    unfold need queue
    dsimp only
    split <;> rfl

end

namespace Asks

variable {b b₁ b₂ : Builder}

/-- A step that adds no block. -/
theorem of_eq (h : b₁.labelling = b.labelling) : Asks b b₁ :=
  ⟨[], fun _ hmem => (List.not_mem_nil hmem).elim, h⟩

theorem trans (h : Asks b b₁) (h' : Asks b₁ b₂) : Asks b b₂ := by
  obtain ⟨asked, hknown, heq⟩ := h
  obtain ⟨asked', hknown', heq'⟩ := h'
  refine ⟨asked ++ asked', fun label hmem => ?_, ?_⟩
  · exact (List.mem_append.mp hmem).elim (hknown label) (hknown' label)
  · rw [heq', heq, List.foldl_append]

theorem emit (op : Op) : Asks b (b.emit op) :=
  of_eq (labelling_emit b op)

theorem appendBlock (label : String) (h : label ∈ loweredLabels) :
    Asks b (b.appendBlock label).2 := by
  refine ⟨[label], fun other hmem => ?_, labelling_appendBlock b label⟩
  rw [List.mem_singleton.mp hmem]
  exact h

end Asks

section

variable {c : Context} {b b' : Builder}

/-- A block is added for a label of conditionals and loops, and no other step asks for one. -/
theorem Step.asks (h : Step c b b') : Asks b b' := by
  cases h with
  | newReg => exact .of_eq rfl
  | emit op => exact .emit op
  | @call _ target _ _ _ => exact (Asks.of_eq (labelling_need b target)).trans (.emit _)
  | appendBlock label known => exact .appendBlock label known
  | position => exact .of_eq rfl
  | addPhiEdge block dest edge => exact .of_eq (labelling_addPhiEdge b block dest edge)
  | bind => exact .of_eq rfl
  | restore name previous => exact .of_eq (labelling_restore b name previous)

theorem Steps.asks (h : Steps c b b') : Asks b b' := by
  induction h with
  | refl => exact .of_eq rfl
  | tail _ last ih => exact ih.trans last.asks

end

/-- Labels that are not that of the entry and do not end in digits are told apart. -/
theorem apart_of_not_endsInDigit {asked : List String}
    (h : ∀ label ∈ asked, label ≠ "entry" ∧ endsInDigit label = false) : Apart asked := by
  refine ⟨fun hmem => (h _ hmem).1 rfl, fun label _ n _ _ hmem => ?_⟩
  have hdigit := (h _ hmem).2
  rw [endsInDigit_append_toString] at hdigit
  cases hdigit

theorem labelling_bindParams (params : List String) (b : Builder) :
    (Definition.bindParams params b).labelling = b.labelling := by
  induction params generalizing b with
  | nil => rfl
  | cons p params ih => exact ih ((b.newReg .f64).2.bind p (b.newReg .f64).1).2

theorem nodup_appendBlocks_iff (asked : List String) :
    (start.appendBlocks asked).labels.Nodup ↔ Apart asked := by
  have records := records_start.foldl asked
  rw [← labelling_appendBlocks] at records
  exact records.nodup

theorem Asks.nodup {b : Builder} (h : Asks start b) : b.labels.Nodup := by
  obtain ⟨asked, hknown, heq⟩ := h
  have records := records_start.foldl asked
  rw [← heq] at records
  refine records.nodup.mpr (apart_of_not_endsInDigit fun label hmem => ?_)
  have hall : ∀ label ∈ loweredLabels, label ≠ "entry" ∧ endsInDigit label = false := by decide
  exact hall label (hknown label hmem)

/-- Blocks have distinct labels exactly if neither the label of the entry is asked for nor one that
another label is given as. Lowering asks for no such labels: the blocks of a definition have distinct
labels. -/
theorem labels_distinct (asked : List String) (c : Context) (d : Definition) :
    ((start.appendBlocks asked).labels.Nodup ↔ Apart asked) ∧
      ∀ r after, c.define d = .ok (r, after) → (r.blocks.map Block.label).Nodup := by
  refine ⟨nodup_appendBlocks_iff asked, fun r after h => ?_⟩
  obtain ⟨-, declarations, hbuild, -⟩ := Context.define_eq_ok h
  obtain ⟨b, result, hlowered, rfl, -⟩ := Definition.build_ok hbuild
  have bound : Asks start (Definition.bindParams d.proto.params start) :=
    .of_eq (labelling_bindParams d.proto.params start)
  exact (bound.trans (hlowered.steps.asks.trans (.emit (.ret result)))).nodup

/-- A conditional in a branch of another one. -/
def nestedConditional : Definition :=
  ⟨{ name := "f", params := ["a", "b"] }, .cond none (.var none "a")
    (.cond none (.var none "b") (.num none 1) (.num none 2)) (.num none 3)⟩

theorem labels_distinct_nested :
    (start.appendBlocks ["a", "a", "a2"]).labels = ["entry", "a", "a1", "a2"] ∧
      (start.appendBlocks ["a", "a", "a2"]).labels.Nodup ∧
      ∃ r after, (Context.start .builtin).define nestedConditional = .ok (r, after) ∧
        r.blocks.map Block.label =
          ["entry", "then", "else", "ifcont", "then1", "else1", "ifcont1"] ∧
        (r.blocks.map Block.label).Nodup := by
  have hlabels : ((Context.start .builtin).define nestedConditional).toOption.map
      (fun x => x.1.blocks.map Block.label) =
        some ["entry", "then", "else", "ifcont", "then1", "else1", "ifcont1"] := by decide +kernel
  obtain ⟨hasked, hlowered⟩ :=
    labels_distinct ["a", "a", "a2"] (.start .builtin) nestedConditional
  refine ⟨by decide +kernel, hasked.mpr (by decide +kernel), ?_⟩
  cases h : (Context.start .builtin).define nestedConditional with
  | error e =>
    rw [h] at hlabels
    cases hlabels
  | ok lowered =>
    rw [h] at hlabels
    exact ⟨lowered.1, lowered.2, rfl, Option.some.inj hlabels, hlowered _ _ h⟩

/-- The label of the entry may be asked for, and so may one that another label was given as. -/
theorem labels_not_distinct : ¬ (start.appendBlocks ["entry"]).labels.Nodup ∧
    ¬ (start.appendBlocks ["a", "a", "a1"]).labels.Nodup := by
  decide +kernel

end Builder

end PoseLang
