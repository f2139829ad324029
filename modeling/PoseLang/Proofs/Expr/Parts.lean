import PoseLang.Proofs.Expr.Sound
import PoseLang.Proofs.Item.Reading

/-!
# Records in what is read

An expression consists of parts, itself among them (`Expr.parts`). What holds of every node that the
grammar builds holds of all parts of what is read (`Expr.forall_parts_of_parse`). So in such a tree, the
parts that have to do with records fit the registry that the tokens were read with
(`Expr.RecordFits`): storage is that of a registered record, and a construction fills fresh storage, one
value for each field and in the order of the fields. So what is read never has a construction that does
not fit its record, be it an expression or the body of a definition.
-/

namespace PoseLang

namespace Expr

mutual

/-- An expression and all the expressions that it consists of. -/
def parts : Expr → List Expr
  | .num loc x => [.num loc x]
  | .var loc name => [.var loc name]
  | .binary loc op left right => .binary loc op left right :: (left.parts ++ right.parts)
  | .call loc callee args => .call loc callee args :: partsArgs args
  | .cond loc c t e => .cond loc c t e :: (c.parts ++ t.parts ++ e.parts)
  | .loop loc v start test step body =>
    .loop loc v start test step body :: (start.parts ++ test.parts ++ partsStep step ++ body.parts)
  | .alloc loc record => [.alloc loc record]
  | .construct loc destination fields =>
    .construct loc destination fields :: (destination.parts ++ partsFields fields)

/-- The expressions that arguments consist of. -/
def partsArgs : List Expr → List Expr
  | [] => []
  | e :: es => e.parts ++ partsArgs es

/-- The expressions that a loop's step consists of. -/
def partsStep : Option Expr → List Expr
  | none => []
  | some e => e.parts

/-- The expressions that field values consist of. -/
def partsFields : List (Nat × Expr) → List Expr
  | [] => []
  | (_, e) :: fields => e.parts ++ partsFields fields

end

theorem mem_partsArgs {part : Expr} {es : List Expr} :
    part ∈ partsArgs es ↔ ∃ e ∈ es, part ∈ e.parts := by
  induction es with
  | nil => simp [partsArgs]
  | cons e es ih => simp [partsArgs, ih]

theorem mem_partsFields {part : Expr} {fields : List (Nat × Expr)} :
    part ∈ partsFields fields ↔ ∃ field ∈ fields, part ∈ field.2.parts := by
  induction fields with
  | nil => simp [partsFields]
  | cons field fields ih => simp [partsFields, ih]

/-- Storage is that of a registered record, and a construction gives each field of fresh storage a
value, in order. -/
def RecordFits (records : Registry) : Expr → Prop
  | .alloc _ record => ∃ layout, records[record]? = some layout
  | .construct _ destination fields => ∃ loc record layout, destination = .alloc loc record ∧
      records[record]? = some layout ∧ fields.map Prod.fst = List.range layout.width
  | _ => True

/-- All parts of an expression fit the registered records. -/
def RecordsFit (records : Registry) (e : Expr) : Prop :=
  ∀ part ∈ e.parts, part.RecordFits records

section

variable {records : Registry} {loc : Option Location}

theorem recordsFit_binary {op : Char} {left right : Expr} :
    (Expr.binary loc op left right).RecordsFit records ↔
      left.RecordsFit records ∧ right.RecordsFit records := by
  simp only [RecordsFit, parts, List.forall_mem_cons, List.forall_mem_append]
  exact and_iff_right trivial

theorem recordsFit_call {callee : String} {args : List Expr} :
    (Expr.call loc callee args).RecordsFit records ↔ ∀ e ∈ args, e.RecordsFit records := by
  simp only [RecordsFit, parts, List.forall_mem_cons, mem_partsArgs]
  refine (and_iff_right trivial).trans ?_
  exact ⟨fun h e he part hpart => h part ⟨e, he, hpart⟩,
    fun h part ⟨e, he, hpart⟩ => h e he part hpart⟩

theorem recordsFit_cond {c t e : Expr} : (Expr.cond loc c t e).RecordsFit records ↔
    c.RecordsFit records ∧ t.RecordsFit records ∧ e.RecordsFit records := by
  simp only [RecordsFit, parts, List.forall_mem_cons, List.forall_mem_append, and_assoc]
  exact and_iff_right trivial

theorem recordsFit_loop {v : String} {start test body : Expr} {step : Option Expr} :
    (Expr.loop loc v start test step body).RecordsFit records ↔
      start.RecordsFit records ∧ test.RecordsFit records ∧
        (∀ e, step = some e → e.RecordsFit records) ∧ body.RecordsFit records := by
  simp only [RecordsFit, parts, List.forall_mem_cons, List.forall_mem_append, and_assoc]
  refine (and_iff_right trivial).trans ?_
  cases step with
  | none => simp [partsStep]
  | some e => simp [partsStep]

theorem recordsFit_construct {destination : Expr} {fields : List (Nat × Expr)} :
    (Expr.construct loc destination fields).RecordsFit records ↔
      (Expr.construct loc destination fields).RecordFits records ∧
        destination.RecordsFit records ∧ ∀ field ∈ fields, field.2.RecordsFit records := by
  simp only [RecordsFit, parts, List.forall_mem_cons, List.forall_mem_append, mem_partsFields]
  refine and_congr_right fun _ => and_congr_right fun _ => ?_
  exact ⟨fun h field hfield part hpart => h part ⟨field, hfield, hpart⟩,
    fun h part ⟨field, hfield, hpart⟩ => h field hfield part hpart⟩

end

/-! ## What the grammar gives -/

section

variable {d : Dialect}

/-- A property that every node has that the grammar builds from tokens with a property of their own. -/
structure HoldsOfNodes (d : Dialect) (good : Token → Prop) (P : Expr → Prop) : Prop where
  num {t : Token} {x : Float} (ht : good t) (hx : t.value = some x) : P (.num t.location x)
  var {t : Token} (ht : good t) (hkind : t.kind = .identifier) : P (.var t.location t.name)
  binary (loc : Option Location) (op : Char) (l r : Expr) : P (.binary loc op l r)
  call {t : Token} (ht : good t) (hkind : t.kind = .identifier) (es : List Expr) :
    P (.call t.location t.name es)
  cond (loc : Option Location) (c t e : Expr) : P (.cond loc c t e)
  loop {x : Token} (hx : good x) (hkind : x.kind = .identifier) (loc : Option Location) (s t : Expr)
    (st : Option Expr) (b : Expr) : P (.loop loc x.name s t st b)
  alloc {t : Token} {layout : Layout} (ht : good t) (hkind : t.kind = .identifier)
    (hrecord : d.records[t.name]? = some layout) : P (.alloc t.location t.name)
  construct {record : String} {layout : Layout} {es : List Expr}
    (hrecord : d.records[record]? = some layout) (hwidth : es.length = layout.width) (loc : Option Location) :
    P (.construct loc (.alloc loc record) ((List.range layout.width).zip es))

section

variable {good : Token → Prop} {P : Expr → Prop}

mutual

theorem Primary.forall_parts (h : HoldsOfNodes d good P) :
    ∀ {ending : Ending} {cs : List Token} {e : Expr}, Primary d ending cs e →
    (∀ t ∈ cs, good t) → ∀ part ∈ e.parts, P part
  | _, _, _, .num _ hx, hcs => by
    simp only [parts, List.forall_mem_singleton] at hcs ⊢
    exact h.num hcs hx
  | _, _, _, .var hkind, hcs => by
    simp only [parts, List.forall_mem_singleton] at hcs ⊢
    exact h.var hcs hkind
  | _, _, _, .call hkind _ hargs _ _, hcs => by
    simp only [parts, List.cons_append, List.forall_mem_cons, List.forall_mem_append,
      mem_partsArgs] at hcs ⊢
    obtain ⟨ht, -, hcs, -⟩ := hcs
    exact ⟨h.call ht hkind _, fun part ⟨e, he, hpart⟩ => hargs.forall_parts h hcs e he part hpart⟩
  | _, _, _, .record hkind _ hargs _ hrecord hwidth, hcs => by
    simp only [parts, List.cons_append, List.nil_append, List.forall_mem_cons, List.forall_mem_append,
      mem_partsFields] at hcs ⊢
    obtain ⟨ht, -, hcs, -⟩ := hcs
    refine ⟨h.construct hrecord hwidth _, h.alloc ht hkind hrecord, fun part ⟨field, hfield, hpart⟩ => ?_⟩
    exact hargs.forall_parts h hcs field.2 (List.of_mem_zip hfield).2 part hpart
  | _, _, _, .group _ he _, hcs => by
    simp only [List.cons_append, List.forall_mem_cons, List.forall_mem_append] at hcs
    exact he.forall_parts h hcs.2.1
  | _, _, _, .cond _ hc _ hth _ hel, hcs => by
    simp only [parts, List.cons_append, List.forall_mem_cons, List.forall_mem_append] at hcs ⊢
    obtain ⟨-, ⟨hcs, -, hts⟩, -, hfs⟩ := hcs
    exact ⟨h.cond _ _ _ _, ⟨hc.forall_parts h hcs, hth.forall_parts h hts⟩, hel.forall_parts h hfs⟩
  | _, _, _, .loop _ hkind _ hs _ htest hstep _ hb, hcs => by
    simp only [parts, List.cons_append, List.forall_mem_cons, List.forall_mem_append] at hcs ⊢
    obtain ⟨-, hx, -, ⟨⟨hss, -, hts⟩, hus⟩, -, hbs⟩ := hcs
    exact ⟨h.loop hx hkind _ _ _ _ _, ⟨⟨hs.forall_parts h hss, htest.forall_parts h hts⟩,
      hstep.forall_parts h hus⟩, hb.forall_parts h hbs⟩

theorem Chain.forall_parts (h : HoldsOfNodes d good P) :
    ∀ {ending : Ending} {cs : List Token} {ps : List Int32} {e : Expr},
    Chain d ending cs ps e → (∀ t ∈ cs, good t) → ∀ part ∈ e.parts, P part
  | _, _, _, _, .single he, hcs => he.forall_parts h hcs
  | _, _, _, _, .link hl _ hr _ _, hcs => by
    simp only [parts, List.forall_mem_cons, List.forall_mem_append] at hcs ⊢
    exact ⟨h.binary _ _ _ _, hl.forall_parts h hcs.1, hr.forall_parts h hcs.2.2⟩

theorem Arguments.forall_parts (h : HoldsOfNodes d good P) :
    ∀ {cs : List Token} {es : List Expr}, Arguments d cs es →
    (∀ t ∈ cs, good t) → ∀ e ∈ es, ∀ part ∈ e.parts, P part
  | _, _, .none, _ => by simp
  | _, _, .some hcs he, hts => by
    simp only [List.forall_mem_append, List.forall_mem_singleton] at hts ⊢
    exact ⟨hcs.forall_parts h hts.1, he.forall_parts h hts.2⟩

theorem Leading.forall_parts (h : HoldsOfNodes d good P) :
    ∀ {cs : List Token} {es : List Expr}, Leading d cs es →
    (∀ t ∈ cs, good t) → ∀ e ∈ es, ∀ part ∈ e.parts, P part
  | _, _, .nil, _ => by simp
  | _, _, .snoc hcs he _, hts => by
    simp only [List.forall_mem_append, List.forall_mem_singleton] at hts ⊢
    exact ⟨hcs.forall_parts h hts.1.1, he.forall_parts h hts.1.2⟩

theorem StepPart.forall_parts (h : HoldsOfNodes d good P) :
    ∀ {us : List Token} {step : Option Expr}, StepPart d us step →
    (∀ t ∈ us, good t) → ∀ part ∈ partsStep step, P part
  | _, _, .none, _ => by simp [partsStep]
  | _, _, .some _ he, hts => he.forall_parts h (List.forall_mem_cons.mp hts).2

end

/-- Every part of what is read has the property. -/
theorem forall_parts_of_parse (h : HoldsOfNodes d good P) {ts rest : List Token} {e : Expr}
    (he : parse d ts = (.ok e, rest)) (hts : ∀ t ∈ ts, good t) : ∀ part ∈ e.parts, P part := by
  obtain ⟨cs, rfl, ⟨ending, ps, hchain⟩, -⟩ := sentence_of_parse he
  exact hchain.forall_parts h fun t ht => hts t (List.mem_append_left rest ht)

end

theorem holdsOfNodes_recordFits : HoldsOfNodes d (fun _ => True) (RecordFits d.records) where
  num _ _ := trivial
  var _ _ := trivial
  binary _ _ _ _ := trivial
  call _ _ _ := trivial
  cond _ _ _ _ := trivial
  loop _ _ _ _ _ _ _ := trivial
  alloc _ _ hrecord := ⟨_, hrecord⟩
  construct hrecord hwidth loc := ⟨loc, _, _, rfl, hrecord, List.map_fst_zip (by simp [hwidth])⟩

theorem recordsFit_of_parse {ts rest : List Token} {e : Expr} (h : parse d ts = (.ok e, rest)) :
    e.RecordsFit d.records :=
  forall_parts_of_parse holdsOfNodes_recordFits h fun _ _ => trivial

end

end Expr

/-! ## Items -/

theorem Definition.parse_body {d : Dialect} {ts rest : List Token} {f : Definition}
    (h : Definition.parse d ts = (.ok f, rest)) : ∃ ts', Expr.parse d ts' = (.ok f.body, rest) := by
  unfold Definition.parse at h
  split at h
  · cases h
  · split at h
    · cases h
    · split at h
      · cases h
      next hbody =>
        cases h
        exact ⟨_, hbody⟩

namespace Item

/-- The expressions that an item consists of. -/
def parts : Item → List Expr
  | .definition d => d.body.parts
  | .declaration _ => []
  | .expression _ body => body.parts

/-- The parts of an item that is read fit the records that it is read with. -/
theorem recordFits_of_parse {d : Dialect} {ts rest : List Token} {i : Item}
    (h : parse d ts = (.ok i, rest)) : ∀ part ∈ i.parts, part.RecordFits d.records := by
  unfold parse at h
  split at h
  · split at h
    · cases h
    next f _ hf =>
      cases h
      obtain ⟨ts', hbody⟩ := Definition.parse_body hf
      exact Expr.recordsFit_of_parse hbody
  · split at h
    · cases h
    · cases h
      intro part hpart
      cases hpart
  · unfold parseExpression at h
    split at h
    · cases h
    next hbody =>
      cases h
      exact Expr.recordsFit_of_parse hbody

end Item

end PoseLang
