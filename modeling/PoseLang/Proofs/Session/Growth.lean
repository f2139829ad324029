import PoseLang.Proofs.Session.InStep
import PoseLang.Proofs.Session.Separator

/-!
# A session's program only grows

From item to item a session goes on (`Session.Continues`), and its program with it (`Program.Grows`):
names are added behind the names, a routine keeps its number of parameters and its type, and a routine
with a body stays what it is. A declaration may be given a body, in its place and with its type. The
routine of an expression comes and goes within its item.
-/

namespace PoseLang

/-- A program has grown: names were added behind the names, routines have the types that they had, and
bodies are unchanged. -/
structure Program.Grows (p p' : Program) : Prop extends p.Extends p' where
  names : p.names <+: p'.names
  bodies : ∀ {name : String} {r : Routine}, p.get? name = some r → r.isDeclaration = false →
    p'.get? name = some r

namespace Program

variable {p p₁ p₂ : Program}

theorem Grows.refl (p : Program) : p.Grows p where
  records := rfl
  routine hr := ⟨_, hr, rfl, rfl⟩
  names := List.prefix_refl _
  bodies hr _ := hr

theorem Grows.trans (h : p.Grows p₁) (h' : p₁.Grows p₂) : p.Grows p₂ where
  records := h'.records.trans h.records
  routine hr := h'.typed (h.routine hr)
  names := h.names.trans h'.names
  bodies hr hbody := h'.bodies (h.bodies hr hbody) hbody

theorem names_prefix_declare (p : Program) (s : Signature) : p.names <+: (p.declare s).names := by
  unfold declare
  split
  · simp [names, push]
  · exact List.prefix_refl _

/-- A routine that takes the place of another one has its name. -/
theorem names_replace {r : Routine} {i : Nat} (here : p.index[r.name]? = some i) :
    (p.replace r i here).names = p.names := by
  obtain ⟨old, hold, hname⟩ := exists_of_index here
  have hnames : p.names[i]? = some r.name := by simp [names, hold, hname]
  obtain ⟨hi, hget⟩ := List.getElem?_eq_some_iff.mp hnames
  calc (p.routines.set i r).map (·.name)
    _ = p.names.set i r.name := List.map_set
    _ = p.names := by rw [← hget, List.set_getElem_self]

theorem names_prefix_define (p : Program) (r : Routine) : p.names <+: (p.define r).names := by
  unfold define
  split
  next i hi => exact names_replace hi ▸ List.prefix_refl _
  next => simp [names, push]

theorem grows_declare (p : Program) (s : Signature) : p.Grows (p.declare s) where
  toExtends := p.extends_declare s
  names := names_prefix_declare p s
  bodies {name r} hr _ := by
    rw [get?_declare, if_neg]
    · exact hr
    · rintro ⟨rfl, hnone⟩
      rw [hr] at hnone
      cases hnone

/-- A routine that is given to a declaration, or that is new. -/
theorem grows_define {r : Routine} (he : p.Extends (p.define r))
    (hfree : ∀ old, p.get? r.name = some old → old.isDeclaration = true) : p.Grows (p.define r) where
  toExtends := he
  names := names_prefix_define p r
  bodies {name old} hold hbody := by
    rw [get?_define, if_neg]
    · exact hold
    · rintro rfl
      rw [hfree old hold] at hbody
      cases hbody

end Program

theorem Context.grows_declare {c c' : Context} {proto : Prototype} {sig : Signature}
    (h : c.declare proto = .ok (sig, c')) : c.program.Grows c'.program := by
  obtain ⟨-, rfl⟩ := declare_ok h
  exact Program.grows_declare _ _

theorem Context.Settled.grows_define {c c' : Context} {d : Definition} {r : Routine} (hc : c.Settled)
    (h : c.define d = .ok (r, c')) : c.program.Grows c'.program := by
  have he := hc.extends_define h
  obtain ⟨hfits, rfl, b, result, -, rfl, -⟩ := hc.define_ok h
  exact Program.grows_define he fun old hold => (arity_of_conflict? hfits hold).2 rfl

namespace Session

variable {settings : Settings} {s s' : Session}

/-! ## One item -/

theorem Settled.grows_item (h : s.Settled settings) (i : Item) :
    s.context.program.Grows (s.item i).session.context.program := by
  obtain ⟨source, hcompiled⟩ := h.compiled
  obtain ⟨after, result, hafter, -, dealt⟩ := s.dealt_item i
  rw [hafter]
  cases dealt with
  | declared declares => exact Context.grows_declare declares
  | defined defines => exact hcompiled.settled.grows_define defines
  | expressed defines =>
    -- The routine of the expression has come and gone.
    rw [dropAnonymous_define hcompiled.settled h.unnamed defines]
    exact .refl _
  | undeclared fails => exact .refl _
  | undefined fails => exact .refl _
  | unexpressed fails => exact .refl _

theorem Settled.grows_reading (h : s.Settled settings) (index : Nat) (r : Item.Reading) :
    s.context.program.Grows (s.reading index r).1.context.program := by
  cases hr : r.item with
  | error e =>
    rw [(reading_of_error hr index).1]
    exact .refl _
  | ok i =>
    rw [(reading_of_ok hr index).1]
    exact h.grows_item i

/-! ## One item after another -/

/-- The sessions that a session comes to, dealing with one item after another. An item is any that can
be read from some tokens, so all sessions between the items of later compilations are among them. -/
inductive Continues (s : Session) : Session → Prop
  | refl : Continues s s
  | item {s' : Session} {ts : List Token} {r : Item.Reading} (before : Continues s s')
    (hr : r ∈ Item.readings s'.dialect ts) (index : Nat) : Continues s (s'.reading index r).1

theorem Continues.readings {ts : List Token} {rs : List Item.Reading} (h : Continues s s')
    (hrs : ∀ r ∈ rs, r ∈ Item.readings s'.dialect ts) (index : Nat) :
    Continues s (s'.readings index rs).1 := by
  induction rs generalizing s' index with
  | nil => exact h
  | cons r rs ih =>
    have hdialect : (s'.reading index r).1.dialect = s'.dialect :=
      congrArg Settings.dialect (settings_reading index r)
    refine ih (h.item (hrs r List.mem_cons_self) index) (fun r' hr' => ?_) (index + 1)
    rw [hdialect]
    exact hrs r' (List.mem_cons_of_mem r hr')

theorem Continues.compileTokens (h : Continues s s') (ts : List Token) :
    Continues s (s'.compileTokens ts).1 :=
  h.readings (fun _ hr => hr) 0

theorem Continues.settled (h : Continues s s') (hs : s.Settled settings) : s'.Settled settings := by
  induction h with
  | refl => exact hs
  | item before hr index ih => exact ih.reading hr index

/-- A session's program only grows. From any session between two items on, whatever is compiled later,
the names of the routines are the first names of the later program, each routine keeps its number of
parameters and its type, and each routine with a body is the same routine. -/
theorem Continues.program_grows (hs : Continues (start settings) s) (h : Continues s s') :
    s.context.program.Grows s'.context.program := by
  have settled := hs.settled (settled_start settings)
  induction h with
  | refl => exact .refl _
  | item before hr index ih => exact ih.trans ((before.settled settled).grows_reading index _)

/-- The tokens of an expression, a definition of the function that it calls and a declaration. -/
def callDefineDeclare : List Token :=
  callTokens ++ { kind := .kwDef } :: callTokens ++ callTokens ++ { kind := .kwExtern } ::
    [{ kind := .identifier, text := some "h" }, { kind := .leftParen }, { kind := .rightParen }]

/-- A later session, in which a declaration has been given a body. -/
def laterSession : Session :=
  (defineSession.compileTokens callDefineDeclare).1

theorem Continues.program_grows_define : Continues (start plainSettings) defineSession ∧
    Continues defineSession laterSession ∧
    defineSession.context.program.names = ["f", "g"] ∧
    laterSession.context.program.names = ["f", "g", "h"] ∧
    defineSession.context.program.Grows laterSession.context.program ∧
    ((defineSession.context.program.get? "f").any (·.isDeclaration) = true ∧
      (laterSession.context.program.get? "f").any (! ·.isDeclaration) = true) ∧
    ∃ r, r.isDeclaration = false ∧ defineSession.context.program.get? "g" = some r ∧
      laterSession.context.program.get? "g" = some r := by
  have hbefore : Continues (start plainSettings) defineSession :=
    Continues.refl.readings (fun _ hr => List.mem_of_mem_take hr) 0
  have hlater : Continues defineSession laterSession := Continues.refl.compileTokens _
  have hgrows := hbefore.program_grows hlater
  have hbody : (defineSession.context.program.get? "g").any (! ·.isDeclaration) = true := by
    decide +kernel
  refine ⟨hbefore, hlater, by decide +kernel, by decide +kernel, hgrows,
    ⟨by decide +kernel, by decide +kernel⟩, ?_⟩
  cases hr : defineSession.context.program.get? "g" with
  | none => rw [hr] at hbody; cases hbody
  | some r =>
    rw [hr] at hbody
    have hdefined : r.isDeclaration = false := by simpa using hbody
    exact ⟨r, hdefined, rfl, hgrows.bodies hr hdefined⟩

end Session

end PoseLang
