import PoseLang.Item.Reading

/-!
# What is read

Each reading is what the grammar of items makes of its tokens, and the grammar gives the reserved name
to expressions only.
-/

namespace PoseLang

/-! ## The reserved name -/

theorem Prototype.parse_name_ne {ts rest : List Token} {p : Prototype}
    (h : Prototype.parse ts = (.ok p, rest)) : p.name ≠ anonymousName := by
  unfold Prototype.parse at h
  split at h
  · cases h
  · split at h
    · cases h
    next hname =>
      split at h
      · cases h
      · split at h
        · cases h
        · cases h
          exact hname

theorem Definition.parse_name_ne {d : Dialect} {ts rest : List Token} {f : Definition}
    (h : Definition.parse d ts = (.ok f, rest)) : f.proto.name ≠ Prototype.anonymousName := by
  unfold Definition.parse at h
  split at h
  · cases h
  · split at h
    · cases h
    next hproto =>
      split at h
      · cases h
      · cases h
        exact Prototype.parse_name_ne hproto

theorem Prototype.parseDeclaration_name_ne {ts rest : List Token} {p : Prototype}
    (h : Prototype.parseDeclaration ts = (.ok p, rest)) : p.name ≠ anonymousName := by
  unfold Prototype.parseDeclaration at h
  split at h
  · cases h
  · exact Prototype.parse_name_ne h

namespace Item

/-- An item that is no expression has a name of its own. -/
theorem parse_reserved {d : Dialect} {ts rest : List Token} {i : Item}
    (h : parse d ts = (.ok i, rest)) (hname : i.name = Prototype.anonymousName) :
    ∃ location body, i = .expression location body := by
  unfold parse at h
  split at h
  · split at h
    · cases h
    next hf =>
      cases h
      exact absurd hname (Definition.parse_name_ne hf)
  · split at h
    · cases h
    next hp =>
      cases h
      exact absurd hname (Prototype.parseDeclaration_name_ne hp)
  · unfold parseExpression at h
    split at h
    · cases h
    · cases h
      exact ⟨_, _, rfl⟩

/-- The expression that is read, with its place, if it is one. -/
def Reading.expression? (r : Reading) : Option (Option Location × Expr) :=
  match r.item with
  | .ok (.expression location body) => some (location, body)
  | _ => none

theorem Reading.item_of_expression? {r : Reading} {location : Option Location} {body : Expr}
    (h : r.expression? = some (location, body)) : r.item = .ok (.expression location body) := by
  unfold expression? at h
  split at h
  next hi => cases h; exact hi
  next => cases h

/-! ## One reading after another -/

section

variable {d : Dialect} {ts rest : List Token} {i : Item} {err : ParseError}

theorem readings_of_atEnd (hend : Token.atEnd (Token.skipSeparators ts) = true) :
    readings d ts = [] := by
  rw [readings]
  exact dif_pos hend

theorem readings_of_ok (hend : ¬ Token.atEnd (Token.skipSeparators ts) = true)
    (h : parse d (Token.skipSeparators ts) = (.ok i, rest)) :
    readings d ts = ⟨Token.skipSeparators ts, .ok i⟩ :: readings d rest := by
  rw [readings, dif_neg hend]
  split
  next h' => cases h.symm.trans h'
  next h' => cases h.symm.trans h'; rfl

theorem readings_of_error (hend : ¬ Token.atEnd (Token.skipSeparators ts) = true)
    (h : parse d (Token.skipSeparators ts) = (.error err, rest)) :
    readings d ts = ⟨Token.skipSeparators ts, .error err⟩ ::
      readings d (Token.resume (Token.skipSeparators ts) rest) := by
  rw [readings, dif_neg hend]
  split
  next h' => cases h.symm.trans h'; rfl
  next h' => cases h.symm.trans h'

end

/-- A reading is what the grammar makes of the tokens from its first on. -/
theorem parse_of_mem_readings {d : Dialect} {ts : List Token} {r : Reading} (h : r ∈ readings d ts) :
    ∃ rest, parse d r.start = (r.item, rest) := by
  fun_induction readings d ts with
  | case1 => cases h
  | case2 ts start hend err rest hparse hlt ih =>
    rcases List.mem_cons.mp h with rfl | h
    · exact ⟨rest, hparse⟩
    · exact ih h
  | case3 ts start hend i rest hparse hlt ih =>
    rcases List.mem_cons.mp h with rfl | h
    · exact ⟨rest, hparse⟩
    · exact ih h

end Item

end PoseLang
