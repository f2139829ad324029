import PoseLang.Proofs.Item.Reading

/-!
# The two readings agree

The strict reading stops at the first item that cannot be read, and the recovering one goes on behind
it. Up to there they read the same items: the strict one succeeds just if every reading is an item, and
otherwise it fails with the error of the first one that is none (`readings_of_parseAll_ok`,
`readings_of_parseAll_error`).
-/

namespace PoseLang

namespace Item

variable {d : Dialect}

/-- The strict reading takes some items from the front of the tokens, and leaves the rest. -/
inductive Taken (d : Dialect) : List Token → List Item → List Token → Prop
  | nil {ts : List Token} : Taken d ts [] ts
  | cons {ts rest left : List Token} {i : Item} {items : List Item}
    (hend : ¬ Token.atEnd (Token.skipSeparators ts) = true)
    (hparse : parse d (Token.skipSeparators ts) = (.ok i, rest)) (htaken : Taken d rest items left) :
    Taken d ts (i :: items) left

/-- The strict reading takes some items, and the next one fails. -/
def FailsBehind (d : Dialect) (ts : List Token) (items : List Item) (err : ParseError) : Prop :=
  ∃ left rest, Taken d ts items left ∧ ¬ Token.atEnd (Token.skipSeparators left) = true ∧
    parse d (Token.skipSeparators left) = (.error err, rest)

/-- All items are read, and both readings have them. -/
theorem readings_of_parseAll_ok (ts : List Token) :
    ∀ items, parseAll d ts = .ok items → (readings d ts).map Reading.item = items.map .ok := by
  fun_induction parseAll d ts with
  | case1 ts start hend =>
    intro items h
    cases h
    rw [readings_of_atEnd hend]
    rfl
  | case2 ts start hend err rest hparse =>
    intro items h
    cases h
  | case3 ts start hend i rest hparse hlt items hrest ih =>
    intro items' h
    cases h
    rw [readings_of_ok hend hparse, List.map_cons, ih items hrest, List.map_cons]
  | case4 ts start hend i rest hparse hlt err hrest ih =>
    intro items h
    cases h

/-- The items in front of the first failure are in both readings, and so is the failure. -/
theorem readings_of_parseAll_error {ts : List Token} {err : ParseError}
    (h : parseAll d ts = .error err) : ∃ items before r after, FailsBehind d ts items err ∧
      readings d ts = before ++ r :: after ∧ before.map Reading.item = items.map .ok ∧
      r.item = .error err := by
  fun_induction parseAll d ts with
  | case1 ts start hend => cases h
  | case2 ts start hend err' rest hparse =>
    cases h
    exact ⟨[], [], _, _, ⟨ts, rest, .nil, hend, hparse⟩, readings_of_error hend hparse, rfl, rfl⟩
  | case3 ts start hend i rest hparse hlt items hrest ih => cases h
  | case4 ts start hend i rest hparse hlt err' hrest ih =>
    cases h
    obtain ⟨items, before, r, after, ⟨left, rest', htaken, hfails⟩, hreadings, hitems, hr⟩ := ih hrest
    refine ⟨i :: items, ⟨start, .ok i⟩ :: before, r, after, ⟨left, rest', ?_, hfails⟩, ?_, ?_, hr⟩
    · exact .cons hend hparse htaken
    · rw [readings_of_ok hend hparse, hreadings]
      rfl
    · rw [List.map_cons, hitems, List.map_cons]

end Item

end PoseLang
