import PoseLang.Decimal.Reader
import PoseLang.Decimal.Format
import PoseLang.Proofs.Decimal.Nearest

/-!
# Texts of doubles read back

Reading the plain text of a finite double gives the double (`read?_text`), so two finite doubles with one
text are one. The text is written in one of three layouts, and each of them spells the shortest digits of
the double, which lie in its interval; rounding does the rest.
-/

namespace PoseLang.Decimal

open Float.Model

/-! ## The fields of a double -/

theorem toNat_unpackExponent (b : BitVec 64) :
    (@UnpackedFloat.unpackExponent Format.binary64 b).toNat = b.toNat / pow2 52 % pow2 11 := by
  rw [UnpackedFloat.unpackExponent_def, BitVec.extractLsb'_toNat, Nat.shiftRight_eq_div_pow]
  rfl

theorem field_ne_of_isFinite {x : Float} (h : x.isFinite = true) :
    x.toBits.toNat / pow2 52 % pow2 11 ≠ 2047 := by
  intro hfield
  have hexponent : @UnpackedFloat.unpackExponent Format.binary64 x.toBits.toBitVec = -1#_ := by
    rw [← BitVec.toNat_inj, toNat_unpackExponent]
    exact hfield
  have hunpack : x.isFinite = (UnpackedFloat.unpack Format.binary64 x.toBits.toBitVec).isFinite := rfl
  rw [hunpack, UnpackedFloat.unpack, if_pos hexponent] at h
  split at h <;> cases h

/-- The bits of a finite double below its sign, by what they decode to. -/
theorem decode_of_isFinite {x : Float} (h : x.isFinite = true) :
    decode x = .zero ∧ x.toBits.toNat % 2 ^ 63 = 0 ∨
      ∃ m q, decode x = .finite m q ∧ Canonical m q ∧
        x.toBits.toNat % 2 ^ 63 = (q + 1074).toNat * 2 ^ 52 + m := by
  have hfield := field_ne_of_isFinite h
  have hpow52 : pow2 52 = 2 ^ 52 := rfl
  have hpow11 : pow2 11 = 2 ^ 11 := rfl
  rw [hpow52, hpow11] at hfield
  rw [decode]
  rw [hpow52, hpow11, if_neg hfield]
  split
  next hsmall =>
    split
    next hzero => exact .inl ⟨rfl, by omega⟩
    next hpos => exact .inr ⟨_, _, rfl, ⟨by omega, by omega, by omega, by omega, by omega⟩, by omega⟩
  next hlarge => exact .inr ⟨_, _, rfl, ⟨by omega, by omega, by omega, by omega, by omega⟩, by omega⟩

/-- A double is its sign and the bits below it. -/
theorem ofMagnitudeBits_isNegative (x : Float) :
    ofMagnitudeBits (isNegative x) (x.toBits.toNat % 2 ^ 63) = x := by
  have hlt := x.toBits.toNat_lt
  have hpow : pow2 63 = 2 ^ 63 := rfl
  have hbits : (if isNegative x then x.toBits.toNat % 2 ^ 63 + pow2 63 else x.toBits.toNat % 2 ^ 63) =
      x.toBits.toNat := by
    rw [isNegative, hpow]
    split
    next hneg =>
      rw [beq_iff_eq] at hneg
      omega
    next hneg =>
      rw [beq_iff_eq] at hneg
      omega
  rw [ofMagnitudeBits, hbits, UInt64.ofNat_toNat, Float.ofBits_toBits]

theorem isNegative_ofMagnitudeBits {b : Nat} (hb : b < 2 ^ 63) :
    isNegative (ofMagnitudeBits false b) = false := by
  have hbits : (ofMagnitudeBits false b).toBits.toBitVec = UnpackedFloat.pack Format.binary64
      (UnpackedFloat.unpack Format.binary64 (UInt64.ofNat b).toBitVec) := rfl
  have hlt : (ofMagnitudeBits false b).toBits.toBitVec.toNat < 2 ^ 63 := by
    rw [hbits, UnpackedFloat.pack_unpack]
    split
    · decide
    · exact Nat.lt_of_le_of_lt (Nat.mod_le _ _) hb
  have hsign : (ofMagnitudeBits false b).toBits.toNat / pow2 63 = 0 := Nat.div_eq_of_lt hlt
  rw [isNegative, hsign]
  rfl

/-! ## Reading -/

theorem digitsValue_toDigits (n : Nat) : digitsValue (Nat.toDigits 10 n) = n :=
  Nat.ofDigitChars_ten_toDigits

theorem digitsValue_append_zeros (cs : List Char) (n : Nat) :
    digitsValue (cs ++ List.replicate n '0') = 10 ^ n * digitsValue cs := by
  have happend := @Nat.ofDigitChars_append 10 cs (List.replicate n '0') 0
  rwa [Nat.ofDigitChars_replicate_zero] at happend

theorem digitsValue_zeros_append (n : Nat) (cs : List Char) :
    digitsValue (List.replicate n '0' ++ cs) = digitsValue cs := by
  have happend := @Nat.ofDigitChars_append 10 (List.replicate n '0') cs 0
  rwa [Nat.ofDigitChars_replicate_zero, Nat.mul_zero] at happend

/-- Digits, or digits around a point, that spell the number `v`. -/
inductive Spells : List Char → ℚ → Prop
  | whole {ds : List Char} (hne : ds ≠ []) (hds : ∀ c ∈ ds, c.isDigit) : Spells ds (digitsValue ds)
  | point {ds fs : List Char} (hne : ds ≠ []) (hds : ∀ c ∈ ds, c.isDigit) (hfs : ∀ c ∈ fs, c.isDigit) :
      Spells (ds ++ '.' :: fs) (digitsValue (ds ++ fs) * 10 ^ (-fs.length : Int))

namespace Spells

variable {cs : List Char} {v : ℚ}

theorem first (h : Spells cs v) : ∃ c rest, cs = c :: rest ∧ c.isDigit := by
  cases h with
  | whole hne hds | point hne hds _ =>
    obtain ⟨c, rest, rfl⟩ := List.exists_cons_of_ne_nil hne
    exact ⟨c, _, rfl, hds c List.mem_cons_self⟩

theorem digit_or_point (h : Spells cs v) {c : Char} (hc : c ∈ cs) : c.isDigit ∨ c = '.' := by
  cases h with
  | whole _ hds => exact .inl (hds c hc)
  | point _ hds hfs =>
    rcases List.mem_append.mp hc with hc | hc
    · exact .inl (hds c hc)
    · rcases List.mem_cons.mp hc with rfl | hc
      · exact .inr rfl
      · exact .inl (hfs c hc)

/-- A spelling is read as the double nearest to the number. -/
theorem read (h : Spells cs v) (negative : Bool) :
    ∃ (n : Nat) (e : Int), readUnsigned? negative cs = some (nearest negative n e) ∧
      (n * 10 ^ e : ℚ) = v := by
  cases h with
  | whole hne hds =>
    refine ⟨digitsValue cs, 0, ?_, by simp⟩
    rw [readUnsigned?, List.takeWhile_eq_self_iff.mpr hds, List.dropWhile_eq_nil_iff.mpr hds]
    simp [readFraction, readExponent?, hne]
  | @point ds fs hne hds hfs =>
    refine ⟨digitsValue (ds ++ fs), -fs.length, ?_, rfl⟩
    have htake : (ds ++ '.' :: fs).takeWhile Char.isDigit = ds := by
      rw [List.takeWhile_append_of_pos hds]
      exact List.append_nil ds
    have hdrop : (ds ++ '.' :: fs).dropWhile Char.isDigit = '.' :: fs := List.dropWhile_append_of_pos hds
    have hpoint : readFraction ('.' :: fs) = (fs, []) := by
      rw [readFraction, List.takeWhile_eq_self_iff.mpr hfs, List.dropWhile_eq_nil_iff.mpr hfs]
    rw [readUnsigned?, htake, hdrop, hpoint]
    simp [readExponent?, hne]

end Spells

theorem readSign_of_isDigit {c : Char} (hc : c.isDigit) (cs : List Char) :
    readSign (c :: cs) = (false, c :: cs) := by
  rw [readSign.eq_3]
  · rintro _ ⟨⟩
    exact absurd hc (by decide)
  · rintro _ ⟨⟩
    exact absurd hc (by decide)

theorem toLower_of_isDigit {c : Char} (hc : c.isDigit) : c.toLower = c := by
  rw [Char.toLower, dif_neg]
  rintro ⟨hlow, -⟩
  simp only [Char.isDigit, Bool.and_eq_true, decide_eq_true_eq] at hc
  exact absurd (UInt32.le_trans hlow hc.2) (by decide)

/-- A number is read with the sign in front of it. -/
theorem read?_sign (negative : Bool) {c : Char} (hc : c.isDigit) {cs : List Char} {s : String}
    (hs : s.toList = c :: cs) :
    read? ((if negative then "-" else "") ++ s) = readUnsigned? negative s.toList := by
  have hsign : readSign ((if negative then "-" else "") ++ s).toList = (negative, c :: cs) := by
    rw [String.toList_append, hs]
    cases negative with
    | true => rfl
    | false => exact readSign_of_isDigit hc cs
  -- No name of a value starts with a digit.
  have hname {name : String} {d : Char} {ds : List Char} (hd : name.toList = d :: ds)
      (hdigit : d.isDigit = false) : String.ofList ((c :: cs).map Char.toLower) ≠ name := by
    intro heq
    rw [← heq, String.toList_ofList, List.map_cons, toLower_of_isDigit hc] at hd
    cases hd
    exact Bool.noConfusion (hc.symm.trans hdigit)
  rw [read?, hsign]
  dsimp only
  rw [if_neg, if_neg (hname rfl rfl), hs]
  rw [Bool.or_eq_true, decide_eq_true_eq, decide_eq_true_eq]
  exact not_or.mpr ⟨hname rfl rfl, hname rfl rfl⟩

/-! ## Writing -/

theorem isDigit_of_mem_zeros {n : Nat} {c : Char} (h : c ∈ List.replicate n '0') : c.isDigit := by
  rw [List.eq_of_mem_replicate h]
  rfl

/-- Every layout spells the number that it is given. -/
theorem inPlaces_spells (d : Digits) :
    Spells (plain.inPlaces d).toList (d.significand * 10 ^ d.exponent) := by
  have hdigits : (toString d.significand).toList = Nat.toDigits 10 d.significand := by
    rw [Nat.toString_eq_repr, Nat.toList_repr]
  have hlength := congrArg List.length hdigits
  rw [String.length_toList] at hlength
  have hdigit (c : Char) (h : c ∈ Nat.toDigits 10 d.significand) : c.isDigit :=
    Nat.isDigit_of_mem_toDigits (by decide) (by decide) h
  have hvalue := digitsValue_toDigits d.significand
  have hne : Nat.toDigits 10 d.significand ≠ [] := Nat.toDigits_ne_nil
  rw [Style.inPlaces]
  generalize Nat.toDigits 10 d.significand = ds at *
  generalize toString d.significand = t at *
  split
  next he =>
    obtain ⟨k, hk⟩ := Int.eq_ofNat_of_zero_le he
    have htext : (t ++ zeros d.exponent.toNat ++ plain.wholeSuffix).toList =
        ds ++ List.replicate k '0' := by
      rw [hk]
      simp [hdigits, zeros, plain]
    have hnumber : (d.significand * 10 ^ d.exponent : ℚ) = digitsValue (ds ++ List.replicate k '0') := by
      rw [digitsValue_append_zeros, hvalue, hk, zpow_natCast, mul_comm]
      push_cast
      rfl
    rw [htext, hnumber]
    refine .whole (List.append_ne_nil_of_left_ne_nil hne _) fun c hc => ?_
    exact (List.mem_append.mp hc).elim (hdigit c) isDigit_of_mem_zeros
  next he =>
    obtain ⟨k, hk⟩ : ∃ k : Nat, d.exponent = -k := ⟨(-d.exponent).toNat, by omega⟩
    have hplaces : (-d.exponent).toNat = k := by omega
    rw [hplaces, hlength]
    dsimp only
    split
    next hlt =>
      -- The point stands among the digits.
      have htext : (String.ofList (t.toList.take (ds.length - k)) ++ "." ++
          String.ofList (t.toList.drop (ds.length - k))).toList =
          ds.take (ds.length - k) ++ '.' :: ds.drop (ds.length - k) := by
        simp [hdigits]
      have hnumber : (d.significand * 10 ^ d.exponent : ℚ) =
          digitsValue (ds.take (ds.length - k) ++ ds.drop (ds.length - k)) *
            10 ^ (-(ds.drop (ds.length - k)).length : Int) := by
        rw [List.take_append_drop, hvalue, hk, List.length_drop, Nat.sub_sub_self hlt.le]
      rw [htext, hnumber]
      refine .point ?_ (fun c hc => hdigit c (List.mem_of_mem_take hc)) fun c hc =>
        hdigit c (List.mem_of_mem_drop hc)
      rw [← List.length_pos_iff, List.length_take]
      omega
    next hlt =>
      -- All digits stand behind the point.
      have htext : ("0." ++ zeros (k - ds.length) ++ t).toList =
          ['0'] ++ '.' :: (List.replicate (k - ds.length) '0' ++ ds) := by
        simp [hdigits, zeros]
      have hnumber : (d.significand * 10 ^ d.exponent : ℚ) =
          digitsValue (['0'] ++ (List.replicate (k - ds.length) '0' ++ ds)) *
            10 ^ (-(List.replicate (k - ds.length) '0' ++ ds).length : Int) := by
        have hzeros := digitsValue_zeros_append (k - ds.length + 1) ds
        rw [List.replicate_succ, List.cons_append] at hzeros
        rw [List.singleton_append, hzeros, hvalue, hk, List.length_append, List.length_replicate]
        congr 3
        omega
      rw [htext, hnumber]
      refine .point (List.cons_ne_nil _ _) (fun c hc => @isDigit_of_mem_zeros 1 c hc) fun c hc => ?_
      exact (List.mem_append.mp hc).elim isDigit_of_mem_zeros (hdigit c)

/-! ## The round trip -/

/-- The text of a finite double is a sign and a spelling of a number that rounds to the double. -/
theorem text_of_isFinite {x : Float} (h : x.isFinite = true) :
    ∃ (s : String) (v : ℚ), plain.text x = (if isNegative x then "-" else "") ++ s ∧ Spells s.toList v ∧
      ∀ (n : Nat) (e : Int), (n * 10 ^ e : ℚ) = v → nearest (isNegative x) n e = x := by
  have hx := ofMagnitudeBits_isNegative x
  rcases decode_of_isFinite h with ⟨hdecode, hbits⟩ | ⟨m, q, hdecode, hc, hbits⟩
  · refine ⟨"0", 0, ?_, ?_, fun n e hv => ?_⟩
    · rw [Style.text, hdecode]
      exact String.append_empty
    · have hzero : (0 : ℚ) = digitsValue ['0'] := Nat.cast_zero.symm
      rw [hzero]
      exact .whole (List.cons_ne_nil _ _) fun c hc => @isDigit_of_mem_zeros 1 c hc
    · have hn : n = 0 := by
        rw [mul_eq_zero_iff_right (by positivity)] at hv
        exact_mod_cast hv
      rw [nearest, if_pos hn, ← hbits, hx]
  · refine ⟨plain.inPlaces (shortest .up m q), _, ?_, inPlaces_spells _, fun n e hv => ?_⟩
    · rw [Style.text, hdecode]
      rfl
    · have hwithin := shortest_within hc .up
      rw [← hv] at hwithin
      rw [nearest_eq hc _ hwithin, ← hbits, hx]

/-- What is written of a finite double reads back. -/
theorem read?_text {x : Float} (h : x.isFinite = true) : read? (plain.text x) = some x := by
  obtain ⟨s, v, htext, hs, hv⟩ := text_of_isFinite h
  obtain ⟨c, cs, hcs, hc⟩ := hs.first
  obtain ⟨n, e, hread, hne⟩ := hs.read (isNegative x)
  rw [htext, read?_sign (isNegative x) hc hcs, hread, hv n e hne]

theorem text_inj {x y : Float} (hx : x.isFinite = true) (hy : y.isFinite = true)
    (h : plain.text x = plain.text y) : x = y := by
  have hread := read?_text hx
  rw [h, read?_text hy] at hread
  exact (Option.some.inj hread).symm

/-- The text of a finite double that is not negative starts with a digit, and digits and a point follow. -/
theorem text_numeral {x : Float} (h : x.isFinite = true) (hsign : isNegative x = false) :
    (∃ c cs, (plain.text x).toList = c :: cs ∧ c.isDigit) ∧
      ∀ c ∈ (plain.text x).toList, c.isDigit ∨ c = '.' := by
  obtain ⟨s, v, htext, hs, -⟩ := text_of_isFinite h
  have htext : plain.text x = s := by
    rw [htext, hsign]
    exact String.empty_append
  rw [htext]
  exact ⟨hs.first, fun c hc => hs.digit_or_point hc⟩

theorem isNegative_nearest (n : Nat) (e : Int) : isNegative (nearest false n e) = false := by
  have hinfinity : infinityBits < 2 ^ 63 := by decide
  refine isNegative_ofMagnitudeBits ?_
  split
  · decide
  · split
    · exact hinfinity
    · split
      · decide
      · exact (Nat.min_le_right _ _).trans_lt hinfinity

theorem isNegative_of_readUnsigned? {cs : List Char} {x : Float} (h : readUnsigned? false cs = some x) :
    isNegative x = false := by
  rw [readUnsigned?] at h
  dsimp only at h
  split at h
  next => cases h
  next =>
    obtain ⟨e, -, rfl⟩ := Option.map_eq_some_iff.mp h
    exact isNegative_nearest _ _

/-- What is read without a minus is not negative. -/
theorem isNegative_of_read? {s : String} {x : Float} (h : read? s = some x) (hs : '-' ∉ s.toList) :
    isNegative x = false := by
  have hsign : (readSign s.toList).1 = false := by
    unfold readSign
    split
    next heq => exact absurd List.mem_cons_self (heq ▸ hs)
    next => rfl
    next => rfl
  rw [read?] at h
  generalize readSign s.toList = signed at h hsign
  obtain ⟨negative, cs⟩ := signed
  dsimp only at h hsign
  subst hsign
  split at h
  next =>
    cases h
    exact isNegative_ofMagnitudeBits (by decide)
  next =>
    split at h
    next =>
      cases h
      exact isNegative_ofMagnitudeBits (by decide)
    next => exact isNegative_of_readUnsigned? h

end PoseLang.Decimal
