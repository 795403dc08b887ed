/-
  Numbers from strings (`p_strtod` of `pstring.c`).

  Numbers of type `double` are rational.  A position in the string is what is left of it, up to the
  NUL.  A call fails (`none`) when a loop does not end within its bound.
-/
import Plibsys.Lib.Decimal
import Plibsys.Text.Strchomp
import Mathlib.Data.Nat.ModEq

namespace Plibsys

open Decimal Scanning

/-- `P_STR_MAX_EXPON`. -/
def strMaxExpon : puint := 308

/-- `isdigit` in the C locale. -/
def isdigit (c : UInt8) : Bool := ascii '0' ≤ c && c ≤ ascii '9'

/-- `*strp - '0'`. -/
def digit (c : UInt8) : ℕ := c.toNat - (ascii '0').toNat

/-- Whether there is a minus sign, and what is behind a sign. -/
def readSign : CString → Bool × CString
  | [] => (false, [])
  | c :: strp =>
    if c = ascii '-' then (true, strp)
    else if c = ascii '+' then (false, strp)
    else (false, c :: strp)

/-- The digits before the decimal point or the exponent. -/
def wholeLoop : CString → ℚ → CString × ℚ
  | [], value => ([], value)
  | c :: strp, value => if isdigit c then wholeLoop strp (value * 10 + digit c) else (c :: strp, value)

/-- The digits after the decimal point. -/
def fractionLoop : CString → ℚ → ℚ → CString × ℚ
  | [], value, _ => ([], value)
  | c :: strp, value, pow10 =>
    if isdigit c then fractionLoop strp (value + digit c / pow10) (pow10 * 10) else (c :: strp, value)

/-- The digits of the exponent. -/
def exponLoop : CString → puint → CString × puint
  | [], expon => ([], expon)
  | c :: strp, expon =>
      if isdigit c then exponLoop strp (expon * 10 + UInt32.ofNat (digit c)) else (c :: strp, expon)

def readFraction (value : ℚ) : CString → CString × ℚ
  | [] => ([], value)
  | c :: strp => if c = ascii '.' then fractionLoop strp value 10 else (c :: strp, value)

section
variable (fuel : ℕ)

/-- A loop of the scaling factor: `while (expon >= part) { scale *= factor; expon -= part; }`. -/
def scaleLoop (part : puint) (factor : ℚ) : ℕ → puint → ℚ → Option (puint × ℚ)
  | 0, _, _ => none
  | fuel + 1, expon, scale =>
    if expon ≥ part then scaleLoop part factor fuel (expon - part) (scale * factor) else some (expon, scale)

/-- The scaling factor; the condition of the last loop is `expon > 0`. -/
def scalingFactor (expon : puint) : Option ℚ := do
  let (expon, scale) ← scaleLoop 50 (10 ^ 50) fuel expon 1
  let (expon, scale) ← scaleLoop 8 (10 ^ 8) fuel expon scale
  let (_, scale) ← scaleLoop 1 10 fuel expon scale
  return scale

/-- Whether the exponent is negative (`frac`), and the scaling factor (`scale`). -/
def readExponent : CString → Option (Bool × ℚ)
  | [] => some (false, 1)
  | c :: strp =>
    if c = ascii 'e' ∨ c = ascii 'E' then do
      let (frac, strp) := readSign strp
      let (_, expon) := exponLoop strp 0
      let expon := if expon > strMaxExpon then strMaxExpon else expon
      let scale ← scalingFactor fuel expon
      return (frac, scale)
    else some (false, 1)

/-- `p_strtod`, when memory is allocated; no string is `NULL`. -/
def pStrtod : Option CString → Option ℚ
  | none => some 0
  | some str => do
    let orig_str ← pStrchomp str
    let (negative, strp) := readSign orig_str
    let sign : ℚ := if negative then -1 else 1
    let (strp, value) := wholeLoop strp 0
    let (strp, value) := readFraction value strp
    let (frac, scale) ← readExponent fuel strp
    return sign * (if frac then value / scale else value * scale)

end

/-! ## Numerals as texts -/

def digitChar (d : Fin 10) : UInt8 := ascii '0' + UInt8.ofNat d.val

def signText : Sign → CString
  | .none => []
  | .plus => [ascii '+']
  | .minus => [ascii '-']

def fractionText : Option (List (Fin 10)) → CString
  | none => []
  | some ds => ascii '.' :: ds.map digitChar

def exponentText : Option Exponent → CString
  | none => []
  | some e => ascii (if e.capital then 'E' else 'e') :: (signText e.sign ++ e.digits.map digitChar)

def numeralText (n : Numeral) : CString :=
  signText n.sign ++ (n.whole.map digitChar ++ (fractionText n.fraction ++ exponentText n.exponent))

variable {fuel : ℕ} {rest str : CString} {d : Fin 10} {ds : List (Fin 10)} {s : Sign} {n : Numeral}

/-- A text that does not go on with digits. -/
def Stops (rest : CString) : Prop := ∀ c ∈ rest.head?, isdigit c = false

theorem isdigit_digitChar (d : Fin 10) : isdigit (digitChar d) := by decide +revert

@[simp] theorem digit_digitChar (d : Fin 10) : digit (digitChar d) = d := by decide +revert

/-! ## The loops over digits -/

theorem wholeLoop_eq (hrest : Stops rest) (value : ℚ) :
    wholeLoop (ds.map digitChar ++ rest) value = (rest, value * 10 ^ ds.length + number ds) := by
  induction ds generalizing value with
  | nil =>
    have hstop : wholeLoop rest value = (rest, value) := by
      cases rest with
      | nil => rfl
      | cons c rest => rw [wholeLoop, hrest c rfl, if_neg Bool.false_ne_true]
    simp [hstop]
  | cons d ds ih =>
    rw [List.map_cons, List.cons_append, wholeLoop, if_pos (isdigit_digitChar d), ih, number_cons, digit_digitChar]
    congr 1
    push_cast
    rw [List.length_cons]
    ring

theorem fractionLoop_eq (hrest : Stops rest) (value : ℚ) {pow10 : ℚ} (hpow : pow10 ≠ 0) :
    fractionLoop (ds.map digitChar ++ rest) value pow10 =
      (rest, value + 10 / pow10 * (number ds / 10 ^ ds.length)) := by
  induction ds generalizing value pow10 with
  | nil =>
    have hstop : fractionLoop rest value pow10 = (rest, value) := by
      cases rest with
      | nil => rfl
      | cons c rest => rw [fractionLoop, hrest c rfl, if_neg Bool.false_ne_true]
    simp [hstop]
  | cons d ds ih =>
    rw [List.map_cons, List.cons_append, fractionLoop, if_pos (isdigit_digitChar d),
      ih _ (mul_ne_zero hpow (by norm_num)), number_cons, digit_digitChar]
    congr 1
    push_cast
    rw [List.length_cons]
    field_simp
    ring

/-- The exponent is counted in 32 bits. -/
theorem toNat_exponLoop (ds : List (Fin 10)) (expon : puint) :
    (exponLoop (ds.map digitChar) expon).2.toNat = (expon.toNat * 10 ^ ds.length + number ds) % 2 ^ 32 := by
  induction ds generalizing expon with
  | nil =>
    show expon.toNat = (expon.toNat * 1 + 0) % 2 ^ 32
    rw [Nat.mul_one, Nat.add_zero, Nat.mod_eq_of_lt expon.toNat_lt]
  | cons d ds ih =>
    have hnext : (expon * 10 + UInt32.ofNat d.val).toNat = (expon.toNat * 10 + d.val) % 2 ^ 32 := by
      simp
    have hmod : (expon.toNat * 10 + d.val) % 2 ^ 32 * 10 ^ ds.length + number ds ≡
        (expon.toNat * 10 + d.val) * 10 ^ ds.length + number ds [MOD 2 ^ 32] :=
      ((Nat.mod_modEq _ _).mul_right _).add_right _
    rw [List.map_cons, exponLoop, if_pos (isdigit_digitChar d), digit_digitChar, ih, hnext, hmod, number_cons,
      List.length_cons, Nat.pow_succ']
    congr 1
    ring

/-! ## The scaling factor -/

/-- Each round of a loop moves a part of the exponent to the factor. -/
theorem scaleLoop_eq {part : puint} (hpart : 0 < part.toNat) {expon : puint} (hfuel : expon.toNat < fuel)
    (scale : ℚ) :
    ∃ expon' scale', scaleLoop part (10 ^ part.toNat) fuel expon scale = some (expon', scale') ∧
      expon'.toNat < part.toNat ∧ expon'.toNat ≤ expon.toNat ∧
      scale' * 10 ^ expon'.toNat = scale * 10 ^ expon.toNat := by
  induction fuel generalizing expon scale with
  | zero => cases hfuel
  | succ fuel ih =>
    rw [scaleLoop]
    split
    next hge =>
      have hle := UInt32.le_iff_toNat_le.1 hge
      have hsub : (expon - part).toNat = expon.toNat - part.toNat := UInt32.toNat_sub_of_le _ _ hge
      obtain ⟨expon', scale', hloop, hlt, hle', hscale⟩ :=
        ih (show (expon - part).toNat < fuel by omega) (scale * 10 ^ part.toNat)
      refine ⟨expon', scale', hloop, hlt, by omega, ?_⟩
      rw [hscale, hsub, mul_assoc, ← pow_add, Nat.add_sub_cancel' hle]
    next hlt => exact ⟨expon, scale, rfl, Nat.lt_of_not_le fun h => hlt (UInt32.le_iff_toNat_le.2 h), le_rfl, rfl⟩

/-- **The loops end, and multiply to the power of ten.** -/
theorem scalingFactor_eq {expon : puint} (hfuel : expon.toNat < fuel) :
    scalingFactor fuel expon = some (10 ^ expon.toNat) := by
  obtain ⟨e₁, s₁, h₁, -, hle₁, hs₁⟩ := scaleLoop_eq (show 0 < (50 : puint).toNat by decide) hfuel 1
  obtain ⟨e₂, s₂, h₂, -, hle₂, hs₂⟩ :=
    scaleLoop_eq (show 0 < (8 : puint).toNat by decide) (show e₁.toNat < fuel by omega) s₁
  obtain ⟨e₃, s₃, h₃, hlt₃, -, hs₃⟩ :=
    scaleLoop_eq (show 0 < (1 : puint).toNat by decide) (show e₂.toNat < fuel by omega) s₂
  have hzero : e₃.toNat = 0 := Nat.lt_one_iff.1 hlt₃
  rw [hzero, pow_zero, mul_one, hs₂, hs₁, one_mul] at hs₃
  have h₃' : scaleLoop 1 10 fuel e₂ s₂ = some (e₃, s₃) := by
    rw [← h₃]
    congr 1
  rw [scalingFactor]
  show (scaleLoop 50 (10 ^ (50 : puint).toNat) fuel expon 1 >>= _) = _
  rw [h₁, Option.bind_eq_bind, Option.bind_some]
  show (scaleLoop 8 (10 ^ (8 : puint).toNat) fuel e₁ s₁ >>= _) = _
  rw [h₂, Option.bind_eq_bind, Option.bind_some]
  dsimp only
  rw [h₃', hs₃]
  rfl

/-! ## The parts of a numeral -/

/-- A text that does not start with a sign. -/
def NoSign (rest : CString) : Prop := ∀ c ∈ rest.head?, c ≠ ascii '-' ∧ c ≠ ascii '+'

theorem readSign_eq (s : Sign) (hrest : NoSign rest) : readSign (signText s ++ rest) = (s.negative, rest) := by
  cases s with
  | plus => rfl
  | minus => rfl
  | none =>
    cases rest with
    | nil => rfl
    | cons c rest =>
      obtain ⟨hminus, hplus⟩ := hrest c rfl
      show readSign (c :: rest) = _
      rw [readSign, if_neg hminus, if_neg hplus]
      rfl

theorem noSign_digits (ds : List (Fin 10)) (hrest : NoSign rest) : NoSign (ds.map digitChar ++ rest) := by
  cases ds with
  | nil => exact hrest
  | cons d ds =>
    intro c hc
    cases hc
    decide +revert

/-- The exponent after its value is limited. -/
def limited (n : ℕ) : ℕ := min (n % 2 ^ 32) 308

theorem readExponent_eq (hfuel : 308 < fuel) (e : Option Exponent) :
    readExponent fuel (exponentText e) =
      some (e.elim false fun e => e.sign.negative, 10 ^ limited (e.elim 0 fun e => number e.digits)) := by
  cases e with
  | none => rfl
  | some e =>
    have hmark : ascii (if e.capital then 'E' else 'e') = ascii 'e' ∨
        ascii (if e.capital then 'E' else 'e') = ascii 'E' := by
      cases e.capital
      · exact .inl rfl
      · exact .inr rfl
    have hdigits : NoSign (e.digits.map digitChar ++ []) := noSign_digits e.digits nofun
    rw [List.append_nil] at hdigits
    have hexpon : (exponLoop (e.digits.map digitChar) 0).2.toNat = number e.digits % 2 ^ 32 := by
      rw [toNat_exponLoop, UInt32.toNat_zero, Nat.zero_mul, Nat.zero_add]
    rw [exponentText, readExponent, if_pos hmark, readSign_eq e.sign hdigits]
    dsimp only
    generalize (exponLoop (e.digits.map digitChar) 0).2 = expon at hexpon ⊢
    have hlimited : (if expon > strMaxExpon then strMaxExpon else expon).toNat = limited (number e.digits) := by
      rw [limited, ← hexpon]
      split
      next hgt => exact (Nat.min_eq_right (Nat.le_of_lt (UInt32.lt_iff_toNat_lt.1 hgt))).symm
      next hle => exact (Nat.min_eq_left (Nat.le_of_not_lt fun h => hle (UInt32.lt_iff_toNat_lt.2 h))).symm
    have hle : limited (number e.digits) ≤ 308 := Nat.min_le_right _ _
    rw [scalingFactor_eq (by omega), hlimited]
    rfl

/-- Whatever stands behind the digits, the loops of the scaling factor end. -/
theorem exists_readExponent (hfuel : 308 < fuel) (strp : CString) : ∃ r, readExponent fuel strp = some r := by
  cases strp with
  | nil => exact ⟨_, rfl⟩
  | cons c strp =>
    rw [readExponent]
    by_cases hmark : c = ascii 'e' ∨ c = ascii 'E'
    · rw [if_pos hmark]
      dsimp only
      generalize (exponLoop (readSign strp).2 0).2 = expon
      have hle : (if expon > strMaxExpon then strMaxExpon else expon).toNat ≤ 308 := by
        by_cases hgt : expon > strMaxExpon
        · rw [if_pos hgt]
          decide
        · rw [if_neg hgt]
          exact UInt32.le_iff_toNat_le.1 (UInt32.not_lt.1 hgt)
      rw [scalingFactor_eq (Nat.lt_of_le_of_lt hle hfuel)]
      exact ⟨_, rfl⟩
    · rw [if_neg hmark]
      exact ⟨_, rfl⟩

theorem exponentText_head (e : Option Exponent) :
    ∀ c ∈ (exponentText e).head?, isdigit c = false ∧ c ≠ ascii '-' ∧ c ≠ ascii '+' ∧ c ≠ ascii '.' := by
  intro c hc
  cases e with
  | none => cases hc
  | some e =>
    cases hc
    cases e.capital <;> decide

theorem stops_exponentText (e : Option Exponent) : Stops (exponentText e) :=
  fun c hc => (exponentText_head e c hc).1

theorem stops_fractionText (f : Option (List (Fin 10))) (e : Option Exponent) :
    Stops (fractionText f ++ exponentText e) := by
  cases f with
  | none => exact stops_exponentText e
  | some ds =>
    intro c hc
    cases hc
    decide

theorem noSign_fractionText (f : Option (List (Fin 10))) (e : Option Exponent) :
    NoSign (fractionText f ++ exponentText e) := by
  intro c hc
  cases f with
  | none =>
    obtain ⟨-, hminus, hplus, -⟩ := exponentText_head e c hc
    exact ⟨hminus, hplus⟩
  | some ds =>
    cases hc
    decide

theorem readFraction_eq (value : ℚ) (f : Option (List (Fin 10))) (e : Option Exponent) :
    readFraction value (fractionText f ++ exponentText e) =
      (exponentText e, value + f.elim 0 fun ds => (number ds : ℚ) / 10 ^ ds.length) := by
  cases f with
  | some ds =>
    show readFraction value (ascii '.' :: (ds.map digitChar ++ exponentText e)) = _
    rw [readFraction, if_pos rfl, fractionLoop_eq (stops_exponentText e) value (by norm_num)]
    simp
  | none =>
    show readFraction value (exponentText e) = _
    rw [Option.elim_none, add_zero]
    have hhead := exponentText_head e
    cases hrest : exponentText e with
    | nil => rfl
    | cons c rest =>
      obtain ⟨-, -, -, hpoint⟩ := hhead c (hrest ▸ rfl)
      rw [readFraction, if_neg hpoint]

/-! ## The number that is returned -/

/-- Every string gives a number. -/
theorem exists_pStrtod (hfuel : 308 < fuel) (str : CString) : ∃ v, pStrtod fuel (some str) = some v := by
  obtain ⟨r, hr⟩ := exists_readExponent hfuel
    (readFraction (wholeLoop (readSign (trim isspace str)).2 0).2 (wholeLoop (readSign (trim isspace str)).2 0).1).1
  rw [pStrtod, pStrchomp_eq, Option.bind_eq_bind, Option.bind_some]
  dsimp only
  rw [hr]
  exact ⟨_, rfl⟩

/-- The number, with the exponent that the code works with. -/
theorem pStrtod_eq (hfuel : 308 < fuel) (h : trim isspace str = numeralText n) :
    pStrtod fuel (some str) = some ((if n.sign.negative then -1 else 1) *
      (if n.exponNegative then n.mantissa / 10 ^ limited n.expon else n.mantissa * 10 ^ limited n.expon)) := by
  have hsign := readSign_eq n.sign (noSign_digits n.whole (noSign_fractionText n.fraction n.exponent))
  rw [← numeralText] at hsign
  rw [pStrtod, pStrchomp_eq, h, Option.bind_eq_bind, Option.bind_some, hsign]
  dsimp only
  rw [wholeLoop_eq (stops_fractionText n.fraction n.exponent)]
  dsimp only
  rw [zero_mul, zero_add, readFraction_eq]
  dsimp only
  rw [readExponent_eq hfuel, Option.bind_eq_bind, Option.bind_some]
  rfl

/-- The exponent is not cut to 32 bits, or what is left of it is still beyond the limit. -/
def ExponKept (n : ℕ) : Prop := n < 2 ^ 32 ∨ 308 ≤ n % 2 ^ 32

theorem limited_eq_iff (n : ℕ) : limited n = min n 308 ↔ ExponKept n := by
  unfold limited ExponKept
  omega

theorem value_eq (max : ℕ) (n : Numeral) : n.value max = (if n.sign.negative then -1 else 1) *
    (if n.exponNegative then n.mantissa / 10 ^ min n.expon max else n.mantissa * 10 ^ min n.expon max) := by
  rw [Numeral.value, ← Nat.cast_min]
  congr 1
  split
  · rw [zpow_neg, zpow_natCast, div_eq_mul_inv]
  · rw [zpow_natCast]

/-- **`p_strtod` returns the number that is written** with its exponent limited to 308, and the loops multiply to
    that power of ten, exactly when the exponent is kept (or, for the number, the mantissa is zero). -/
theorem pStrtod_denotes_iff (hfuel : 308 < fuel) (h : trim isspace str = numeralText n) :
    ∃ v scale, pStrtod fuel (some str) = some v ∧
      readExponent fuel (exponentText n.exponent) = some (n.exponNegative, scale) ∧
      (v = n.value 308 ↔ n.mantissa = 0 ∨ ExponKept n.expon) ∧
      (scale = 10 ^ min n.expon 308 ↔ ExponKept n.expon) := by
  refine ⟨_, _, pStrtod_eq hfuel h, readExponent_eq hfuel n.exponent, ?_, ?_⟩
  · have hsign : (if n.sign.negative then -1 else 1 : ℚ) ≠ 0 := by split <;> norm_num
    rw [value_eq, mul_right_inj' hsign, ← limited_eq_iff]
    split
    · exact div_pow_inj
    · exact mul_pow_inj
  · have hpow := mul_pow_inj (m := 1) (i := limited n.expon) (j := min n.expon 308)
    rw [one_mul, one_mul, limited_eq_iff] at hpow
    exact hpow.trans (or_iff_right one_ne_zero)

theorem pStrtod_denotes_iff_short :
    ∃ v scale, pStrtod 309 (some (bytes " -1.5E+400\n")) = some v ∧
      readExponent 309 (bytes "E+400") = some (false, scale) ∧
      (v = Numeral.value 308 ⟨.minus, [1], some [5], some ⟨true, .plus, [4, 0, 0]⟩⟩ ↔
        Numeral.mantissa ⟨.minus, [1], some [5], some ⟨true, .plus, [4, 0, 0]⟩⟩ = 0 ∨ ExponKept 400) ∧
      (scale = 10 ^ min 400 308 ↔ ExponKept 400) :=
  pStrtod_denotes_iff (n := ⟨.minus, [1], some [5], some ⟨true, .plus, [4, 0, 0]⟩⟩) (by decide) (by decide)

/-- The numeral `1e4294967296`. -/
def wrappingNumeral : Numeral := ⟨.none, [1], none, some ⟨false, .none, [4, 2, 9, 4, 9, 6, 7, 2, 9, 6]⟩⟩

theorem wrappingNumeral_expon : wrappingNumeral.expon = 2 ^ 32 := by decide

theorem wrappingNumeral_mantissa : wrappingNumeral.mantissa = 1 := by
  show ((number [1] : ℕ) : ℚ) + 0 = 1
  rw [add_zero]
  exact Nat.cast_one

/-- The exponent is cut to zero. -/
theorem pStrtod_wraps : trim isspace (bytes "1e4294967296") = numeralText wrappingNumeral ∧
    pStrtod 309 (some (bytes "1e4294967296")) = some 1 ∧ wrappingNumeral.value 308 = 10 ^ 308 ∧
      (10 : ℚ) ^ 308 ≠ 1 := by
  have htext : trim isspace (bytes "1e4294967296") = numeralText wrappingNumeral := by decide
  refine ⟨htext, ?_, ?_, (one_lt_pow₀ (by norm_num) (by norm_num)).ne'⟩
  · rw [pStrtod_eq (by norm_num) htext, wrappingNumeral_expon, wrappingNumeral_mantissa]
    show some ((1 : ℚ) * (1 * 10 ^ 0)) = some 1
    norm_num
  · rw [value_eq, wrappingNumeral_expon, wrappingNumeral_mantissa]
    show (1 : ℚ) * (1 * 10 ^ 308) = 10 ^ 308
    rw [one_mul, one_mul]

end Plibsys
