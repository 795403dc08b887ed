/-
  What a parsed file says about its sections and parameters (`pinifile.c`).
-/
import Plibsys.Ini.IniFile
import Plibsys.Text.Strtod

namespace Plibsys

variable (file : PIniFile) (section_ key : CString)

/-- The first section of the list with a name. -/
def iniFindSection (sections : List PIniSection) : Option PIniSection := sections.find? (·.name = section_)

def ppIniFileFindParameter : Option CString :=
  if file.is_parsed then
    match iniFindSection section_ file.sections with
    | none => none
    | some sec => (sec.keys.find? (·.name = key)).map (·.value)
  else none

def pIniFileSections : List CString :=
  if file.is_parsed then file.sections.foldl (fun ret sec => sec.name :: ret) [] else []

def pIniFileKeys : List CString :=
  if file.is_parsed then
    match iniFindSection section_ file.sections with
    | none => []
    | some sec => sec.keys.foldl (fun ret param => param.name :: ret) []
  else []

def pIniFileIsKeyExists : Bool :=
  if file.is_parsed then
    match iniFindSection section_ file.sections with
    | none => false
    | some sec => sec.keys.any (·.name = key)
  else false

/-- `none` is `NULL`, also as the default value. -/
def pIniFileParameterString (default_val : Option CString) : Option CString :=
  match ppIniFileFindParameter file section_ key with
  | none => default_val
  | some val => some val

/-! ## Numbers -/

/-- The number that some digits add to. -/
def digitsValue (n : ℤ) : CString → ℤ
  | [] => n
  | c :: cs => if 48 ≤ c ∧ c ≤ 57 then digitsValue (10 * n + (c.toNat - 48)) cs else n

/-- A value as a `long`. -/
def clampLong (n : ℤ) : ℤ := max (-2 ^ 63) (min n (2 ^ 63 - 1))

/-- `atoi`: `strtol` with base 10, as an `int`. -/
def atoi (str : CString) : pint :=
  match str.dropWhile isspace with
  | [] => 0
  | c :: cs =>
    if c = ascii '-' then Int32.ofInt (clampLong (-digitsValue 0 cs))
    else if c = ascii '+' then Int32.ofInt (clampLong (digitsValue 0 cs))
    else Int32.ofInt (clampLong (digitsValue 0 (c :: cs)))

def pIniFileParameterInt (default_val : pint) : pint :=
  match ppIniFileFindParameter file section_ key with
  | none => default_val
  | some val => atoi val

/-- A `double` is a rational number; `fuel` bounds the loops of `p_strtod`. -/
def pIniFileParameterDouble (fuel : ℕ) (default_val : ℚ) : Option ℚ :=
  match ppIniFileFindParameter file section_ key with
  | none => some default_val
  | some val => pStrtod fuel (some val)

def pIniFileParameterBoolean (default_val : Bool) : Bool :=
  match ppIniFileFindParameter file section_ key with
  | none => default_val
  | some val =>
    if val = "true".toList.map ascii ∨ val = "TRUE".toList.map ascii then true
    else if val = "false".toList.map ascii ∨ val = "FALSE".toList.map ascii then false
    else decide (atoi val > 0)

variable {file section_ key} {fuel : ℕ} {n : Decimal.Numeral} {val : CString}

/-- A lookup gives a number, whatever is stored. -/
theorem exists_pIniFileParameterDouble (hfuel : 308 < fuel) (default_val : ℚ) :
    ∃ v, pIniFileParameterDouble file section_ key fuel default_val = some v := by
  rw [pIniFileParameterDouble]
  cases ppIniFileFindParameter file section_ key with
  | none => exact ⟨_, rfl⟩
  | some val => exact exists_pStrtod hfuel val

/-- A stored numeral is read as its number, with the exponent as `p_strtod` limits it. -/
theorem pIniFileParameterDouble_numeral (hfuel : 308 < fuel) (default_val : ℚ)
    (hfind : ppIniFileFindParameter file section_ key = some val)
    (hval : Scanning.trim isspace val = numeralText n) :
    pIniFileParameterDouble file section_ key fuel default_val = some ((if n.sign.negative then -1 else 1) *
      (if n.exponNegative then n.mantissa / 10 ^ limited n.expon else n.mantissa * 10 ^ limited n.expon)) := by
  rw [pIniFileParameterDouble, hfind]
  exact pStrtod_eq hfuel hval

variable (file section_ key)

/-! ## Lists -/

/-- The loop of `p_ini_file_parameter_list`: the word that is being read, and the list. -/
def iniListLoop : CString → CString → List CString → CString × List CString
  | [], buf, ret => (buf, ret)
  | c :: str, buf, ret =>
    if c = ascii '}' then (buf, ret)
    else if isspace c then iniListLoop str [] (if buf ≠ [] then ret ++ [buf] else ret)
    else iniListLoop str (buf ++ [c]) ret

def pIniFileParameterList : List CString :=
  match ppIniFileFindParameter file section_ key with
  | none => []
  | some val =>
    if val.length < 3 ∨ val.head? ≠ some (ascii '{') ∨ val.getLast? ≠ some (ascii '}') then []
    else
      let (buf, ret) := iniListLoop val.tail [] []
      if buf ≠ [] then ret ++ [buf] else ret

end Plibsys
