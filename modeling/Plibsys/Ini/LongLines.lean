/-
  Lines and entries of a file.

  `fgets` reads a line that does not fit the line buffer in several pieces, and the parser takes each
  of them for a line.  To say which line of the file the sections and parameters come from, the parse
  is followed with a counter of the lines; without the numbers it is the parse (`erase_tracedLoop`).
-/
import Mathlib.Data.List.Perm.Basic
import Plibsys.Ini.ListValues

namespace Plibsys

open Scanning Sectioned

/-! ## Following the parse -/

/-- A section, with the numbers of the lines that it comes from. -/
structure TracedSection where
  line : ℕ
  name : CString
  keys : List (ℕ × PIniParameter)
  deriving DecidableEq, Repr

structure TracedParse where
  sections : List TracedSection
  current : Option TracedSection
  deriving DecidableEq, Repr

def TracedParse.close (p : TracedParse) : List TracedSection :=
  match p.current with
  | none => p.sections
  | some sec => if sec.keys = [] then p.sections else sec :: p.sections

/-- `IniParse.newSection` and `IniParse.newParameter`, at a line. -/
def TracedParse.add (p : TracedParse) (n : ℕ) : Entry CString PIniParameter → TracedParse
  | .header name => ⟨p.close, some ⟨n, name, []⟩⟩
  | .item param =>
    match p.current with
    | none => p
    | some sec => { p with current := some { sec with keys := (n, param) :: sec.keys } }

def TracedParse.finish (p : TracedParse) : List TracedSection :=
  match p.current with
  | none => p.sections
  | some sec => if sec.keys = [] then p.sections else p.sections ++ [sec]

/-- `iniParseLoop`, with the number of the line that is read. -/
def tracedLoop : ℕ → ℕ → TracedParse → List UInt8 → Option TracedParse
  | 0, _, _, _ => none
  | fuel + 1, n, p, in_file =>
    match fgets (iniFileMaxLine + 1) in_file with
    | none => some p
    | some (line, rest) => tracedLoop fuel (n + line.countP newline) ((lineEntry line).elim p (p.add n)) rest

/-- The sections of a parsed file. -/
def tracedSections (in_file : List UInt8) : Option (List TracedSection) :=
  (tracedLoop (in_file.length + 1) 0 ⟨[], none⟩ in_file).map TracedParse.finish

def TracedSection.erase (s : TracedSection) : PIniSection := ⟨s.name, s.keys.map (·.2)⟩

def TracedParse.erase (p : TracedParse) : IniParse :=
  ⟨p.sections.map TracedSection.erase, p.current.map TracedSection.erase⟩

/-! ## Lines and what they contribute -/

/-- The section headers and the parameters of a section, as the numbers of their lines. -/
def TracedSection.contributions (s : TracedSection) : List (Entry ℕ ℕ) := .header s.line :: s.keys.map (.item ·.1)

variable {in_file line : List UInt8} {p : TracedParse} {n : ℕ}

/-! ## The numbers do not matter to the parse -/

theorem erase_close (p : TracedParse) : p.close.map TracedSection.erase = p.erase.close := by
  obtain ⟨secs, cur⟩ := p
  rcases cur with _ | ⟨line, name, keys⟩
  · rfl
  · cases keys <;> rfl

theorem erase_finish (p : TracedParse) : p.finish.map TracedSection.erase = p.erase.finish := by
  obtain ⟨secs, cur⟩ := p
  rcases cur with _ | ⟨line, name, keys⟩
  · rfl
  · cases keys with
    | nil => rfl
    | cons key keys => exact List.map_append

theorem erase_add (p : TracedParse) (n : ℕ) (e : Entry CString PIniParameter) :
    (p.add n e).erase = p.erase.add e := by
  cases e with
  | header name => exact congrArg (IniParse.mk · _) (erase_close p)
  | item param =>
    obtain ⟨secs, cur⟩ := p
    cases cur <;> rfl

theorem erase_tracedLoop (fuel n : ℕ) (p : TracedParse) (in_file : List UInt8) :
    (tracedLoop fuel n p in_file).map TracedParse.erase = iniParseLoop fuel p.erase in_file := by
  induction fuel generalizing n p in_file with
  | zero => rfl
  | succ fuel ih =>
    rw [tracedLoop, iniParseLoop]
    rcases hfgets : fgets (iniFileMaxLine + 1) in_file with _ | ⟨line, rest⟩
    · rfl
    · have hentry : ((lineEntry line).elim p (p.add n)).erase = (lineEntry line).elim p.erase p.erase.add := by
        cases lineEntry line with
        | none => rfl
        | some e => exact erase_add p n e
      simp only [iniParseLine_eq p.erase (length_of_fgets hfgets), Option.bind_eq_bind, Option.bind_some, ← hentry]
      exact ih _ _ rest

/-- **Without the numbers, the sections are those of the parsed file.** -/
theorem erase_tracedSections (in_file : List UInt8) :
    (tracedSections in_file).map (·.map TracedSection.erase) = some (iniSections in_file) := by
  have hloop := erase_tracedLoop (in_file.length + 1) 0 ⟨[], none⟩ in_file
  rw [iniParseLoop_eq (Nat.lt_succ_self _), Option.map_eq_some_iff] at hloop
  obtain ⟨p, htraced, herase⟩ := hloop
  rw [tracedSections, htraced, Option.map_some, Option.map_some, erase_finish, herase]
  refine congrArg some ((finish_foldl_none _ []).trans ?_)
  rw [storedAround, List.append_nil, ← List.map_append]
  rfl

/-- What the section that is being read contributes. -/
def TracedParse.pending (p : TracedParse) (item : Bool) : List (Entry ℕ ℕ) :=
  match p.current with
  | none => []
  | some sec => if sec.keys = [] ∧ item = false then [] else sec.contributions

end Plibsys
