/-
  Files of parameters (`pinifile.c`).

  The contents of a file are a list of bytes, which `fgets` reads into the line buffer.  A parse
  fails (`none`) when it reads outside of a string, or when its loop does not end.
-/
import Plibsys.Lib.Lines
import Plibsys.Text.Strchomp

namespace Plibsys

open Scanning

structure PIniParameter where
  name : CString
  value : CString
  deriving DecidableEq, Repr

structure PIniSection where
  name : CString
  keys : List PIniParameter
  deriving DecidableEq, Repr

structure PIniFile where
  path : CString
  sections : List PIniSection
  is_parsed : Bool
  deriving DecidableEq, Repr

/-- `P_INI_FILE_MAX_LINE`. -/
def iniFileMaxLine : ℕ := 1024

def pIniFileNew (path : CString) : PIniFile := ⟨path, [], false⟩

/-! ## Reading lines -/

def newline (c : UInt8) : Bool := c = 10

/-- `fgets` into a buffer of `size` bytes: the line, and the rest of the file. -/
def fgets (size : ℕ) (in_file : List UInt8) : Option (List UInt8 × List UInt8) :=
  if in_file = [] then none else some (TextLines.readLine newline (size - 1) in_file)

/-- The line buffer, which is zeroed before a line is read. -/
def srcLine (line : List UInt8) : List UInt8 := line ++ List.replicate (iniFileMaxLine + 1 - line.length) 0

/-- The length of a byte-order mark at the start of the buffer. -/
def bomShift (src_line : List UInt8) : ℕ :=
  if src_line[0]? = some 0xEF ∧ src_line[1]? = some 0xBB ∧ src_line[2]? = some 0xBF then 3
  else if (src_line[0]? = some 0xFE ∧ src_line[1]? = some 0xFF) ∨
    (src_line[0]? = some 0xFF ∧ src_line[1]? = some 0xFE) then 2
  else if src_line[0]? = some 0x00 ∧ src_line[1]? = some 0x00 ∧ src_line[2]? = some 0xFE ∧
    src_line[3]? = some 0xFF then 4
  else if src_line[0]? = some 0xFF ∧ src_line[1]? = some 0xFE ∧ src_line[2]? = some 0x00 ∧
    src_line[3]? = some 0x00 then 4
  else 0

/-- The string at a position of a buffer. -/
def stringAt (buf : List UInt8) (pos : ℕ) : CString := (buf.drop pos).takeWhile (· ≠ 0)

/-- The string is cut if it does not fit ("this should not happen"). -/
def cutLine (str : CString) : CString := if str.length > iniFileMaxLine then str.take iniFileMaxLine else str

/-! ## Formats -/

/-- The strings that `sscanf` returns. -/
def sscanf (text : CString) (fmt : List (Directive UInt8)) : List CString := scan isspace fmt text

/-- `[%[^]]` -/
def sectionFormat : List (Directive UInt8) := [.char (ascii '['), .run (· ≠ ascii ']')]

/-- `%[^=] = "%[^"]"`, with the quote as a parameter. -/
def quotedFormat (quote : UInt8) : List (Directive UInt8) :=
  [.run (· ≠ ascii '='), .space, .char (ascii '='), .space, .char quote, .run (· ≠ quote), .char quote]

/-- `%[^=] = %[^;#]` -/
def plainFormat : List (Directive UInt8) :=
  [.run (· ≠ ascii '='), .space, .char (ascii '='), .space, .run fun c => c ≠ ascii ';' && c ≠ ascii '#']

/-- The key of a section header. -/
def scanSection (dst_line : CString) : Option CString :=
  if dst_line.head? = some (ascii '[') ∧ dst_line.getLast? = some (ascii ']') then
    match sscanf dst_line sectionFormat with
    | [key] => some key
    | _ => none
  else none

/-- The key and the value, when both are found. -/
def bothFound : List CString → Option (CString × CString)
  | [key, value] => some (key, value)
  | _ => none

/-- The key and the value of a parameter: the three formats, in order. -/
def scanParameter (dst_line : CString) : Option (CString × CString) :=
  (bothFound (sscanf dst_line (quotedFormat (ascii '"')))).or
    ((bothFound (sscanf dst_line (quotedFormat (ascii '\'')))).or (bothFound (sscanf dst_line plainFormat)))

/-- Two quotes stand for the empty value. -/
def unquoteEmpty (value : CString) : CString :=
  if value = [ascii '"', ascii '"'] ∨ value = [ascii '\'', ascii '\''] then [] else value

/-! ## Parsing -/

/-- The sections so far, and the one that is being read. -/
structure IniParse where
  sections : List PIniSection
  current : Option PIniSection
  deriving DecidableEq, Repr

/-- A finished section is kept if it has keys. -/
def IniParse.close (p : IniParse) : List PIniSection :=
  match p.current with
  | none => p.sections
  | some sec => if sec.keys = [] then p.sections else sec :: p.sections

/-- A new section is found. -/
def IniParse.newSection (p : IniParse) (key : CString) : IniParse := ⟨p.close, some ⟨key, []⟩⟩

/-- A new parameter is found. -/
def IniParse.newParameter (p : IniParse) (param : PIniParameter) : IniParse :=
  match p.current with
  | none => p
  | some sec => { p with current := some { sec with keys := param :: sec.keys } }

/-- The last section of the file. -/
def IniParse.finish (p : IniParse) : List PIniSection :=
  match p.current with
  | none => p.sections
  | some sec => if sec.keys = [] then p.sections else p.sections ++ [sec]

/-- One iteration of the loop of `p_ini_file_parse`. -/
def iniParseLine (p : IniParse) (line : List UInt8) : Option IniParse := do
  let src_line := srcLine line
  let dst_line ← pStrchomp (stringAt src_line (bomShift src_line))
  let dst_line := cutLine dst_line
  match scanSection dst_line with
  | some key =>
    let tmp_str ← pStrchomp key
    return p.newSection (cutLine tmp_str)
  | none =>
    match scanParameter dst_line with
    | some (key, value) =>
      let tmp_str ← pStrchomp key
      let key := cutLine tmp_str
      let tmp_str ← pStrchomp value
      let value := cutLine tmp_str
      return p.newParameter ⟨key, unquoteEmpty value⟩
    | none => return p

/-- The loop, with a bound on the number of its iterations. -/
def iniParseLoop : ℕ → IniParse → List UInt8 → Option IniParse
  | 0, _, _ => none
  | fuel + 1, p, in_file =>
    match fgets (iniFileMaxLine + 1) in_file with
    | none => some p
    | some (line, rest) => do
      let p ← iniParseLine p line
      iniParseLoop fuel p rest

/-- The error of a call that fails: the codes of the error and of the system, and the message. -/
structure IniError where
  code : pint
  native_code : pint
  message : String
  deriving DecidableEq, Repr

/-- `p_ini_file_parse`; `fopen` gives the contents of a file, or the codes of the error. -/
def pIniFileParse (fopen : CString → Except (pint × pint) (List UInt8)) (file : PIniFile) :
    Option (PIniFile × Except IniError Unit) :=
  if file.is_parsed then some (file, .ok ())
  else match fopen file.path with
    | .error (code, native_code) => some (file, .error ⟨code, native_code, "Failed to open file for reading"⟩)
    | .ok in_file => do
      let p ← iniParseLoop (in_file.length + 1) ⟨file.sections, none⟩ in_file
      return ({ file with sections := p.finish, is_parsed := true }, .ok ())

def pIniFileIsParsed (file : PIniFile) : Bool := file.is_parsed

end Plibsys
